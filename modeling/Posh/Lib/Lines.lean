/-
**Lines cut into rows.**

A text that is shown in rows of a fixed width is a list of rows, each of which either ends its line or goes
on in the next row.  So the rows are those of a list of lines, and a row lies in one of them, behind some
rows of the same line.  When a line is cut at another width blanks may be put in where a piece does not fit.

Main results:

* `Lines.lineOf_append`, `Lines.before_append` — rows after a line that is over;
* `Lines.lines_line`, `Lines.lineOf_line`, `Lines.before_line` — the rows of one line;
* `Lines.lines_append`, `Lines.lines_flatten`, `Lines.lines_concat` — rows of whole lines, and one more row;
* `Lines.Padded.filter` — **putting blanks in changes nothing but blanks**.
-/

import Mathlib.Data.List.DropRight

set_option autoImplicit false

namespace Lines

variable {α β : Type*}

/-! ### Lines -/

variable (more : β → Bool)

/-- The lines of some rows: a row with `more` goes on in the next one. -/
def lines : List β → List (List β)
  | [] => []
  | r :: rest =>
    if more r then
      match lines rest with
      | [] => [[r]]
      | l :: ls => (r :: l) :: ls
    else [r] :: lines rest

/-- The number of the line in which row `r` lies. -/
def lineOf (rows : List β) (r : ℕ) : ℕ := (rows.take r).countP fun x => !more x

/-- The rows before row `r` that are in the same line. -/
def before (rows : List β) (r : ℕ) : List β := (rows.take r).rtakeWhile more

/-- Rows of one line, and whether another row may follow. -/
structure IsLine (l : List β) (ends : Prop) : Prop where
  ne_nil : l ≠ []
  goesOn : ∀ r ∈ l.dropLast, more r = true
  ends : ends → ∀ r, l.getLast? = some r → more r = false

variable {more} {l a b rows : List β} {r : ℕ} {ends : Prop} {x : β} {ls : List (List β)} {ws : List β}

theorem IsLine.mono (h : IsLine more l ends) {p : Prop} (hp : p → ends) : IsLine more l p :=
  ⟨h.ne_nil, h.goesOn, fun hh => h.ends (hp hh)⟩

theorem IsLine.of_more (hws : ∀ r ∈ ws, more r = true) (hx : ends → more x = false) :
    IsLine more (ws ++ [x]) ends := by
  refine ⟨List.concat_ne_nil _ _, ?_, fun hover r hr => ?_⟩
  · rw [List.dropLast_concat]
    exact hws
  · rw [List.getLast?_concat, Option.some.injEq] at hr
    exact hr ▸ hx hover

theorem IsLine.eq_concat (h : IsLine more l ends) :
    ∃ ws x, l = ws ++ [x] ∧ (∀ r ∈ ws, more r = true) ∧ (ends → more x = false) := by
  obtain ⟨hne, hmore, hover⟩ := h
  refine ⟨l.dropLast, l.getLast hne, (List.dropLast_append_getLast hne).symm, hmore, fun hh => ?_⟩
  exact hover hh _ (List.getLast?_eq_some_getLast hne)

theorem IsLine.singleton (hx : ends → more x = false) : IsLine more [x] ends :=
  .of_more (List.forall_mem_nil _) hx

theorem IsLine.cons (h : IsLine more l ends) (hx : more x = true) : IsLine more (x :: l) ends := by
  obtain ⟨ws, y, rfl, hws, hy⟩ := h.eq_concat
  exact .of_more (List.forall_mem_cons.mpr ⟨hx, hws⟩) hy

theorem lines_line (h : IsLine more l (b ≠ [])) : lines more (l ++ b) = l :: lines more b := by
  obtain ⟨ws, x, rfl, hws, hx⟩ := h.eq_concat
  clear h
  induction ws with
  | nil =>
    rw [List.nil_append, List.singleton_append, lines]
    cases b with
    | nil => split <;> rfl
    | cons y b =>
      rw [if_neg (by rw [hx (List.cons_ne_nil y b)]; exact Bool.false_ne_true)]
  | cons w ws ih =>
    have hrest := ih fun r hr => hws r (List.mem_cons_of_mem w hr)
    rw [List.cons_append, List.cons_append, lines, if_pos (hws w List.mem_cons_self), hrest]

theorem take_all_more (h : IsLine more l ends) (hr : r < l.length) : ∀ x ∈ l.take r, more x = true := by
  intro x hx
  refine h.goesOn x ?_
  rw [List.dropLast_eq_take]
  exact (List.take_subset_take_left _ (by omega)) hx

theorem lineOf_line (h : IsLine more l ends) (hr : r < l.length) (b : List β) : lineOf more (l ++ b) r = 0 := by
  rw [lineOf, List.take_append_of_le_length (Nat.le_of_lt hr), List.countP_eq_zero]
  intro x hx
  rw [take_all_more h hr x hx]
  exact Bool.false_ne_true

theorem before_line (h : IsLine more l ends) (hr : r < l.length) (b : List β) :
    before more (l ++ b) r = l.take r := by
  rw [before, List.take_append_of_le_length (Nat.le_of_lt hr), List.rtakeWhile_eq_self_iff]
  exact take_all_more h hr

theorem lineOf_append (h : IsLine more l True) (b : List β) (r : ℕ) :
    lineOf more (l ++ b) (l.length + r) = lineOf more b r + 1 := by
  obtain ⟨ws, x, rfl, hws, hx⟩ := h.eq_concat
  have hcount : (ws ++ [x]).countP (fun y => !more y) = 1 := by
    have hzero : ws.countP (fun y => !more y) = 0 := by
      rw [List.countP_eq_zero]
      intro y hy
      rw [hws y hy]
      exact Bool.false_ne_true
    rw [List.countP_append, hzero, List.countP_singleton, hx trivial]
    rfl
  rw [lineOf, List.take_length_add_append, List.countP_append, hcount, lineOf, Nat.add_comm]

theorem before_append (h : IsLine more l True) (b : List β) (r : ℕ) :
    before more (l ++ b) (l.length + r) = before more b r := by
  obtain ⟨ws, x, rfl, hws, hx⟩ := h.eq_concat
  rw [before, before, List.take_length_add_append, List.rtakeWhile, List.rtakeWhile,
    List.reverse_append, List.takeWhile_append]
  split
  case isTrue hall =>
    -- all of the later rows go on, and the first line does not
    have hrows : (b.take r).reverse.takeWhile more = (b.take r).reverse :=
      (List.takeWhile_sublist _).eq_of_length hall
    have hline : (ws ++ [x]).reverse = x :: ws.reverse := by
      rw [List.reverse_append, List.reverse_singleton, List.singleton_append]
    rw [hline, List.takeWhile_cons_of_neg (by rw [hx trivial]; exact Bool.false_ne_true), List.append_nil, hrows]
  case isFalse => rfl

theorem lines_singles (h : ∀ r ∈ rows, more r = false) : lines more rows = rows.map fun r => [r] := by
  induction rows with
  | nil => rfl
  | cons r rest ih =>
    obtain ⟨hr, hrest⟩ := List.forall_mem_cons.mp h
    rw [lines, if_neg (by rw [hr]; exact Bool.false_ne_true), ih hrest]
    rfl

/-- **Rows of whole lines have just these lines.** -/
theorem lines_flatten (h : ∀ l ∈ ls, IsLine more l True) (b : List β) :
    lines more (ls.flatten ++ b) = ls ++ lines more b := by
  induction ls with
  | nil => rfl
  | cons l ls ih =>
    obtain ⟨hl, hrest⟩ := List.forall_mem_cons.mp h
    rw [List.flatten_cons, List.append_assoc, lines_line (hl.mono fun _ => trivial), ih hrest]
    rfl

variable (more) in
theorem lines_cons (r : β) (rest : List β) : ∃ l ls, lines more (r :: rest) = (r :: l) :: ls := by
  rw [lines]
  split
  · split
    · exact ⟨[], [], rfl⟩
    · exact ⟨_, _, rfl⟩
  · exact ⟨[], _, rfl⟩

theorem lines_eq_nil : lines more rows = [] ↔ rows = [] := by
  cases rows with
  | nil => exact iff_of_true rfl rfl
  | cons r rest =>
    obtain ⟨l, ls, h⟩ := lines_cons more r rest
    rw [h]
    exact iff_of_false (List.cons_ne_nil _ _) (List.cons_ne_nil _ _)

variable (more) in
theorem flatten_lines (rows : List β) : (lines more rows).flatten = rows := by
  induction rows with
  | nil => rfl
  | cons r rest ih =>
    rw [lines]
    split
    · split
      · rename_i hnil
        rw [lines_eq_nil.mp hnil]
        rfl
      · rename_i l ls hlines
        rw [hlines, List.flatten_cons] at ih
        rw [List.flatten_cons, List.cons_append, ih]
    · rw [List.flatten_cons, ih]
      rfl

theorem lines_more (hws : ∀ r ∈ ws, more r = true)
    (h : lines more rows = l :: ls) : lines more (ws ++ rows) = (ws ++ l) :: ls := by
  induction ws with
  | nil => exact h
  | cons w ws ih =>
    obtain ⟨hw, hrest⟩ := List.forall_mem_cons.mp hws
    rw [List.cons_append, lines, if_pos hw, ih hrest]
    rfl

variable (more) in
/-- **One more row** is a line of its own, or the end of the last one. -/
theorem lines_concat (rows : List β) (r : β) : lines more (rows ++ [r]) = lines more rows ++ [[r]] ∨
      ∃ ls l, lines more rows = ls ++ [l] ∧ lines more (rows ++ [r]) = ls ++ [l ++ [r]] := by
  induction rows with
  | nil =>
    refine Or.inl ?_
    show lines more [r] = [[r]]
    rw [lines]
    split <;> rfl
  | cons x rest ih =>
    rw [List.cons_append, lines, lines]
    split
    case isFalse =>
      rcases ih with h | ⟨ls, l, h, h'⟩
      · exact .inl (by rw [h]; rfl)
      · exact .inr ⟨[x] :: ls, l, by rw [h]; rfl, by rw [h']; rfl⟩
    case isTrue =>
      rcases ih with h | ⟨ls, l, h, h'⟩
      · rw [h]
        cases lines more rest with
        | nil => exact .inr ⟨[], [x], rfl, rfl⟩
        | cons l ls => exact .inl rfl
      · rw [h, h']
        cases ls with
        | nil => exact .inr ⟨[], x :: l, rfl, rfl⟩
        | cons l' ls => exact .inr ⟨(x :: l') :: ls, l, rfl, rfl⟩

theorem lines_append (h : ∀ r, a.getLast? = some r → more r = false) (b : List β) :
    lines more (a ++ b) = lines more a ++ lines more b := by
  induction a with
  | nil => rfl
  | cons x rest ih =>
    rw [List.cons_append, lines, lines]
    cases rest with
    | nil =>
      rw [if_neg (by rw [h x rfl]; exact Bool.false_ne_true),
        if_neg (by rw [h x rfl]; exact Bool.false_ne_true)]
      rfl
    | cons y rest =>
      rw [ih fun r hr => h r (by rw [List.getLast?_cons_cons]; exact hr)]
      split
      · cases hlines : lines more (y :: rest) with
        | nil => exact absurd (lines_eq_nil.mp hlines) (List.cons_ne_nil _ _)
        | cons l ls => rfl
      · rfl

/-! ### Padding -/

/-- A list with blanks put in. -/
inductive Padded (blank : α) : List α → List α → Prop
  | nil : Padded blank [] []
  | cons (x : α) {xs ys : List α} : Padded blank xs ys → Padded blank (x :: xs) (x :: ys)
  | pad {xs ys : List α} : Padded blank xs ys → Padded blank xs (blank :: ys)

namespace Padded

variable {blank : α} {xs ys xs' ys' : List α}

theorem refl (blank : α) (xs : List α) : Padded blank xs xs := by
  induction xs with
  | nil => exact .nil
  | cons x xs ih => exact .cons x ih

theorem blanks (blank : α) (n : ℕ) : Padded blank [] (List.replicate n blank) := by
  induction n with
  | zero => exact .nil
  | succ n ih => exact .pad ih

theorem append (h : Padded blank xs ys) (h' : Padded blank xs' ys') : Padded blank (xs ++ xs') (ys ++ ys') := by
  induction h with
  | nil => exact h'
  | cons x _ ih => exact .cons x ih
  | pad _ ih => exact .pad ih

theorem append_blanks (h : Padded blank xs ys) (n : ℕ) : Padded blank xs (ys ++ List.replicate n blank) := by
  have happend := h.append (blanks blank n)
  rw [List.append_nil] at happend
  exact happend

/-- **What is not blank is the same, in order.** -/
theorem filter (h : Padded blank xs ys) {p : α → Bool} (hp : p blank = false) : ys.filter p = xs.filter p := by
  induction h with
  | nil => rfl
  | cons x _ ih => rw [List.filter_cons, List.filter_cons, ih]
  | pad _ ih =>
    rw [List.filter_cons_of_neg (by rw [hp]; exact Bool.false_ne_true)]
    exact ih

end Padded

end Lines
