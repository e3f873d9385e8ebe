/-
**What the logical lines of a screen say.**

The text of a logical line is what is read off it: its cells without the spacers, up to the last one that
shows something.  A line is still there when blanks were put in where it was cut.  Rows that show nothing may
come and go at the end of a screen, and rows may pass between the grid and the scrollback: the texts stay.
-/

import Posh.Term.Reflow

set_option autoImplicit false

namespace Posh.Term

open Lines (Padded)
open Cell
open Lines

variable {a b cells : List Cell}

/-! ### Cells -/

/-- The cells that are no spacers. -/
def heads (cells : List Cell) : List Cell := cells.filter fun c => c.width ≠ 0

/-- The cells that show something, without the spacers. -/
def visible (cells : List Cell) : List Cell := shown (heads cells)

/-- The cells up to the last one that shows something. -/
def trimmed (cells : List Cell) : List Cell := cells.rdropWhile Cell.isDumpSkippable

theorem heads_append (a b : List Cell) : heads (a ++ b) = heads a ++ heads b := List.filter_append ..

theorem shown_eq_nil_iff : shown cells = [] ↔ ∀ c ∈ cells, c.isDumpSkippable = true := by
  rw [shown, List.filter_eq_nil_iff]
  refine forall₂_congr fun c _ => ?_
  rw [Bool.not_eq_true, Bool.not_eq_false']

theorem visible_append (a b : List Cell) : visible (a ++ b) = visible a ++ visible b := by
  rw [visible, heads_append, shown_append, visible, visible]

theorem visible_eq_nil (h : ∀ c ∈ cells, c.isDumpSkippable = true) : visible cells = [] :=
  shown_eq_nil fun c hc => h c (List.mem_of_mem_filter hc)

theorem trimmed_eq_nil : trimmed cells = [] ↔ shown cells = [] := by
  rw [shown_eq_nil_iff, trimmed, List.rdropWhile_eq_nil_iff]

theorem length_trimmed (cells : List Cell) : (trimmed cells).length = Screen.shownLength cells :=
  List.length_reverse

theorem take_shownLength (cells : List Cell) : cells.take (Screen.shownLength cells) = trimmed cells := by
  rw [← length_trimmed]
  exact (List.prefix_iff_eq_take.mp (List.rdropWhile_prefix isDumpSkippable cells)).symm

theorem trimmed_append (h : ∀ c ∈ b, c.isDumpSkippable = true) : trimmed (a ++ b) = trimmed a := by
  rw [trimmed, List.rdropWhile, List.reverse_append, List.dropWhile_append_of_pos, ← List.rdropWhile, ← trimmed]
  intro c hc
  exact h c (List.mem_reverse.mp hc)

theorem shownLength_append (h : ∀ c ∈ b, c.isDumpSkippable = true) :
    Screen.shownLength (a ++ b) = Screen.shownLength a := by
  rw [← length_trimmed, trimmed_append h, length_trimmed]

theorem shownLength_le (cells : List Cell) : Screen.shownLength cells ≤ cells.length := by
  rw [← length_trimmed]
  exact (List.rdropWhile_prefix isDumpSkippable cells).length_le

theorem trimmed_cons (c : Cell) (cells : List Cell) :
    trimmed (c :: cells) = if trimmed cells = [] ∧ c.isDumpSkippable = true then [] else c :: trimmed cells := by
  have hnil : trimmed cells = [] ↔ cells.reverse.dropWhile isDumpSkippable = [] := List.reverse_eq_nil_iff
  rw [trimmed, List.rdropWhile, List.reverse_cons, List.dropWhile_append]
  by_cases hempty : trimmed cells = []
  · rw [hnil] at hempty
    rw [if_pos (List.isEmpty_iff.mpr hempty), trimmed, List.rdropWhile, hempty]
    cases hc : c.isDumpSkippable with
    | true => rw [List.dropWhile_cons_of_pos hc, if_pos ⟨rfl, rfl⟩]; rfl
    | false => rw [List.dropWhile_cons_of_neg (by rw [hc]; exact Bool.false_ne_true), if_neg (by simp)]; rfl
  · rw [if_neg fun h => hempty (hnil.mpr (List.isEmpty_iff.mp h)), List.reverse_append,
      if_neg fun h => hempty h.1]
    rfl

theorem shown_trimmed (cells : List Cell) : shown (trimmed cells) = shown cells := by
  conv_rhs => rw [← List.rdropWhile_append_rtakeWhile (p := isDumpSkippable) (l := cells)]
  rw [shown_append, shown_eq_nil fun c hc => List.mem_rtakeWhile_imp hc, List.append_nil, trimmed]

/-- **Blanks put in, and the rest trimmed.** -/
theorem trimmed_padded (h : Padded (blank {}) a b) : Padded (blank {}) (trimmed a) (trimmed b) := by
  induction h with
  | nil => exact .nil
  | cons c h ih =>
    rename_i xs ys
    have hnil : trimmed ys = [] ↔ trimmed xs = [] := by
      rw [trimmed_eq_nil, trimmed_eq_nil, shown_padded h]
    rw [trimmed_cons, trimmed_cons]
    by_cases hempty : trimmed xs = [] ∧ c.isDumpSkippable = true
    · rw [if_pos hempty, if_pos ⟨hnil.mpr hempty.1, hempty.2⟩]
      exact .nil
    · rw [if_neg hempty, if_neg fun hh => hempty ⟨hnil.mp hh.1, hh.2⟩]
      exact .cons c ih
  | pad h ih =>
    rw [trimmed_cons]
    split
    case isTrue hempty =>
      rw [hempty.1] at ih
      exact ih
    case isFalse => exact .pad ih

/-! ### Lines -/

def lineText (line : List Row) : List Cell := trimmed (heads (cellsOf line))

/-- The texts of the lines that say something. -/
def texts (rows : List Row) : List (List Cell) :=
  ((Lines.lines Row.wrapped rows).map lineText).filter fun l => !l.isEmpty

/-- **Every line that says something is still there, in order**, maybe with blanks put in. -/
def LinesKept (old new : List Row) : Prop :=
  ∃ kept, kept.Sublist (texts new) ∧ List.Forall₂ (Padded (Cell.blank {})) (texts old) kept

variable {rows old new more : List Row} {r : Row}

theorem LinesKept.of_forall (h : List.Forall₂ (Padded (blank {})) (texts old) (texts new)) :
    LinesKept old new := ⟨texts new, List.Sublist.refl _, h⟩

theorem LinesKept.of_texts (h : texts new = texts old) : LinesKept old new := by
  refine .of_forall ?_
  rw [h]
  exact List.forall₂_same.mpr fun l _ => .refl _ l

theorem lineText_eq_nil {line : List Row} : lineText line = [] ↔ visible (cellsOf line) = [] :=
  trimmed_eq_nil

theorem texts_padded (h : List.Forall₂ (fun l l' => Padded (blank {}) (lineText l) (lineText l'))
    (lines Row.wrapped old) (lines Row.wrapped new)) :
    List.Forall₂ (Padded (blank {})) (texts old) (texts new) := by
  unfold texts
  generalize lines Row.wrapped old = ls at h
  generalize lines Row.wrapped new = ls' at h
  induction h with
  | nil => exact .nil
  | @cons l l' ls ls' hpad _ ih =>
    have hsame : (lineText l').isEmpty = (lineText l).isEmpty := by
      have hshown : visible (cellsOf l') = visible (cellsOf l) := by
        rw [visible, visible, ← shown_trimmed, ← shown_trimmed (heads (cellsOf l))]
        exact shown_padded hpad
      rw [Bool.eq_iff_iff, List.isEmpty_iff, List.isEmpty_iff, lineText_eq_nil, lineText_eq_nil, hshown]
    rw [List.map_cons, List.map_cons, List.filter_cons, List.filter_cons, hsame]
    split
    · exact .cons hpad ih
    · exact ih

theorem texts_concat (h : visible r.cells = []) : texts (rows ++ [r]) = texts rows := by
  have hcells : cellsOf [r] = r.cells := cellsOf_singleton r
  unfold texts
  rcases lines_concat Row.wrapped rows r with hlines | ⟨ls, l, hlines, hlines'⟩
  · have hempty : lineText [r] = [] := lineText_eq_nil.mpr (by rw [hcells]; exact h)
    rw [hlines, List.map_append, List.filter_append, List.map_singleton, hempty]
    exact List.append_nil _
  · have hsame : lineText (l ++ [r]) = lineText l := by
      rw [lineText, cellsOf_append, heads_append, hcells, trimmed_append (shown_eq_nil_iff.mp h), lineText]
    rw [hlines, hlines', List.map_append, List.map_append, List.map_singleton, List.map_singleton, hsame]

/-- **Rows at the end that show nothing.** -/
theorem texts_append (h : ∀ r ∈ more, visible r.cells = []) : texts (rows ++ more) = texts rows := by
  induction more generalizing rows with
  | nil => rw [List.append_nil]
  | cons r more ih =>
    obtain ⟨hr, hrest⟩ := List.forall_mem_cons.mp h
    rw [← List.singleton_append, ← List.append_assoc, ih hrest, texts_concat hr]

theorem shown_texts (rows : List Row) : shown (texts rows).flatten = visible (cellsOf rows) := by
  have hlines := flatten_lines Row.wrapped rows
  unfold texts
  generalize lines Row.wrapped rows = ls at hlines
  subst hlines
  induction ls with
  | nil => rfl
  | cons l ls ih =>
    rw [List.flatten_cons, cellsOf_append, visible_append, ← ih, List.map_cons, List.filter_cons]
    have hshown : shown (lineText l) = visible (cellsOf l) := shown_trimmed _
    split
    · rw [List.flatten_cons, shown_append, hshown]
    case isFalse hempty =>
      rw [Bool.not_eq_true, Bool.not_eq_false', List.isEmpty_iff] at hempty
      rw [← hshown, hempty]
      rfl

theorem shown_flatten_padded {lines lines' : List (List Cell)}
    (h : List.Forall₂ (Padded (blank {})) lines lines') : shown lines'.flatten = shown lines.flatten := by
  induction h with
  | nil => rfl
  | cons hline _ ih =>
    rw [List.flatten_cons, List.flatten_cons, shown_append, shown_append, ih, shown_padded hline]

theorem visible_cellsOf_eq_nil : visible (cellsOf rows) = [] ↔ ∀ r ∈ rows, visible r.cells = [] := by
  induction rows with
  | nil => exact iff_of_true rfl (List.forall_mem_nil _)
  | cons r rows ih =>
    rw [List.forall_mem_cons, ← ih, ← List.append_eq_nil_iff, ← visible_append]
    exact Iff.rfl

theorem linesKept_congr {new' : List Row} (h : texts new = texts new') : LinesKept old new ↔ LinesKept old new' := by
  rw [LinesKept, LinesKept, h]

/-- **Where all lines are still there, at least as many cells show something.** -/
theorem LinesKept.length_le (h : LinesKept old new) :
    (visible (cellsOf old)).length ≤ (visible (cellsOf new)).length := by
  obtain ⟨kept, hsub, hpad⟩ := h
  rw [← shown_texts, ← shown_texts, ← shown_flatten_padded hpad]
  exact (hsub.flatten.filter _).length_le

/-! ### A change of the height -/

namespace Screen

theorem visible_of_isSkippable (h : r.isSkippable = true) : visible r.cells = [] :=
  visible_eq_nil (List.all_eq_true.mp h)

theorem visible_rowBlank (cols : ℕ) : visible (Row.blank cols {}).cells = [] := by
  refine visible_eq_nil fun c hc => ?_
  rw [List.eq_of_mem_replicate hc]
  rfl

/-- **Rows are given up**: blank ones below, and rows of the grid to a scrollback that has room. -/
theorem texts_shrink (rows : ℕ) {fuel : ℕ} {s : Screen} (cursorRow : ℕ)
    (hring : s.scrollback.length + fuel ≤ s.maxScrollback) :
    texts (shrink rows true fuel s cursorRow).1.allRows = texts s.allRows := by
  induction fuel generalizing s cursorRow with
  | zero => rfl
  | succ fuel ih =>
    rw [shrink]
    split
    case isFalse => rfl
    case isTrue hmore =>
      dsimp only
      split
      case isTrue hblank =>
        rw [ih _ (by show s.scrollback.length + fuel ≤ s.maxScrollback; omega)]
        have hne : s.grid ≠ [] := List.ne_nil_of_length_pos (by omega)
        have hskip := hblank.1
        rw [List.getLast?_eq_some_getLast hne, Option.map_some, Option.getD_some] at hskip
        have hsplit : s.allRows = (s.scrollback ++ s.grid.dropLast) ++ [s.grid.getLast hne] := by
          rw [List.append_assoc, List.dropLast_append_getLast, allRows]
        rw [hsplit, texts_concat (visible_of_isSkippable hskip)]
        rfl
      case isFalse =>
        rw [if_pos rfl]
        split
        · rfl
        · rename_i row grid hgrid
          have hpush : s.pushScrollback row = { s with
              scrollback := s.scrollback ++ [row], scrollbackTotal := s.scrollbackTotal + 1 } := by
            rw [pushScrollback, if_pos (by omega), if_neg (by omega)]
          rw [hpush, ih _ (by
            show (s.scrollback ++ [row]).length + fuel ≤ s.maxScrollback
            rw [List.length_append, List.length_singleton]
            omega)]
          rw [allRows, allRows, hgrid, List.append_assoc]
          rfl

/-- **Rows are added**: those of the scrollback, and blank ones below. -/
theorem texts_grow (rows cols : ℕ) {fuel : ℕ} {s : Screen} (cursorRow : ℕ) :
    texts (grow rows cols true fuel s cursorRow).1.allRows = texts s.allRows := by
  induction fuel generalizing s cursorRow with
  | zero => rfl
  | succ fuel ih =>
    rw [grow.eq_def]
    dsimp only
    split
    case isFalse => rfl
    case isTrue =>
      split
      · rename_i row _ hlast
        rw [ih, allRows, allRows]
        have hsplit := List.dropLast_append_getLast? row (Option.mem_def.mpr hlast)
        conv_rhs => rw [← hsplit, List.append_assoc]
        rfl
      · rw [ih, ← @texts_concat s.allRows _ (visible_rowBlank cols), allRows, allRows, List.append_assoc]

theorem texts_height (s : Screen) (rows cols cursorRow : ℕ)
    (hring : s.scrollback.length + s.grid.length ≤ s.maxScrollback) :
    let p := shrink rows true (s.grid.length - rows) s cursorRow
    texts (grow rows cols true (rows - p.1.grid.length) p.1 p.2).1.allRows = texts s.allRows := by
  intro p
  rw [texts_grow]
  exact texts_shrink rows cursorRow (by omega)

end Screen

end Posh.Term
