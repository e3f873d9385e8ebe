/-
**The scroll view of the history.**

The client draws its history as one list: the rows of the ring and, between them, one row for each hole.
A row of the view is found by a binary search among the holes.  What the list is can be said without the
ring: write down every row as it is appended and every mark as it is made, a mark next to a mark as one;
start anew with every clear; then leave out what comes before the rows that the ring can hold.
-/

import Posh.HistoryLedger
import Posh.Lib.BinarySearch
import Mathlib.Data.List.GetD

set_option autoImplicit false

namespace Posh

open List (getLast?_concat length_append length_cons)

inductive ViewRow where
  | row (bytes : Bytes)
  /-- lines that the server will never send -/
  | notReceived (lines : ℕ)
  deriving DecidableEq, Repr

inductive RingOp where
  | append (rows : List Bytes)
  | markNotReceived (lines : ℕ)
  | clear
  deriving DecidableEq, Repr

/-- Rows as many as there can be, and lines in 64 bits. -/
def RingOp.InRange : RingOp → Prop
  | .append rows => rows.length < 2 ^ 64
  | .markNotReceived lines => lines < 2 ^ 64
  | .clear => True

namespace ScrollbackRing

/-- Where hole `k` is drawn: after the rows and the holes before it. -/
def viewIndex (r : ScrollbackRing) (k : ℕ) : ℕ := (r.holes.getD k (0, 0)).1 - r.firstNumber + k

/-- The holes that are drawn before row `i` of the view. -/
def holesAhead (r : ScrollbackRing) (i : ℕ) : ℕ :=
  BinarySearch.partitionPoint (fun k => r.viewIndex k < i) r.holes.length 0 r.holes.length

/-- Row `i` of the view, if there are so many. -/
def viewRow (r : ScrollbackRing) (i : ℕ) : Option ViewRow :=
  let lo := r.holesAhead i
  if lo < r.holes.length ∧ r.viewIndex lo = i then some (.notReceived (r.holes.getD lo (0, 0)).2)
  else (r.rows[i - lo]?).map .row

def viewRows (r : ScrollbackRing) : List (Option ViewRow) := (List.range r.viewLen).map r.viewRow

/-- A 64-bit number that changes whenever the view does. -/
def viewRevision (r : ScrollbackRing) : ℕ := (r.viewTotal + r.linesNotReceived) % 2 ^ 64

def apply (r : ScrollbackRing) : RingOp → ScrollbackRing
  | .append rows => r.append rows
  | .markNotReceived lines => r.markNotReceived lines
  | .clear => r.clear

/-- A new ring after some operations. -/
def afterOps (capacity : ℕ) (ops : List RingOp) : ScrollbackRing := ops.foldl apply (new capacity)

end ScrollbackRing

/-! ### The journal -/

/-- Whether a row of the view is a row of the session. -/
def ViewRow.isRow : ViewRow → Bool
  | .row _ => true
  | .notReceived _ => false

def markLast (j : List ViewRow) (lines : ℕ) : List ViewRow :=
  match j.getLast? with
  | some (.notReceived merged) => j.dropLast ++ [.notReceived (merged + lines)]
  | _ => j ++ [.notReceived lines]

/-- An operation is written down. -/
def note (j : List ViewRow) : RingOp → List ViewRow
  | .append rows => j ++ rows.map .row
  | .markNotReceived lines => if lines = 0 then j else markLast j lines
  | .clear => []

/-- What is written down of some operations. -/
def journal (ops : List RingOp) : List ViewRow := ops.foldl note []

/-- How many rows of the session there are. -/
def rowCount (j : List ViewRow) : ℕ := j.countP ViewRow.isRow

/-- What comes after the first `n` rows. -/
def afterRows : ℕ → List ViewRow → List ViewRow
  | 0, j => j
  | _ + 1, [] => []
  | n + 1, .row _ :: j => afterRows n j
  | n + 1, .notReceived _ :: j => afterRows (n + 1) j

/-- What is retained: the last rows, as many as there is room for, with the marks before each and after
the last. -/
def retained (capacity : ℕ) (j : List ViewRow) : List ViewRow := afterRows (rowCount j - capacity) j

section Journal

variable {j k : List ViewRow} {n m capacity : ℕ}

theorem rowCount_append (j k : List ViewRow) : rowCount (j ++ k) = rowCount j + rowCount k :=
  List.countP_append

@[simp] theorem afterRows_zero (j : List ViewRow) : afterRows 0 j = j := by
  cases j <;> rfl

theorem rowCount_row (b : Bytes) (j : List ViewRow) : rowCount (.row b :: j) = rowCount j + 1 :=
  List.countP_cons_of_pos rfl

theorem rowCount_notReceived (l : ℕ) (j : List ViewRow) : rowCount (.notReceived l :: j) = rowCount j :=
  List.countP_cons_of_neg Bool.false_ne_true

theorem afterRows_append (hn : n ≤ rowCount j) : afterRows n (j ++ k) = afterRows n j ++ k := by
  induction j generalizing n with
  | nil =>
    obtain rfl : n = 0 := Nat.le_zero.mp hn
    rw [afterRows_zero, afterRows_zero]
  | cons x j ih =>
    cases n with
    | zero => rw [afterRows_zero, afterRows_zero]
    | succ n =>
      cases x with
      | row b =>
        rw [rowCount_row] at hn
        exact ih (Nat.le_of_succ_le_succ hn)
      | notReceived l => exact ih (rowCount_notReceived l j ▸ hn)

theorem afterRows_add (n m : ℕ) (j : List ViewRow) : afterRows (n + m) j = afterRows m (afterRows n j) := by
  induction j generalizing n with
  | nil => cases n <;> cases m <;> rfl
  | cons x j ih =>
    cases n with
    | zero => rw [Nat.zero_add, afterRows_zero]
    | succ n =>
      rw [Nat.add_right_comm]
      cases x with
      | row b => exact ih n
      | notReceived l =>
        have h := ih (n + 1)
        rw [Nat.add_right_comm] at h
        exact h

theorem rowCount_afterRows (n : ℕ) (j : List ViewRow) : rowCount (afterRows n j) = rowCount j - n := by
  induction j generalizing n with
  | nil => cases n <;> simp [afterRows, rowCount]
  | cons x j ih =>
    cases n with
    | zero => rw [afterRows_zero, Nat.sub_zero]
    | succ n =>
      cases x with
      | row b =>
        rw [afterRows, ih, rowCount_row]
        omega
      | notReceived l => rw [afterRows, ih, rowCount_notReceived]

theorem rowCount_retained (capacity : ℕ) (j : List ViewRow) :
    rowCount (retained capacity j) = min (rowCount j) capacity := by
  rw [retained, rowCount_afterRows]
  omega

theorem retained_row (capacity : ℕ) (j : List ViewRow) (b : Bytes) (hpos : 0 < capacity) :
    retained capacity (j ++ [.row b]) =
      afterRows (if capacity ≤ rowCount (retained capacity j) then 1 else 0) (retained capacity j) ++
        [.row b] := by
  have hone : rowCount (j ++ [.row b]) = rowCount j + 1 := rowCount_append ..
  rw [rowCount_retained, retained, hone, afterRows_append (by omega), retained, ← afterRows_add]
  congr 2
  split <;> omega

theorem retained_markLast (capacity : ℕ) (j : List ViewRow) (lines : ℕ) (hpos : 0 < capacity) :
    retained capacity (markLast j lines) = markLast (retained capacity j) lines := by
  rcases List.eq_nil_or_concat j with rfl | ⟨front, x, rfl⟩
  · show afterRows (0 - capacity) _ = markLast (afterRows (0 - capacity) []) lines
    rw [Nat.zero_sub, afterRows_zero, afterRows_zero]
  · rw [List.concat_eq_append] at *
    cases x with
    | row b =>
      have hone : rowCount (front ++ [ViewRow.row b]) = rowCount front + 1 := rowCount_append ..
      have hmark : markLast (front ++ [ViewRow.row b]) lines =
          front ++ [ViewRow.row b] ++ [.notReceived lines] := by
        rw [markLast, getLast?_concat]
      have hsame : rowCount (front ++ [ViewRow.row b] ++ [.notReceived lines]) = rowCount front + 1 := by
        rw [rowCount_append, hone]
        rfl
      rw [hmark, retained, retained, hsame, hone, afterRows_append (by omega),
        afterRows_append (by omega), markLast, getLast?_concat]
    | notReceived merged =>
      have hmark : markLast (front ++ [ViewRow.notReceived merged]) lines =
          front ++ [.notReceived (merged + lines)] := by
        rw [markLast, getLast?_concat, List.dropLast_concat]
      have hcount : ∀ l, rowCount (front ++ [ViewRow.notReceived l]) = rowCount front := fun l =>
        rowCount_append ..
      rw [hmark, retained, retained, hcount, hcount, afterRows_append (by omega),
        afterRows_append (by omega), markLast, getLast?_concat, List.dropLast_concat]

end Journal

namespace ScrollbackRing

/-! ### The rows and holes of a ring -/

/-- The holes before row number `n`. -/
def holesAt (holes : List (ℕ × ℕ)) (n : ℕ) : List ViewRow :=
  (holes.filter fun h => h.1 = n).map fun h => .notReceived h.2

/-- Rows numbered from `n`, each after the holes before it, and the holes at the end. -/
def drawnFrom (holes : List (ℕ × ℕ)) : ℕ → List Bytes → List ViewRow
  | n, [] => holesAt holes n
  | n, row :: rows => holesAt holes n ++ .row row :: drawnFrom holes (n + 1) rows

/-- The rows and holes of a ring, in order. -/
def drawn (r : ScrollbackRing) : List ViewRow := drawnFrom r.holes r.firstNumber r.rows

/-- The rows are within the capacity, and the holes in order among them. -/
structure Drawable (r : ScrollbackRing) : Prop where
  wf : r.WF
  sorted : r.holes.Pairwise fun h h' => h.1 < h'.1
  first_le : ∀ h ∈ r.holes, r.firstNumber ≤ h.1
  le_appended : ∀ h ∈ r.holes, h.1 ≤ r.appended

section Drawn

variable {holes holes' : List (ℕ × ℕ)} {rows : List Bytes} {row : Bytes} {r : ScrollbackRing}
  {n m k i lines : ℕ}

theorem holesAt_append (holes holes' : List (ℕ × ℕ)) (n : ℕ) :
    holesAt (holes ++ holes') n = holesAt holes n ++ holesAt holes' n := by
  rw [holesAt, List.filter_append, List.map_append]
  rfl

theorem holesAt_eq_nil (h : ∀ hole ∈ holes, hole.1 ≠ n) : holesAt holes n = [] := by
  rw [holesAt, List.map_eq_nil_iff, List.filter_eq_nil_iff]
  exact fun hole hmem heq => h hole hmem (of_decide_eq_true heq)

theorem drawnFrom_congr (h : ∀ k, n ≤ k → k ≤ n + rows.length → holesAt holes k = holesAt holes' k) :
    drawnFrom holes n rows = drawnFrom holes' n rows := by
  induction rows generalizing n with
  | nil => exact h n (Nat.le_refl _) (Nat.le_refl _)
  | cons row rows ih =>
    rw [length_cons] at h
    rw [drawnFrom, drawnFrom, h n (Nat.le_refl _) (by omega), ih fun k _ _ => h k (by omega) (by omega)]

theorem drawnFrom_concat (holes : List (ℕ × ℕ)) (n : ℕ) (rows : List Bytes) (row : Bytes) :
    drawnFrom holes n (rows ++ [row]) =
      drawnFrom holes n rows ++ .row row :: holesAt holes (n + rows.length + 1) := by
  induction rows generalizing n with
  | nil => rfl
  | cons head rows ih =>
    rw [List.cons_append, drawnFrom, ih, drawnFrom, length_cons, List.append_assoc, List.cons_append]
    congr 6
    omega

theorem drawnFrom_tail (holes : List (ℕ × ℕ)) (n : ℕ) (rows : List Bytes) (lines : ℕ) :
    drawnFrom (holes ++ [(n + rows.length, lines)]) n rows = drawnFrom holes n rows ++ [.notReceived lines] := by
  induction rows generalizing n with
  | nil =>
    rw [drawnFrom, holesAt_append, drawnFrom]
    simp [holesAt]
  | cons row rows ih =>
    have hnone : holesAt [(n + (row :: rows).length, lines)] n = [] :=
      holesAt_eq_nil (List.forall_mem_singleton.mpr (by rw [length_cons]; dsimp only; omega))
    have hnext := ih (n + 1)
    rw [Nat.add_right_comm] at hnext
    rw [drawnFrom, holesAt_append, hnone, List.append_nil, length_cons, ← Nat.add_assoc, hnext,
      drawnFrom, List.append_assoc, List.cons_append]

theorem rowCount_holesAt (holes : List (ℕ × ℕ)) (n : ℕ) : rowCount (holesAt holes n) = 0 := by
  rw [rowCount, List.countP_eq_zero, holesAt, List.forall_mem_map]
  exact fun _ _ => Bool.false_ne_true

theorem rowCount_drawnFrom (holes : List (ℕ × ℕ)) (n : ℕ) (rows : List Bytes) :
    rowCount (drawnFrom holes n rows) = rows.length := by
  induction rows generalizing n with
  | nil => exact rowCount_holesAt holes n
  | cons row rows ih =>
    rw [drawnFrom, rowCount_append, rowCount_holesAt, rowCount_row, ih, length_cons, Nat.zero_add]

theorem afterRows_drawnFrom (holes : List (ℕ × ℕ)) (n : ℕ) (row : Bytes) (rows : List Bytes) :
    afterRows 1 (drawnFrom holes n (row :: rows)) = drawnFrom holes (n + 1) rows := by
  have hskip : ∀ (l : List (ℕ × ℕ)) (j : List ViewRow),
      afterRows 1 (l.map (fun h => ViewRow.notReceived h.2) ++ j) = afterRows 1 j := by
    intro l j
    induction l with
    | nil => rfl
    | cons h l ih => exact ih
  rw [drawnFrom, holesAt, hskip, afterRows, afterRows_zero]

/-! ### An operation -/

theorem drawable_new (capacity : ℕ) : (new capacity).Drawable :=
  ⟨wf_new capacity, .nil, nofun, nofun⟩

theorem Drawable.clear (h : r.Drawable) : r.clear.Drawable :=
  ⟨⟨h.wf.capacity_pos, Nat.zero_le _, Nat.zero_le _⟩, .nil, nofun, nofun⟩

theorem Drawable.append_nil (h : r.Drawable) : r.append [] = r := by
  have hkeep : r.holes.dropWhile (fun hole => decide (hole.1 < r.firstNumber)) = r.holes := by
    cases hholes : r.holes with
    | nil => rfl
    | cons hole holes =>
      have hle := h.first_le hole (by rw [hholes]; exact List.mem_cons_self)
      rw [List.dropWhile_cons, if_neg (by simpa using hle)]
  rw [append, List.foldl_nil, hkeep]

theorem Drawable.appendOne (h : r.Drawable) (row : Bytes) : (r.append [row]).Drawable ∧ (r.append [row]).drawn =
      afterRows (if r.capacity ≤ r.rows.length then 1 else 0) r.drawn ++ [.row row] := by
  have hle := h.wf.length_le_appended
  have hpos := h.wf.capacity_pos
  obtain ⟨u, hu⟩ : ∃ u, u = r.append [row] := ⟨_, rfl⟩
  have hwf : u.WF := hu ▸ wf_append h.wf [row]
  have happended : u.appended = r.appended + 1 := by rw [hu]; rfl
  have hrows : u.rows = (if r.rows.length ≥ r.capacity then r.rows.drop 1 else r.rows) ++ [row] := by
    rw [hu]
    rfl
  have hholes : u.holes = r.holes.dropWhile fun hole => decide (hole.1 < u.firstNumber) := by
    rw [hu]
    rfl
  have hsub : ∀ hole ∈ u.holes, hole ∈ r.holes := fun hole hmem =>
    (List.dropWhile_sublist _).subset (hholes ▸ hmem)
  have hsorted : u.holes.Pairwise fun h h' => h.1 < h'.1 :=
    h.sorted.sublist (hholes ▸ List.dropWhile_sublist _)
  rw [← hu]
  refine ⟨⟨hwf, hsorted, fun hole hmem => ?_, fun hole hmem => ?_⟩, ?_⟩
  · -- the first hole that is kept is no earlier than the first row, and the others come after it
    cases hcases : u.holes with
    | nil => rw [hcases] at hmem; cases hmem
    | cons first rest =>
      have hfirst : ¬ first.1 < u.firstNumber := by
        have hne := List.head?_dropWhile_not (fun hole => decide (hole.1 < u.firstNumber)) r.holes
        rw [← hholes, hcases] at hne
        simpa using hne
      rw [hcases] at hmem hsorted
      rcases List.mem_cons.mp hmem with rfl | hmem
      · omega
      · have := (List.pairwise_cons.mp hsorted).1 hole hmem
        omega
  · have := h.le_appended hole (hsub hole hmem)
    omega
  · have hkept : ∀ n, u.firstNumber ≤ n → holesAt u.holes n = holesAt r.holes n := by
      intro n hn
      rw [holesAt, hholes, filter_dropWhile r.holes hn, holesAt]
    have hnone : holesAt r.holes (r.appended + 1) = [] :=
      holesAt_eq_nil fun hole hmem => by have := h.le_appended hole hmem; omega
    obtain ⟨kept, hkeptEq⟩ : ∃ kept, kept = if r.rows.length ≥ r.capacity then r.rows.drop 1 else r.rows :=
      ⟨_, rfl⟩
    rw [← hkeptEq] at hrows
    have hfirst : u.firstNumber + kept.length = r.appended := by
      have := hwf.length_le_appended
      rw [firstNumber, happended, hrows, length_append, List.length_singleton]
      rw [happended, hrows, length_append, List.length_singleton] at this
      omega
    rw [drawn, hrows, drawnFrom_concat, hfirst, drawnFrom_congr fun n hn _ => hkept n hn,
      hkept _ (by omega), hnone]
    congr 1
    have hend : r.firstNumber + r.rows.length = r.appended := Nat.sub_add_cancel hle
    rw [drawn]
    split
    case isTrue hfull =>
      rw [if_pos hfull] at hkeptEq
      cases hcases : r.rows with
      | nil =>
        rw [hcases] at hfull
        exact absurd hfull (by rw [List.length_nil]; omega)
      | cons oldest rest =>
        rw [hcases] at hkeptEq hend
        have hkept' : kept = rest := hkeptEq
        rw [length_cons] at hend
        rw [afterRows_drawnFrom, hkept']
        rw [hkept'] at hfirst
        congr 1
        omega
    case isFalse hroom =>
      rw [if_neg hroom] at hkeptEq
      rw [afterRows_zero, hkeptEq]
      rw [hkeptEq] at hfirst
      congr 1
      omega

theorem Drawable.markLast_drawn (h : r.Drawable) (hholes : ∀ hole ∈ r.holes, hole.1 < r.appended)
    (lines : ℕ) : markLast r.drawn lines = r.drawn ++ [.notReceived lines] := by
  have hend : r.firstNumber + r.rows.length = r.appended := Nat.sub_add_cancel h.wf.length_le_appended
  rcases List.eq_nil_or_concat r.rows with hnil | ⟨front, row, hrows⟩
  · have hnone : r.drawn = [] := by
      rw [drawn, hnil]
      refine holesAt_eq_nil fun hole hmem heq => ?_
      have := hholes hole hmem
      rw [hnil, List.length_nil] at hend
      omega
    rw [hnone]
    rfl
  · rw [List.concat_eq_append] at hrows
    have hlen : front.length + 1 = r.rows.length := by
      rw [hrows, length_append, List.length_singleton]
    have hlast : r.drawn = drawnFrom r.holes r.firstNumber front ++ [.row row] := by
      rw [drawn, hrows, drawnFrom_concat,
        holesAt_eq_nil fun hole hmem heq => by have := hholes hole hmem; omega]
    rw [hlast, markLast, getLast?_concat]

theorem Drawable.mark (h : r.Drawable) (hlines : lines ≠ 0) : (r.markNotReceived lines).Drawable ∧
    (r.markNotReceived lines).drawn = markLast r.drawn lines := by
  have hle := h.wf.length_le_appended
  have hend : r.firstNumber + r.rows.length = r.appended := Nat.sub_add_cancel hle
  -- a hole of its own after the last row
  have hnew : ∀ front : List (ℕ × ℕ), ∀ l : ℕ, (∀ hole ∈ front, hole ∈ r.holes ∧ hole.1 < r.appended) →
      front.Pairwise (fun h h' => h.1 < h'.1) → ∀ u : ScrollbackRing, u.rows = r.rows →
      u.capacity = r.capacity → u.appended = r.appended → u.holes = front ++ [(r.appended, l)] →
      u.Drawable ∧ u.drawn = drawnFrom front r.firstNumber r.rows ++ [.notReceived l] := by
    intro front l hfront hsorted u hrows hcap happended hholes
    have hfirst : u.firstNumber = r.firstNumber := by rw [firstNumber, happended, hrows, firstNumber]
    refine ⟨⟨?_, ?_, ?_, ?_⟩, ?_⟩
    · exact ⟨hcap ▸ h.wf.capacity_pos, by rw [hrows, hcap]; exact h.wf.length_le,
        by rw [hrows, happended]; exact hle⟩
    · rw [hholes, List.pairwise_append]
      refine ⟨hsorted, List.pairwise_singleton _ _, fun a ha b hb => ?_⟩
      rw [List.mem_singleton.mp hb]
      exact (hfront a ha).2
    · rw [hholes, hfirst, List.forall_mem_append]
      exact ⟨fun hole hmem => h.first_le hole (hfront hole hmem).1,
        List.forall_mem_singleton.mpr (by dsimp only; omega)⟩
    · rw [hholes, happended, List.forall_mem_append]
      exact ⟨fun hole hmem => Nat.le_of_lt (hfront hole hmem).2,
        List.forall_mem_singleton.mpr (Nat.le_refl _)⟩
    · rw [drawn, hholes, hfirst, hrows, ← hend, drawnFrom_tail]
  -- where no row is missing yet at the end, it stands beside all the others
  have hbeside : (∀ hole ∈ r.holes, hole.1 < r.appended) → ∀ u : ScrollbackRing, u.rows = r.rows →
      u.capacity = r.capacity → u.appended = r.appended → u.holes = r.holes ++ [(r.appended, lines)] →
      u.Drawable ∧ u.drawn = markLast r.drawn lines := by
    intro hbefore u hrows hcap happended hholes
    obtain ⟨hdrawable, hdrawn⟩ := hnew r.holes lines (fun hole hmem => ⟨hmem, hbefore hole hmem⟩) h.sorted u hrows
      hcap happended hholes
    exact ⟨hdrawable, hdrawn.trans (h.markLast_drawn hbefore lines).symm⟩
  rw [markNotReceived, if_neg hlines]
  dsimp only
  split
  case h_1 before merged hlast =>
    have hholes : r.holes = r.holes.dropLast ++ [(before, merged)] :=
      (List.dropLast_append_getLast? _ hlast).symm
    have hsorted := h.sorted
    rw [hholes, List.pairwise_append] at hsorted
    obtain ⟨hfront, -, hbefore⟩ := hsorted
    have hmem : (before, merged) ∈ r.holes := by
      rw [hholes]
      exact List.mem_append_right _ (List.mem_singleton_self _)
    have hlt : ∀ hole ∈ r.holes.dropLast, hole.1 < before := fun hole hmem =>
      hbefore hole hmem _ (List.mem_singleton_self _)
    split
    case isTrue hb =>
      subst hb
      obtain ⟨hdrawable, hdrawn⟩ := hnew r.holes.dropLast (merged + lines)
        (fun hole hmem' => ⟨List.dropLast_subset _ hmem', hlt hole hmem'⟩) hfront
        { r with
          linesNotReceived := r.linesNotReceived + lines
          holes := r.holes.dropLast ++ [(r.appended, merged + lines)] } rfl rfl rfl rfl
      refine ⟨hdrawable, hdrawn.trans ?_⟩
      have hold : r.drawn = drawnFrom r.holes.dropLast r.firstNumber r.rows ++ [.notReceived merged] := by
        rw [drawn]
        conv_lhs => rw [hholes, ← hend]
        exact drawnFrom_tail _ _ _ _
      rw [hold, markLast, getLast?_concat, List.dropLast_concat]
    case isFalse hb =>
      have hle' := h.le_appended _ hmem
      have hbefore' : ∀ hole ∈ r.holes, hole.1 < r.appended := by
        rw [hholes, List.forall_mem_append]
        exact ⟨fun hole hmem' => by have := hlt hole hmem'; dsimp only at hle'; omega,
          List.forall_mem_singleton.mpr (by dsimp only at hle' ⊢; omega)⟩
      exact hbeside hbefore' _ rfl rfl rfl rfl
  case h_2 hlast =>
    have hnil : r.holes = [] := List.getLast?_eq_none_iff.mp hlast
    exact hbeside (hnil ▸ List.forall_mem_nil _) _ rfl rfl rfl rfl

theorem capacity_append (r : ScrollbackRing) (rows : List Bytes) : (r.append rows).capacity = r.capacity := by
  induction rows generalizing r with
  | nil => rfl
  | cons row rows ih =>
    rw [← List.singleton_append, ← append_append]
    exact ih (r.append [row])

theorem capacity_markNotReceived (r : ScrollbackRing) (lines : ℕ) :
    (r.markNotReceived lines).capacity = r.capacity := by
  rw [markNotReceived]
  split
  · rfl
  · dsimp only
    split
    · split <;> rfl
    · rfl

theorem Drawable.append (h : r.Drawable) (rows : List Bytes) : (r.append rows).Drawable ∧
    ∀ j, r.drawn = retained r.capacity j → (r.append rows).drawn = retained r.capacity (j ++ rows.map .row) := by
  induction rows generalizing r with
  | nil =>
    rw [h.append_nil]
    exact ⟨h, fun j hj => by rw [List.map_nil, List.append_nil, hj]⟩
  | cons row rows ih =>
    have hone := h.appendOne row
    have hall : r.append (row :: rows) = (r.append [row]).append rows := by
      rw [append_append, List.singleton_append]
    have hrest := ih hone.1
    rw [hall]
    refine ⟨hrest.1, fun j hj => ?_⟩
    have hcount : rowCount (retained r.capacity j) = r.rows.length := by
      rw [← hj, drawn, rowCount_drawnFrom]
    have hnext : (r.append [row]).drawn = retained r.capacity (j ++ [.row row]) := by
      rw [hone.2, retained_row _ _ _ h.wf.capacity_pos, hcount, hj]
    rw [hrest.2 _ hnext, List.append_assoc]
    rfl

end Drawn

/-- The ring draws what is retained of a journal. -/
structure Keeps (capacity : ℕ) (j : List ViewRow) (r : ScrollbackRing) : Prop where
  drawable : r.Drawable
  capacity_eq : r.capacity = max capacity 1
  drawn_eq : r.drawn = retained (max capacity 1) j

/-- **An operation keeps the view what is retained of the journal.** -/
theorem Keeps.apply {capacity : ℕ} {j : List ViewRow} {r : ScrollbackRing} (h : Keeps capacity j r)
    (op : RingOp) : Keeps capacity (note j op) (r.apply op) := by
  cases op with
  | append rows =>
    obtain ⟨hdrawable, hdrawn⟩ := h.drawable.append rows
    refine ⟨hdrawable, (capacity_append r rows).trans h.capacity_eq, ?_⟩
    rw [← h.capacity_eq]
    exact hdrawn j (h.capacity_eq ▸ h.drawn_eq)
  | markNotReceived lines =>
    by_cases hlines : lines = 0
    · subst hlines
      exact h
    · obtain ⟨hdrawable, hdrawn⟩ := h.drawable.mark hlines
      refine ⟨hdrawable, (capacity_markNotReceived r lines).trans h.capacity_eq, ?_⟩
      rw [ScrollbackRing.apply, note, if_neg hlines, hdrawn, h.drawn_eq,
        retained_markLast _ _ _ (Nat.le_max_right ..)]
  | clear =>
    refine ⟨h.drawable.clear, h.capacity_eq, ?_⟩
    show drawnFrom [] _ [] = afterRows (0 - _) []
    rw [Nat.zero_sub, afterRows_zero]
    rfl

theorem keeps_afterOps (capacity : ℕ) (ops : List RingOp) :
    Keeps capacity (journal ops) (afterOps capacity ops) := by
  induction ops using List.reverseRecOn with
  | nil =>
    refine ⟨drawable_new capacity, rfl, ?_⟩
    show drawnFrom [] _ [] = afterRows (0 - _) []
    rw [Nat.zero_sub, afterRows_zero]
    rfl
  | append_singleton ops op ih =>
    rw [journal, List.foldl_concat, afterOps, List.foldl_concat]
    exact ih.apply op

/-! ### The search -/

section Search

variable {r : ScrollbackRing} {holes : List (ℕ × ℕ)} {rows : List Bytes} {row : Bytes} {n i lo lines : ℕ}

theorem drawn_induction {motive : ℕ → List Bytes → List (ℕ × ℕ) → Prop} (nil : ∀ n, motive n [] [])
    (hole : ∀ n rows lines holes, (∀ h ∈ holes, n < h.1) → motive n rows holes →
      motive n rows ((n, lines) :: holes))
    (row : ∀ n row rows holes, (∀ h ∈ holes, n < h.1) → motive (n + 1) rows holes →
      motive n (row :: rows) holes)
    (hsorted : holes.Pairwise fun h h' => h.1 < h'.1)
    (hin : ∀ h ∈ holes, n ≤ h.1 ∧ h.1 ≤ n + rows.length) : motive n rows holes := by
  -- with every hole after row number `n`
  have hrows : ∀ (rows : List Bytes) (n : ℕ) (holes : List (ℕ × ℕ)),
      holes.Pairwise (fun h h' => h.1 < h'.1) → (∀ h ∈ holes, n ≤ h.1 ∧ h.1 ≤ n + rows.length) →
      motive n rows holes := by
    intro rows
    induction rows with
    | nil =>
      intro n holes hsorted hin
      cases holes with
      | nil => exact nil n
      | cons first rest =>
        obtain ⟨before, lines⟩ := first
        have hfirst := hin _ List.mem_cons_self
        rw [List.length_nil] at hin hfirst
        obtain rfl : before = n := by dsimp only at hfirst; omega
        have hrest : rest = [] := by
          refine List.eq_nil_iff_forall_not_mem.mpr fun h hmem => ?_
          have hlt := (List.pairwise_cons.mp hsorted).1 h hmem
          have hle := hin h (List.mem_cons_of_mem _ hmem)
          dsimp only at hlt
          omega
        rw [hrest]
        exact hole _ _ _ _ nofun (nil _)
    | cons head rows ih =>
      intro n holes hsorted hin
      have hlater : ∀ holes : List (ℕ × ℕ), holes.Pairwise (fun h h' => h.1 < h'.1) →
          (∀ h ∈ holes, n < h.1 ∧ h.1 ≤ n + (head :: rows).length) → motive n (head :: rows) holes := by
        intro holes hsorted hin
        refine row _ _ _ _ (fun h hmem => (hin h hmem).1) (ih _ _ hsorted fun h hmem => ?_)
        have := hin h hmem
        rw [length_cons] at this
        omega
      cases holes with
      | nil => exact hlater [] .nil nofun
      | cons first rest =>
        obtain ⟨before, lines⟩ := first
        obtain ⟨hrest, hsorted'⟩ := List.pairwise_cons.mp hsorted
        have hfirst := hin _ List.mem_cons_self
        rcases Nat.eq_or_lt_of_le hfirst.1 with heq | hlt
        · obtain rfl : n = before := heq
          exact hole _ _ _ _ hrest (hlater _ hsorted' fun h hmem =>
            ⟨hrest h hmem, (hin h (List.mem_cons_of_mem _ hmem)).2⟩)
        · refine hlater _ hsorted fun h hmem => ⟨?_, (hin h hmem).2⟩
          rcases List.mem_cons.mp hmem with rfl | hmem
          · exact hlt
          · exact Nat.lt_trans hlt (hrest h hmem)
  exact hrows rows n holes hsorted hin

theorem drawnFrom_hole (holes : List (ℕ × ℕ)) (n lines : ℕ) (rows : List Bytes) :
    drawnFrom ((n, lines) :: holes) n rows = .notReceived lines :: drawnFrom holes n rows := by
  have hhere : holesAt ((n, lines) :: holes) n = .notReceived lines :: holesAt holes n := by
    simp [holesAt]
  have hthere : ∀ k, n < k → holesAt ((n, lines) :: holes) k = holesAt holes k := by
    intro k hk
    have hne : n ≠ k := by omega
    simp [holesAt, hne]
  cases rows with
  | nil => exact hhere
  | cons row rows =>
    rw [drawnFrom, hhere, drawnFrom, drawnFrom_congr fun k hk _ => hthere k (by omega)]
    rfl

theorem drawnFrom_row (hlater : ∀ h ∈ holes, n < h.1) (row : Bytes) (rows : List Bytes) :
    drawnFrom holes n (row :: rows) = .row row :: drawnFrom holes (n + 1) rows := by
  rw [drawnFrom, holesAt_eq_nil fun h hmem => Nat.ne_of_gt (hlater h hmem), List.nil_append]

theorem length_drawnFrom (hsorted : holes.Pairwise fun h h' => h.1 < h'.1)
    (hin : ∀ h ∈ holes, n ≤ h.1 ∧ h.1 ≤ n + rows.length) :
    (drawnFrom holes n rows).length = rows.length + holes.length := by
  refine drawn_induction (motive := fun n rows holes =>
    (drawnFrom holes n rows).length = rows.length + holes.length) ?_ ?_ ?_ hsorted hin
  · exact fun _ => rfl
  · intro n rows lines holes hlater ih
    rw [drawnFrom_hole, length_cons, ih, length_cons]
    omega
  · intro n row rows holes hlater ih
    rw [drawnFrom_row hlater, length_cons, ih, length_cons]
    omega

theorem getElem?_drawnFrom (hsorted : holes.Pairwise fun h h' => h.1 < h'.1)
    (hin : ∀ h ∈ holes, n ≤ h.1 ∧ h.1 ≤ n + rows.length)
    (hbefore : ∀ k, k < lo → (holes.getD k (0, 0)).1 - n + k < i)
    (hafter : lo < holes.length → i ≤ (holes.getD lo (0, 0)).1 - n + lo) (hlo : lo ≤ holes.length) :
    (drawnFrom holes n rows)[i]? = if lo < holes.length ∧ (holes.getD lo (0, 0)).1 - n + lo = i
      then some (.notReceived (holes.getD lo (0, 0)).2) else (rows[i - lo]?).map .row := by
  revert i lo
  refine drawn_induction (motive := fun n rows holes => ∀ {i lo : ℕ},
    (∀ k, k < lo → (holes.getD k (0, 0)).1 - n + k < i) →
    (lo < holes.length → i ≤ (holes.getD lo (0, 0)).1 - n + lo) → lo ≤ holes.length →
    (drawnFrom holes n rows)[i]? = if lo < holes.length ∧ (holes.getD lo (0, 0)).1 - n + lo = i
      then some (.notReceived (holes.getD lo (0, 0)).2) else (rows[i - lo]?).map .row)
    ?_ ?_ ?_ hsorted hin
  · intro n i lo _ _ hlo
    obtain rfl : lo = 0 := Nat.le_zero.mp hlo
    rw [if_neg fun h => Nat.lt_irrefl _ h.1]
    rfl
  · intro n rows lines holes hlater ih i lo hbefore hafter hlo
    rw [drawnFrom_hole]
    cases lo with
    | zero =>
      have hi : i ≤ n - n + 0 := hafter (Nat.succ_pos _)
      obtain rfl : i = 0 := by omega
      rw [if_pos ⟨Nat.succ_pos _, by show n - n + 0 = 0; omega⟩]
      rfl
    | succ lo =>
      have hpos : n - n + 0 < i := hbefore 0 (Nat.succ_pos _)
      obtain ⟨i, rfl⟩ : ∃ i', i = i' + 1 := ⟨i - 1, by omega⟩
      rw [List.getElem?_cons_succ, @ih i lo
        (fun k hk => by have := hbefore (k + 1) (by omega); rw [List.getD_cons_succ] at this; omega)
        (fun hlt => by
          have := hafter (Nat.succ_lt_succ hlt)
          rw [List.getD_cons_succ] at this
          omega)
        (Nat.le_of_succ_le_succ hlo), List.getD_cons_succ, length_cons, Nat.add_sub_add_right]
      refine if_congr (and_congr Nat.succ_lt_succ_iff.symm ?_) rfl rfl
      omega
  · intro n row rows holes hlater ih i lo hbefore hafter hlo
    rw [drawnFrom_row hlater]
    have hget : ∀ k, k < holes.length → n < (holes.getD k (0, 0)).1 := fun k hk => by
      rw [List.getD_eq_getElem _ _ hk]
      exact hlater _ (List.getElem_mem _)
    cases i with
    | zero =>
      cases lo with
      | zero =>
        rw [if_neg fun h => by have := hget 0 h.1; omega]
        rfl
      | succ lo => exact absurd (hbefore 0 (Nat.succ_pos _)) (Nat.not_lt_zero _)
    | succ i =>
      have hle : lo ≤ i := by
        cases lo with
        | zero => exact Nat.zero_le _
        | succ lo =>
          have h₁ := hbefore lo (Nat.lt_succ_self _)
          have h₂ := hget lo (by omega)
          omega
      rw [List.getElem?_cons_succ, @ih i lo
        (fun k hk => by have := hbefore k hk; have := hget k (by omega); omega)
        (fun hlt => by have := hafter hlt; have := hget lo hlt; omega) hlo,
        show i + 1 - lo = i - lo + 1 by omega, List.getElem?_cons_succ]
      by_cases hlt : lo < holes.length
      · have := hget lo hlt
        refine if_congr (and_congr Iff.rfl ?_) rfl rfl
        omega
      · rw [if_neg fun h => hlt h.1, if_neg fun h => hlt h.1]

theorem Drawable.holes_within (h : r.Drawable) :
    ∀ hole ∈ r.holes, r.firstNumber ≤ hole.1 ∧ hole.1 ≤ r.firstNumber + r.rows.length := by
  intro hole hmem
  rw [firstNumber, Nat.sub_add_cancel h.wf.length_le_appended]
  exact ⟨h.first_le hole hmem, h.le_appended hole hmem⟩

theorem Drawable.length_drawn (h : r.Drawable) : r.drawn.length = r.viewLen :=
  length_drawnFrom h.sorted h.holes_within

theorem Drawable.viewIndex_lt (h : r.Drawable) {j k : ℕ} (hjk : j < k) (hk : k < r.holes.length) :
    r.viewIndex j < r.viewIndex k := by
  have hlt := List.pairwise_iff_getElem.mp h.sorted j k (by omega) hk hjk
  rw [viewIndex, viewIndex, List.getD_eq_getElem _ _ hk, List.getD_eq_getElem _ _ (by omega)]
  omega

/-- **The search finds the row that the walk finds.** -/
theorem Drawable.viewRow_eq (h : r.Drawable) (i : ℕ) : r.viewRow i = r.drawn[i]? := by
  have hsplits := @BinarySearch.partitionPoint_spec (fun k => decide (r.viewIndex k < i))
    r.holes.length 0 r.holes.length (Nat.le_refl _) (Nat.zero_le _)
    (fun j k hjk hk hlt => by
      have hlt : r.viewIndex k < i := of_decide_eq_true hlt
      rcases Nat.eq_or_lt_of_le hjk with rfl | hjk
      · exact decide_eq_true hlt
      · exact decide_eq_true (Nat.lt_trans (h.viewIndex_lt hjk hk) hlt))
  symm
  exact getElem?_drawnFrom h.sorted h.holes_within
    (fun k hk => of_decide_eq_true (hsplits.before k (Nat.zero_le _) hk))
    (fun hlt => Nat.le_of_not_lt (of_decide_eq_false (hsplits.after _ (Nat.le_refl _) hlt))) hsplits.le_hi

theorem Drawable.viewRows_drawn (h : r.Drawable) : r.viewRows = r.drawn.map some := by
  refine List.ext_getElem? fun i => ?_
  rw [viewRows, List.getElem?_map, List.getElem?_map, ← h.length_drawn]
  by_cases hi : i < r.drawn.length
  · rw [List.getElem?_range hi, List.getElem?_eq_getElem hi, Option.map_some, h.viewRow_eq,
      List.getElem?_eq_getElem hi]
    rfl
  · rw [List.getElem?_eq_none (by rw [List.length_range]; omega), List.getElem?_eq_none (by omega)]
    rfl

end Search

/-! ### The counters -/

/-- How far an operation moves the revision. -/
def moves (r : ScrollbackRing) : RingOp → ℕ
  | .append rows => rows.length
  | .markNotReceived lines =>
    if lines = 0 then 0 else if r.holes.getLast?.any (·.1 = r.appended) then lines else lines + 1
  | .clear => 0

section Counters

variable {r : ScrollbackRing} {capacity : ℕ}

theorem appended_append (r : ScrollbackRing) (rows : List Bytes) :
    (r.append rows).appended = r.appended + rows.length := by
  induction rows generalizing r with
  | nil => rfl
  | cons row rows ih =>
    rw [← List.singleton_append, ← append_append, ih, length_append, ← Nat.add_assoc]
    rfl

theorem counters_append (r : ScrollbackRing) (rows : List Bytes) :
    (r.append rows).holesAdded = r.holesAdded ∧ (r.append rows).linesNotReceived = r.linesNotReceived := by
  induction rows generalizing r with
  | nil => exact ⟨rfl, rfl⟩
  | cons row rows ih =>
    rw [← List.singleton_append, ← append_append]
    exact ih (r.append [row])

theorem counters_apply (r : ScrollbackRing) (op : RingOp) :
    (r.apply op).viewTotal + (r.apply op).linesNotReceived = r.viewTotal + r.linesNotReceived + r.moves op := by
  cases op with
  | append rows =>
    obtain ⟨hholes, hlines⟩ := counters_append r rows
    rw [apply, viewTotal, appended_append, hholes, hlines, viewTotal, moves]
    omega
  | markNotReceived lines =>
    rw [apply, markNotReceived, moves]
    split
    · rfl
    · dsimp only
      cases hlast : r.holes.getLast? with
      | none =>
        show r.appended + (r.holesAdded + 1) + (r.linesNotReceived + lines) =
          r.appended + r.holesAdded + r.linesNotReceived + (lines + 1)
        omega
      | some hole =>
        obtain ⟨before, merged⟩ := hole
        dsimp only [Option.any]
        by_cases hb : before = r.appended
        · rw [if_pos hb, if_pos (decide_eq_true hb), viewTotal, viewTotal]
          dsimp only
          omega
        · rw [if_neg hb, if_neg fun h => hb (of_decide_eq_true h), viewTotal, viewTotal]
          dsimp only
          omega
  | clear => rfl

theorem viewTotal_le_apply (r : ScrollbackRing) (op : RingOp) : r.viewTotal ≤ (r.apply op).viewTotal := by
  cases op with
  | append rows =>
    rw [apply, viewTotal, viewTotal, appended_append, (counters_append r rows).1]
    omega
  | markNotReceived lines =>
    rw [apply, markNotReceived]
    split
    · exact Nat.le_refl _
    · dsimp only
      split
      · split
        · exact Nat.le_refl _
        · exact Nat.le_succ _
      · exact Nat.le_succ _
  | clear => exact Nat.le_refl _

theorem Drawable.viewRows_mark (h : r.Drawable) {lines : ℕ} (hlines : lines ≠ 0) :
    r.viewRows ≠ (r.markNotReceived lines).viewRows := by
  obtain ⟨hnext, hdrawn⟩ := h.mark hlines
  rw [h.viewRows_drawn, hnext.viewRows_drawn, hdrawn]
  intro heq
  have heq := (List.map_inj_right fun _ _ => Option.some.inj).mp heq
  rw [markLast] at heq
  split at heq
  case h_1 merged hlast =>
    have hlast' := congrArg List.getLast? heq
    rw [hlast, getLast?_concat] at hlast'
    have := ViewRow.notReceived.inj (Option.some.inj hlast')
    omega
  case h_2 =>
    have hlen := congrArg List.length heq
    rw [length_append, List.length_singleton] at hlen
    omega

/-- **The revision tells what the view shows**, but for a clear that takes rows away and a count past the
last 64-bit number. -/
theorem viewRevision_iff (capacity : ℕ) (ops : List RingOp) (op : RingOp) (hop : op.InRange) :
    let r := afterOps capacity ops
    ((r.viewRows ≠ (r.apply op).viewRows → r.viewRevision ≠ (r.apply op).viewRevision) ∧
        r.viewRevision ≤ (r.apply op).viewRevision) ↔
      ¬(op = .clear ∧ r.viewLen ≠ 0) ∧ r.viewRevision + r.moves op < 2 ^ 64 := by
  intro r
  have h : r.Drawable := (keeps_afterOps capacity ops).drawable
  have hcount := counters_apply r op
  have hmod : (r.apply op).viewRevision = (r.viewRevision + r.moves op) % 2 ^ 64 := by
    rw [viewRevision, hcount, viewRevision, Nat.mod_add_mod]
  have hlt : r.viewRevision < 2 ^ 64 := Nat.mod_lt _ (by decide)
  rw [hmod]
  cases op with
  | append rows =>
    have hrows : rows.length < 2 ^ 64 := hop
    show (_ ∧ _ ≤ (r.viewRevision + rows.length) % 2 ^ 64) ↔ _ ∧ r.viewRevision + rows.length < 2 ^ 64
    refine ⟨fun ⟨_, hle⟩ => ⟨fun h => RingOp.noConfusion h.1, ?_⟩, fun ⟨_, hfit⟩ => ?_⟩
    · by_contra hpast
      rw [Nat.mod_eq_sub_mod (by omega), Nat.mod_eq_of_lt (by omega)] at hle
      omega
    · rw [Nat.mod_eq_of_lt hfit]
      refine ⟨fun hne heq => hne ?_, by omega⟩
      have hnil : rows = [] := List.eq_nil_of_length_eq_zero (by simp only [moves] at heq; omega)
      rw [hnil, ScrollbackRing.apply, h.append_nil]
  | markNotReceived lines =>
    have hlines : lines < 2 ^ 64 := hop
    by_cases hzero : lines = 0
    · subst hzero
      show ((r.viewRows ≠ r.viewRows → _) ∧ _ ≤ (r.viewRevision + 0) % 2 ^ 64) ↔
        _ ∧ r.viewRevision + 0 < 2 ^ 64
      rw [Nat.add_zero, Nat.mod_eq_of_lt hlt]
      exact ⟨fun _ => ⟨fun h => RingOp.noConfusion h.1, hlt⟩, fun _ => ⟨fun h => absurd rfl h, Nat.le_refl _⟩⟩
    · have hseen := h.viewRows_mark hzero
      have hmoves : lines ≤ r.moves (.markNotReceived lines) ∧
          r.moves (.markNotReceived lines) ≤ lines + 1 := by
        rw [moves, if_neg hzero]
        split
        · exact ⟨Nat.le_refl _, Nat.le_succ _⟩
        · exact ⟨Nat.le_succ _, Nat.le_refl _⟩
      refine ⟨fun ⟨hne, hle⟩ => ⟨fun h => RingOp.noConfusion h.1, ?_⟩, fun ⟨_, hfit⟩ => ?_⟩
      · have hne := hne hseen
        by_contra hpast
        rw [Nat.mod_eq_sub_mod (by omega), Nat.mod_eq_of_lt (by omega)] at hle hne
        omega
      · rw [Nat.mod_eq_of_lt hfit]
        exact ⟨fun _ => by omega, by omega⟩
  | clear =>
    have hclear := h.clear
    show ((_ ≠ r.clear.viewRows → _ ≠ (r.viewRevision + 0) % 2 ^ 64) ∧ _ ≤ (r.viewRevision + 0) % 2 ^ 64) ↔
      _ ∧ r.viewRevision + 0 < 2 ^ 64
    rw [Nat.add_zero, Nat.mod_eq_of_lt hlt]
    refine ⟨fun ⟨hne, _⟩ => ⟨fun ⟨_, hlen⟩ => hne (fun heq => hlen ?_) rfl, hlt⟩,
      fun ⟨hlen, _⟩ => ⟨fun hne => absurd ?_ hne, Nat.le_refl _⟩⟩
    · rw [h.viewRows_drawn, hclear.viewRows_drawn] at heq
      have := congrArg List.length heq
      rwa [List.length_map, List.length_map, h.length_drawn] at this
    · have hzero : r.drawn.length = 0 := by
        rw [h.length_drawn]
        by_contra hpos
        exact hlen ⟨rfl, hpos⟩
      rw [h.viewRows_drawn, hclear.viewRows_drawn, List.eq_nil_of_length_eq_zero hzero]
      rfl

theorem viewRevision_mark :
    let r := afterOps 2 [.append [[97]]]
    (r.viewRows ≠ (r.markNotReceived 3).viewRows → r.viewRevision ≠ (r.markNotReceived 3).viewRevision) ∧
      r.viewRevision ≤ (r.markNotReceived 3).viewRevision :=
  (viewRevision_iff 2 [.append [[97]]] (.markNotReceived 3) (show 3 < 2 ^ 64 by decide)).mpr
    ⟨fun h => RingOp.noConfusion h.1, by decide⟩

theorem viewRevision_clear :
    let r := afterOps 2 [.append [[97]]]
    r.viewRows ≠ (r.apply .clear).viewRows ∧ r.viewRevision = (r.apply .clear).viewRevision := by
  decide

end Counters

end ScrollbackRing

end Posh
