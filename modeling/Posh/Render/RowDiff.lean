/-
**The diff of a row.**

A row is gone through cell by cell.  A cell that did not change is kept, unless blank cells before it wait
to be written: such a run is written as a whole.  What one turn of the loop does is said once; what the
loop does then follows by its rule.
-/

import Posh.Render.Renderer

set_option autoImplicit false

namespace Posh.Term.Render

variable {f : Snapshot} {y a k : ℕ} {rowWrap : Bool} {row old : List Cell} {cell : Cell}

/-! ### Whole rows -/

structure WholeRow (cols : ℕ) (row : List Cell) : Prop where
  length : row.length = cols
  printed : ∀ c ∈ row, Printed c
  paired : PairedFn (widthAt row)

/-- A cell that shows nothing. -/
def IsGap (cell : Cell) : Prop := cell.width ≠ 0 ∧ cell.isBlank = true

instance (cell : Cell) : Decidable (IsGap cell) := inferInstanceAs (Decidable (_ ∧ _))

theorem Printed.width_le (h : Printed cell) : cell.width ≤ 2 := h.width ▸ wcwidth_le_two cell.ch

theorem Printed.blank_width (h : Printed cell) (hgap : IsGap cell) : cell.width = 1 := by
  obtain ⟨hw, hblank⟩ := hgap
  rw [Cell.isBlank, Bool.and_eq_true, Bool.or_eq_true, beq_iff_eq, beq_iff_eq] at hblank
  rcases hblank.1 with hch | hch
  · rw [h.width, hch]
    exact wcwidth_space
  · rw [h.width, hch, wcwidth_nul] at hw
    exact absurd rfl hw

theorem cellWidth_eq (hw : cell.width ≠ 0) : cellWidth cell = cell.width :=
  Nat.max_eq_left (Nat.one_le_iff_ne_zero.mpr hw)

namespace WholeRow

variable {cols : ℕ}

theorem mem (h : WholeRow cols row) (hcell : row[k]? = some cell) : Printed cell :=
  h.printed cell (List.mem_of_getElem? hcell)

theorem lt (h : WholeRow cols row) (hcell : row[k]? = some cell) : k < cols :=
  h.length ▸ (List.getElem?_eq_some_iff.mp hcell).1

theorem next (h : WholeRow cols row) (hcell : row[k]? = some cell) (hw : cell.width ≠ 0) :
    k + cell.width ≤ cols ∧ widthAt row (k + cell.width) ≠ some 0 := by
  have hlt := h.lt hcell
  have hle := (h.mem hcell).width_le
  have hwidth : widthAt row k = some cell.width := by rw [widthAt, hcell, Option.map_some]
  rcases show cell.width = 1 ∨ cell.width = 2 by omega with hone | htwo
  · rw [hone] at hwidth ⊢
    refine ⟨by omega, fun hzero => ?_⟩
    have hhead := h.paired.spacer k hzero
    rw [hwidth] at hhead
    cases hhead
  · rw [htwo] at hwidth ⊢
    have hspacer := h.paired.head k hwidth
    have hlt' := lt_of_widthAt hspacer
    rw [h.length] at hlt'
    refine ⟨by omega, fun hzero => ?_⟩
    have hhead := h.paired.spacer (k + 1) hzero
    rw [hspacer] at hhead
    cases hhead

theorem eq_of_lt_next (h : WholeRow cols row) (hcell : row[k]? = some cell) {j : ℕ} (hle : k ≤ j)
    (hlt : j < k + cell.width) (hj : widthAt row j ≠ some 0) : j = k := by
  have hwidth := (h.mem hcell).width_le
  by_contra hne
  obtain rfl : j = k + 1 := by omega
  exact hj (h.paired.head k (by rw [widthAt, hcell, Option.map_some, show cell.width = 2 by omega]))

theorem head (h : WholeRow cols row) (hk : k < cols) (hhead : widthAt row k ≠ some 0) :
    ∃ cell, row[k]? = some cell ∧ cell.width ≠ 0 := by
  have hcell := List.getElem?_eq_getElem (h.length.symm ▸ hk)
  refine ⟨_, hcell, fun hw => hhead ?_⟩
  rw [widthAt, hcell, Option.map_some, hw]

end WholeRow

/-! ### What is written -/

/-- Before a column, blank cells wait: a cell changed, and from it on all are blank. -/
def Waits (row old : List Cell) (a k : ℕ) : Prop :=
  ∃ j < k, a ≤ j ∧ old[j]? ≠ row[j]? ∧ ∀ i < k, j ≤ i → IsGap (row.getD i blankCell)

instance (row old : List Cell) (a k : ℕ) : Decidable (Waits row old a k) :=
  inferInstanceAs (Decidable (∃ j < k, _))

/-- A cell that is not written. -/
def Kept (row old : List Cell) (a k : ℕ) : Prop := old[k]? = row[k]? ∧ ¬ Waits row old a k

instance (row old : List Cell) (a k : ℕ) : Decidable (Kept row old a k) :=
  inferInstanceAs (Decidable (_ ∧ _))

theorem getD_of (hcell : row[k]? = some cell) : row.getD k blankCell = cell := by
  rw [List.getD_eq_getElem?_getD, hcell, Option.getD_some]

/-- **Blank cells wait after a blank cell that waits itself or changed.** -/
theorem waits_succ (hcell : row[k]? = some cell) (ha : a ≤ k) :
    Waits row old a (k + 1) ↔ IsGap cell ∧ ¬ Kept row old a k := by
  constructor
  · rintro ⟨j, hj, haj, hne, hgap⟩
    refine ⟨getD_of hcell ▸ hgap k (by omega) (by omega), fun hkept => ?_⟩
    rcases Nat.lt_or_eq_of_le (Nat.lt_succ_iff.mp hj) with hlt | rfl
    · exact hkept.2 ⟨j, hlt, haj, hne, fun i hi => hgap i (by omega)⟩
    · exact hne hkept.1
  · rintro ⟨hgap, hkept⟩
    by_cases hw : Waits row old a k
    · obtain ⟨j, hj, haj, hne, hgaps⟩ := hw
      refine ⟨j, by omega, haj, hne, fun i hi hji => ?_⟩
      rcases Nat.lt_or_eq_of_le (Nat.lt_succ_iff.mp hi) with hlt | rfl
      · exact hgaps i hlt hji
      · rwa [getD_of hcell]
    · refine ⟨k, by omega, ha, fun hsame => hkept ⟨hsame, hw⟩, fun i hi hki => ?_⟩
      obtain rfl : i = k := by omega
      rwa [getD_of hcell]

theorem not_waits_start (row old : List Cell) (a : ℕ) : ¬ Waits row old a a :=
  fun ⟨j, hj, haj, _⟩ => absurd hj (by omega)

theorem WholeRow.not_waits {cols : ℕ} (h : WholeRow cols row) (hcell : row[k]? = some cell)
    (hw : cell.width ≠ 0) (ha : a ≤ k) (hdone : ¬ IsGap cell ∨ Kept row old a k) :
    ¬ Waits row old a (k + cell.width) := by
  have hle := (h.mem hcell).width_le
  rcases show cell.width = 1 ∨ cell.width = 2 by omega with hone | htwo
  · rw [hone, waits_succ hcell ha]
    rintro ⟨hgap, hkept⟩
    exact hdone.elim (fun hno => hno hgap) hkept
  · have hspacer := h.paired.head k (by rw [widthAt, hcell, Option.map_some, htwo])
    obtain ⟨spacer, hspacer, hzero⟩ := Option.map_eq_some_iff.mp hspacer
    rw [htwo, show k + 2 = k + 1 + 1 from rfl, waits_succ hspacer (by omega)]
    rintro ⟨hgap, -⟩
    exact hgap.1 hzero

/-! ### Turns -/

namespace RowScan

/-- A run of blank cells is written if there is one. -/
def flushed (f : Snapshot) (y : ℕ) (s : RowScan) : RowScan :=
  if s.clearCount > 0 then s.flushBlanks f y else s

/-- A run of blank cells begins. -/
def enter (cell : Cell) (s : RowScan) : RowScan :=
  { s with
    blankStyle := cell.style
    blankLink := cell.hyperlink
    clearCount := 1
    frameX := s.frameX + 1 }

/-- What a turn of the loop does at a character. -/
inductive Turn (f : Snapshot) (y : ℕ) (rowWrap : Bool) (old : List Cell) (s : RowScan) (cell : Cell) :
    RowScan → Prop
  /-- the cell did not change -/
  | skip (hcount : s.clearCount = 0) (hsame : old[s.frameX]? = some cell) :
      Turn f y rowWrap old s cell { s with frameX := s.frameX + cell.width }
  /-- the run of blank cells goes on -/
  | more (hcount : 0 < s.clearCount) (hblank : cell.isBlank = true) (hstyle : cell.style = s.blankStyle)
      (hlink : cell.hyperlink = s.blankLink) :
      Turn f y rowWrap old s cell
        { s with clearCount := s.clearCount + 1, frameX := s.frameX + 1 }
  /-- a run begins -/
  | enter (hnew : s.clearCount = 0 → old[s.frameX]? ≠ some cell) (hblank : cell.isBlank = true) :
      Turn f y rowWrap old s cell ((s.flushed f y).enter cell)
  /-- the cell is drawn -/
  | draw (hnew : s.clearCount = 0 → old[s.frameX]? ≠ some cell) (hblank : cell.isBlank = false) :
      Turn f y rowWrap old s cell ((s.flushed f y).drawCell f y rowWrap cell)

/-- **A turn is one of four.** -/
theorem turn_scanCell {s : RowScan} (hlt : s.frameX < f.cols) (hcell : row[s.frameX]? = some cell)
    (hw : cell.width ≠ 0) : Turn f y rowWrap old s cell (s.scanCell f y true rowWrap row old) := by
  rw [scanCell, if_pos hlt, getD_of hcell]
  dsimp only
  by_cases hskip : s.clearCount = 0 ∧ old[s.frameX]? = some cell
  · rw [if_pos ⟨rfl, hskip⟩, cellWidth_eq hw]
    exact .skip hskip.1 hskip.2
  · rw [if_neg fun h => hskip h.2, if_neg hw]
    have hnew : s.clearCount = 0 → old[s.frameX]? ≠ some cell := fun hcount hsame =>
      hskip ⟨hcount, hsame⟩
    generalize hu : (if cell.isBlank = true ∧ s.clearCount = 0 then
      { s with blankStyle := cell.style, blankLink := cell.hyperlink } else s) = u
    by_cases hblank : cell.isBlank = true
    · have hturn := @Turn.enter f y rowWrap old s cell hnew hblank
      by_cases hcount : s.clearCount = 0
      · rw [if_pos ⟨hblank, hcount⟩] at hu
        have hflushed : s.flushed f y = s := by rw [flushed, if_neg (by omega)]
        rw [hflushed, RowScan.enter] at hturn
        rw [← hu, if_pos ⟨hblank, rfl, rfl⟩, hcount]
        exact hturn
      · rw [if_neg fun h => hcount h.2] at hu
        rw [← hu]
        by_cases hlike : cell.style = s.blankStyle ∧ cell.hyperlink = s.blankLink
        · rw [if_pos ⟨hblank, hlike⟩]
          exact .more (by omega) hblank hlike.1 hlike.2
        · rw [flushed, if_pos (by omega)] at hturn
          rw [if_neg fun h => hlike h.2, if_pos (by omega), if_pos hblank]
          exact hturn
    · have hturn := @Turn.draw f y rowWrap old s cell hnew (Bool.eq_false_of_not_eq_true hblank)
      rw [if_neg fun h => hblank h.1] at hu
      rw [← hu, if_neg fun h => hblank h.1]
      split
      case isTrue hcount =>
        rw [flushed, if_pos hcount] at hturn
        exact hturn
      case isFalse hcount =>
        rw [flushed, if_neg hcount] at hturn
        exact hturn

theorem flushed_frameX (s : RowScan) : (s.flushed f y).frameX = s.frameX := by
  rw [flushed]
  split <;> rfl

theorem flushed_clearCount (s : RowScan) : (s.flushed f y).clearCount = 0 := by
  rw [flushed]
  split
  · rfl
  · omega

theorem flushed_wroteLastCell (s : RowScan) : (s.flushed f y).wroteLastCell = s.wroteLastCell := by
  rw [flushed]
  split <;> rfl

theorem Turn.frameX {s s' : RowScan} (h : Turn f y rowWrap old s cell s') (hprinted : Printed cell)
    (hw : cell.width ≠ 0) : s'.frameX = s.frameX + cell.width := by
  cases h with
  | skip => rfl
  | more _ hblank => rw [hprinted.blank_width ⟨hw, hblank⟩]
  | enter _ hblank => rw [hprinted.blank_width ⟨hw, hblank⟩, RowScan.enter, flushed_frameX]
  | draw => rw [drawCell, flushed_frameX, cellWidth_eq hw]

/-- **The rule of the loop**: what every turn keeps holds at the end of the row. -/
theorem scan_rule (hrow : WholeRow f.cols row) {Inv : RowScan → Prop}
    (hstep : ∀ s s' cell, Inv s → row[s.frameX]? = some cell → cell.width ≠ 0 →
      Turn f y rowWrap old s cell s' → Inv s')
    {s : RowScan} (h : Inv s) (hle : s.frameX ≤ f.cols) (hhead : widthAt row s.frameX ≠ some 0) :
    Inv ((fun s : RowScan => s.scanCell f y true rowWrap row old)^[f.cols] s) ∧
      ((fun s : RowScan => s.scanCell f y true rowWrap row old)^[f.cols] s).frameX = f.cols := by
  -- each turn takes at least one column, and the loop stays where it ends
  have hrun : ∀ n (s : RowScan), Inv s → s.frameX ≤ f.cols → widthAt row s.frameX ≠ some 0 →
      f.cols ≤ s.frameX + n → Inv ((fun s : RowScan => s.scanCell f y true rowWrap row old)^[n] s) ∧
        ((fun s : RowScan => s.scanCell f y true rowWrap row old)^[n] s).frameX = f.cols := by
    intro n
    induction n with
    | zero => exact fun s h hle _ hn => ⟨h, show s.frameX = f.cols by omega⟩
    | succ n ih =>
      intro s h hle hhead hn
      rw [Function.iterate_succ_apply]
      by_cases hlt : s.frameX < f.cols
      · obtain ⟨cell, hcell, hw⟩ := hrow.head hlt hhead
        have hturn : Turn f y rowWrap old s cell _ := turn_scanCell hlt hcell hw
        have hframeX := hturn.frameX (hrow.mem hcell) hw
        obtain ⟨hle', hhead'⟩ := hrow.next hcell hw
        rw [← hframeX] at hle' hhead'
        exact ih _ (hstep s _ cell h hcell hw hturn) hle' hhead' (by omega)
      · have hstay : s.scanCell f y true rowWrap row old = s := by rw [scanCell, if_neg hlt]
        rw [hstay]
        exact ih s h hle hhead (by omega)
  exact hrun f.cols s h hle hhead (by omega)

/-! ### The run that waits -/

/-- The run of blank cells is the one that waits. -/
structure Tallies (row old : List Cell) (a : ℕ) (s : RowScan) : Prop where
  le : a + s.clearCount ≤ s.frameX
  gaps : ∀ j < s.frameX, s.frameX - s.clearCount ≤ j → ∃ c, row[j]? = some c ∧ IsGap c ∧
    c.style = s.blankStyle ∧ c.hyperlink = s.blankLink
  waits : 0 < s.clearCount ↔ Waits row old a s.frameX

namespace Tallies

variable {s s' : RowScan}

theorem start (row old : List Cell) (hx : s.frameX = a) (hcount : s.clearCount = 0) : s.Tallies row old a := by
  refine ⟨by omega, fun j hj hle => by omega, ?_⟩
  rw [hx, hcount]
  exact iff_of_false (Nat.lt_irrefl 0) (not_waits_start row old a)

theorem kept_iff (h : Tallies row old a s) (hcell : row[s.frameX]? = some cell) :
    Kept row old a s.frameX ↔ s.clearCount = 0 ∧ old[s.frameX]? = some cell := by
  rw [Kept, hcell, ← h.waits, and_comm]
  exact and_congr_left fun _ => Nat.pos_iff_ne_zero.not_left

/-- **A turn keeps track of the run.** -/
theorem turn {cols : ℕ} (hrow : WholeRow cols row) (h : Tallies row old a s)
    (hcell : row[s.frameX]? = some cell) (hw : cell.width ≠ 0) (hturn : Turn f y rowWrap old s cell s') :
    Tallies row old a s' := by
  have ha : a ≤ s.frameX := Nat.le_trans (Nat.le_add_right _ _) h.le
  have hkept := h.kept_iff hcell
  have hone := (hrow.mem hcell).blank_width
  have hle := h.le
  cases hturn with
  | skip hcount hsame =>
    refine ⟨?_, ?_, ?_⟩ <;> dsimp only
    · omega
    · intro j hj hle
      omega
    · exact iff_of_false (by omega) (hrow.not_waits hcell hw ha (.inr (hkept.mpr ⟨hcount, hsame⟩)))
  | more hcount hblank hstyle hlink =>
    refine ⟨?_, ?_, ?_⟩ <;> dsimp only
    · omega
    · intro j hj hle
      rcases Nat.lt_or_eq_of_le (Nat.lt_succ_iff.mp hj) with hlt | rfl
      · exact h.gaps j hlt (by omega)
      · exact ⟨cell, hcell, ⟨hw, hblank⟩, hstyle, hlink⟩
    · refine iff_of_true (Nat.succ_pos _) ((waits_succ hcell ha).mpr ⟨⟨hw, hblank⟩, fun hk => ?_⟩)
      exact absurd (hkept.mp hk).1 (by omega)
  | enter hnew hblank =>
    have hframeX : ((s.flushed f y).enter cell).frameX = s.frameX + 1 := by
      rw [RowScan.enter, flushed_frameX]
    rw [RowScan.enter] at hframeX ⊢
    refine ⟨?_, ?_, ?_⟩ <;> dsimp only at hframeX ⊢ <;> rw [hframeX]
    · omega
    · intro j hj hle
      obtain rfl : j = s.frameX := by omega
      exact ⟨cell, hcell, ⟨hw, hblank⟩, rfl, rfl⟩
    · refine iff_of_true Nat.one_pos ((waits_succ hcell ha).mpr ⟨⟨hw, hblank⟩, fun hk => ?_⟩)
      exact hnew (hkept.mp hk).1 (hkept.mp hk).2
  | draw hnew hblank =>
    have hcount : ((s.flushed f y).drawCell f y rowWrap cell).clearCount = 0 := flushed_clearCount s
    have hframeX : ((s.flushed f y).drawCell f y rowWrap cell).frameX = s.frameX + cell.width := by
      rw [drawCell, flushed_frameX, cellWidth_eq hw]
    refine ⟨?_, ?_, ?_⟩ <;> rw [hcount, hframeX]
    · omega
    · intro j hj hle
      omega
    · refine iff_of_false (by omega) (hrow.not_waits hcell hw ha (.inl fun hgap => ?_))
      rw [hgap.2] at hblank
      cases hblank

end Tallies

end RowScan

end Posh.Term.Render
