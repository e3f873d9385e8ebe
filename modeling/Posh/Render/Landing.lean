/-
**Where the cursor lands.**

Row by row it is followed where the cursor is left, from the two pictures alone.  A row whose last column
is written leaves it past that column; but for the last row of the screen, and a row that one wrapped
character fills, it then goes on to the next row.
-/

import Posh.Render.Pointer

set_option autoImplicit false

namespace Posh.Term.Render

open Terminal
open Snapshot
open RowScan
open FrameState

/-! ### Said of the pictures -/

/-- The cell of a picture in a column of a row. -/
def Snapshot.cellAt (f : Snapshot) (y k : ℕ) : Cell := (f.cells.getD y []).getD k blankCell

/-- The first column of a row that is compared with what was shown. -/
def startCol (f : Snapshot) (y : ℕ) (wrap : Bool) : ℕ := if wrap then cellWidth (f.cellAt y 0) else 0

/-- The last column of a row is written: its character is, and not by erasing the rest of the row. -/
def WritesLast (f : Snapshot) (y : ℕ) (old : List Cell) (a : ℕ) : Prop :=
  ∃ k < f.cols, a ≤ k ∧ k + (f.cellAt y k).width = f.cols ∧ ¬ Kept (f.cells.getD y []) old a k ∧
    ((f.cellAt y k).isBlank = true → f.wrapped.getD y false = true ∨ (f.cellAt y k).style ≠ {} ∨
      f.linkUri (f.cellAt y k).hyperlink ≠ [])

instance (f : Snapshot) (y : ℕ) (old : List Cell) (a : ℕ) : Decidable (WritesLast f y old a) :=
  inferInstanceAs (Decidable (∃ k < f.cols, _))

/-- The row before goes on in the row, and its last column is written. -/
def wrapsInto (f : Snapshot) (rows : List (List Cell)) (first : ℕ) : ℕ → Bool
  | 0 => false
  | y + 1 => first ≤ y ∧ y + 1 < f.rows ∧ f.wrapped.getD y false = true ∧
      WritesLast f y (rows.getD y []) (startCol f y (wrapsInto f rows first y))

/-- The cursor is left past the last column of a row. -/
def EndsPast (f : Snapshot) (rows : List (List Cell)) (first y : ℕ) : Prop :=
  y + 1 = f.rows ∧ WritesLast f y (rows.getD y []) (startCol f y (wrapsInto f rows first y)) ∨
    wrapsInto f rows first y = true ∧ (f.cellAt y 0).width = f.cols

instance (f : Snapshot) (rows : List (List Cell)) (first y : ℕ) : Decidable (EndsPast f rows first y) :=
  inferInstanceAs (Decidable (_ ∨ _))

/-- Nothing is written of a row: its characters are there already, and the row before does not go on. -/
def Untouched (f : Snapshot) (rows : List (List Cell)) (first y : ℕ) : Prop :=
  wrapsInto f rows first y = false ∧
    ∀ k < f.cols, (f.cellAt y k).width ≠ 0 → (rows.getD y [])[k]? = (f.cells.getD y [])[k]?

instance (f : Snapshot) (rows : List (List Cell)) (first y : ℕ) : Decidable (Untouched f rows first y) :=
  inferInstanceAs (Decidable (_ ∧ _))

/-- **The cursor is left past the last column of the row it is to be in**, and it is to go left from
there, near enough for backspaces. -/
def Overruns (last f : Snapshot) (allowScroll : Bool) : Prop :=
  let rows := scrolledRows true last f allowScroll
  let first := (scrollPlan true last f allowScroll).2
  first ≤ f.cursorRow ∧ 0 < f.cursorCol ∧ f.cols < f.cursorCol + 5 ∧
    EndsPast f rows first f.cursorRow ∧ ∀ y < f.rows, f.cursorRow < y → Untouched f rows first y

instance (last f : Snapshot) (allowScroll : Bool) : Decidable (Overruns last f allowScroll) :=
  inferInstanceAs (Decidable (_ ∧ _))

/-! ### The loop over a row -/

variable {γ : Type} [GraphicsStore γ] {F : Frame} {t : Terminal γ} {f : Snapshot} {fr₀ : FrameState}
  {y a k : ℕ} {rowWrap : Bool} {old : List Cell} {cell : Cell} {s s' : RowScan}

/-- A picture that a terminal of its size can show, of whole characters. -/
structure Snapshot.FitsIn (f : Snapshot) (F : Frame) : Prop where
  sound : f.Sound
  paired : f.Paired
  rows : F.rows = f.rows
  cols : F.cols = f.cols

namespace Snapshot.FitsIn

omit [GraphicsStore γ] in
theorem wholeRow (h : f.FitsIn F) (hy : y < f.rows) : WholeRow f.cols (f.cells.getD y []) := by
  have hlt : y < f.cells.length := h.sound.height.symm ▸ hy
  rw [List.getD_eq_getElem?_getD, List.getElem?_eq_getElem hlt, Option.getD_some]
  have hmem : f.cells[y] ∈ f.cells := List.getElem_mem hlt
  exact ⟨h.sound.width _ hmem, h.sound.printed _ hmem, h.paired _ hmem⟩

theorem rows_le (h : f.FitsIn F) : F.rows ≤ 65535 := h.rows ▸ h.sound.rows_le

theorem cols_le (h : f.FitsIn F) : F.cols ≤ 65535 := h.cols ▸ h.sound.cols_le

end Snapshot.FitsIn

/-- A character before a column is written. -/
def Changed (row old : List Cell) (a x : ℕ) : Prop :=
  ∃ k < x, a ≤ k ∧ widthAt row k ≠ some 0 ∧ ¬ Kept row old a k

/-- A character is drawn whose last column is the last one of its row. -/
def DrawnLast (cols : ℕ) (row old : List Cell) (a k : ℕ) : Prop :=
  a ≤ k ∧ ¬ Kept row old a k ∧ ∃ c, row[k]? = some c ∧ c.width ≠ 0 ∧ c.isBlank = false ∧ k + c.width = cols

/-- What the loop over a row keeps: the cursor is followed, and it is past the last column only if that
column was written. -/
structure Walks (F : Frame) (t : Terminal γ) (f : Snapshot) (y : ℕ) (old : List Cell) (a : ℕ)
    (fr₀ : FrameState) (s : RowScan) : Prop where
  tallies : s.Tallies (f.cells.getD y []) old a
  follows : Follows F t s.fr
  past : s.fr.y = y → s.fr.x = f.cols → s.wroteLastCell = true ∨ a = f.cols
  wrote : s.wroteLastCell = true → s.frameX = f.cols ∧ s.clearCount = 0 ∧ s.fr.y = y ∧ s.fr.x = f.cols
  wrote_iff : s.wroteLastCell = true ↔ ∃ k < s.frameX, DrawnLast f.cols (f.cells.getD y []) old a k
  same : ¬ Changed (f.cells.getD y []) old a s.frameX → s.fr = fr₀
  moved : Changed (f.cells.getD y []) old a s.frameX → 0 < s.clearCount ∨ s.fr.y = y

theorem RowScan.toBlanks_pen (s : RowScan) :
    (s.toBlanks f y).style = s.blankStyle ∧ (s.toBlanks f y).link = f.linkUri s.blankLink := by
  obtain ⟨_, hstyle, -⟩ := (s.fr.appendSilentMove y (s.frameX - s.clearCount)).updateStyle_eq
    s.blankStyle false
  obtain ⟨_, hlink, -⟩ := ((s.fr.appendSilentMove y (s.frameX - s.clearCount)).updateStyle
    s.blankStyle false).updateLink_eq (f.linkUri s.blankLink) false
  rw [toBlanks, hlink]
  exact ⟨by rw [hstyle], rfl⟩

theorem RowScan.drawCell_at (rowWrap : Bool) (hf : f.FitsIn F) (hy : y < f.rows) {u : RowScan} (h : Follows F t u.fr)
    (hpast : ¬ (u.fr.y = y ∧ u.fr.x = f.cols)) (hprinted : Printed cell) (hw : cell.width ≠ 0)
    (hroom : u.frameX + cell.width ≤ f.cols) :
    At F t (u.drawCell f y rowWrap cell).fr y (u.frameX + cell.width) := by
  have hr := hf.rows
  have hc := hf.cols
  obtain ⟨fr, hfr⟩ : ∃ fr : FrameState, fr = if rowWrap ∧ u.frameX + cellWidth cell ≥ f.cols then
      { u.fr with x := -1, y := -1 } else u.fr := ⟨_, rfl⟩
  have hfollows : Follows F t fr := by
    rw [hfr]
    split
    · exact ⟨h.outer, .inl ⟨rfl, rfl⟩⟩
    · exact h
  have hmoved : At F t (fr.appendSilentMove y u.frameX) y u.frameX := by
    refine (Follows.appendSilentMove hf.rows_le hf.cols_le hfollows (by omega) (by omega) ?_).at
      hfollows.outer
    rintro ⟨hy', hx, -⟩
    rw [hfr] at hy' hx
    split at hy'
    case isTrue =>
      have : (-1 : ℤ) = y := hy'
      omega
    case isFalse hno =>
      rw [if_neg hno] at hx
      exact hpast ⟨hy', by rw [hx, hc]⟩
  have hdrawn := ((hmoved.updateStyle cell.style false).updateLink
    (hf.sound.linkUri cell.hyperlink) false).appendCell hprinted hw (by omega)
  rw [hfr] at hdrawn
  exact hdrawn

namespace Walks

theorem toBlanks (hf : f.FitsIn F) (hy : y < f.rows) (h : Walks F t f y old a fr₀ s)
    (hcount : 0 < s.clearCount) (hle : s.frameX ≤ f.cols) :
    At F t (s.toBlanks f y) y (s.frameX - s.clearCount) := by
  have hsum := h.tallies.le
  have hr := hf.rows
  have hc := hf.cols
  refine (((Follows.appendSilentMove hf.rows_le hf.cols_le h.follows ?_ ?_ ?_).at
    h.follows.outer).updateStyle _ _).updateLink (hf.sound.linkUri _) _
  · omega
  · omega
  · rintro ⟨hy', hx, -⟩
    rcases h.past hy' (by rw [hx, hc]) with hwrote | ha
    · have := (h.wrote hwrote).2.1
      omega
    · omega

theorem flushed (hf : f.FitsIn F) (hy : y < f.rows) (h : Walks F t f y old a fr₀ s)
    (hlt : s.frameX < f.cols) : Follows F t (s.flushed f y).fr ∧
      ¬ ((s.flushed f y).fr.y = y ∧ (s.flushed f y).fr.x = f.cols) := by
  have hsum := h.tallies.le
  have hr := hf.rows
  have hc := hf.cols
  rw [RowScan.flushed]
  split
  case isTrue hcount =>
    have hat := h.toBlanks hf hy hcount (Nat.le_of_lt hlt)
    rw [flushBlanks]
    dsimp only
    split
    case isTrue =>
      have herased : At F t ((s.toBlanks f y).append (csi (decimal s.clearCount) 'X')) y
          (s.frameX - s.clearCount) :=
        hat.append (goes_eraseChars (by omega) (by have := hf.sound.cols_le; omega)) rfl hat.y hat.x
      refine ⟨herased.follows (by omega) (by omega), ?_⟩
      rintro ⟨-, hx⟩
      have := herased.x
      omega
    case isFalse =>
      have hspaces := hat.spaces (n := s.clearCount) (x := s.frameX) (by omega) (by omega)
      refine ⟨hspaces.follows (by omega) (by omega), ?_⟩
      rintro ⟨-, hx⟩
      have hx' : (s.frameX : ℤ) = f.cols := hx
      omega
  case isFalse hcount =>
    refine ⟨h.follows, ?_⟩
    rintro ⟨hy', hx⟩
    rcases h.past hy' hx with hwrote | ha
    · have := (h.wrote hwrote).1
      omega
    · omega

theorem start (hfollows : Follows F t s.fr) (hx : s.frameX = a) (hcount : s.clearCount = 0)
    (hwrote : s.wroteLastCell = false) (hpast : s.fr.y = y → s.fr.x = f.cols → a = f.cols) :
    Walks F t f y old a s.fr s where
  tallies := .start _ _ hx hcount
  follows := hfollows
  past := fun hy' hx' => .inr (hpast hy' hx')
  wrote := fun h => absurd (hwrote.symm.trans h) Bool.false_ne_true
  wrote_iff := iff_of_false (fun h => absurd (hwrote.symm.trans h) Bool.false_ne_true)
    fun ⟨k, hk, ha, _⟩ => by omega
  same := fun _ => rfl
  moved := fun ⟨k, hk, ha, _⟩ => by omega

/-- **A turn keeps it.** -/
theorem turn (hf : f.FitsIn F) (hy : y < f.rows) (h : Walks F t f y old a fr₀ s)
    (hcell : (f.cells.getD y [])[s.frameX]? = some cell) (hw : cell.width ≠ 0)
    (hturn : s.Turn f y rowWrap old cell s') : Walks F t f y old a fr₀ s' := by
  have hrow := hf.wholeRow hy
  have hlt := hrow.lt hcell
  have hprinted := hrow.mem hcell
  have hroom := (hrow.next hcell hw).1
  have htallies := h.tallies.turn hrow hcell hw hturn
  have hframeX := hturn.frameX hprinted hw
  have ha : a ≤ s.frameX := Nat.le_trans (Nat.le_add_right _ _) h.tallies.le
  have hkept := h.tallies.kept_iff hcell
  have hunwritten : ¬ s.wroteLastCell = true := fun hwrote => absurd (h.wrote hwrote).1 (by omega)
  -- a turn goes past one character
  have hpast : ∀ P : ℕ → Prop, (∀ k, P k → widthAt (f.cells.getD y []) k ≠ some 0) →
      ((∃ k < s'.frameX, P k) ↔ (∃ k < s.frameX, P k) ∨ P s.frameX) := by
    intro P hP
    constructor
    · rintro ⟨k, hk, hPk⟩
      rcases Nat.lt_or_ge k s.frameX with hlt' | hge
      · exact .inl ⟨k, hlt', hPk⟩
      · obtain rfl := hrow.eq_of_lt_next hcell hge (hframeX ▸ hk) (hP k hPk)
        exact .inr hPk
    · rintro (⟨k, hk, hPk⟩ | hPk)
      · exact ⟨k, by omega, hPk⟩
      · exact ⟨s.frameX, by omega, hPk⟩
  have hchanged : Changed (f.cells.getD y []) old a s'.frameX ↔
      Changed (f.cells.getD y []) old a s.frameX ∨ ¬ Kept (f.cells.getD y []) old a s.frameX := by
    have hhead : widthAt (f.cells.getD y []) s.frameX ≠ some 0 := by
      rw [widthAt, hcell]
      exact fun heq => hw (Option.some.inj heq)
    rw [Changed, hpast _ fun k hk => hk.2.1]
    exact or_congr_right ⟨fun hk => hk.2.2, fun hk => ⟨ha, hhead, hk⟩⟩
  have hdrawn : (∃ k < s'.frameX, DrawnLast f.cols (f.cells.getD y []) old a k) ↔
      DrawnLast f.cols (f.cells.getD y []) old a s.frameX := by
    rw [hpast _ fun k hk heq => ?_, ← h.wrote_iff]
    · exact or_iff_right hunwritten
    · obtain ⟨-, -, c, hc, hcw, -⟩ := hk
      rw [widthAt, hc] at heq
      exact hcw (Option.some.inj heq)
  have hblanked : cell.isBlank = true → ¬ DrawnLast f.cols (f.cells.getD y []) old a s.frameX := by
    rintro hblank ⟨-, -, c, hc, -, hshown, -⟩
    rw [Option.some.inj (hcell.symm.trans hc), hshown] at hblank
    cases hblank
  cases hturn with
  | skip hcount hsame =>
    have hkept' := hkept.mpr ⟨hcount, hsame⟩
    refine ⟨htallies, h.follows, h.past, fun hwrote => absurd hwrote hunwritten, ?_, ?_, ?_⟩
    · rw [hdrawn]
      exact iff_of_false hunwritten fun hd => hd.2.1 hkept'
    · rw [hchanged, or_iff_left (not_not.mpr hkept')]
      exact h.same
    · rw [hchanged, or_iff_left (not_not.mpr hkept')]
      exact h.moved
  | more hcount hblank hstyle hlink =>
    have hunkept : ¬ Kept (f.cells.getD y []) old a s.frameX := fun hk =>
      absurd (hkept.mp hk).1 (by omega)
    refine ⟨htallies, h.follows, h.past, fun hwrote => absurd hwrote hunwritten, ?_, ?_, ?_⟩
    · rw [hdrawn]
      exact iff_of_false hunwritten (hblanked hblank)
    · exact fun hno => absurd (hchanged.mpr (.inr hunkept)) hno
    · exact fun _ => .inl (Nat.succ_pos _)
  | enter hnew hblank =>
    have hunkept : ¬ Kept (f.cells.getD y []) old a s.frameX := fun hk =>
      hnew (hkept.mp hk).1 (hkept.mp hk).2
    obtain ⟨hfollows, hpast'⟩ := h.flushed hf hy hlt
    have hwrote : ((s.flushed f y).enter cell).wroteLastCell = s.wroteLastCell :=
      flushed_wroteLastCell s
    refine ⟨htallies, hfollows, fun hy' hx => absurd ⟨hy', hx⟩ hpast', ?_, ?_, ?_, ?_⟩
    · rw [hwrote]
      exact fun hwrote => absurd hwrote hunwritten
    · rw [hdrawn, hwrote]
      exact iff_of_false hunwritten (hblanked hblank)
    · exact fun hno => absurd (hchanged.mpr (.inr hunkept)) hno
    · exact fun _ => .inl Nat.one_pos
  | draw hnew hblank =>
    have hunkept : ¬ Kept (f.cells.getD y []) old a s.frameX := fun hk =>
      hnew (hkept.mp hk).1 (hkept.mp hk).2
    obtain ⟨hfollows, hpast'⟩ := h.flushed hf hy hlt
    have hat := drawCell_at rowWrap hf hy hfollows hpast' hprinted hw
      (by rw [flushed_frameX]; exact hroom)
    rw [flushed_frameX] at hat
    have hwrote : ((s.flushed f y).drawCell f y rowWrap cell).wroteLastCell = true ↔
        s.frameX + cell.width = f.cols := by
      have hor : ((s.flushed f y).drawCell f y rowWrap cell).wroteLastCell = ((s.flushed f y).wroteLastCell ||
            decide ((s.flushed f y).frameX + cellWidth cell ≥ f.cols)) := rfl
      rw [hor, flushed_wroteLastCell, flushed_frameX, cellWidth_eq hw,
        Bool.eq_false_of_not_eq_true hunwritten, Bool.false_or, decide_eq_true_iff]
      omega
    refine ⟨htallies, hat.follows (by have := hf.rows; omega) (by have := hf.cols; omega), ?_, ?_, ?_, ?_, ?_⟩
    · intro _ hx
      rw [hat.x] at hx
      exact .inl (hwrote.mpr (by omega))
    · rw [hwrote]
      intro hlast
      exact ⟨hframeX.trans hlast, flushed_clearCount s, hat.y, by rw [hat.x, hlast]⟩
    · rw [hdrawn, hwrote]
      constructor
      · exact fun hlast => ⟨ha, hunkept, cell, hcell, hw, hblank, hlast⟩
      · rintro ⟨-, -, c, hc, -, -, hlast⟩
        rw [Option.some.inj (hcell.symm.trans hc)]
        exact hlast
    · exact fun hno => absurd (hchanged.mpr (.inr hunkept)) hno
    · exact fun _ => .inr hat.y

end Walks

/-! ### The end of a row -/

omit [GraphicsStore γ] in
theorem Snapshot.cellAt_of (hcell : (f.cells.getD y [])[k]? = some cell) : f.cellAt y k = cell :=
  getD_of hcell

omit [GraphicsStore γ] in
theorem writesLast_iff (hf : f.FitsIn F) (hy : y < f.rows) : (¬ Waits (f.cells.getD y []) old a f.cols →
      (WritesLast f y old a ↔ ∃ k < f.cols, DrawnLast f.cols (f.cells.getD y []) old a k)) ∧
    (Waits (f.cells.getD y []) old a f.cols → ∀ c, (f.cells.getD y [])[f.cols - 1]? = some c →
      (WritesLast f y old a ↔ f.wrapped.getD y false = true ∨ c.style ≠ {} ∨ f.linkUri c.hyperlink ≠ [])) := by
  have hrow := hf.wholeRow hy
  have hcols := hf.sound.cols_pos
  constructor
  · intro hwaits
    refine exists_congr fun k => and_congr_right fun hk => ?_
    obtain ⟨c, hc⟩ : ∃ c, (f.cells.getD y [])[k]? = some c :=
      ⟨_, List.getElem?_eq_getElem (hrow.length.symm ▸ hk)⟩
    rw [cellAt_of hc]
    constructor
    · rintro ⟨ha, hlast, hunkept, -⟩
      have hw : c.width ≠ 0 := by omega
      refine ⟨ha, hunkept, c, hc, hw, Bool.eq_false_of_not_eq_true fun hblank => hwaits ?_, hlast⟩
      have hone := (hrow.mem hc).blank_width ⟨hw, hblank⟩
      rw [← hlast, hone, waits_succ hc ha]
      exact ⟨⟨hw, hblank⟩, hunkept⟩
    · rintro ⟨ha, hunkept, c', hc', -, hshown, hlast⟩
      obtain rfl := Option.some.inj (hc.symm.trans hc')
      refine ⟨ha, hlast, hunkept, fun hblank => ?_⟩
      rw [hblank] at hshown
      cases hshown
  · intro hwaits c hc
    obtain ⟨n, hn⟩ : ∃ n, f.cols = n + 1 := ⟨f.cols - 1, by omega⟩
    obtain ⟨j, hj, haj, -⟩ := id hwaits
    have ha : a ≤ n := by omega
    rw [hn, Nat.add_sub_cancel] at hc
    rw [hn, waits_succ hc ha] at hwaits
    obtain ⟨hgap, hunkept⟩ := hwaits
    have hone := (hrow.mem hc).blank_width hgap
    constructor
    · rintro ⟨k, hk, hak, hlast, hunkept', hhow⟩
      obtain ⟨c', hc'⟩ : ∃ c, (f.cells.getD y [])[k]? = some c :=
        ⟨_, List.getElem?_eq_getElem (hrow.length.symm ▸ hk)⟩
      rw [cellAt_of hc'] at hlast hhow
      have hhead : widthAt (f.cells.getD y []) n ≠ some 0 := by
        rw [widthAt, hc]
        exact fun heq => hgap.1 (Option.some.inj heq)
      obtain rfl : n = k := hrow.eq_of_lt_next hc' (by omega) (by omega) hhead
      obtain rfl := Option.some.inj (hc.symm.trans hc')
      exact hhow hgap.2
    · intro hhow
      refine ⟨n, by omega, ha, ?_, hunkept, ?_⟩
      · rw [cellAt_of hc]
        omega
      · rw [cellAt_of hc]
        exact fun _ => hhow

omit [GraphicsStore γ] in
theorem changed_of_waits {cols : ℕ} {row : List Cell} (hrow : WholeRow cols row)
    (h : Waits row old a cols) : Changed row old a cols := by
  obtain ⟨j, hj, ha, hne, hgap⟩ := h
  obtain ⟨c, hc⟩ : ∃ c, row[j]? = some c := ⟨_, List.getElem?_eq_getElem (hrow.length.symm ▸ hj)⟩
  have hw := (hgap j hj (Nat.le_refl j)).1
  rw [getD_of hc] at hw
  refine ⟨j, hj, ha, ?_, fun hkept => hne hkept.1⟩
  rw [widthAt, hc]
  exact fun heq => hw (Option.some.inj heq)

/-- What the loop and the blank cells at the end of the row leave. -/
structure Walked (F : Frame) (t : Terminal γ) (f : Snapshot) (y : ℕ) (old : List Cell) (a : ℕ)
    (fr₀ : FrameState) (s : RowScan) : Prop where
  follows : Follows F t s.fr
  wrote_iff : s.wroteLastCell = true ↔ WritesLast f y old a
  past : s.fr.y = y → s.fr.x = f.cols → s.wroteLastCell = true ∨ a = f.cols
  wrote : s.wroteLastCell = true → s.fr.y = y ∧ s.fr.x = f.cols
  same : ¬ Changed (f.cells.getD y []) old a f.cols → s.fr = fr₀
  moved : Changed (f.cells.getD y []) old a f.cols → s.fr.y = y

/-- **The end of the row.** -/
theorem Walks.endBlanks (hf : f.FitsIn F) (hy : y < f.rows) (h : Walks F t f y old a fr₀ s)
    (hend : s.frameX = f.cols) : Walked F t f y old a fr₀ (s.endBlanks f y (f.wrapped.getD y false)) := by
  have hr := hf.rows
  have hc := hf.cols
  have hsum := h.tallies.le
  obtain ⟨hnot, hwaits⟩ := @writesLast_iff F f y a old hf hy
  have hcount := h.tallies.waits
  have hwrote_iff := h.wrote_iff
  have hsame := h.same
  have hmoved := h.moved
  rw [hend] at hcount hwrote_iff hsame hmoved
  rw [RowScan.endBlanks]
  split
  case isTrue hpos =>
    have hat := h.toBlanks hf hy hpos (Nat.le_of_eq hend)
    obtain ⟨hstyle, hlink⟩ := s.toBlanks_pen (f := f) (y := y)
    obtain ⟨c, hcell, hgap, hcstyle, hclink⟩ := h.tallies.gaps (f.cols - 1) (by omega) (by omega)
    have hlast := hwaits (hcount.mp hpos) c hcell
    have hchanged := changed_of_waits (hf.wholeRow hy) (hcount.mp hpos)
    have hunwritten : ¬ s.wroteLastCell = true := fun hwrote =>
      absurd (h.wrote hwrote).2.1 (by omega)
    dsimp only
    split
    case isTrue herase =>
      obtain ⟨hcan, hnowrap⟩ := herase
      rw [canUseErase, hstyle, hlink, Bool.and_eq_true, decide_eq_true_iff,
        decide_eq_true_iff] at hcan
      have herased : At F t ((s.toBlanks f y).append (csi [] 'K')) y (s.frameX - s.clearCount) :=
        hat.append (goes_eraseLine (by omega)) rfl hat.y hat.x
      refine ⟨herased.follows (by omega) (by omega), ?_, ?_, fun hwrote => absurd hwrote hunwritten,
        fun hno => absurd hchanged hno, fun _ => herased.y⟩
      · rw [hlast, hcstyle, hclink]
        refine iff_of_false hunwritten ?_
        rintro (hwrap | hst | hli)
        · exact hnowrap hwrap
        · exact hst hcan.1
        · exact hli hcan.2
      · intro _ hx
        rw [herased.x] at hx
        omega
    case isFalse herase =>
      have hspaces := hat.spaces (n := s.clearCount) (x := s.frameX) (by omega) (by omega)
      rw [show s.frameX - s.clearCount + s.clearCount = f.cols by omega] at hspaces
      refine ⟨hspaces.follows (by omega) (by omega), ?_, fun _ _ => .inl rfl,
        fun _ => ⟨hspaces.y, hspaces.x⟩, fun hno => absurd hchanged hno, fun _ => hspaces.y⟩
      rw [hlast, hcstyle, hclink]
      refine iff_of_true rfl ?_
      by_contra hnone
      push Not at hnone
      refine herase ⟨?_, hnone.1⟩
      rw [canUseErase, hstyle, hlink, hnone.2.1, hnone.2.2]
      rfl
  case isFalse hzero =>
    have hlast := hnot fun hw => hzero (hcount.mpr hw)
    exact ⟨h.follows, hwrote_iff.trans hlast.symm, h.past, fun hwrote => (h.wrote hwrote).2.2, hsame,
      fun hchanged => (hmoved hchanged).resolve_left hzero⟩

/-! ### A row -/

/-- The cursor when a row is begun: it waits to wrap onto it, or it is not past the last column of it or a
later one. -/
structure Enters (F : Frame) (t : Terminal γ) (f : Snapshot) (y : ℕ) (fr : FrameState) (wrap : Bool) :
    Prop where
  wraps : wrap = true → (t.process fr.out).Outer F ∧ fr.x = 0 ∧ fr.y = y ∧
    ∃ y', y = y' + 1 ∧ (t.process fr.out).place = atCol F y' F.cols
  follows : wrap = false → Follows F t fr ∧ (fr.x = f.cols → fr.y < y)

variable {fr : FrameState} {wrap : Bool}

theorem forceFirst_at (hf : f.FitsIn F) (hy : y < f.rows) (h : Enters F t f y fr true) :
    At F t (forceFirst f (f.cells.getD y []) fr).fr y (startCol f y true) ∧
      (forceFirst f (f.cells.getD y []) fr).frameX = startCol f y true ∧
      startCol f y true = (f.cellAt y 0).width := by
  have hrow := hf.wholeRow hy
  have hc := hf.cols
  have hr := hf.rows
  obtain ⟨houter, hx, hy', y', rfl, hplace⟩ := h.wraps rfl
  obtain ⟨cell, hcell, hw⟩ := hrow.head hf.sound.cols_pos hrow.paired.first
  have hprinted := hrow.mem hcell
  have hroom := (hrow.next hcell hw).1
  rw [Nat.zero_add] at hroom
  have hcellAt := cellAt_of hcell
  have hstart : startCol f (y' + 1) true = cell.width := by
    rw [startCol, if_pos rfl, hcellAt, cellWidth_eq hw]
  have hwidth := hprinted.width
  have htext := @goes_wrapped γ F _ cell.ch (hwidth ▸ hw) _ hprinted.extra y' (by omega) (by omega)
  rw [← hwidth, ← cellText_eq hprinted hw] at htext
  obtain ⟨b₁, hstyle, hb₁⟩ := fr.updateStyle_eq cell.style false
  obtain ⟨b₂, hlink, hb₂⟩ := (fr.updateStyle cell.style false).updateLink_eq
    (f.linkUri cell.hyperlink) false
  have hgoes : Goes γ F (atCol F y' F.cols) (b₁ ++ (b₂ ++ cellText cell))
      (atCol F (y' + 1) cell.width) := by
    have hpen : ∀ p, Goes γ F p b₁ p := fun p => by
      rcases hb₁ with rfl | ⟨rfl, -⟩
      · exact goes_sgr _ p
      · exact .nil p
    have hopen : ∀ p, Goes γ F p b₂ p := fun p => by
      rcases hb₂ with rfl | ⟨rfl, -⟩
      · exact goes_link (hf.sound.linkUri _) p
      · exact .nil p
    exact (hpen _).append ((hopen _).append htext)
  obtain ⟨houter', hplace'⟩ := hgoes _ houter hplace
  rw [← process_append] at houter' hplace'
  rw [hstart, hcellAt, forceFirst, getD_of hcell]
  dsimp only
  rw [hlink, hstyle]
  dsimp only [appendCell, append]
  rw [List.append_assoc, List.append_assoc]
  refine ⟨⟨houter', hy', ?_, hplace'⟩, cellWidth_eq hw, rfl⟩
  rw [hx, cellWidth_eq hw, zero_add]

/-- **The loop over a row, and its end.** -/
theorem walked_row (old : List Cell) (hf : f.FitsIn F) (hy : y < f.rows) (h : Enters F t f y fr wrap) (s : RowScan)
    (hs : s = if wrap then forceFirst f (f.cells.getD y []) fr else { fr, frameX := 0 }) :
    Walked F t f y old (startCol f y wrap) s.fr
      (((fun s : RowScan => s.scanCell f y true (f.wrapped.getD y false) (f.cells.getD y []) old)^[f.cols]
        s).endBlanks f y (f.wrapped.getD y false)) := by
  have hrow := hf.wholeRow hy
  have hstart : s.frameX = startCol f y wrap ∧ Walks F t f y old (startCol f y wrap) s.fr s ∧
      startCol f y wrap ≤ f.cols ∧ widthAt (f.cells.getD y []) (startCol f y wrap) ≠ some 0 := by
    cases wrap with
    | false =>
      obtain ⟨hfollows, hbefore⟩ := h.follows rfl
      rw [if_neg Bool.false_ne_true] at hs
      have hfr : s.fr = fr := by rw [hs]
      refine ⟨by rw [hs]; rfl, ?_, Nat.zero_le _, hrow.paired.first⟩
      refine .start (hfr ▸ hfollows) (by rw [hs]; rfl) (by rw [hs]) (by rw [hs]) fun hy' hx => ?_
      rw [hfr] at hy' hx
      have := hbefore hx
      omega
    | true =>
      obtain ⟨hat, hframeX, hwidth⟩ := forceFirst_at hf hy h
      obtain ⟨cell, hcell, hw⟩ := hrow.head hf.sound.cols_pos hrow.paired.first
      have hnext := hrow.next hcell hw
      rw [Nat.zero_add, ← cellAt_of hcell, ← hwidth] at hnext
      rw [if_pos rfl] at hs
      rw [← hs] at hat hframeX
      refine ⟨hframeX, ?_, hnext⟩
      refine .start (hat.follows (by have := hf.rows; omega) (by have := hf.cols; omega)) hframeX
        (by rw [hs]; rfl) (by rw [hs]; rfl) fun _ hx => ?_
      rw [hat.x] at hx
      omega
  obtain ⟨hframeX, hwalks, hle, hhead⟩ := hstart
  rw [← hframeX] at hle hhead
  obtain ⟨hwalks', hend⟩ := scan_rule hrow
    (fun _ _ _ h hcell hw hturn => h.turn hf hy hcell hw hturn) hwalks hle hhead
  exact hwalks'.endBlanks hf hy hend

/-- A row is left: wrapped onto the next one, or past its last column, or where the cursor was. -/
structure Passed (F : Frame) (t : Terminal γ) (f : Snapshot) (y : ℕ) (old : List Cell) (fr : FrameState)
    (wrap : Bool) (r : FrameState × Bool) : Prop where
  enters : Enters F t f (y + 1) r.1 r.2
  wraps_iff : r.2 = true ↔
    y + 1 < f.rows ∧ f.wrapped.getD y false = true ∧ WritesLast f y old (startCol f y wrap)
  past_iff : wrap = true ∨ Changed (f.cells.getD y []) old 0 f.cols → r.2 = false →
    ∀ j : ℕ, r.1.y = j ∧ r.1.x = f.cols ↔ j = y ∧ (y + 1 = f.rows ∧ WritesLast f y old (startCol f y wrap) ∨
        wrap = true ∧ (f.cellAt y 0).width = f.cols)
  same : wrap = false → ¬ Changed (f.cells.getD y []) old 0 f.cols → r = (fr, false)

theorem Follows.at_last (hf : f.FitsIn F) (h : Follows F t fr₀) (hy : fr₀.y = y) (hx : fr₀.x = f.cols) :
    At F t fr₀ y F.cols := by
  have hc := hf.cols
  rcases h.here with ⟨hx', -⟩ | ⟨row, col, -, -, hat⟩
  · omega
  · obtain rfl : row = y := by have := hat.y; omega
    obtain rfl : col = F.cols := by have := hat.x; omega
    exact hat

/-- **A row is passed.** -/
theorem putRow_passed (old : List Cell) (hf : f.FitsIn F) (hy : y < f.rows)
    (h : Enters F t f y fr wrap) : Passed F t f y old fr wrap (putRow true f y old fr wrap) := by
  have hr := hf.rows
  have hc := hf.cols
  have hpos := hf.sound.cols_pos
  rw [putRow]
  dsimp only
  obtain ⟨s₀, hs₀⟩ : ∃ s : RowScan, s =
    if wrap then forceFirst f (f.cells.getD y []) fr else { fr, frameX := 0 } := ⟨_, rfl⟩
  rw [← hs₀]
  have hwalked := walked_row old hf hy h s₀ hs₀
  -- where the row begins
  have hstart : wrap = true ∧ s₀.fr.y = y ∧ s₀.fr.x = startCol f y wrap ∧
      startCol f y wrap = (f.cellAt y 0).width ∨ wrap = false ∧ s₀.fr = fr ∧ startCol f y wrap = 0 := by
    cases wrap with
    | false =>
      rw [if_neg Bool.false_ne_true] at hs₀
      exact .inr ⟨rfl, by rw [hs₀], rfl⟩
    | true =>
      obtain ⟨hat, -, hwidth⟩ := forceFirst_at hf hy h
      rw [if_pos rfl] at hs₀
      rw [← hs₀] at hat
      exact .inl ⟨rfl, hat.y, hat.x, hwidth⟩
  generalize endBlanks f y (f.wrapped.getD y false) _ = s at hwalked ⊢
  have hwrote_iff := hwalked.wrote_iff
  -- a row that is not touched leaves the cursor before the row
  have hsame : wrap = false → ¬ Changed (f.cells.getD y []) old 0 f.cols →
      s.fr = fr ∧ s.wroteLastCell = false := by
    intro hwrap hno
    rcases hstart with ⟨hwrap', -⟩ | ⟨-, hfr, ha⟩
    · rw [hwrap] at hwrap'
      cases hwrap'
    · have hfr' : s.fr = fr := (hwalked.same (ha ▸ hno)).trans hfr
      refine ⟨hfr', Bool.eq_false_of_not_eq_true fun hwrote => ?_⟩
      obtain ⟨hy', hx⟩ := hwalked.wrote hwrote
      rw [hfr'] at hy' hx
      have := (h.follows hwrap).2 hx
      omega
  split
  case isTrue hlast =>
    obtain ⟨hwrote, hnext⟩ := hlast
    obtain ⟨hy', hx⟩ := hwalked.wrote hwrote
    have hat := hwalked.follows.at_last hf hy' hx
    have htouched : ¬ (wrap = false ∧ ¬ Changed (f.cells.getD y []) old 0 f.cols) := fun hno =>
      Bool.false_ne_true ((hsame hno.1 hno.2).2.symm.trans hwrote)
    split
    case isTrue hwrap =>
      refine ⟨⟨fun _ => ?_, fun hno => (nomatch hno)⟩,
        iff_of_true rfl ⟨hnext, hwrap, hwrote_iff.mp hwrote⟩, fun _ hno => (nomatch hno),
        fun h₁ h₂ => absurd ⟨h₁, h₂⟩ htouched⟩
      refine ⟨hwalked.follows.outer, rfl, ?_, y, rfl, hat.place⟩
      rw [Nat.cast_add, ← hy']
      rfl
    case isFalse hwrap =>
      have hnewline : At F t { s.fr.append [0x0D, 0x0A] with x := 0, y := s.fr.y + 1 } (y + 1) 0 := by
        refine hat.append ?_ rfl ?_ rfl
        · rw [atCol_cols, atCol_of_lt (show 0 < F.cols by omega)]
          have hfeed := (moves_return (γ := γ) (f := F) y (F.cols - 1) true).goes.append (goes_feed y false)
          rwa [show min (y + 1) (F.rows - 1) = y + 1 by omega] at hfeed
        · rw [Nat.cast_add, ← hy']
          rfl
      refine ⟨⟨fun hno => (nomatch hno), fun _ => ?_⟩,
        iff_of_false (fun hno => (nomatch hno)) fun hno => hwrap hno.2.1, fun _ _ j => ?_,
        fun h₁ h₂ => absurd ⟨h₁, h₂⟩ htouched⟩
      · refine ⟨hnewline.follows (by omega) (by omega), fun hx' => ?_⟩
        rw [hnewline.x] at hx'
        omega
      · refine iff_of_false (fun hno => ?_) fun hno => ?_
        · rw [hnewline.x] at hno
          omega
        · obtain ⟨k, hk, hak, -⟩ := hwrote_iff.mp hwrote
          rcases hno.2 with ⟨hlast, -⟩ | ⟨hwrap', hfull⟩
          · omega
          · rcases hstart with ⟨-, -, -, ha⟩ | ⟨hno, -⟩
            · omega
            · rw [hwrap'] at hno
              cases hno
  case isFalse hlast =>
    have hwraps : ¬ (y + 1 < f.rows ∧ f.wrapped.getD y false = true ∧
        WritesLast f y old (startCol f y wrap)) := fun hno => hlast ⟨hwrote_iff.mpr hno.2.2, hno.1⟩
    -- a row that is touched leaves the cursor in it
    have hrow : wrap = true ∨ Changed (f.cells.getD y []) old 0 f.cols → s.fr.y = y := by
      intro htouched
      by_cases hchanged : Changed (f.cells.getD y []) old (startCol f y wrap) f.cols
      · exact hwalked.moved hchanged
      · rw [hwalked.same hchanged]
        rcases hstart with ⟨-, hy', -⟩ | ⟨hwrap, -, ha⟩
        · exact hy'
        · rcases htouched with hwrap' | hchanged'
          · rw [hwrap] at hwrap'
            cases hwrap'
          · exact absurd hchanged' (ha ▸ hchanged)
    have hfull : startCol f y wrap = f.cols ↔ wrap = true ∧ (f.cellAt y 0).width = f.cols := by
      rcases hstart with ⟨hwrap, -, -, ha⟩ | ⟨hwrap, -, ha⟩
      · rw [ha]
        exact ⟨fun heq => ⟨hwrap, heq⟩, And.right⟩
      · refine iff_of_false (by omega) fun hno => ?_
        rw [hwrap] at hno
        cases hno.1
    have hlast_iff : s.wroteLastCell = true ↔ y + 1 = f.rows ∧ WritesLast f y old (startCol f y wrap) := by
      rw [← hwrote_iff]
      refine ⟨fun hwrote => ⟨?_, hwrote⟩, And.right⟩
      by_contra hne
      exact hlast ⟨hwrote, by omega⟩
    refine ⟨⟨fun hno => (nomatch hno), fun _ => ⟨hwalked.follows, fun hx => ?_⟩⟩,
      iff_of_false (fun hno => (nomatch hno)) hwraps, fun htouched _ j => ?_, fun hwrap hno => ?_⟩
    · by_cases htouched : wrap = true ∨ Changed (f.cells.getD y []) old 0 f.cols
      · rw [hrow htouched]
        omega
      · rw [not_or, Bool.not_eq_true] at htouched
        rw [(hsame htouched.1 htouched.2).1] at hx ⊢
        exact ((h.follows htouched.1).2 hx).trans (by rw [Nat.cast_add]; exact lt_add_one _)
    · have hy' := hrow htouched
      dsimp only
      rw [hy', Nat.cast_inj, ← hlast_iff, ← hfull, eq_comm]
      refine and_congr_right fun _ => ⟨hwalked.past hy', ?_⟩
      rintro (hwrote | ha)
      · exact (hwalked.wrote hwrote).2
      · have hno : ¬ Changed (f.cells.getD y []) old (startCol f y wrap) f.cols := fun ⟨k, hk, hak, _⟩ => by
          omega
        rw [hwalked.same hno]
        rcases hstart with ⟨-, -, hx, -⟩ | ⟨-, -, hzero⟩
        · rw [hx, ha]
        · omega
    · rw [(hsame hwrap hno).1]

/-! ### The rows -/

variable {rows : List (List Cell)} {first : ℕ}

omit [GraphicsStore γ] in
theorem WritesLast.changed (hf : f.FitsIn F) (hy : y < f.rows) (h : WritesLast f y old 0) :
    Changed (f.cells.getD y []) old 0 f.cols := by
  obtain ⟨k, hk, ha, hlast, hunkept, -⟩ := h
  obtain ⟨c, hc⟩ : ∃ c, (f.cells.getD y [])[k]? = some c :=
    ⟨_, List.getElem?_eq_getElem ((hf.wholeRow hy).length.symm ▸ hk)⟩
  rw [cellAt_of hc] at hlast
  refine ⟨k, hk, ha, fun hzero => ?_, hunkept⟩
  rw [widthAt, hc] at hzero
  have : c.width = 0 := Option.some.inj hzero
  omega

omit [GraphicsStore γ] in
theorem untouched_iff (hf : f.FitsIn F) (hy : y < f.rows) : Untouched f rows first y ↔
    wrapsInto f rows first y = false ∧ ¬ Changed (f.cells.getD y []) (rows.getD y []) 0 f.cols := by
  have hrow := hf.wholeRow hy
  have hhead : ∀ k < f.cols, (f.cellAt y k).width ≠ 0 ↔ widthAt (f.cells.getD y []) k ≠ some 0 := by
    intro k hk
    obtain ⟨c, hc⟩ : ∃ c, (f.cells.getD y [])[k]? = some c :=
      ⟨_, List.getElem?_eq_getElem (hrow.length.symm ▸ hk)⟩
    rw [cellAt_of hc, widthAt, hc, Option.map_some, ne_eq, ne_eq, Option.some.injEq]
  refine and_congr_right fun _ => ?_
  constructor
  · rintro hsame ⟨k, hk, -, hwidth, hunkept⟩
    refine hunkept ⟨hsame k hk ((hhead k hk).mpr hwidth), ?_⟩
    rintro ⟨j, hj, -, hne, hgap⟩
    exact hne (hsame j (by omega) (hgap j hj (Nat.le_refl j)).1)
  · intro hno k hk hwidth
    by_contra hne
    exact hno ⟨k, hk, Nat.zero_le k, (hhead k hk).mp hwidth, fun hkept => hne hkept.1⟩

/-- What the rows before one leave. -/
structure Ran (F : Frame) (t : Terminal γ) (f : Snapshot) (rows : List (List Cell)) (first y : ℕ)
    (r : FrameState × Bool) : Prop where
  enters : Enters F t f y r.1 r.2
  wraps : r.2 = wrapsInto f rows first y
  past_iff : r.2 = false → ∀ j : ℕ, r.1.y = j ∧ r.1.x = f.cols ↔ first ≤ j ∧ j < y ∧
    EndsPast f rows first j ∧ ∀ y' < y, j < y' → Untouched f rows first y'

namespace Ran

omit [GraphicsStore γ] in
theorem wrapsInto_first (f : Snapshot) (rows : List (List Cell)) (first : ℕ) :
    wrapsInto f rows first first = false := by
  cases first with
  | zero => rfl
  | succ n => exact decide_eq_false fun h => by omega

theorem start {fr : FrameState} (h : Follows F t fr) (hx : fr.x ≠ f.cols) :
    Ran F t f rows first first (fr, false) where
  enters := ⟨fun hno => (nomatch hno), fun _ => ⟨h, fun hx' => absurd hx' hx⟩⟩
  wraps := (wrapsInto_first f rows first).symm
  past_iff := fun _ j => iff_of_false (fun hno => hx hno.2) fun hno => by omega

/-- **A row more.** -/
theorem putRow (hf : f.FitsIn F) (hy : y < f.rows) (hle : first ≤ y) {r : FrameState × Bool}
    (h : Ran F t f rows first y r) :
    Ran F t f rows first (y + 1) (Posh.Term.Render.putRow true f y (rows.getD y []) r.1 r.2) := by
  obtain ⟨fr, wrap⟩ := r
  have hpassed := putRow_passed (rows.getD y []) hf hy h.enters
  have hwraps := h.wraps
  have hpast := h.past_iff
  dsimp only at hpassed hwraps hpast
  dsimp only
  generalize Posh.Term.Render.putRow true f y (rows.getD y []) fr wrap = r' at hpassed
  have huntouched := @untouched_iff F f y rows first hf hy
  rw [← hwraps] at huntouched
  have hends : EndsPast f rows first y ↔
      y + 1 = f.rows ∧ WritesLast f y (rows.getD y []) (startCol f y wrap) ∨
        wrap = true ∧ (f.cellAt y 0).width = f.cols := by
    rw [EndsPast, ← hwraps]
  refine ⟨hpassed.enters, ?_, fun hr' j => ?_⟩
  · rw [Bool.eq_iff_iff, hpassed.wraps_iff, hwraps]
    exact ⟨fun hw => decide_eq_true ⟨hle, hw⟩, fun hw => (of_decide_eq_true hw).2⟩
  · by_cases htouched : Untouched f rows first y
    · obtain ⟨hwrap, hno⟩ := huntouched.mp htouched
      rw [hpassed.same hwrap hno, hpast hwrap]
      refine and_congr_right fun _ => ?_
      constructor
      · rintro ⟨hj, hend, hrest⟩
        refine ⟨by omega, hend, fun y' hy' hj' => ?_⟩
        rcases Nat.lt_or_eq_of_le (Nat.lt_succ_iff.mp hy') with hlt | rfl
        · exact hrest y' hlt hj'
        · exact htouched
      · rintro ⟨hj, hend, hrest⟩
        refine ⟨?_, hend, fun y' hy' => hrest y' (by omega)⟩
        rcases Nat.lt_or_eq_of_le (Nat.lt_succ_iff.mp hj) with hlt | rfl
        · exact hlt
        · rcases hends.mp hend with ⟨-, hwrites⟩ | ⟨hwrap', -⟩
          · rw [startCol, hwrap, if_neg Bool.false_ne_true] at hwrites
            exact absurd (hwrites.changed hf hy) hno
          · rw [hwrap] at hwrap'
            cases hwrap'
    · have htouched' : wrap = true ∨ Changed (f.cells.getD y []) (rows.getD y []) 0 f.cols := by
        by_contra hneither
        rw [not_or, Bool.not_eq_true] at hneither
        exact htouched (huntouched.mpr hneither)
      rw [hpassed.past_iff htouched' hr', ← hends]
      constructor
      · rintro ⟨rfl, hend⟩
        exact ⟨hle, Nat.lt_succ_self j, hend, fun y' hy' hj' => by omega⟩
      · rintro ⟨-, hj, hend, hrest⟩
        rcases Nat.lt_or_eq_of_le (Nat.lt_succ_iff.mp hj) with hlt | rfl
        · exact absurd (hrest y (Nat.lt_succ_self y) hlt) htouched
        · exact ⟨rfl, hend⟩

end Ran

/-- **All rows.** -/
theorem ran_putRows (rows : List (List Cell)) (hf : f.FitsIn F) (hle : first ≤ f.rows) (h : Follows F t fr)
    (hx : fr.x ≠ f.cols) : Follows F t (putRows true f rows first fr) ∧
      ∀ j : ℕ, (putRows true f rows first fr).y = j ∧ (putRows true f rows first fr).x = f.cols ↔
        first ≤ j ∧ j < f.rows ∧ EndsPast f rows first j ∧ ∀ y < f.rows, j < y → Untouched f rows first y := by
  have hrun : ∀ n, first + n ≤ f.rows → Ran F t f rows first (first + n)
      ((List.range' first n).foldl (fun s y => putRow true f y (rows.getD y []) s.1 s.2) (fr, false)) := by
    intro n
    induction n with
    | zero => exact fun _ => .start h hx
    | succ n ih =>
      intro hn
      rw [List.range'_concat, List.foldl_append, Nat.one_mul]
      exact (ih (by omega)).putRow hf (by omega) (Nat.le_add_right _ _)
  have hran := hrun (f.rows - first) (by omega)
  rw [Nat.add_sub_cancel' hle] at hran
  have hwrap : wrapsInto f rows first f.rows = false := by
    cases hrows : f.rows with
    | zero => rfl
    | succ n => exact decide_eq_false fun hno => by omega
  exact ⟨(hran.enters.follows (hran.wraps.trans hwrap)).1, hran.past_iff (hran.wraps.trans hwrap)⟩

end Posh.Term.Render
