/-
**Screens keep their shape and their cells.**

Every row of a screen, scrollback included, is as wide as the screen, and its grid is as high.  Each
operation on a screen keeps that, and keeps any property of cells that holds of a default blank and of
a wide character's spacer when it holds of the head: nothing else is put into a row without being given
to the operation.  A change of size, with or without rewrapping, is one of them.
-/

import Mathlib.Data.List.DropRight
import Mathlib.Data.List.InsertIdx
import Posh.Term.Screen

set_option autoImplicit false

namespace Posh.Term

open List (forall_mem_append forall_mem_cons forall_mem_nil forall_mem_singleton length_append mem_append mem_of_mem_take)

/-! ### Lists with one element changed -/

variable {α : Type} {l : List α}

theorem forall_mem_modify {P : α → Prop} {f : α → α}
    (hl : ∀ x ∈ l, P x) (hf : ∀ x, P x → P (f x)) (i : ℕ) : ∀ x ∈ l.modify i f, P x := by
  induction l generalizing i with
  | nil => simp
  | cons a l ih =>
    rw [forall_mem_cons] at hl
    cases i with
    | zero =>
      rw [List.modify_zero_cons, forall_mem_cons]
      exact ⟨hf a hl.1, hl.2⟩
    | succ i =>
      rw [List.modify_succ_cons, forall_mem_cons]
      exact ⟨hl.1, ih hl.2 i⟩

theorem forall_mem_insertIdx {P : α → Prop} {a : α}
    (hl : ∀ x ∈ l, P x) (ha : P a) (i : ℕ) : ∀ x ∈ l.insertIdx i a, P x := by
  intro x hx
  rcases List.eq_or_mem_of_mem_insertIdx hx with rfl | hx
  · exact ha
  · exact hl x hx

theorem forall_mem_eraseIdx {P : α → Prop} (hl : ∀ x ∈ l, P x) (i : ℕ) :
    ∀ x ∈ l.eraseIdx i, P x := fun x hx => hl x (List.mem_of_mem_eraseIdx hx)

/-! ### The shape -/

/-- The spacer after a wide head. -/
def Cell.spacer (c : Cell) : Cell :=
  { ch := Cell.nul, style := c.style, width := 0, hyperlink := c.hyperlink }

/-- What operations on screens put into rows by themselves satisfies the property. -/
structure CellLaw (P : Cell → Prop) : Prop where
  blank : P (Cell.blank {})
  spacer : ∀ c, P c → c.width = 2 → P c.spacer

theorem cellLaw_true : CellLaw fun _ => True := ⟨trivial, fun _ _ _ => trivial⟩

/-- A row of a width whose cells satisfy a property. -/
structure Row.Fits (P : Cell → Prop) (cols : ℕ) (r : Row) : Prop where
  width : r.cells.length = cols
  cells : ∀ c ∈ r.cells, P c

/-- A screen of a size and with a bound of its scrollback whose cells satisfy a property. -/
structure Screen.Fits (P : Cell → Prop) (rows cols ring : ℕ) (s : Screen) : Prop where
  rows_eq : s.rows = rows
  cols_eq : s.cols = cols
  ring_eq : s.maxScrollback = ring
  height : s.grid.length = rows
  grid : ∀ r ∈ s.grid, r.Fits P cols
  scrollback : ∀ r ∈ s.scrollback, r.Fits P cols
  ring_le : s.scrollback.length ≤ ring

variable {P Q : Cell → Prop} {rows cols ring : ℕ} {r : Row} {s : Screen}

namespace Row.Fits

theorem mono (h : r.Fits P cols) (hPQ : ∀ c, P c → Q c) : r.Fits Q cols :=
  ⟨h.width, fun c hc => hPQ c (h.cells c hc)⟩

theorem blank (hP : CellLaw P) : (Row.blank cols {}).Fits P cols := by
  refine ⟨List.length_replicate, fun c hc => ?_⟩
  rw [List.eq_of_mem_replicate hc]
  exact hP.blank

theorem of_cells (h : r.Fits P cols) {r' : Row} (heq : r'.cells = r.cells) : r'.Fits P cols :=
  ⟨heq ▸ h.width, heq ▸ h.cells⟩

theorem modify (h : r.Fits P cols) {f : Cell → Cell} (hf : ∀ c, P c → P (f c)) (c : ℕ) :
    Row.Fits P cols { r with cells := r.cells.modify c f } :=
  ⟨by rw [List.length_modify]; exact h.width, forall_mem_modify h.cells hf c⟩

theorem pad (hP : CellLaw P) {cells : List Cell} (hc : ∀ c ∈ cells, P c)
    (hlen : cells.length ≤ cols) (wrapped : Bool) (mark : Option SemanticMark) : Row.Fits P cols
      { cells := cells ++ List.replicate (cols - cells.length) (Cell.blank {}), wrapped, mark } := by
  refine ⟨?_, ?_⟩
  · rw [length_append, List.length_replicate]
    omega
  · intro c hmem
    rcases mem_append.mp hmem with hmem | hmem
    · exact hc c hmem
    · rw [List.eq_of_mem_replicate hmem]
      exact hP.blank

theorem resizeWidth (hP : CellLaw P) {old : ℕ} (h : r.Fits P old) (cols : ℕ) :
    (r.resizeWidth cols).Fits P cols := by
  rw [Row.resizeWidth]
  split
  · rename_i hlt
    have htake : ∀ c ∈ r.cells.take cols, P c := fun c hc => h.cells c (mem_of_mem_take hc)
    dsimp only
    split
    · rename_i last hlast
      have hpos : 0 < cols := by
        by_contra h0
        rw [Nat.eq_zero_of_not_pos h0, List.take_zero] at hlast
        exact absurd hlast (by simp)
      refine ⟨?_, ?_⟩
      · split
        · rw [length_append, List.length_dropLast, List.length_take, List.length_singleton]
          omega
        · rw [List.length_take]
          omega
      · intro c hc
        split at hc
        · rcases mem_append.mp hc with hc | hc
          · exact htake c (List.dropLast_subset _ hc)
          · rw [List.mem_singleton.mp hc]
            exact hP.blank
        · exact htake c hc
    · exact ⟨by rw [List.length_take]; omega, htake⟩
  · rename_i hge
    exact pad hP h.cells (by omega) _ _

end Row.Fits

/-! ### Rows changed -/

namespace Screen.Fits

theorem mono (h : s.Fits P rows cols ring) (hPQ : ∀ c, P c → Q c) : s.Fits Q rows cols ring :=
  { h with
    grid := fun r hr => (h.grid r hr).mono hPQ
    scrollback := fun r hr => (h.scrollback r hr).mono hPQ }

theorem new (hP : CellLaw P) (rows cols maxScrollback : ℕ) :
    (Screen.new rows cols maxScrollback).Fits P (max rows 1) (max cols 1) maxScrollback where
  rows_eq := rfl
  cols_eq := rfl
  ring_eq := rfl
  height := List.length_replicate
  grid := fun r hr => by
    rw [List.eq_of_mem_replicate hr]
    exact .blank hP
  scrollback := forall_mem_nil _
  ring_le := Nat.zero_le _

theorem modifyRow (h : s.Fits P rows cols ring) (r : ℕ) {f : Row → Row}
    (hf : ∀ r, r.Fits P cols → (f r).Fits P cols) : (s.modifyRow r f).Fits P rows cols ring :=
  { h with
    height := by rw [Screen.modifyRow, List.length_modify]; exact h.height
    grid := forall_mem_modify h.grid hf _ }

theorem modifyCell (h : s.Fits P rows cols ring) (r c : ℕ) {f : Cell → Cell} (hf : ∀ c, P c → P (f c)) :
    (s.modifyCell r c f).Fits P rows cols ring :=
  h.modifyRow r fun _ hr => hr.modify hf _

theorem setCell (h : s.Fits P rows cols ring) (r c : ℕ) {cell : Cell} (hc : P cell) :
    (s.setCell r c cell).Fits P rows cols ring := h.modifyCell r c fun _ _ => hc

theorem relabel (h : s.Fits P rows cols ring) (r : ℕ) {f : Row → Row} (hf : ∀ r, (f r).cells = r.cells) :
    (s.modifyRow r f).Fits P rows cols ring :=
  h.modifyRow r fun r hr => hr.of_cells (hf r)

theorem ite {s' : Screen} {c : Prop} [Decidable c] (h : s.Fits P rows cols ring)
    (h' : s'.Fits P rows cols ring) : (if c then s else s').Fits P rows cols ring := by
  split
  · exact h
  · exact h'

theorem foldl {α : Type} {f : Screen → α → Screen}
    (hf : ∀ s a, s.Fits P rows cols ring → (f s a).Fits P rows cols ring) (as : List α)
    (h : s.Fits P rows cols ring) : (as.foldl f s).Fits P rows cols ring := by
  induction as generalizing s with
  | nil => exact h
  | cons a as ih => exact ih (hf s a h)

theorem iterate {f : Screen → Screen}
    (hf : ∀ s, s.Fits P rows cols ring → (f s).Fits P rows cols ring) (n : ℕ) (h : s.Fits P rows cols ring) : (f^[n] s).Fits P rows cols ring := by
  induction n generalizing s with
  | zero => exact h
  | succ n ih =>
    rw [Function.iterate_succ_apply]
    exact ih (hf s h)

/-! ### Scrolling -/

theorem forall_mem_pushScrollback {Q : Row → Prop} (h : ∀ r ∈ s.scrollback, Q r) {row : Row}
    (hr : Q row) : ∀ r ∈ (s.pushScrollback row).scrollback, Q r := by
  intro r hmem
  rw [Screen.pushScrollback] at hmem
  split at hmem
  · rcases mem_append.mp hmem with hmem | hmem
    · refine h r ?_
      split at hmem
      · exact List.mem_of_mem_drop hmem
      · exact hmem
    · rw [List.mem_singleton.mp hmem]
      exact hr
  · exact h r hmem

theorem pushScrollback_shape (s : Screen) (row : Row) :
    (s.pushScrollback row).grid = s.grid ∧ (s.pushScrollback row).rows = s.rows ∧
      (s.pushScrollback row).cols = s.cols ∧ (s.pushScrollback row).maxScrollback = s.maxScrollback := by
  rw [Screen.pushScrollback]
  split <;> exact ⟨rfl, rfl, rfl, rfl⟩

theorem length_pushScrollback_le (h : s.scrollback.length ≤ s.maxScrollback) (row : Row) :
    (s.pushScrollback row).scrollback.length ≤ s.maxScrollback := by
  rw [Screen.pushScrollback]
  split
  · dsimp only
    rw [length_append, List.length_singleton]
    split
    · rw [List.length_drop]
      omega
    · omega
  · exact h

theorem pushScrollback (h : s.Fits P rows cols ring) {row : Row} (hr : row.Fits P cols) :
    (s.pushScrollback row).Fits P rows cols ring := by
  obtain ⟨hgrid, hrows, hcols, hring⟩ := pushScrollback_shape s row
  refine ⟨hrows.trans h.rows_eq, hcols.trans h.cols_eq, hring.trans h.ring_eq,
    by rw [hgrid]; exact h.height, by rw [hgrid]; exact h.grid, forall_mem_pushScrollback h.scrollback hr, ?_⟩
  rw [← h.ring_eq]
  exact length_pushScrollback_le (by rw [h.ring_eq]; exact h.ring_le) row

theorem scrollUpOne (hP : CellLaw P) (h : s.Fits P rows cols ring) {top bot : ℕ} (htb : top ≤ bot)
    (hb : bot < rows) (save : Bool) : (s.scrollUpOne top bot save {}).Fits P rows cols ring := by
  rw [Screen.scrollUpOne]
  split
  · exact h
  · rename_i row hrow
    have hfit := h.grid row (List.mem_of_getElem? hrow)
    have hlt : top < s.grid.length := by rw [h.height]; omega
    have hsaved : (if save then s.pushScrollback row else s).Fits P rows cols ring := by
      split
      · exact h.pushScrollback hfit
      · exact h
    refine { hsaved with height := ?_, grid := ?_ }
    · have hle : bot ≤ (s.grid.eraseIdx top).length := by
        rw [List.length_eraseIdx_of_lt hlt, h.height]
        omega
      rw [List.length_insertIdx_of_le_length hle, List.length_eraseIdx_of_lt hlt, h.height]
      omega
    · refine forall_mem_insertIdx (forall_mem_eraseIdx h.grid top) ?_ bot
      rw [h.cols_eq]
      exact .blank hP

theorem scrollUp (hP : CellLaw P) (h : s.Fits P rows cols ring) (hrows : 0 < rows) (top bot n : ℕ)
    (save : Bool) : (s.scrollUp top bot n save {}).Fits P rows cols ring := by
  rw [Screen.scrollUp]
  split
  · exact h
  · rename_i htb
    have hb : min bot (s.grid.length - 1) < rows := by rw [h.height]; omega
    exact iterate (fun s hs => hs.scrollUpOne hP (by omega) hb save) _ h

theorem scrollDownOne (hP : CellLaw P) (h : s.Fits P rows cols ring) {top bot : ℕ} (htb : top ≤ bot)
    (hb : bot < rows) : (s.scrollDownOne top bot {}).Fits P rows cols ring := by
  have hlt : bot < s.grid.length := by rw [h.height]; exact hb
  refine { h with height := ?_, grid := ?_ }
  · have hle : top ≤ (s.grid.eraseIdx bot).length := by
      rw [List.length_eraseIdx_of_lt hlt, h.height]
      omega
    rw [Screen.scrollDownOne, List.length_insertIdx_of_le_length hle,
      List.length_eraseIdx_of_lt hlt, h.height]
    omega
  · refine forall_mem_insertIdx (forall_mem_eraseIdx h.grid bot) ?_ top
    rw [h.cols_eq]
    exact .blank hP

theorem scrollDown (hP : CellLaw P) (h : s.Fits P rows cols ring) (hrows : 0 < rows) (top bot n : ℕ) :
    (s.scrollDown top bot n {}).Fits P rows cols ring := by
  rw [Screen.scrollDown]
  split
  · exact h
  · rename_i htb
    have hb : min bot (s.grid.length - 1) < rows := by rw [h.height]; omega
    exact iterate (fun s hs => hs.scrollDownOne hP (by omega) hb) _ h

theorem clearScrollback (h : s.Fits P rows cols ring) : s.clearScrollback.Fits P rows cols ring :=
  { h with
    scrollback := forall_mem_nil _
    ring_le := Nat.zero_le _ }

theorem clearGrid (hP : CellLaw P) (h : s.Fits P rows cols ring) : (s.clearGrid {}).Fits P rows cols ring :=
  { h with
    height := by rw [Screen.clearGrid, List.length_map]; exact h.height
    grid := fun r hr => by
      obtain ⟨_, -, rfl⟩ := List.mem_map.mp hr
      rw [h.cols_eq]
      exact .blank hP }

end Screen.Fits

/-! ### Rewrapping -/

namespace Screen

variable {j : ℕ} {cell : Cell}

theorem skippable_of_shownLength_le {cells : List Cell} (hj : shownLength cells ≤ j)
    (hcell : cells[j]? = some cell) : cell.isDumpSkippable := by
  have hlen : shownLength cells = (cells.rdropWhile Cell.isDumpSkippable).length := by
    rw [shownLength, List.rdropWhile, List.length_reverse]
  have hsplit := List.rdropWhile_append_rtakeWhile (p := Cell.isDumpSkippable) (l := cells)
  rw [← hsplit, List.getElem?_append_right (by omega)] at hcell
  exact List.mem_rtakeWhile_imp (List.mem_of_getElem? hcell)

/-- A logical line in the making: full rows, and a row that can take more before cell `j`. -/
structure Wrapping.Fits (P : Cell → Prop) (width : ℕ) (line : List Cell) (j : ℕ) (w : Wrapping) :
    Prop where
  rows : ∀ r ∈ w.rows, r.Fits P width
  cells : ∀ c ∈ w.cur, P c
  len : w.cur.length ≤ width
  room : j < line.length → w.cur.length < width

variable {width : ℕ} {line : List Cell} {w : Wrapping}

theorem Wrapping.Fits.place (hrows : ∀ r ∈ w.rows, r.Fits P width) (hcells : ∀ c ∈ w.cur, P c)
    (hwidth : 0 < width) {placed : List Cell} (hplaced : ∀ c ∈ placed, P c)
    (hlen : w.cur.length + placed.length ≤ width) (next : ℕ) (cursor : Option (ℕ × ℕ)) :
    (({ w with cur := w.cur ++ placed, cursor } : Wrapping).wrapIfFull width
      (decide (next < line.length))).Fits P width line next := by
  have hall : ∀ c ∈ w.cur ++ placed, P c := forall_mem_append.mpr ⟨hcells, hplaced⟩
  rw [Wrapping.wrapIfFull]
  split
  · rename_i hfull
    refine ⟨?_, forall_mem_nil _, Nat.zero_le _, fun _ => hwidth⟩
    refine forall_mem_append.mpr ⟨hrows, ?_⟩
    rw [forall_mem_singleton]
    exact ⟨hfull.1, hall⟩
  · rename_i hnot
    rw [length_append] at hnot
    refine ⟨hrows, hall, by rw [length_append]; exact hlen, fun hj => ?_⟩
    rw [length_append]
    have : ¬ (w.cur.length + placed.length = width) := fun heq => hnot ⟨heq, by simpa using hj⟩
    omega

theorem Wrapping.Fits.makeRoom (hP : CellLaw P) (hw : w.Fits P width line j) {cw : ℕ}
    (hcw : cw ≤ width) {w' : Wrapping} (hw' : w' = if w.cur.length + cw > width then
      ({ w with cur := w.cur ++ List.replicate (width - w.cur.length) (Cell.blank {}) } :
        Wrapping).wrap else w) :
    (∀ r ∈ w'.rows, r.Fits P width) ∧ (∀ c ∈ w'.cur, P c) ∧ w'.cur.length + cw ≤ width := by
  rw [hw']
  split
  · refine ⟨forall_mem_append.mpr ⟨hw.rows, ?_⟩, forall_mem_nil _, ?_⟩
    · rw [forall_mem_singleton]
      exact .pad hP hw.cells hw.len true none
    · simpa [Wrapping.wrap] using hcw
  · exact ⟨hw.rows, hw.cells, by omega⟩

theorem wrapCell_fits (hP : CellLaw P) (hwidth : 0 < width) (hw : w.Fits P width line j)
    (hj : j < line.length) (hcell : P cell) (cursorOff : Option ℕ) :
    ((wrapCell width line cursorOff w j cell).1).Fits P width line (wrapCell width line cursorOff w j cell).2 := by
  have hroom := hw.room hj
  rw [wrapCell]
  dsimp only
  split
  · -- a spacer is passed over
    refine ⟨?_, ?_, ?_, fun _ => ?_⟩ <;> split <;> first
      | exact hw.rows
      | exact hw.cells
      | exact hw.len
      | exact hroom
  · split
    · -- a blank stands for a wide character that fits nowhere
      have hblank : ∀ c ∈ [Cell.blank {}], P c := forall_mem_singleton.mpr hP.blank
      split
      · exact .place hw.rows hw.cells hwidth hblank hroom _ _
      · exact .place hw.rows hw.cells hwidth hblank hroom _ w.cursor
    · rename_i hzero hfit
      have hplaced : ∀ c ∈ (if max cell.width 1 = 2 then [cell, cell.spacer] else [cell]), P c := by
        split
        · rename_i h2
          exact forall_mem_cons.mpr
            ⟨hcell, forall_mem_singleton.mpr (hP.spacer cell hcell (by omega))⟩
        · exact forall_mem_singleton.mpr hcell
      have hlen : (if max cell.width 1 = 2 then [cell, cell.spacer] else [cell]).length ≤
          max cell.width 1 := by
        split
        · rename_i h2
          rw [h2]
          exact Nat.le_refl _
        · exact Nat.le_max_right _ _
      obtain ⟨hrows, hcells, hroom'⟩ := hw.makeRoom hP (Nat.le_of_not_lt hfit) rfl
      have hfits := Nat.le_trans (Nat.add_le_add_left hlen _) hroom'
      split
      · split
        · exact .place hrows hcells hwidth hplaced hfits _ _
        · exact .place hrows hcells hwidth hplaced hfits _ _
      · exact .place hrows hcells hwidth hplaced hfits _ _

theorem wrapFrom_fits (hP : CellLaw P) (hwidth : 0 < width) (hline : ∀ c ∈ line, P c)
    (cursorOff : Option ℕ) (fuel : ℕ) (hw : w.Fits P width line j) :
    ∃ j', (wrapFrom width line cursorOff fuel w j).Fits P width line j' := by
  induction fuel generalizing w j with
  | zero => exact ⟨j, hw⟩
  | succ fuel ih =>
    rw [wrapFrom]
    split
    · exact ⟨j, hw⟩
    · rename_i cell hcell
      obtain ⟨hj, -⟩ := List.getElem?_eq_some_iff.mp hcell
      exact ih (wrapCell_fits hP hwidth hw hj (hline cell (List.mem_of_getElem? hcell)) cursorOff)

theorem wrapLine_fits (hP : CellLaw P) (hwidth : 0 < width) (hline : ∀ c ∈ line, P c)
    (mark : Option SemanticMark) (cursorOff : Option ℕ) {done : List Row}
    (hdone : ∀ r ∈ done, r.Fits P width) (cursor : Option (ℕ × ℕ)) :
    ∀ r ∈ (wrapLine width line mark cursorOff done cursor).1, r.Fits P width := by
  simp only [wrapLine]
  generalize hkeep : line.take _ = kept
  have hkept : ∀ c ∈ kept, P c := by
    intro c hc
    rw [← hkeep] at hc
    exact hline c (mem_of_mem_take hc)
  have hstart : ({ rows := done, cursor } : Wrapping).Fits P width kept 0 :=
    ⟨hdone, forall_mem_nil _, Nat.zero_le _, fun _ => hwidth⟩
  obtain ⟨j, hw⟩ := wrapFrom_fits hP hwidth hkept cursorOff kept.length hstart
  refine forall_mem_modify ?_ (fun r hr => hr.of_cells rfl) _
  refine forall_mem_append.mpr ⟨hw.rows, ?_⟩
  rw [forall_mem_singleton, List.take_of_length_le hw.len]
  exact .pad hP hw.cells hw.len false none

theorem takeLine_subset (rows : List Row) :
    (∀ r ∈ (takeLine rows).1, r ∈ rows) ∧ ∀ r ∈ (takeLine rows).2, r ∈ rows := by
  induction rows with
  | nil => exact ⟨forall_mem_nil _, forall_mem_nil _⟩
  | cons r rest ih =>
    rw [takeLine]
    split
    · refine ⟨forall_mem_cons.mpr ⟨List.mem_cons_self, fun x hx => ?_⟩, fun x hx => ?_⟩
      · exact List.mem_cons_of_mem r (ih.1 x hx)
      · exact List.mem_cons_of_mem r (ih.2 x hx)
    · exact ⟨forall_mem_singleton.mpr List.mem_cons_self, fun x hx => List.mem_cons_of_mem r hx⟩

theorem wrapLines_fits (hP : CellLaw P) (hwidth : 0 < width) (cursorAbs cursorCol fuel i : ℕ)
    {old done : List Row} (hold : ∀ r ∈ old, ∀ c ∈ r.cells, P c)
    (hdone : ∀ r ∈ done, r.Fits P width) (cursor : Option (ℕ × ℕ)) :
    ∀ r ∈ (wrapLines width cursorAbs cursorCol fuel i old done cursor).1, r.Fits P width := by
  induction fuel generalizing i old done cursor with
  | zero => exact hdone
  | succ fuel ih =>
    cases old with
    | nil => exact hdone
    | cons r rest =>
      rw [wrapLines]
      obtain ⟨hline, hrest⟩ := takeLine_subset (r :: rest)
      refine ih _ (fun x hx => hold x (hrest x hx)) (wrapLine_fits hP hwidth ?_ _ _ hdone _) _
      intro c hc
      obtain ⟨row, hrow, hcell⟩ := List.mem_flatMap.mp hc
      exact hold row (hline row hrow) c hcell

theorem dropBlankRows_subset (keep : ℕ) (rows : List Row) : ∀ r ∈ dropBlankRows keep rows, r ∈ rows := by
  intro r hr
  rcases mem_append.mp hr with hr | hr
  · exact mem_of_mem_take hr
  · have := (List.dropWhile_suffix _).subset (List.mem_reverse.mp hr)
    exact List.mem_of_mem_drop (List.mem_reverse.mp this)

theorem Fits.reflowWidth (hP : CellLaw P) (h : s.Fits P rows cols ring) (hwidth : 0 < width)
    (cursor : ℕ × ℕ) : (s.reflowWidth width cursor).1.Fits P rows width ring := by
  rw [Screen.reflowWidth]
  dsimp only
  generalize hdone : wrapLines _ _ _ _ _ _ _ _ = done
  have hfits : ∀ r ∈ done.1, r.Fits P width := by
    rw [← hdone]
    refine wrapLines_fits hP hwidth _ _ _ _ (fun r hr => ?_) (forall_mem_nil _) _
    rcases mem_append.mp (dropBlankRows_subset _ _ r hr) with hr | hr
    · exact (h.scrollback r hr).cells
    · exact (h.grid r hr).cells
  generalize hfound : done.2.getD (0, 0) = found
  obtain ⟨curAbs, curCol⟩ := found
  dsimp only
  generalize hkept : (if curAbs < done.1.length - s.rows then
    done.1.take (min curAbs (done.1.length - s.rows) + s.rows) else done.1) = kept
  have hkfits : ∀ r ∈ kept, r.Fits P width := by
    intro r hr
    rw [← hkept] at hr
    split at hr
    · exact hfits r (mem_of_mem_take hr)
    · exact hfits r hr
  have hlen : (kept.drop (min curAbs (done.1.length - s.rows))).length ≤ s.rows := by
    rw [← hkept, List.length_drop]
    split
    · rw [List.length_take]
      omega
    · omega
  refine ⟨h.rows_eq, rfl, h.ring_eq, ?_, ?_, ?_, ?_⟩
  · rw [length_append, List.length_replicate, ← h.rows_eq]
    omega
  · refine forall_mem_append.mpr ⟨fun r hr => hkfits r (List.mem_of_mem_drop hr), ?_⟩
    intro r hr
    rw [List.eq_of_mem_replicate hr]
    exact .blank hP
  · exact fun r hr => hkfits r (mem_of_mem_take (List.mem_of_mem_drop hr))
  · rw [List.length_drop, ← h.ring_eq]
    omega

/-! ### Resizing -/

/-- The rows of a screen fit, however many there are. -/
structure RowsFit (P : Cell → Prop) (cols ring : ℕ) (s : Screen) : Prop where
  cols_eq : s.cols = cols
  ring_eq : s.maxScrollback = ring
  grid : ∀ r ∈ s.grid, r.Fits P cols
  scrollback : ∀ r ∈ s.scrollback, r.Fits P cols
  ring_le : s.scrollback.length ≤ ring

theorem RowsFit.shrink (rows : ℕ) (reflow : Bool) (fuel cursorRow : ℕ) (h : s.RowsFit P cols ring)
    (hfuel : s.grid.length ≤ rows + fuel) : (shrink rows reflow fuel s cursorRow).1.RowsFit P cols ring ∧
      (shrink rows reflow fuel s cursorRow).1.grid.length = min s.grid.length rows := by
  induction fuel generalizing s cursorRow with
  | zero => exact ⟨h, (Nat.min_eq_left hfuel).symm⟩
  | succ fuel ih =>
    rw [Screen.shrink]
    split
    · rename_i hlt
      have hlen : s.grid.dropLast.length = s.grid.length - 1 := List.length_dropLast
      have hmin : min s.grid.length rows = min s.grid.dropLast.length rows := by omega
      have hbottom := ih (s := { s with grid := s.grid.dropLast }) cursorRow
        { h with grid := fun r hr => h.grid r (List.dropLast_subset _ hr) }
        (by rw [hlen]; omega)
      dsimp only
      split
      · rw [hmin]
        exact hbottom
      · split
        · split
          · rename_i hgrid
            rw [hgrid] at hlt
            exact absurd hlt (by simp)
          · rename_i row grid hgrid
            have hrow : row.Fits P cols := h.grid row (hgrid ▸ List.mem_cons_self)
            have htop := ih (s := { s.pushScrollback row with grid }) (cursorRow - 1)
              { cols_eq := (Fits.pushScrollback_shape s row).2.2.1.trans h.cols_eq
                ring_eq := (Fits.pushScrollback_shape s row).2.2.2.trans h.ring_eq
                grid := fun r hr => h.grid r (hgrid ▸ List.mem_cons_of_mem row hr)
                scrollback := Fits.forall_mem_pushScrollback h.scrollback hrow
                ring_le := Nat.le_trans (Fits.length_pushScrollback_le (h.ring_eq ▸ h.ring_le) row)
                  (Nat.le_of_eq h.ring_eq) }
              (by rw [hgrid, List.length_cons] at hfuel; dsimp only; omega)
            rw [hgrid, List.length_cons] at hlt ⊢
            rw [show min (grid.length + 1) rows = min grid.length rows by omega]
            exact htop
        · rw [hmin]
          exact hbottom
    · exact ⟨h, by dsimp only; omega⟩

theorem RowsFit.grow (hP : CellLaw P) (rows : ℕ) (reflow : Bool) (fuel cursorRow : ℕ)
    (h : s.RowsFit P cols ring) (hfuel : rows ≤ s.grid.length + fuel) :
    (grow rows cols reflow fuel s cursorRow).1.RowsFit P cols ring ∧
      (grow rows cols reflow fuel s cursorRow).1.grid.length = max s.grid.length rows := by
  induction fuel generalizing s cursorRow with
  | zero => exact ⟨h, (Nat.max_eq_left hfuel).symm⟩
  | succ fuel ih =>
    rw [Screen.grow.eq_def]
    dsimp only
    split
    · rename_i hlt
      have hmax : max s.grid.length rows = max (s.grid.length + 1) rows := by omega
      rw [hmax]
      split
      · rename_i row hrow
        exact ih (s := { s with grid := row :: s.grid, scrollback := s.scrollback.dropLast }) _
          { h with
            grid := forall_mem_cons.mpr ⟨h.scrollback row (List.mem_of_getLast? hrow), h.grid⟩
            scrollback := fun r hr => h.scrollback r (List.dropLast_subset _ hr)
            ring_le := by
              have := h.ring_le
              rw [List.length_dropLast]
              omega }
          (by rw [List.length_cons]; omega)
      · have := ih (s := { s with grid := s.grid ++ [Row.blank cols {}] }) cursorRow { h with
            grid := forall_mem_append.mpr ⟨h.grid, forall_mem_singleton.mpr (.blank hP)⟩ }
          (by rw [length_append, List.length_singleton]; omega)
        rwa [length_append, List.length_singleton] at this
    · exact ⟨h, by dsimp only; omega⟩

/-- **A change of size gives the new shape.** -/
theorem Fits.resize (hP : CellLaw P) (h : s.Fits P rows cols ring) (newRows newCols : ℕ)
    (cursor : ℕ × ℕ) (reflow : Bool) :
    (s.resize newRows newCols cursor reflow).1.Fits P (max newRows 1) (max newCols 1) ring := by
  rw [Screen.resize]
  dsimp only
  generalize hwide : (if max newCols 1 ≠ s.cols then _ else (s, cursor)) = wide
  have hfit : wide.1.RowsFit P (max newCols 1) ring := by
    rw [← hwide]
    split
    · split
      · have := h.reflowWidth hP (Nat.le_max_right newCols 1) cursor
        exact ⟨this.cols_eq, this.ring_eq, this.grid, this.scrollback, this.ring_le⟩
      · refine ⟨rfl, h.ring_eq, fun r hr => ?_, fun r hr => ?_, ?_⟩
        · obtain ⟨r₀, hr₀, rfl⟩ := List.mem_map.mp hr
          exact (h.grid r₀ hr₀).resizeWidth hP _
        · obtain ⟨r₀, hr₀, rfl⟩ := List.mem_map.mp hr
          exact (h.scrollback r₀ hr₀).resizeWidth hP _
        · rw [List.length_map]
          exact h.ring_le
    · rename_i heq
      rw [Ne, Decidable.not_not] at heq
      rw [heq, h.cols_eq]
      exact ⟨h.cols_eq, h.ring_eq, h.grid, h.scrollback, h.ring_le⟩
  obtain ⟨hshrunk, hlen⟩ := hfit.shrink (max newRows 1) reflow
    (wide.1.grid.length - max newRows 1) wide.2.1 (by omega)
  obtain ⟨hgrown, hheight⟩ := hshrunk.grow hP (max newRows 1) reflow
    (max newRows 1 - (shrink (max newRows 1) reflow (wide.1.grid.length - max newRows 1) wide.1
      wide.2.1).1.grid.length)
    (shrink (max newRows 1) reflow (wide.1.grid.length - max newRows 1) wide.1 wide.2.1).2
    (by omega)
  exact ⟨rfl, hgrown.cols_eq, hgrown.ring_eq, by rw [hheight, hlen]; omega, hgrown.grid,
    hgrown.scrollback, hgrown.ring_le⟩

end Screen

end Posh.Term
