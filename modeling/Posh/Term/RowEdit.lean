/-
**Edits of one row.**

Writing, blanking and shifting cells change one row of a screen and leave the others, the scrollback and
the size as they are.  What the row holds afterwards is read cell by cell.
-/

import Posh.Term.SoundCsi

set_option autoImplicit false

namespace Posh.Term

namespace Screen

variable {P : Cell → Prop} {rows cols ring row : ℕ} {s s' s'' : Screen}

/-- One row may differ, which the screen has. -/
structure EditsRow (row : ℕ) (s s' : Screen) : Prop where
  rows : s'.rows = s.rows
  cols : s'.cols = s.cols
  scrollback : s'.scrollback = s.scrollback
  height : s'.grid.length = s.grid.length
  others : ∀ r, r ≠ row → s'.grid[r]? = s.grid[r]?

namespace EditsRow

theorem refl (row : ℕ) (s : Screen) : EditsRow row s s := ⟨rfl, rfl, rfl, rfl, fun _ _ => rfl⟩

theorem trans (h : EditsRow row s s') (h' : EditsRow row s' s'') : EditsRow row s s'' :=
  ⟨h'.rows.trans h.rows, h'.cols.trans h.cols, h'.scrollback.trans h.scrollback,
    h'.height.trans h.height, fun r hr => (h'.others r hr).trans (h.others r hr)⟩

theorem lt (h : EditsRow row s s') (hr : row < s.grid.length) : row < s'.grid.length := by
  rw [h.height]
  exact hr

theorem cell? (h : EditsRow row s s') {r : ℕ} (hne : r ≠ row) (c : ℕ) : s'.cell? r c = s.cell? r c := by
  rw [Screen.cell?, h.others r hne, Screen.cell?]

theorem modifyRow (hr : row < s.grid.length) (f : Row → Row) : EditsRow row s (s.modifyRow row f) := by
  refine ⟨rfl, rfl, rfl, ?_, fun r hne => ?_⟩
  · rw [Screen.modifyRow, List.length_modify]
  · rw [Screen.modifyRow, Nat.min_eq_left (by omega)]
    exact List.getElem?_modify_ne f _ hne.symm

theorem modifyCell (hr : row < s.grid.length) (c : ℕ) (f : Cell → Cell) :
    EditsRow row s (s.modifyCell row c f) := modifyRow hr _

theorem setCell (hr : row < s.grid.length) (c : ℕ) (cell : Cell) :
    EditsRow row s (s.setCell row c cell) := modifyRow hr _

theorem ite {c : Prop} [Decidable c] (h : EditsRow row s s') (h' : EditsRow row s s'') :
    EditsRow row s (if c then s' else s'') := by
  split
  · exact h
  · exact h'

theorem foldl {α : Type} {f : Screen → α → Screen}
    (hf : ∀ (s : Screen) a, row < s.grid.length → EditsRow row s (f s a)) (as : List α)
    (hr : row < s.grid.length) : EditsRow row s (as.foldl f s) := by
  induction as generalizing s with
  | nil => exact refl row s
  | cons a as ih => exact (hf s a hr).trans (ih ((hf s a hr).lt hr))

end EditsRow

theorem row?_modifyRow (hr : row < s.grid.length) (f : Row → Row) :
    (s.modifyRow row f).grid[row]? = (s.grid[row]?).map f := by
  rw [modifyRow, Nat.min_eq_left (by omega)]
  exact List.getElem?_modify_eq f row _

theorem cell?_modifyCell (h : s.Fits P rows cols ring) (hr : row < rows) (col : ℕ) (f : Cell → Cell)
    (c : ℕ) : (s.modifyCell row col f).cell? row c =
      if c = min col (cols - 1) then (s.cell? row c).map f else s.cell? row c := by
  rw [← h.height] at hr
  rw [modifyCell, cell?, row?_modifyRow hr, cell?, h.cols_eq]
  cases s.grid[row]? with
  | none => simp
  | some r =>
    rw [Option.map_some, Option.bind_some, Option.bind_some]
    split
    · rename_i heq
      rw [heq]
      exact List.getElem?_modify_eq f _ _
    · rename_i hne
      exact List.getElem?_modify_ne f _ (Ne.symm hne)

theorem cell?_setCell (h : s.Fits P rows cols ring) (hr : row < rows) {col : ℕ} (hc : col < cols)
    (cell : Cell) (c : ℕ) :
    (s.setCell row col cell).cell? row c = if c = col then some cell else s.cell? row c := by
  rw [setCell, cell?_modifyCell h hr, Nat.min_eq_left (by omega)]
  split
  · rename_i heq
    have hrow : row < s.grid.length := by
      rw [h.height]
      exact hr
    have hcell : c < s.grid[row].cells.length := by
      rw [(h.grid _ (List.getElem_mem hrow)).width]
      omega
    rw [cell?, List.getElem?_eq_getElem hrow, Option.bind_some, List.getElem?_eq_getElem hcell,
      Option.map_some]
  · rfl

theorem cell?_eq_none (h : s.Fits P rows cols ring) {r c : ℕ} (hc : cols ≤ c) : s.cell? r c = none := by
  rw [cell?]
  cases hrow : s.grid[r]? with
  | none => rfl
  | some row =>
    rw [Option.bind_some, List.getElem?_eq_none]
    rw [(h.grid row (List.mem_of_getElem? hrow)).width]
    exact hc

/-- The widths of a row's cells. -/
def widths (s : Screen) (r c : ℕ) : Option ℕ := (s.cell? r c).map Cell.width

theorem widths_setCell (h : s.Fits P rows cols ring) (hr : row < rows) {col : ℕ} (hc : col < cols)
    (cell : Cell) (c : ℕ) :
    (s.setCell row col cell).widths row c = if c = col then some cell.width else s.widths row c := by
  rw [widths, cell?_setCell h hr hc]
  split <;> rfl

theorem widths_eq_none (h : s.Fits P rows cols ring) {r c : ℕ} (hc : cols ≤ c) : s.widths r c = none := by
  rw [widths, cell?_eq_none h hc]
  rfl

theorem isWidth_iff (s : Screen) (r c n : ℕ) :
    ((s.cell? r c).map fun cell => decide (cell.width = n)).getD false = true ↔ s.widths r c = some n := by
  rw [widths]
  cases s.cell? r c <;> simp

end Screen

/-! ### The edits made while printing -/

namespace Terminal

variable {row : ℕ} {s : Screen} {rows cols ring : ℕ} {P : Cell → Prop}

open Posh.Term.Screen (EditsRow)

theorem editsRow_cleanWide (hr : row < s.grid.length) (col w : ℕ) : EditsRow row s (cleanWide s row col w) := by
  rw [cleanWide]
  have hfirst : EditsRow row s
      (if ((s.cell? row col).map fun c => decide (c.width = 0)).getD false ∧ col > 0 then
        s.setCell row (col - 1) (Cell.blank {}) else s) :=
    .ite (.setCell hr _ _) (.refl row s)
  refine hfirst.trans (.foldl (fun s i hs => ?_) _ (hfirst.lt hr))
  exact .ite (.setCell hs _ _) (.refl row s)

theorem editsRow_writeCells (hr : row < s.grid.length) (col : ℕ) (head : Cell) : EditsRow row s
      (let s := (cleanWide s row col head.width).setCell row col head
      if head.width = 2 then s.setCell row (col + 1) { head with ch := Cell.nul, width := 0 }
      else s) := by
  have hclean := editsRow_cleanWide hr col head.width
  have hset := hclean.trans (.setCell (hclean.lt hr) col head)
  exact .ite (hset.trans (.setCell (hset.lt hr) _ _)) hset

theorem editsRow_repairWideHalves (hr : row < s.grid.length) : EditsRow row s (repairWideHalves s row) := by
  refine .foldl (fun s c hs => ?_) _ hr
  exact .ite (.setCell hs _ _) (.refl row s)

/-! ### Blanking a span -/

theorem editsRow_eraseCells (hr : row < s.grid.length) (first last : ℕ) (selective : Bool) :
    EditsRow row s (eraseCells s row first last selective) :=
  .foldl (fun _ _ hs => .modifyCell hs _ _) _ hr

/-- What blanking leaves of a cell. -/
def erased (selective : Bool) (cell : Cell) : Cell :=
  if selective && cell.style.isProtected then cell else Cell.blank {}

theorem cell?_eraseFrom (hP : CellLaw P)
    (h : s.Fits P rows cols ring) (hr : row < rows) (selective : Bool) (first count c : ℕ)
    (hlast : first + count ≤ cols) : ((List.range' first count).foldl (eraseCell row selective) s).cell? row c =
      if first ≤ c ∧ c < first + count then (s.cell? row c).map (erased selective) else s.cell? row c := by
  induction count with
  | zero => rw [if_neg (by omega)]; rfl
  | succ count ih =>
    have hfits : ((List.range' first count).foldl (eraseCell row selective) s).Fits P rows cols
        ring := .foldl (fun s c hs => hs.modifyCell _ _ fun cell hcell => by
          split
          · exact hcell
          · exact hP.blank) _ h
    rw [List.range'_concat, List.foldl_append, Nat.one_mul]
    dsimp only [List.foldl_cons, List.foldl_nil]
    rw [eraseCell, Screen.cell?_modifyCell hfits hr, Nat.min_eq_left (by omega), ih (by omega)]
    split
    · rename_i heq
      rw [if_neg (by omega), if_pos (by omega)]
      rfl
    · split
      · rw [if_pos (by omega)]
      · rw [if_neg (by omega)]

theorem cell?_eraseCells (hP : CellLaw P)
    (h : s.Fits P rows cols ring) (hr : row < rows) {first last : ℕ} (hlast : last < cols)
    (selective : Bool) (c : ℕ) : (eraseCells s row first last selective).cell? row c =
      if first ≤ c ∧ c ≤ last then (s.cell? row c).map (erased selective) else s.cell? row c := by
  by_cases hle : first ≤ last
  · rw [eraseCells, cell?_eraseFrom hP h hr selective first _ c (by omega)]
    split
    · rw [if_pos (by omega)]
    · rw [if_neg (by omega)]
  · rw [eraseCells, show last + 1 - first = 0 by omega, if_neg (by omega)]
    rfl

/-! ### Blanking rows -/

theorem editsRow_eraseRow (hr : row < s.grid.length) (cols : ℕ) (selective : Bool) :
    EditsRow row s (eraseRow cols selective s row) := by
  rw [eraseRow]
  refine .ite ?_ (.modifyRow hr _)
  have hcells := editsRow_eraseCells hr 0 (cols - 1) true
  exact hcells.trans (.modifyRow (hcells.lt hr) _)

theorem cell?_eraseRows (cols : ℕ) (selective : Bool) (count first : ℕ)
    (hrows : first + count ≤ s.grid.length) {r : ℕ} (hr : r < first ∨ first + count ≤ r) (c : ℕ) :
    ((List.range' first count).foldl (eraseRow cols selective) s).cell? r c = s.cell? r c := by
  induction count generalizing s first with
  | zero => rfl
  | succ count ih =>
    have hedit := editsRow_eraseRow (s := s) (show first < s.grid.length by omega) cols selective
    rw [List.range'_succ, List.foldl_cons, ih _ (by rw [hedit.height]; omega) (by omega)]
    exact hedit.cell? (by omega) c

end Terminal

end Posh.Term
