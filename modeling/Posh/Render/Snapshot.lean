/-
**Snapshots.**

A frozen picture of what a terminal shows, which the renderer compares with the one before: the grid of
cells, the cursor, and the few modes that are kept in step on the outer terminal.  A cell carries the
number of its hyperlink; what the number stands for is in the snapshot's own table.
-/

import Posh.Term.Canvas
import Posh.Term.Osc
import Posh.Term.Pairing

set_option autoImplicit false

namespace Posh.Term.Render

open Utf8 (Plain)

variable {γ : Type}

/-- A frozen picture of what a terminal shows. -/
structure Snapshot where
  rows : ℕ
  cols : ℕ
  cells : List (List Cell)
  /-- the row goes on in the next one -/
  wrapped : List Bool
  cursorRow : ℕ
  cursorCol : ℕ
  cursorVisible : Bool
  title : List Char
  /-- how many bells were rung -/
  bellCount : ℕ
  /-- how often something was copied, the slots it went to last, and what it was -/
  clipboardSeq : ℕ
  clipboardKinds : List Char
  clipboard : List UInt8
  reverseVideo : Bool
  bracketedPaste : Bool
  focusReporting : Bool
  alternateScroll : Bool
  appCursorKeys : Bool
  appKeypad : Bool
  /-- 0, or the DECSET number -/
  mouseMode : ℕ
  /-- 0, or the DECSET number -/
  mouseEncoding : ℕ
  kittyKeyboardFlags : UInt8
  /-- the targets of the hyperlinks that the cells carry -/
  hyperlinks : List (ℕ × List Char)
  deriving DecidableEq, Repr

def blankCell : Cell := Cell.blank {}

namespace Snapshot

/-- An empty picture. -/
def blank (rows cols : ℕ) : Snapshot where
  rows := max rows 1
  cols := max cols 1
  cells := List.replicate (max rows 1) (List.replicate (max cols 1) blankCell)
  wrapped := List.replicate (max rows 1) false
  cursorRow := 0
  cursorCol := 0
  cursorVisible := true
  title := []
  bellCount := 0
  clipboardSeq := 0
  clipboardKinds := ['c']
  clipboard := []
  reverseVideo := false
  bracketedPaste := false
  focusReporting := false
  alternateScroll := false
  appCursorKeys := false
  appKeypad := false
  mouseMode := 0
  mouseEncoding := 0
  kittyKeyboardFlags := 0
  hyperlinks := []

/-- A hyperlink that is not in the table yet enters it. -/
def noteLink (t : Terminal γ) (table : List (ℕ × List Char)) (cell : Cell) : List (ℕ × List Char) :=
  if cell.hyperlink ≠ 0 ∧ (table.lookup cell.hyperlink).isNone then
    match t.link cell.hyperlink with
    | some uri => table ++ [(cell.hyperlink, uri)]
    | none => table
  else table

def fromTerm (t : Terminal γ) : Snapshot :=
  let grid := (List.range t.scr.rows).map fun r => (t.scr.row? r).getD {}
  { rows := t.scr.rows
    cols := t.scr.cols
    cells := grid.map Row.cells
    wrapped := grid.map Row.wrapped
    cursorRow := min t.cursor.row (t.scr.rows - 1)
    cursorCol := min t.cursor.col (t.scr.cols - 1)
    cursorVisible := t.modes.cursorVisible
    title := t.title
    bellCount := t.bellCount
    clipboardSeq := t.clipboardSeq
    clipboardKinds := t.clipboardKinds
    clipboard := t.selection (t.clipboardKinds.head?.getD 'c')
    reverseVideo := t.modes.reverseVideo
    bracketedPaste := t.modes.bracketedPaste
    focusReporting := t.modes.focusReporting
    alternateScroll := t.modes.alternateScroll
    appCursorKeys := t.modes.cursorKeys
    appKeypad := t.modes.keypadApp
    mouseMode := t.modes.mouseMode.decset.getD 0
    mouseEncoding := t.modes.mouseProtocol.decset.getD 0
    kittyKeyboardFlags := t.kittyStack.flags
    hyperlinks := (grid.flatMap Row.cells).foldl (noteLink t) [] }

def cell? (s : Snapshot) (r c : ℕ) : Option Cell := (s.cells[r]?).bind fun row => row[c]?

/-- The target of a hyperlink number; nothing for no hyperlink. -/
def linkUri (s : Snapshot) (id : ℕ) : List Char :=
  if id = 0 then [] else (s.hyperlinks.lookup id).getD []

end Snapshot

/-! ### Sound pictures -/

/-- A cell shows a character of its width, or is a spacer. -/
structure Printed (c : Cell) : Prop where
  width : c.width = wcwidth c.ch
  spacer : c.width = 0 → c.ch = Cell.nul
  extra : ∀ m ∈ c.extra, Mark m

/-- What a picture of a terminal keeps. -/
structure Snapshot.Sound (s : Snapshot) : Prop where
  rows_pos : 0 < s.rows
  rows_le : s.rows ≤ 65535
  cols_pos : 0 < s.cols
  cols_le : s.cols ≤ 65535
  height : s.cells.length = s.rows
  width : ∀ row ∈ s.cells, row.length = s.cols
  printed : ∀ row ∈ s.cells, ∀ c ∈ row, Printed c
  wrapped : s.wrapped.length = s.rows
  cursorRow : s.cursorRow < s.rows
  cursorCol : s.cursorCol < s.cols
  title : ∀ c ∈ s.title, Plain c
  kinds : ∀ c ∈ s.clipboardKinds, Plain c
  uris : ∀ e ∈ s.hyperlinks, ∀ c ∈ e.2, Plain c
  mouseMode : s.mouseMode ∈ [0, 9, 1000, 1002, 1003]
  mouseEncoding : s.mouseEncoding ∈ [0, 1005, 1006, 1016]

/-- Wide characters are whole. -/
def Snapshot.Paired (s : Snapshot) : Prop := ∀ row ∈ s.cells, PairedFn (widthAt row)

namespace Snapshot

variable {s : Snapshot}

theorem Sound.linkUri (h : s.Sound) (id : ℕ) : ∀ c ∈ s.linkUri id, Plain c := by
  rw [Snapshot.linkUri]
  split
  · exact List.forall_mem_nil _
  · cases hl : s.hyperlinks.lookup id with
    | none => exact List.forall_mem_nil _
    | some uri =>
      obtain ⟨front, back, heq, -⟩ := List.lookup_eq_some_iff.mp hl
      exact h.uris (id, uri) (by rw [heq]; simp)

/-! ### The table of a terminal's picture -/

variable {t : Terminal γ} {f : Terminal.Frame}

theorem grid_eq {P : Cell → Prop} {sc : Screen} {rows cols ring : ℕ} (h : sc.Fits P rows cols ring) :
    ((List.range sc.rows).map fun r => (sc.row? r).getD {}) = sc.grid := by
  have hlen : sc.grid.length = sc.rows := h.height.trans h.rows_eq.symm
  refine List.ext_getElem (by simp [hlen]) fun i hi hi' => ?_
  rw [List.getElem_map, List.getElem_range, Screen.row?, List.getElem?_eq_getElem hi']
  rfl

theorem mem_noteLinks {cells : List Cell} {table : List (ℕ × List Char)} {e : ℕ × List Char}
    (h : e ∈ cells.foldl (noteLink t) table) : e ∈ table ∨ t.link e.1 = some e.2 := by
  induction cells generalizing table with
  | nil => exact .inl h
  | cons cell cells ih =>
    rcases ih h with hmem | hlink
    · rw [noteLink] at hmem
      split at hmem
      · split at hmem
        · rename_i uri huri
          rcases List.mem_append.mp hmem with hmem | hmem
          · exact .inl hmem
          · rw [List.mem_singleton.mp hmem]
            exact .inr huri
        · exact .inl hmem
      · exact .inl hmem
    · exact .inr hlink

/-- **A terminal's picture is sound.** -/
theorem sound_fromTerm (ht : t.Sound f) (hrows : f.rows ≤ 65535)
    (hcols : f.cols ≤ 65535) : (fromTerm t).Sound := by
  obtain ⟨ring, hfits⟩ := ht.scr_fits
  have hgrid := grid_eq hfits
  have hpos := ht.rows_pos
  have hpos' := ht.cols_pos
  have hrow := ht.row_lt
  have hcol := ht.col_lt
  have hrows_eq : t.scr.rows = f.rows := hfits.rows_eq
  have hcols_eq : t.scr.cols = f.cols := hfits.cols_eq
  rw [hrows_eq] at hgrid
  constructor <;> rw [fromTerm] <;> dsimp only <;> try rw [hrows_eq]
  case cols_pos | cols_le => rw [hcols_eq]; assumption
  case height => rw [hgrid, List.length_map, hfits.height]
  case width =>
    rw [hgrid, List.forall_mem_map, hcols_eq]
    exact fun row hrow => (hfits.grid row hrow).width
  case printed =>
    rw [hgrid, List.forall_mem_map]
    intro row hrow c hc
    have hcell := (hfits.grid row hrow).cells c hc
    exact ⟨hcell.width, hcell.spacer, hcell.extra⟩
  case wrapped => rw [hgrid, List.length_map, hfits.height]
  case cursorRow => omega
  case cursorCol => rw [hcols_eq]; omega
  case title => exact ht.title
  case kinds => exact ht.kinds
  case uris =>
    intro e he
    rcases mem_noteLinks he with hnil | hlink
    · cases hnil
    · obtain ⟨link, hlookup, huri⟩ := Option.map_eq_some_iff.mp hlink
      obtain ⟨front, back, heq, -⟩ := List.lookup_eq_some_iff.mp hlookup
      rw [← huri]
      exact (ht.links.texts (e.1, link) (by rw [heq]; simp)).uri
  case mouseMode => cases t.modes.mouseMode <;> decide
  case mouseEncoding => cases t.modes.mouseProtocol <;> decide
  all_goals assumption

theorem paired_fromTerm (ht : t.Sound f) (h : t.scr.Paired) : (fromTerm t).Paired := by
  obtain ⟨ring, hfits⟩ := ht.scr_fits
  have hcells : (fromTerm t).cells =
      ((List.range t.scr.rows).map fun r => (t.scr.row? r).getD {}).map Row.cells := rfl
  rw [Snapshot.Paired, hcells, grid_eq hfits, List.forall_mem_map]
  exact h.grid

end Snapshot

end Posh.Term.Render
