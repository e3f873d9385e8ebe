/-
**The grid and its scrollback.**

A screen is a grid of rows and, for the primary screen, a ring of the rows that scrolled off its top.
A row knows whether it was soft-wrapped onto the next one.  When the width changes the primary screen
rewraps: rows joined by soft wraps are one logical line, which is cut again at the new width without
splitting a wide character, and the cursor follows its cell.
-/

import Mathlib.Logic.Function.Iterate
import Posh.Term.Cell

set_option autoImplicit false

namespace Posh.Term

/-! ### Rows -/

/-- A shell-integration mark. -/
inductive SemanticMark where
  | promptStart
  | inputStart
  | outputStart
  | commandEnd
  deriving DecidableEq, Repr

/-- One row of a screen or of its scrollback. -/
structure Row where
  cells : List Cell := []
  /-- the row goes on in the next one -/
  wrapped : Bool := false
  mark : Option SemanticMark := none
  deriving DecidableEq, Repr

namespace Row

def blank (cols : ℕ) (style : Style) : Row := { cells := List.replicate cols (Cell.blank style) }

/-- Cuts or pads a row; a wide head whose spacer was cut off is blanked. -/
def resizeWidth (r : Row) (cols : ℕ) : Row :=
  if cols < r.cells.length then
    let cut := r.cells.take cols
    match cut.getLast? with
    | some last =>
      { r with cells := if last.width = 2 then cut.dropLast ++ [Cell.blank {}] else cut }
    | none => { r with cells := cut }
  else { r with cells := r.cells ++ List.replicate (cols - r.cells.length) (Cell.blank {}) }

/-- Every cell can be left out when drawing. -/
def isSkippable (r : Row) : Bool := r.cells.all Cell.isDumpSkippable

end Row

/-! ### Screens -/

/-- A grid with its scrollback. -/
structure Screen where
  rows : ℕ
  cols : ℕ
  grid : List Row
  /-- oldest first -/
  scrollback : List Row := []
  maxScrollback : ℕ
  /-- how many rows ever entered the scrollback -/
  scrollbackTotal : ℕ := 0
  deriving DecidableEq, Repr

namespace Screen

/-- A blank screen. -/
def new (rows cols maxScrollback : ℕ) : Screen :=
  { rows := max rows 1
    cols := max cols 1
    grid := List.replicate (max rows 1) (Row.blank (max cols 1) {})
    maxScrollback }

def row? (s : Screen) (r : ℕ) : Option Row := s.grid[r]?

def cell? (s : Screen) (r c : ℕ) : Option Cell := (s.grid[r]?).bind fun row => row.cells[c]?

/-- Changes a row; an index past the grid means its last row. -/
def modifyRow (s : Screen) (r : ℕ) (f : Row → Row) : Screen :=
  { s with grid := s.grid.modify (min r (s.grid.length - 1)) f }

/-- Changes a cell; a column past the width means the last one. -/
def modifyCell (s : Screen) (r c : ℕ) (f : Cell → Cell) : Screen :=
  s.modifyRow r fun row => { row with cells := row.cells.modify (min c (s.cols - 1)) f }

/-- Puts a cell at a position. -/
def setCell (s : Screen) (r c : ℕ) (cell : Cell) : Screen := s.modifyCell r c fun _ => cell

/-! ### Scrolling -/

/-- A row enters the scrollback; the oldest one leaves a full ring. -/
def pushScrollback (s : Screen) (row : Row) : Screen :=
  if s.maxScrollback > 0 then
    let kept := if s.scrollback.length ≥ s.maxScrollback then s.scrollback.drop 1 else s.scrollback
    { s with scrollback := kept ++ [row], scrollbackTotal := s.scrollbackTotal + 1 }
  else s

/-- Rows `top` to `bot` move up by one. -/
def scrollUpOne (top bot : ℕ) (save : Bool) (style : Style) (s : Screen) : Screen :=
  match s.grid[top]? with
  | none => s
  | some row =>
    let saved := if save then s.pushScrollback row else s
    { saved with grid := (s.grid.eraseIdx top).insertIdx bot (Row.blank s.cols style) }

/-- Rows `top` to `bot` move up by `n`; those leaving are saved in the scrollback if `save`. -/
def scrollUp (s : Screen) (top bot n : ℕ) (save : Bool) (style : Style) : Screen :=
  let bot := min bot (s.grid.length - 1)
  if top > bot then s
  else (scrollUpOne top bot save style)^[max (min n (bot - top + 1)) 1] s

/-- Rows `top` to `bot` move down by one. -/
def scrollDownOne (top bot : ℕ) (style : Style) (s : Screen) : Screen :=
  { s with grid := (s.grid.eraseIdx bot).insertIdx top (Row.blank s.cols style) }

/-- Rows `top` to `bot` move down by `n`. -/
def scrollDown (s : Screen) (top bot n : ℕ) (style : Style) : Screen :=
  let bot := min bot (s.grid.length - 1)
  if top > bot then s else (scrollDownOne top bot style)^[max (min n (bot - top + 1)) 1] s

def clearScrollback (s : Screen) : Screen := { s with scrollback := [] }

def clearGrid (s : Screen) (style : Style) : Screen :=
  { s with grid := s.grid.map fun _ => Row.blank s.cols style }

/-! ### Rewrapping -/

/-- The rows up to the first one that is not soft-wrapped, and the rows after it. -/
def takeLine : List Row → List Row × List Row
  | [] => ([], [])
  | r :: rest =>
    if r.wrapped then ((r :: (takeLine rest).1), (takeLine rest).2) else ([r], rest)

/-- Drops blank rows from the end, down to `keep` rows. -/
def dropBlankRows (keep : ℕ) (rows : List Row) : List Row :=
  let dropped := (rows.drop keep).reverse.dropWhile fun r => r.isSkippable && !r.wrapped
  rows.take keep ++ dropped.reverse

/-- The number of cells up to the last one that shows something. -/
def shownLength (cells : List Cell) : ℕ :=
  (cells.reverse.dropWhile Cell.isDumpSkippable).length

/-- A logical line while it is cut: the finished rows, the row being filled, and where the cursor
came to lie. -/
structure Wrapping where
  rows : List Row
  cur : List Cell := []
  cursor : Option (ℕ × ℕ) := none

/-- Ends the row being filled with a soft wrap. -/
def Wrapping.wrap (w : Wrapping) : Wrapping :=
  { w with rows := w.rows ++ [{ cells := w.cur, wrapped := true }], cur := [] }

/-- Ends the row being filled if it is full and the line goes on. -/
def Wrapping.wrapIfFull (w : Wrapping) (width : ℕ) (more : Bool) : Wrapping :=
  if w.cur.length = width ∧ more then w.wrap else w

/-- Cell `j` of a logical line is placed; the result has the next index. -/
def wrapCell (width : ℕ) (line : List Cell) (cursorOff : Option ℕ) (w : Wrapping) (j : ℕ)
    (cell : Cell) : Wrapping × ℕ :=
  let spacerNext := (((line)[j + 1]?).map fun c => decide (c.width = 0)).getD false
  if cell.width = 0 then
    -- spacers are written again after their head
    (if cursorOff = some j ∧ w.cursor = none then
      { w with cursor := some (w.rows.length, min w.cur.length (width - 1)) }
    else w, j + 1)
  else
    let cw := max cell.width 1
    if cw > width then
      -- a wide character that fits nowhere
      let w := if cursorOff = some j ∨ cursorOff = some (j + 1) then
        { w with cursor := some (w.rows.length, w.cur.length) } else w
      let next := j + if spacerNext then 2 else 1
      (({ w with cur := w.cur ++ [Cell.blank {}] }).wrapIfFull width (next < line.length), next)
    else
      let w := if w.cur.length + cw > width then
        ({ w with cur := w.cur ++ List.replicate (width - w.cur.length) (Cell.blank {}) }).wrap
        else w
      let w := match cursorOff with
        | some off =>
          if off = j ∨ (cw = 2 ∧ off = j + 1) then
            { w with cursor := some (w.rows.length, w.cur.length + (off - j)) }
          else w
        | none => w
      let spacer : Cell :=
        { ch := Cell.nul, style := cell.style, width := 0, hyperlink := cell.hyperlink }
      let placed := if cw = 2 then [cell, spacer] else [cell]
      let next := j + if cw = 2 ∧ spacerNext then 2 else 1
      (({ w with cur := w.cur ++ placed }).wrapIfFull width (next < line.length), next)

/-- A logical line is cut from cell `j` on. -/
def wrapFrom (width : ℕ) (line : List Cell) (cursorOff : Option ℕ) : ℕ → Wrapping → ℕ → Wrapping
  | 0, w, _ => w
  | fuel + 1, w, j =>
    match (line)[j]? with
    | none => w
    | some cell =>
      let (w, next) := wrapCell width line cursorOff w j cell
      wrapFrom width line cursorOff fuel w next

/-- One logical line is cut at the width and added to `rows`. -/
def wrapLine (width : ℕ) (line : List Cell) (mark : Option SemanticMark) (cursorOff : Option ℕ)
    (rows : List Row) (cursor : Option (ℕ × ℕ)) : List Row × Option (ℕ × ℕ) :=
  let keep := match cursorOff with
    | some off => max (shownLength line) (off + 1)
    | none => shownLength line
  let line := line.take keep
  let w := wrapFrom width line cursorOff line.length { rows, cursor } 0
  let last : Row :=
    { cells := w.cur.take width ++ List.replicate (width - w.cur.length) (Cell.blank {}) }
  let done := (w.rows ++ [last]).modify rows.length fun r => { r with mark }
  -- the cursor's cell vanished: it goes to the end of the line
  let parked := if cursorOff.isSome ∧ w.cursor = none then
    some (done.length - 1, min (shownLength last.cells) (width - 1)) else w.cursor
  (done, parked)

/-- Every logical line, the first one beginning at row `i`; the cursor is in row `cursorAbs`. -/
def wrapLines (width cursorAbs cursorCol : ℕ) :
    ℕ → ℕ → List Row → List Row → Option (ℕ × ℕ) → List Row × Option (ℕ × ℕ)
  | 0, _, _, rows, cursor => (rows, cursor)
  | _ + 1, _, [], rows, cursor => (rows, cursor)
  | fuel + 1, i, r :: rest, rows, cursor =>
    let (lineRows, remaining) := takeLine (r :: rest)
    let cells := lineRows.flatMap Row.cells
    let mark := lineRows.findSome? Row.mark
    let cursorOff := if i ≤ cursorAbs ∧ cursorAbs < i + lineRows.length then
        some (((lineRows.take (cursorAbs - i)).flatMap Row.cells).length + cursorCol)
      else none
    let (rows, cursor) := wrapLine width cells mark cursorOff rows cursor
    wrapLines width cursorAbs cursorCol fuel (i + lineRows.length) remaining rows cursor

/-- Rewraps every logical line, scrollback included; the cursor stays on its cell. -/
def reflowWidth (s : Screen) (newCols : ℕ) (cursor : ℕ × ℕ) : Screen × (ℕ × ℕ) :=
  let cursorAbs := s.scrollback.length + cursor.1
  let old := dropBlankRows (cursorAbs + 1) (s.scrollback ++ s.grid)
  let (rows, found) := wrapLines newCols cursorAbs cursor.2 old.length 0 old [] none
  let (curAbs, curCol) := found.getD (0, 0)
  -- keep the cursor on the screen even if rows below it overflow
  let start := min curAbs (rows.length - s.rows)
  let rows := if curAbs < rows.length - s.rows then rows.take (start + s.rows) else rows
  let grid := rows.drop start
  let above := rows.take start
  ({ s with
      grid := grid ++ List.replicate (s.rows - grid.length) (Row.blank newCols {})
      scrollback := above.drop (above.length - s.maxScrollback)
      cols := newCols }, (curAbs - start, curCol))

/-! ### Resizing -/

/-- Gives up rows of the grid until it has `rows` rows: blank ones below the cursor first, then, when
the screen reflows, the top one goes to the scrollback. -/
def shrink (rows : ℕ) (reflow : Bool) : ℕ → Screen → ℕ → Screen × ℕ
  | 0, s, cursorRow => (s, cursorRow)
  | fuel + 1, s, cursorRow =>
    if s.grid.length > rows then
      let cursorAtEnd := cursorRow ≥ s.grid.length - 1
      let bottomBlank := ((s.grid.getLast?).map Row.isSkippable).getD true
      if bottomBlank ∧ ¬ cursorAtEnd then
        shrink rows reflow fuel { s with grid := s.grid.dropLast } cursorRow
      else if reflow then
        match s.grid with
        | [] => (s, cursorRow)
        | row :: grid =>
          shrink rows reflow fuel { s.pushScrollback row with grid } (cursorRow - 1)
      else shrink rows reflow fuel { s with grid := s.grid.dropLast } cursorRow
    else (s, cursorRow)

/-- Adds rows until the grid has `rows` rows: from the scrollback when the screen reflows, else blank
ones below. -/
def grow (rows cols : ℕ) (reflow : Bool) : ℕ → Screen → ℕ → Screen × ℕ
  | 0, s, cursorRow => (s, cursorRow)
  | fuel + 1, s, cursorRow =>
    if s.grid.length < rows then
      match reflow, s.scrollback.getLast? with
      | true, some row =>
        grow rows cols reflow fuel
          { s with grid := row :: s.grid, scrollback := s.scrollback.dropLast }
          (min (cursorRow + 1) 65535)
      | _, _ => grow rows cols reflow fuel { s with grid := s.grid ++ [Row.blank cols {}] } cursorRow
    else (s, cursorRow)

/-- A change of size. -/
def resize (s : Screen) (rows cols : ℕ) (cursor : ℕ × ℕ) (reflow : Bool) : Screen × (ℕ × ℕ) :=
  let rows := max rows 1
  let cols := max cols 1
  let (s, cursor) :=
    if cols ≠ s.cols then
      let (s, cursor) :=
        if reflow then s.reflowWidth cols cursor
        else ({ s with
            grid := s.grid.map (Row.resizeWidth · cols)
            scrollback := s.scrollback.map (Row.resizeWidth · cols)
            cols }, cursor)
      (s, (cursor.1, min cursor.2 (cols - 1)))
    else (s, cursor)
  let (s, cursorRow) := shrink rows reflow (s.grid.length - rows) s cursor.1
  let (s, cursorRow) := grow rows cols reflow (rows - s.grid.length) s cursorRow
  ({ s with rows }, (min cursorRow (rows - 1), cursor.2))

end Screen

end Posh.Term
