/-
**The renderer.**

Given what the outer terminal shows and what it is to show, the renderer writes the bytes that change the
one into the other: a scroll where rows only moved up, then row by row the cells that differ, then the
cursor and the modes.  It keeps track of the cursor, the pen and the open hyperlink that its bytes leave,
so as to write no more than it has to.
-/

import Posh.Render.Snapshot

set_option autoImplicit false

namespace Posh.Term.Render

/-! ### The stream and what it leaves -/

/-- The bytes so far, and the cursor, the pen and the hyperlink they leave. -/
structure FrameState where
  out : List UInt8 := []
  /-- the column, `-1` if it is not known -/
  x : ℤ := 0
  /-- the row, `-1` if it is not known -/
  y : ℤ := 0
  style : Style := {}
  /-- the target of the open hyperlink, empty for none -/
  link : List Char := []
  cursorVisible : Bool
  deriving DecidableEq, Repr

/-- The command that opens a hyperlink, or closes it. -/
def linkSeq (uri : List Char) : List UInt8 :=
  oscSt (decimal 8 ++ byte ';' :: byte ';' :: Utf8.encode uri)

namespace FrameState

def append (fr : FrameState) (s : List UInt8) : FrameState := { fr with out := fr.out ++ s }

def appendN (fr : FrameState) (n : ℕ) (b : UInt8) : FrameState := fr.append (List.replicate n b)

def cellText (cell : Cell) : List UInt8 :=
  Utf8.encode ((if cell.ch = Cell.nul then ' ' else cell.ch) :: cell.extra)

def appendCell (fr : FrameState) (cell : Cell) : FrameState := fr.append (cellText cell)

def updateStyle (fr : FrameState) (style : Style) (force : Bool) : FrameState :=
  if force ∨ fr.style ≠ style then { fr.append (sgrSeq style) with style } else fr

def updateLink (fr : FrameState) (uri : List Char) (force : Bool) : FrameState :=
  if force ∨ fr.link ≠ uri then { fr.append (linkSeq uri) with link := uri } else fr

/-- Erasing leaves the default background, and cells of no hyperlink. -/
def canUseErase (fr : FrameState) : Bool := fr.style = {} && fr.link = []

/-- A carriage return and a few line feeds, a few backspaces, or an address. -/
def appendMove (fr : FrameState) (y x : ℕ) : FrameState :=
  let moved := { fr with x, y }
  if fr.x ≠ -1 ∧ fr.y ≠ -1 ∧ x = 0 ∧ (0 : ℤ) ≤ y - fr.y ∧ y - fr.y < 5 then
    (if fr.x ≠ 0 then moved.append [0x0D] else moved).appendN (y - fr.y).toNat 0x0A
  else if fr.x ≠ -1 ∧ fr.y ≠ -1 ∧ y = fr.y ∧ x - fr.x < 0 ∧ x - fr.x > -5 then
    moved.appendN (fr.x - x).toNat 0x08
  else moved.append (cup (y + 1) (x + 1))

/-- Moves, the cursor hidden, unless it is there already. -/
def appendSilentMove (fr : FrameState) (y x : ℕ) : FrameState :=
  if fr.x = x ∧ fr.y = y then fr
  else
    let hidden :=
      if fr.cursorVisible then { fr.append (decrst 25) with cursorVisible := false } else fr
    hidden.appendMove y x

end FrameState

/-! ### Rows -/

/-- The columns a cell takes. -/
def cellWidth (cell : Cell) : ℕ := max cell.width 1

/-- The state of a row's diff: the next column, and the blank cells before it that are still to be
written. -/
structure RowScan where
  fr : FrameState
  frameX : ℕ
  clearCount : ℕ := 0
  wroteLastCell : Bool := false
  blankStyle : Style := {}
  blankLink : ℕ := 0

namespace RowScan

variable (f : Snapshot) (y : ℕ)

/-- The pen and the hyperlink of the blank cells, where they begin. -/
def toBlanks (s : RowScan) : FrameState :=
  ((s.fr.appendSilentMove y (s.frameX - s.clearCount)).updateStyle s.blankStyle false).updateLink
    (f.linkUri s.blankLink) false

/-- Writes the blank cells before a cell. -/
def flushBlanks (s : RowScan) : RowScan :=
  let fr := s.toBlanks f y
  let fr :=
    if fr.canUseErase ∧ s.clearCount > 4 then fr.append (csi (decimal s.clearCount) 'X')
    else { fr.appendN s.clearCount (byte ' ') with x := s.frameX }
  { s with fr, clearCount := 0 }

/-- Writes a cell.  The last column of a row that goes on in the next one is written after a move of
its own. -/
def drawCell (rowWrap : Bool) (cell : Cell) (s : RowScan) : RowScan :=
  let w := cellWidth cell
  let fr := if rowWrap ∧ s.frameX + w ≥ f.cols then { s.fr with x := -1, y := -1 } else s.fr
  let fr := ((fr.appendSilentMove y s.frameX).updateStyle cell.style false).updateLink
    (f.linkUri cell.hyperlink) false
  let fr := fr.appendCell cell
  { s with
      fr := { fr with x := fr.x + w }
      frameX := s.frameX + w
      wroteLastCell := s.wroteLastCell || s.frameX + w ≥ f.cols }

/-- One turn of the loop over a row. -/
def scanCell (init : Bool) (rowWrap : Bool) (row oldCells : List Cell) (s : RowScan) : RowScan :=
  if s.frameX < f.cols then
    let cell := row.getD s.frameX blankCell
    if init ∧ s.clearCount = 0 ∧ oldCells[s.frameX]? = some cell then
      { s with frameX := s.frameX + cellWidth cell }
    else if cell.width = 0 then { s with frameX := s.frameX + 1 }
    else
      -- the first blank cell of a run sets its pen
      let s :=
        if cell.isBlank ∧ s.clearCount = 0 then
          { s with blankStyle := cell.style, blankLink := cell.hyperlink }
        else s
      if cell.isBlank ∧ cell.style = s.blankStyle ∧ cell.hyperlink = s.blankLink then
        { s with clearCount := s.clearCount + 1, frameX := s.frameX + 1 }
      else if s.clearCount > 0 then
        let s := s.flushBlanks f y
        if cell.isBlank then
          { s with
              blankStyle := cell.style
              blankLink := cell.hyperlink
              clearCount := 1
              frameX := s.frameX + 1 }
        else s.drawCell f y rowWrap cell
      else s.drawCell f y rowWrap cell
  else s

/-- The blank cells that reach the end of the row. -/
def endBlanks (rowWrap : Bool) (s : RowScan) : RowScan :=
  if s.clearCount > 0 then
    let fr := s.toBlanks f y
    if fr.canUseErase ∧ ¬ rowWrap then { s with fr := fr.append (csi [] 'K') }
    else
      { s with
          fr := { fr.appendN s.clearCount (byte ' ') with x := s.frameX }
          wroteLastCell := true }
  else s

end RowScan

/-- The first cell of a row, written because the row before wrapped. -/
def forceFirst (f : Snapshot) (row : List Cell) (fr : FrameState) : RowScan :=
  let cell := row.getD 0 blankCell
  let fr := (fr.updateStyle cell.style false).updateLink (f.linkUri cell.hyperlink) false
  let fr := fr.appendCell cell
  { fr := { fr with x := fr.x + cellWidth cell }, frameX := cellWidth cell }

/-- The diff of one row, and whether the cursor is left wrapped onto the next row. -/
def putRow (init : Bool) (f : Snapshot) (y : ℕ) (oldCells : List Cell) (fr : FrameState) (wrap : Bool) :
    FrameState × Bool :=
  let row := f.cells.getD y []
  let rowWrap := f.wrapped.getD y false
  let s : RowScan := if wrap then forceFirst f row fr else { fr, frameX := 0 }
  let s := ((fun s : RowScan => s.scanCell f y init rowWrap row oldCells)^[f.cols] s).endBlanks f y rowWrap
  if s.wroteLastCell ∧ y + 1 < f.rows then
    if rowWrap then ({ s.fr with x := 0, y := s.fr.y + 1 }, true)
    else ({ s.fr.append [0x0D, 0x0A] with x := 0, y := s.fr.y + 1 }, false)
  else (s.fr, false)

/-! ### The scroll -/

/-- A row of the new picture is a row of the old one. -/
def sameRow (last f : Snapshot) (rows : List (List Cell)) (newY oldY : ℕ) : Bool :=
  f.cells.getD newY [] = rows.getD oldY [] && f.wrapped.getD newY false = last.wrapped.getD oldY false

/-- How far up the first rows moved, and how many they are; none if the first row did not move. -/
def scrollMatch (last f : Snapshot) (rows : List (List Cell)) : ℕ × ℕ :=
  match (List.range f.rows).find? (sameRow last f rows 0) with
  | some (n + 1) =>
    let more := (List.range' 1 (f.rows - (n + 1) - 1)).takeWhile fun h =>
      sameRow last f rows h (n + 1 + h)
    (n + 1, more.length + 1)
  | _ => (0, 0)

/-- Rows that were scrolled up, down to row `bottom`. -/
def shiftRows (rows : List (List Cell)) (blankRow : List Cell) (linesScrolled bottom : ℕ) :
    List (List Cell) :=
  rows.mapIdx fun i row =>
    if i ≤ bottom then
      if i + linesScrolled ≤ bottom then rows.getD (i + linesScrolled) blankRow else blankRow
    else row

/-- Scrolls the outer terminal: line feeds from its last row, or from the last row of a region. -/
def scrollOut (height linesScrolled scrollHeight : ℕ) (fr : FrameState) : FrameState :=
  let fr := (fr.updateStyle {} true).updateLink [] true
  let bottom := linesScrolled + scrollHeight - 1
  if scrollHeight + linesScrolled = height ∧ fr.y + 1 = height then
    { (fr.append [0x0D]).appendN linesScrolled 0x0A with x := 0 }
  else
    let fr := { fr.append (csi (numbers [1, bottom + 1]) 'r') with x := -1, y := -1 }
    let fr := (fr.appendSilentMove bottom 0).appendN linesScrolled 0x0A
    { fr.append (csi [] 'r') with x := -1, y := -1 }

/-! ### Frames -/

/-- What comes before the grid: the title, the bell, the clipboard and reverse video. -/
def leadOut (init : Bool) (last f : Snapshot) : List UInt8 :=
  (if f.title ≠ last.title ∨ (!init ∧ f.title ≠ []) then
    oscBel (decimal 0 ++ byte ';' :: Utf8.encode f.title) else []) ++
  (if f.bellCount ≠ last.bellCount then [0x07] else []) ++ (if f.clipboardSeq ≠ last.clipboardSeq then
    oscSt (decimal 52 ++ byte ';' :: Utf8.encode f.clipboardKinds ++
      byte ';' :: Base64.encode f.clipboard) else []) ++ (if !init ∨ f.reverseVideo ≠ last.reverseVideo then
    if f.reverseVideo then decset 5 else decrst 5 else [])

/-- The mouse mode: a wheel that is wanted is reported even if the application asked for nothing. -/
def mouseModeSync (init : Bool) (last f : Snapshot) (wantWheel lastWantWheel : Bool) : List UInt8 :=
  if !init ∨ f.mouseMode ≠ last.mouseMode ∨ wantWheel ≠ lastWantWheel then
    if f.mouseMode = 0 then
      if wantWheel then decrst 1003 ++ decrst 1002 ++ decrst 9 ++ decset 1000 ++ decset 1006
      else decrst 1003 ++ decrst 1002 ++ decrst 1000 ++ decrst 9
    else (if init ∧ last.mouseMode ≠ 0 then decrst last.mouseMode else []) ++ decset f.mouseMode
  else []

def mouseEncodingSync (init : Bool) (last f : Snapshot) (wantWheel lastWantWheel : Bool) :
    List UInt8 :=
  if !init ∨ f.mouseEncoding ≠ last.mouseEncoding ∨ wantWheel ≠ lastWantWheel then
    if f.mouseEncoding = 0 then
      if !wantWheel then decrst 1016 ++ decrst 1006 ++ decrst 1005 else []
    else
      (if init ∧ last.mouseEncoding ≠ 0 then decrst last.mouseEncoding else []) ++ decset f.mouseEncoding
  else []

/-- What comes after the grid: the modes. -/
def modesOut (init : Bool) (last f : Snapshot) (wheel lastWheel : Bool) : List UInt8 :=
  let wantWheel := f.mouseMode = 0 && wheel
  let lastWantWheel := last.mouseMode = 0 && lastWheel
  (if !init ∨ f.bracketedPaste ≠ last.bracketedPaste then
    if f.bracketedPaste then decset 2004 else decrst 2004 else []) ++
  (if !init ∨ f.appCursorKeys ≠ last.appCursorKeys then
    if f.appCursorKeys then decset 1 else decrst 1 else []) ++ (if !init ∨ f.appKeypad ≠ last.appKeypad then
    if f.appKeypad then escSeq [] '=' else escSeq [] '>' else []) ++
  mouseModeSync init last f wantWheel lastWantWheel ++ (if !init ∨ f.focusReporting ≠ last.focusReporting then
    if f.focusReporting then decset 1004 else decrst 1004 else []) ++
  (if !init ∨ f.alternateScroll ≠ last.alternateScroll then
    if f.alternateScroll then decset 1007 else decrst 1007 else []) ++
  (if !init ∨ f.kittyKeyboardFlags ≠ last.kittyKeyboardFlags then
    csi (byte '=' :: numbers [f.kittyKeyboardFlags.toNat, 1]) 'u' else []) ++
  mouseEncodingSync init last f wantWheel lastWantWheel

/-- The rows that the outer terminal shows before the grid is written. -/
def shownRows (init : Bool) (last f : Snapshot) : List (List Cell) :=
  (List.range f.rows).map fun y =>
    if init then last.cells.getD y (List.replicate f.cols blankCell)
    else List.replicate f.cols blankCell

/-- The scroll that is written and how far the rows moved up, if it is allowed. -/
def scrollPlan (init : Bool) (last f : Snapshot) (allowScroll : Bool) : ℕ × ℕ :=
  if init ∧ allowScroll then scrollMatch last f (shownRows init last f) else (0, 0)

/-- The rows that the outer terminal shows after the scroll. -/
def scrolledRows (init : Bool) (last f : Snapshot) (allowScroll : Bool) : List (List Cell) :=
  let plan := scrollPlan init last f allowScroll
  if plan.2 > 0 then
    shiftRows (shownRows init last f) (List.replicate f.cols blankCell) plan.1 (plan.1 + plan.2 - 1)
  else shownRows init last f

/-- The bytes up to the grid: what comes first, and the clearing of an unknown screen. -/
def startFrame (initialized : Bool) (last f : Snapshot) : Bool × FrameState :=
  let fr : FrameState := { out := leadOut initialized last f, cursorVisible := last.cursorVisible }
  if !initialized ∨ f.rows ≠ last.rows ∨ f.cols ≠ last.cols then
    (false, { fr.append (csi [] 'r' ++ csi (decimal 0) 'm' ++ csi [] 'H' ++ csi (decimal 2) 'J' ++ decrst 25)
        with cursorVisible := false })
  else (true, { fr with x := last.cursorCol, y := last.cursorRow })

def putRows (init : Bool) (f : Snapshot) (rows : List (List Cell)) (first : ℕ) (fr : FrameState) :
    FrameState :=
  ((List.range' first (f.rows - first)).foldl
    (fun s y => putRow init f y (rows.getD y []) s.1 s.2) (fr, false)).1

/-- The cursor, its visibility, and the pen as the next frame expects it. -/
def settle (init : Bool) (f : Snapshot) (fr : FrameState) : FrameState :=
  let fr :=
    if !init ∨ fr.y ≠ f.cursorRow ∨ fr.x ≠ f.cursorCol then fr.appendMove f.cursorRow f.cursorCol
    else fr
  let fr :=
    if !init ∨ f.cursorVisible ≠ fr.cursorVisible then
      { fr.append (if f.cursorVisible then decset 25 else decrst 25) with cursorVisible := f.cursorVisible }
    else fr
  (fr.updateStyle {} !init).updateLink [] !init

/-- The bytes that change a terminal showing `last` into one showing `f`; what an uninitialized one
shows is not known. -/
def newFrameOpt (initialized : Bool) (last f : Snapshot) (wheel lastWheel allowScroll : Bool) :
    List UInt8 :=
  let (init, fr) := startFrame initialized last f
  let plan := scrollPlan init last f allowScroll
  let fr := if plan.2 > 0 then scrollOut f.rows plan.1 plan.2 fr else fr
  let fr := putRows init f (scrolledRows init last f allowScroll) plan.2 fr
  (settle init f fr).out ++ modesOut init last f wheel lastWheel

/-- A frame that may scroll, the wheel wanted as before. -/
def newFrame (initialized : Bool) (last f : Snapshot) (wheel : Bool) : List UInt8 :=
  newFrameOpt initialized last f wheel wheel true

end Posh.Term.Render
