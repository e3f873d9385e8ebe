/-
**Control sequences.**

What the terminal does for each control sequence: cursor movement, erasing and editing, modes, reports
and the pen.
-/

import Posh.Term.Terminal

set_option autoImplicit false

namespace Posh.Term

variable {γ : Type}

namespace Terminal

/-! ### Cursor movement -/

def cursorUp (t : Terminal γ) (n : ℕ) : Terminal γ :=
  let top := t.region.1
  let limit := if t.cursor.row ≥ top then top else 0
  (t.setRow (max (t.cursor.row - n) limit)).touch

def cursorDown (t : Terminal γ) (n : ℕ) : Terminal γ :=
  let bot := t.region.2
  let limit := if t.cursor.row ≤ bot then bot else t.rows - 1
  (t.setRow (min (t.cursor.row + n) limit)).touch

def cursorRight (t : Terminal γ) (n : ℕ) : Terminal γ :=
  (t.setCol (min (t.cursor.col + n) (t.cols - 1))).touch

def cursorLeft (t : Terminal γ) (n : ℕ) : Terminal γ := (t.setCol (t.cursor.col - n)).touch

/-- VPA. -/
def toRow (t : Terminal γ) (row : ℕ) : Terminal γ :=
  let row := if t.modes.origin then t.region.1 + row else row
  let t := { t with cursor := { t.cursor with row := min row (t.rows - 1) } }
  t.clampToRegionIfOrigin.cancelWrap.touch

/-- DECSTBM; a bottom past the screen means its last row. -/
def setRegion (t : Terminal γ) (params : List (List ℕ)) : Terminal γ :=
  let top := paramOr params 0 1 - 1
  let bot := min (paramOr params 1 t.rows - 1) (t.rows - 1)
  if top < bot then moveTo { t with scrollTop := top, scrollBot := bot } 0 0 else t

/-! ### Erasing and editing -/

/-- Blanks a cell, unless it is protected and the erase selective. -/
def eraseCell (row : ℕ) (selective : Bool) (s : Screen) (col : ℕ) : Screen :=
  s.modifyCell row col fun cell =>
    if selective && cell.style.isProtected then cell else Cell.blank {}

/-- Blanks cells `from` to `to` of a row. -/
def eraseCells (s : Screen) (row first last : ℕ) (selective : Bool) : Screen :=
  (List.range' first (last + 1 - first)).foldl (eraseCell row selective) s

def eraseRow (cols : ℕ) (selective : Bool) (s : Screen) (r : ℕ) : Screen :=
  if selective then
    (eraseCells s r 0 (cols - 1) true).modifyRow r fun row => { row with wrapped := false }
  else s.modifyRow r fun _ => Row.blank cols {}

/-- ED and DECSED. -/
def eraseDisplay (t : Terminal γ) (mode : ℕ) (selective : Bool) : Terminal γ :=
  let t := t.cancelWrap
  let row := t.cursor.row
  let col := t.cursor.col
  let eraseRows := fun (s : Screen) (first count : ℕ) =>
    (List.range' first count).foldl (eraseRow t.cols selective) s
  let t := t.modifyScr fun s =>
    if mode = 0 then
      eraseRows
        ((eraseCells s row col (t.cols - 1) selective).modifyRow row
          fun r => { r with wrapped := false })
        (row + 1) (t.rows - (row + 1))
    else if mode = 1 then eraseCells (eraseRows s 0 row) row 0 col selective
    else if mode = 2 then eraseRows s 0 t.rows
    else if mode = 3 then s.clearScrollback
    else s
  t.touch

/-- EL and DECSEL. -/
def eraseLine (t : Terminal γ) (mode : ℕ) (selective : Bool) : Terminal γ :=
  let t := t.cancelWrap
  let row := t.cursor.row
  let unwrap := fun s : Screen => s.modifyRow row fun r => { r with wrapped := false }
  if mode = 0 then
    (t.modifyScr fun s => unwrap (eraseCells s row t.cursor.col (t.cols - 1) selective)).touch
  else if mode = 1 then (t.modifyScr fun s => eraseCells s row 0 t.cursor.col selective).touch
  else if mode = 2 then (t.modifyScr fun s => unwrap (eraseCells s row 0 (t.cols - 1) selective)).touch
  else t

def insertLines (t : Terminal γ) (n : ℕ) : Terminal γ :=
  let (top, bot) := t.region
  let row := t.cursor.row
  if row < top ∨ row > bot then t
  else ((t.modifyScr fun s => s.scrollDown row bot n {}).setCol 0).touch

def deleteLines (t : Terminal γ) (n : ℕ) : Terminal γ :=
  let (top, bot) := t.region
  let row := t.cursor.row
  if row < top ∨ row > bot then t
  else ((t.modifyScr fun s => s.scrollUp row bot n false {}).setCol 0).touch

def insertChars (t : Terminal γ) (n : ℕ) : Terminal γ :=
  let row := t.cursor.row
  let col := t.cursor.col
  let t := t.modifyScr fun s =>
    repairWideHalves
      (s.modifyRow row fun r =>
        { r with cells := (shiftRight col)^[min n r.cells.length] r.cells }) row
  t.cancelWrap.touch

/-- Shifts the cells of a row left from a column on. -/
def shiftLeft (col : ℕ) (cells : List Cell) : List Cell :=
  if col < cells.length then cells.eraseIdx col ++ [Cell.blank {}] else cells

def deleteChars (t : Terminal γ) (n : ℕ) : Terminal γ :=
  let row := t.cursor.row
  let col := t.cursor.col
  let t := t.modifyScr fun s =>
    repairWideHalves
      (s.modifyRow row fun r =>
        { r with cells := (shiftLeft col)^[min n r.cells.length] r.cells }) row
  t.cancelWrap.touch

def eraseChars (t : Terminal γ) (n : ℕ) : Terminal γ :=
  let row := t.cursor.row
  let col := t.cursor.col
  let t := t.modifyScr fun s =>
    repairWideHalves
      ((List.range' col (min (col + n) t.cols - col)).foldl
        (fun s c => s.setCell row c (Cell.blank {})) s) row
  t.cancelWrap.touch

/-- REP. -/
def repeatChar (t : Terminal γ) (n : ℕ) : Terminal γ :=
  match t.lastPrinted with
  | some c => (fun t : Terminal γ => t.print c)^[min n (t.cols * t.rows)] t
  | none => t

/-! ### Modes -/

/-- IRM and LNM. -/
def setAnsiMode (t : Terminal γ) (params : List (List ℕ)) (set : Bool) : Terminal γ :=
  let modes := params.foldl (fun (m : Modes) p =>
    let n := p.head?.getD 0
    if n = 4 then { m with insert := set } else if n = 20 then { m with lnm := set } else m) t.modes
  { t with modes }.touch

/-- A private mode that only changes the modes. -/
def setMode (m : Modes) (n : ℕ) (set : Bool) : Modes :=
  let mouse := fun mode : MouseMode => if set then mode else .none
  let protocol := fun p : MouseProtocol => if set then p else .normal
  if n = 1 then { m with cursorKeys := set }
  else if n = 5 then { m with reverseVideo := set }
  else if n = 8 then { m with autorepeat := set }
  else if n = 9 then { m with mouseMode := mouse .x10 }
  else if n = 12 then { m with cursorBlink := set }
  else if n = 25 then { m with cursorVisible := set }
  else if n = 40 then { m with allowDeccolm := set }
  else if n = 95 then { m with noClearOnDeccolm := set }
  else if n = 66 then { m with keypadApp := set }
  else if n = 1000 then { m with mouseMode := mouse .normal }
  else if n = 1002 then { m with mouseMode := mouse .buttonEvent }
  else if n = 1003 then { m with mouseMode := mouse .anyEvent }
  else if n = 1004 then { m with focusReporting := set }
  else if n = 1007 then { m with alternateScroll := set }
  else if n = 1005 then { m with mouseProtocol := protocol .utf8 }
  else if n = 1006 then { m with mouseProtocol := protocol .sgr }
  else if n = 1016 then { m with mouseProtocol := protocol .sgrPixel }
  else if n = 2004 then { m with bracketedPaste := set }
  else if n = 2026 then { m with synchronized := set }
  else m

def setDecMode (t : Terminal γ) (n : ℕ) (set : Bool) : Terminal γ :=
  let t :=
    if n = 3 then t.setDeccolm set
    else if n = 6 then moveTo { t with modes := { t.modes with origin := set } } 0 0
    else if n = 7 then
      { t with
          modes := { t.modes with autowrap := set }
          cursor := { t.cursor with pendingWrap := set && t.cursor.pendingWrap } }
    else if n = 47 ∨ n = 1047 ∨ n = 1049 then t.setAltScreen n set
    else if n = 1048 then if set then t.saveCursor else t.restoreCursor
    else { t with modes := setMode t.modes n set }
  t.touch

def setDecModes (t : Terminal γ) (params : List (List ℕ)) (set : Bool) : Terminal γ :=
  params.foldl (fun t p => t.setDecMode (p.head?.getD 0) set) t

/-- What DECRQM is answered: 1 set, 2 reset, 0 not recognised. -/
def decModeStatus (t : Terminal γ) (n : ℕ) : ℕ :=
  let b := fun v : Bool => if v then 1 else 2
  let m := t.modes
  if n = 1 then b m.cursorKeys
  else if n = 3 then b m.deccolm
  else if n = 5 then b m.reverseVideo
  else if n = 6 then b m.origin
  else if n = 7 then b m.autowrap
  else if n = 8 then b m.autorepeat
  else if n = 9 then b (m.mouseMode = .x10)
  else if n = 12 then b m.cursorBlink
  else if n = 25 then b m.cursorVisible
  else if n = 40 then b m.allowDeccolm
  else if n = 95 then b m.noClearOnDeccolm
  else if n = 47 ∨ n = 1047 ∨ n = 1049 then b t.altActive
  else if n = 66 then b m.keypadApp
  else if n = 1000 then b (m.mouseMode = .normal)
  else if n = 1002 then b (m.mouseMode = .buttonEvent)
  else if n = 1003 then b (m.mouseMode = .anyEvent)
  else if n = 1004 then b m.focusReporting
  else if n = 1007 then b m.alternateScroll
  else if n = 1005 then b (m.mouseProtocol = .utf8)
  else if n = 1006 then b (m.mouseProtocol = .sgr)
  else if n = 1016 then b (m.mouseProtocol = .sgrPixel)
  else if n = 1048 then 2
  else if n = 2004 then b m.bracketedPaste
  else if n = 2026 then b m.synchronized
  else 0

def decrqmDec (t : Terminal γ) (n : ℕ) : Terminal γ :=
  t.respond (csi (byte '?' :: numbers [n, t.decModeStatus n] ++ [byte '$']) 'y')

def decrqmAnsi (t : Terminal γ) (n : ℕ) : Terminal γ :=
  let status :=
    if n = 4 then if t.modes.insert then 1 else 2
    else if n = 20 then if t.modes.lnm then 1 else 2
    else 0
  t.respond (csi (numbers [n, status] ++ [byte '$']) 'y')

/-! ### Reports -/

/-- The size of a cell in pixels that reports assume. -/
def cellW : ℕ := 10
def cellH : ℕ := 20

/-- XTWINOPS. -/
def windowOps (t : Terminal γ) (params : List (List ℕ)) : Terminal γ :=
  let op := param params 0 0
  if op = 14 then t.respond (csi (numbers [4, t.rows * cellH, t.cols * cellW]) 't')
  else if op = 16 then t.respond (csi (numbers [6, cellH, cellW]) 't')
  else if op = 18 then t.respond (csi (numbers [8, t.rows, t.cols]) 't')
  else t

/-- DSR. -/
def deviceStatus (t : Terminal γ) (n : ℕ) : Terminal γ :=
  if n = 5 then t.respond (csi (decimal 0) 'n')
  else if n = 6 then
    let top := if t.modes.origin then t.region.1 else 0
    t.respond (csi (numbers [t.cursor.row - top + 1, t.cursor.col + 1]) 'R')
  else t

/-- The name XTVERSION gives. -/
def versionName : List Char :=
  ['>', '|', 'p', 'o', 's', 'h', '-', 't', 'e', 'r', 'm', ' ', '0', '.', '1', '.', '0']

/-! ### The colour stack -/

/-- XTPUSHCOLORS; the oldest of ten entries goes. -/
def pushColors (t : Terminal γ) : Terminal γ :=
  let kept := if t.colorStack.length ≥ 10 then t.colorStack.drop 1 else t.colorStack
  let entry : ColorStackEntry :=
    { palette := t.palette, fg := t.fgColor, bg := t.bgColor, cursor := t.cursorColor }
  { t with colorStack := kept ++ [entry] }

/-- XTPOPCOLORS. -/
def popColors (t : Terminal γ) : Terminal γ :=
  match t.colorStack.getLast? with
  | some e =>
    { t with
        colorStack := t.colorStack.dropLast
        palette := e.palette
        fgColor := e.fg
        bgColor := e.bg
        cursorColor := e.cursor }.touch
  | none => t

/-- XTREPORTCOLORS. -/
def reportColors (t : Terminal γ) : Terminal γ :=
  let n := t.colorStack.length
  t.respond (csi (byte '?' :: numbers [n, n] ++ [byte '#']) 'Q')

end Terminal

/-! ### The pen -/

/-- The colour after a 38, 48 or 58, and how many more parameters it takes: colon-separated parts of
one parameter, or the parameters that follow. -/
def extendedColor (params : List (List ℕ)) (i : ℕ) : Option Color × ℕ :=
  let p := params.getD i []
  let clamp := fun v : ℕ => UInt8.ofNat (min v 255)
  if p.length > 1 then
    if p.getD 1 0 = 5 ∧ p.length ≥ 3 then (some (.indexed (clamp (p.getD 2 0))), 0)
    else if p.getD 1 0 = 2 ∧ p.length ≥ 6 then
      (some (.rgb (clamp (p.getD 3 0)) (clamp (p.getD 4 0)) (clamp (p.getD 5 0))), 0)
    else if p.getD 1 0 = 2 ∧ p.length = 5 then
      (some (.rgb (clamp (p.getD 2 0)) (clamp (p.getD 3 0)) (clamp (p.getD 4 0))), 0)
    else (none, 0)
  else
    let get := fun k : ℕ => ((params[i + k]?).bind List.head?).getD 0
    match (params[i + 1]?).bind List.head? with
    | some 5 => (some (.indexed (clamp (get 2))), 2)
    | some 2 => (some (.rgb (clamp (get 2)) (clamp (get 3)) (clamp (get 4))), 4)
    | _ => (none, 0)

/-- The underline of SGR 4 with its second part. -/
def underlineOf : Option ℕ → UnderlineStyle
  | some 0 => .none
  | some 2 => .double
  | some 3 => .curly
  | some 4 => .dotted
  | some 5 => .dashed
  | _ => .single

/-- One attribute, and how many more parameters it takes. -/
def sgrStep (params : List (List ℕ)) (i : ℕ) (style : Style) : Style × ℕ :=
  let p := params.getD i []
  let n := p.head?.getD 0
  let extended := extendedColor params i
  if n = 0 then ({}, 0)
  else if n = 1 then ({ style with bold := true }, 0)
  else if n = 2 then ({ style with dim := true }, 0)
  else if n = 3 then ({ style with italic := true }, 0)
  else if n = 4 then ({ style with underline := underlineOf p[1]? }, 0)
  else if n = 5 ∨ n = 6 then ({ style with blink := true }, 0)
  else if n = 7 then ({ style with inverse := true }, 0)
  else if n = 8 then ({ style with invisible := true }, 0)
  else if n = 9 then ({ style with strikethrough := true }, 0)
  else if n = 21 then ({ style with underline := .double }, 0)
  else if n = 22 then ({ style with bold := false, dim := false }, 0)
  else if n = 23 then ({ style with italic := false }, 0)
  else if n = 24 then ({ style with underline := .none }, 0)
  else if n = 25 then ({ style with blink := false }, 0)
  else if n = 27 then ({ style with inverse := false }, 0)
  else if n = 28 then ({ style with invisible := false }, 0)
  else if n = 29 then ({ style with strikethrough := false }, 0)
  else if 30 ≤ n ∧ n ≤ 37 then ({ style with fg := .indexed (UInt8.ofNat (n - 30)) }, 0)
  else if n = 38 then ({ style with fg := extended.1.getD style.fg }, extended.2)
  else if n = 39 then ({ style with fg := .default }, 0)
  else if 40 ≤ n ∧ n ≤ 47 then ({ style with bg := .indexed (UInt8.ofNat (n - 40)) }, 0)
  else if n = 48 then ({ style with bg := extended.1.getD style.bg }, extended.2)
  else if n = 49 then ({ style with bg := .default }, 0)
  else if n = 58 then ({ style with underlineColor := extended.1.getD style.underlineColor }, extended.2)
  else if n = 59 then ({ style with underlineColor := .default }, 0)
  else if 90 ≤ n ∧ n ≤ 97 then ({ style with fg := .indexed (UInt8.ofNat (n - 90 + 8)) }, 0)
  else if 100 ≤ n ∧ n ≤ 107 then ({ style with bg := .indexed (UInt8.ofNat (n - 100 + 8)) }, 0)
  else (style, 0)

/-- The attributes from parameter `i` on. -/
def sgrFrom (params : List (List ℕ)) : ℕ → ℕ → Style → Style
  | 0, _, style => style
  | fuel + 1, i, style =>
    if i < params.length then
      let (style, consumed) := sgrStep params i style
      sgrFrom params fuel (i + consumed + 1) style
    else style

/-- The pen after an SGR sequence; the protection is no attribute of it. -/
def applySgr (params : List (List ℕ)) (style : Style) : Style :=
  let pen := if params.isEmpty then {} else sgrFrom params params.length 0 style
  { pen with isProtected := style.isProtected }

namespace Terminal

/-- SGR. -/
def sgr (t : Terminal γ) (params : List (List ℕ)) : Terminal γ :=
  let t := { t with cursor := { t.cursor with style := applySgr params t.cursor.style } }
  if params.isEmpty then t else t.touch

/-- TBC. -/
def clearTabs (t : Terminal γ) (n : ℕ) : Terminal γ :=
  if n = 0 then { t with tabs := t.tabs.set t.cursor.col false }
  else if n = 3 then { t with tabs := t.tabs.map fun _ => false }
  else t

/-! ### Dispatch -/

/-- Control sequences without marker and intermediate. -/
def csiPlain (t : Terminal γ) (params : List (List ℕ)) (final : UInt8) : Terminal γ :=
  let n := paramOr params 0 1
  if final = byte 'A' then t.cursorUp n
  else if final = byte 'B' then t.cursorDown n
  else if final = byte 'C' then t.cursorRight n
  else if final = byte 'D' then t.cursorLeft n
  else if final = byte 'E' then
    let t := t.cursorDown n
    { t with cursor := { t.cursor with col := 0 } }
  else if final = byte 'F' then
    let t := t.cursorUp n
    { t with cursor := { t.cursor with col := 0 } }
  else if final = byte 'G' ∨ final = 0x60 then (t.setCol (min (n - 1) (t.cols - 1))).touch
  else if final = byte 'H' ∨ final = byte 'f' then t.moveTo (n - 1) (paramOr params 1 1 - 1)
  else if final = byte 'I' then (fun t : Terminal γ => t.horizontalTab)^[n] t
  else if final = byte 'J' then t.eraseDisplay (param params 0 0) false
  else if final = byte 'K' then t.eraseLine (param params 0 0) false
  else if final = byte 'L' then t.insertLines n
  else if final = byte 'M' then t.deleteLines n
  else if final = byte 'P' then t.deleteChars n
  else if final = byte 'S' then t.scrollUpN n
  else if final = byte 'T' then t.scrollDownN n
  else if final = byte 'X' then t.eraseChars n
  else if final = byte 'Z' then (fun t : Terminal γ => t.backTab)^[n] t
  else if final = byte '@' then t.insertChars n
  else if final = byte 'a' then t.cursorRight n
  else if final = byte 'b' then t.repeatChar n
  else if final = byte 'c' then
    if param params 0 0 = 0 then t.respond primaryAttributes else t
  else if final = byte 'd' then t.toRow (n - 1)
  else if final = byte 'e' then (t.setRow (min (t.cursor.row + n) (t.rows - 1))).touch
  else if final = byte 'g' then t.clearTabs (param params 0 0)
  else if final = byte 'h' then t.setAnsiMode params true
  else if final = byte 'l' then t.setAnsiMode params false
  else if final = byte 'm' then t.sgr params
  else if final = byte 'n' then t.deviceStatus (param params 0 0)
  else if final = byte 'r' then t.setRegion params
  else if final = byte 's' then t.saveCursor
  else if final = byte 'u' then t.restoreCursor
  else if final = byte 't' then t.windowOps params
  else t

/-- Control sequences with marker `?` and no intermediate. -/
def csiQuestion (t : Terminal γ) (params : List (List ℕ)) (final : UInt8) : Terminal γ :=
  if final = byte 'J' then t.eraseDisplay (param params 0 0) true
  else if final = byte 'K' then t.eraseLine (param params 0 0) true
  else if final = byte 'h' then t.setDecModes params true
  else if final = byte 'l' then t.setDecModes params false
  else if final = byte 'n' then
    if param params 0 0 = 6 then
      t.respond (csi (byte '?' :: numbers [t.cursor.row + 1, t.cursor.col + 1]) 'R')
    else t
  else if final = byte 'u' then t.respond (csi (byte '?' :: decimal t.kittyStack.flags.toNat) 'u')
  else t

/-- Control sequences with marker `>`, `<` or `=` and no intermediate. -/
def csiMarked (t : Terminal γ) (params : List (List ℕ)) (marker final : UInt8) : Terminal γ :=
  if marker = byte '>' ∧ final = byte 'c' then t.respond (csi (byte '>' :: numbers [1, 10, 0]) 'c')
  else if marker = byte '>' ∧ final = byte 'q' then t.respond (dcs (Utf8.encode versionName))
  else if marker = byte '>' ∧ final = byte 'u' then
    t.modifyKittyStack fun k => k.push (UInt8.ofNat (param params 0 0))
  else if marker = byte '<' ∧ final = byte 'u' then
    t.modifyKittyStack fun k => k.pop (paramOr params 0 1)
  else if marker = byte '=' ∧ final = byte 'u' then
    t.modifyKittyStack fun k => k.set (UInt8.ofNat (param params 0 0)) (paramOr params 1 1)
  else t

/-- Control sequences with an intermediate. -/
def csiIntermediate (t : Terminal γ) (params : List (List ℕ)) (im marker final : UInt8) :
    Terminal γ :=
  if marker = byte '?' ∧ im = byte '$' ∧ final = byte 'p' then t.decrqmDec (param params 0 0)
  else if marker ≠ 0 then t
  else if im = byte '$' ∧ final = byte 'p' then t.decrqmAnsi (param params 0 0)
  else if im = byte '!' ∧ final = byte 'p' then t.softReset
  else if im = 0x22 ∧ final = byte 'q' then
    { t with
        cursor := { t.cursor with
          style := { t.cursor.style with isProtected := param params 0 0 = 1 } } }
  else if im = byte '#' ∧ final = byte 'P' then t.pushColors
  else if im = byte '#' ∧ final = byte 'Q' then t.popColors
  else if im = byte '#' ∧ final = byte 'R' then t.reportColors
  else if im = byte ' ' ∧ final = byte 'q' then
    if param params 0 0 ≤ 6 then { t with cursorStyleRaw := param params 0 0 }.touch else t
  else t

/-- A control sequence. -/
def csiDispatch (t : Terminal γ) (params : List (List ℕ)) (intermediates : List UInt8)
    (marker final : UInt8) : Terminal γ :=
  match intermediates.head? with
  | some im => t.csiIntermediate params im marker final
  | none =>
    if marker = 0 then t.csiPlain params final
    else if marker = byte '?' then t.csiQuestion params final
    else t.csiMarked params marker final

end Terminal

end Posh.Term
