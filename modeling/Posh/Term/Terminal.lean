/-
**The terminal.**

The state of a terminal and the operations its sequences are dispatched to: printing, controls, plain
escape sequences, the change of screens, resets and resizing.  An erased position always takes the
default background.
-/

import Posh.Term.Emit
import Posh.Term.Graphics
import Posh.Term.Modes
import Posh.Term.Parser
import Posh.Term.Screen
import Posh.Term.Wcwidth

set_option autoImplicit false

namespace Posh.Term

/-- A tab stop in every eighth column. -/
def defaultTabs (cols : ℕ) : List Bool := (List.range cols).map fun i => i % 8 = 0

structure Terminal (γ : Type) where
  parser : Parser := {}
  primary : Screen
  alt : Screen
  altActive : Bool := false
  cursor : CursorState := {}
  savedPrimary : SavedCursor := {}
  savedAlt : SavedCursor := {}
  modes : Modes := {}
  /-- the scroll region, inclusive -/
  scrollTop : ℕ := 0
  scrollBot : ℕ
  tabs : List Bool
  title : List Char := []
  iconTitle : List Char := []
  /-- how often something visible changed -/
  generation : ℕ := 0
  /-- replies to the application -/
  responses : List UInt8 := []
  bellCount : ℕ := 0
  pwd : List Char := []
  palette : List Rgb := defaultPalette
  fgColor : Option Rgb := none
  bgColor : Option Rgb := none
  cursorColor : Option Rgb := none
  clipboard : List UInt8 := []
  /-- how often something was copied, and to which slots last -/
  clipboardSeq : ℕ := 0
  clipboardKinds : List Char := ['c']
  primarySelection : List UInt8 := []
  selectSelection : List UInt8 := []
  colorStack : List ColorStackEntry := []
  lastTextSize : Option (List Char) := none
  hyperlinks : List (ℕ × Hyperlink) := []
  nextHyperlink : ℕ := 0
  cursorStyleRaw : ℕ := 0
  kittyPrimary : KittyKeyStack := {}
  kittyAlt : KittyKeyStack := {}
  graphics : γ
  lastNotification : Option (List Char) := none
  pointerShape : List Char := []
  lastPrinted : Option Char := none
  screenSwitch : Option ScreenSwitch := none

variable {γ : Type}

namespace Terminal

/-- A terminal of the given size with a scrollback of at most `scrollback` rows. -/
def withScrollback [GraphicsStore γ] (rows cols scrollback : ℕ) : Terminal γ :=
  { primary := .new rows cols scrollback
    alt := .new rows cols 0
    scrollBot := max rows 1 - 1
    tabs := defaultTabs (max cols 1)
    graphics := GraphicsStore.reset }

/-! ### Plumbing -/

/-- The screen drawn on. -/
def scr (t : Terminal γ) : Screen := if t.altActive then t.alt else t.primary

/-- Changes the screen drawn on. -/
def modifyScr (t : Terminal γ) (f : Screen → Screen) : Terminal γ :=
  if t.altActive then { t with alt := f t.alt } else { t with primary := f t.primary }

section

variable (t : Terminal γ) (f : Screen → Screen)

@[simp] theorem modifyScr_cursor : (t.modifyScr f).cursor = t.cursor := by
  rw [modifyScr]
  split <;> rfl

@[simp] theorem modifyScr_modes : (t.modifyScr f).modes = t.modes := by
  rw [modifyScr]
  split <;> rfl

end

def rows (t : Terminal γ) : ℕ := t.primary.rows

def cols (t : Terminal γ) : ℕ := t.primary.cols

/-- Something visible changed. -/
def touch (t : Terminal γ) : Terminal γ := { t with generation := t.generation + 1 }

/-- Replies to the application. -/
def respond (t : Terminal γ) (bytes : List UInt8) : Terminal γ :=
  { t with responses := t.responses ++ bytes }

/-- The scroll region, clamped to the grid. -/
def region (t : Terminal γ) : ℕ × ℕ := (min t.scrollTop (t.rows - 1), min t.scrollBot (t.rows - 1))

/-- The cursor goes to a column, no wrap pending. -/
def setCol (t : Terminal γ) (col : ℕ) : Terminal γ :=
  { t with cursor := { t.cursor with col, pendingWrap := false } }

/-- The cursor goes to a row, no wrap pending. -/
def setRow (t : Terminal γ) (row : ℕ) : Terminal γ :=
  { t with cursor := { t.cursor with row, pendingWrap := false } }

/-- Forgets a pending wrap. -/
def cancelWrap (t : Terminal γ) : Terminal γ :=
  { t with cursor := { t.cursor with pendingWrap := false } }

/-! ### Lines -/

/-- Scrolls the region up; rows leaving the whole primary screen are saved. -/
def scrollUpN (t : Terminal γ) (n : ℕ) : Terminal γ :=
  let (top, bot) := t.region
  let save := !t.altActive && top = 0 && bot = t.rows - 1
  (t.modifyScr fun s => s.scrollUp top bot n save {}).touch

def scrollDownN (t : Terminal γ) (n : ℕ) : Terminal γ :=
  let (top, bot) := t.region
  (t.modifyScr fun s => s.scrollDown top bot n {}).touch

/-- One line down, scrolling at the bottom margin. -/
def index (t : Terminal γ) : Terminal γ :=
  let t := t.cancelWrap
  let t :=
    if t.cursor.row = t.region.2 then t.scrollUpN 1
    else if t.cursor.row + 1 < t.rows then t.setRow (t.cursor.row + 1)
    else t
  t.touch

@[simp] theorem index_col (t : Terminal γ) : t.index.cursor.col = t.cursor.col := by
  rw [index]
  split
  · exact (congrArg CursorState.col (modifyScr_cursor t.cancelWrap _)).trans rfl
  · split <;> rfl

/-- One line up, scrolling at the top margin. -/
def reverseIndex (t : Terminal γ) : Terminal γ :=
  let t := t.cancelWrap
  let t :=
    if t.cursor.row = t.region.1 then t.scrollDownN 1
    else if t.cursor.row > 0 then t.setRow (t.cursor.row - 1)
    else t
  t.touch

/-- A line feed, which under LNM returns the carriage too. -/
def linefeed (t : Terminal γ) : Terminal γ :=
  let t := t.index
  if t.modes.lnm then { t with cursor := { t.cursor with col := 0 } } else t

/-! ### Tabs -/

/-- The next tab stop to the right of a column, or the last column. -/
def nextTab (tabs : List Bool) (cols : ℕ) : ℕ → ℕ → ℕ
  | 0, col => col
  | fuel + 1, col =>
    if col + 1 < cols then
      if tabs.getD (col + 1) false then col + 1 else nextTab tabs cols fuel (col + 1)
    else col

/-- The next tab stop to the left of a column, or the first column. -/
def prevTab (tabs : List Bool) : ℕ → ℕ
  | 0 => 0
  | col + 1 => if tabs.getD col false then col else prevTab tabs col

def horizontalTab (t : Terminal γ) : Terminal γ :=
  (t.setCol (nextTab t.tabs t.cols t.cols t.cursor.col)).touch

def backTab (t : Terminal γ) : Terminal γ := (t.setCol (prevTab t.tabs t.cursor.col)).touch

/-- A tab stop at the cursor. -/
def setTab (t : Terminal γ) : Terminal γ := { t with tabs := t.tabs.set t.cursor.col true }

/-! ### Controls -/

/-- A C0 or C1 control. -/
def execute (t : Terminal γ) (b : UInt8) : Terminal γ :=
  if b = 0x07 then { t with bellCount := t.bellCount + 1 }.touch
  else if b = 0x08 then (t.setCol (t.cursor.col - 1)).touch
  else if b = 0x09 then t.horizontalTab
  else if 0x0A ≤ b.toNat ∧ b.toNat ≤ 0x0C then t.linefeed
  else if b = 0x0D then (t.setCol 0).touch
  else if b = 0x0E then { t with cursor := { t.cursor with shift := 1 } }
  else if b = 0x0F then { t with cursor := { t.cursor with shift := 0 } }
  else if b = 0x84 then t.index
  else if b = 0x85 then index { t with cursor := { t.cursor with col := 0 } }
  else if b = 0x88 then t.setTab
  else if b = 0x8D then t.reverseIndex
  else t

/-! ### Printing -/

/-- The line-drawing characters, from `_` to `~`. -/
def decSpecialTable : List ℕ :=
  [0x20, 0x25C6, 0x2592, 0x2409, 0x240C, 0x240D, 0x240A, 0xB0, 0xB1, 0x2424, 0x240B, 0x2518, 0x2510,
    0x250C, 0x2514, 0x253C, 0x23BA, 0x23BB, 0x2500, 0x23BC, 0x23BD, 0x251C, 0x2524, 0x2534, 0x252C,
    0x2502, 0x2264, 0x2265, 0x3C0, 0x2260, 0xA3, 0xB7]

/-- DEC special graphics. -/
def decSpecial (c : Char) : Char :=
  if 0x5F ≤ c.toNat ∧ c.toNat ≤ 0x7E then Utf8.scalar (decSpecialTable.getD (c.toNat - 0x5F) 0x20)
  else c

/-- A character through the charset in use. -/
def mapCharset (t : Terminal γ) (c : Char) : Char :=
  match if t.cursor.shift = 1 then t.cursor.g1 else t.cursor.g0 with
  | .ascii => c
  | .uk => if c = '#' then Utf8.scalar 0xA3 else c
  | .decSpecial => decSpecial c

/-- Attaches a zero-width character to the cell printed last. -/
def combine (t : Terminal γ) (c : Char) : Terminal γ :=
  let row := t.cursor.row
  if t.cursor.pendingWrap ∨ t.cursor.col > 0 then
    let col := if t.cursor.pendingWrap then t.cursor.col else t.cursor.col - 1
    -- a wide character's spacer stands for its head
    let spacer := ((t.scr.cell? row col).map fun cell => decide (cell.width = 0)).getD false
    let col := if spacer ∧ col > 0 then col - 1 else col
    (t.modifyScr fun s =>
      s.modifyCell row col fun cell => { cell with extra := cell.extra ++ [c] }).touch
  else t

/-- Blanks the other halves of wide characters that a write of `w` columns overwrites. -/
def cleanWide (s : Screen) (row col w : ℕ) : Screen :=
  let s :=
    if ((s.cell? row col).map fun c => decide (c.width = 0)).getD false ∧ col > 0 then
      s.setCell row (col - 1) (Cell.blank {})
    else s
  (List.range w).foldl (fun s i =>
    let c := col + i
    if ((s.cell? row c).map fun cell => decide (cell.width = 2)).getD false ∧ c + 1 < s.cols then
      s.setCell row (c + 1) (Cell.blank {})
    else s) s

/-- Blanks the cell if it is half of a wide character whose other half is missing. -/
def repairCell (row : ℕ) (s : Screen) (c : ℕ) : Screen :=
  let width := fun c : ℕ => (s.cell? row c).map Cell.width
  let orphaned :=
    if (width c).getD 1 = 2 then s.cols ≤ c + 1 || width (c + 1) ≠ some 0
    else if (width c).getD 1 = 0 then c = 0 || width (c - 1) ≠ some 2
    else false
  if orphaned then s.setCell row c (Cell.blank {}) else s

/-- Repairs the wide characters of a row after its cells were shifted. -/
def repairWideHalves (s : Screen) (row : ℕ) : Screen := (List.range s.cols).foldl (repairCell row) s

/-- Carries out a pending wrap. -/
def wrapPending (t : Terminal γ) : Terminal γ :=
  if t.cursor.pendingWrap then
    let t := t.cancelWrap
    if t.modes.autowrap then
      let t := t.modifyScr fun s => s.modifyRow t.cursor.row fun r => { r with wrapped := true }
      index { t with cursor := { t.cursor with col := 0 } }
    else t
  else t

/-- Makes room for a wide character in the last column: it goes to the next line, or back by one
column; `none` where there is no room at all. -/
def fitWide (t : Terminal γ) (w : ℕ) : Option (Terminal γ) :=
  if w = 2 ∧ t.cursor.col + 1 ≥ t.cols then
    if t.modes.autowrap then
      let t := t.modifyScr fun s =>
        (s.setCell t.cursor.row t.cursor.col (Cell.blank {})).modifyRow t.cursor.row
          fun r => { r with wrapped := true }
      some (index { t with cursor := { t.cursor with col := 0 } })
    else if t.cols ≥ 2 then some { t with cursor := { t.cursor with col := t.cols - 2 } }
    else none
  else some t

/-- Shifts the cells of a row right from a column on. -/
def shiftRight (col : ℕ) (cells : List Cell) : List Cell :=
  (cells.dropLast).insertIdx col (Cell.blank {})

/-- Writes a character of `w` columns at the cursor. -/
def putChar (t : Terminal γ) (c : Char) (w : ℕ) : Terminal γ :=
  let row := t.cursor.row
  let col := t.cursor.col
  let t :=
    if t.modes.insert then
      t.modifyScr fun s =>
        repairWideHalves
          (s.modifyRow row fun r => { r with cells := (shiftRight col)^[w] r.cells }) row
    else t
  let head : Cell := { ch := c, style := t.cursor.style, width := w, hyperlink := t.cursor.hyperlink }
  let t := t.modifyScr fun s =>
    let s := (cleanWide s row col w).setCell row col head
    if w = 2 then s.setCell row (col + 1) { head with ch := Cell.nul, width := 0 } else s
  if col + w ≥ t.cols then
    { t with
        cursor := { t.cursor with
          col := t.cols - 1
          pendingWrap := if t.modes.autowrap then true else t.cursor.pendingWrap } }
  else { t with cursor := { t.cursor with col := col + w } }

/-- Prints a character; a decoded C1 control is executed. -/
def print (t : Terminal γ) (c : Char) : Terminal γ :=
  if 0x80 ≤ c.toNat ∧ c.toNat < 0xA0 then t.execute (UInt8.ofNat c.toNat)
  else
    let c := t.mapCharset c
    let w := wcwidth c
    if w = 0 then t.combine c
    else
      let t := { t.touch with lastPrinted := some c }
      let t := t.wrapPending
      match t.fitWide w with
      | none => t
      | some t => t.putChar c w

/-! ### Saving the cursor -/

def saveCursor (t : Terminal γ) : Terminal γ :=
  let saved : SavedCursor := { cursor := t.cursor, origin := t.modes.origin }
  if t.altActive then { t with savedAlt := saved } else { t with savedPrimary := saved }

/-- Under origin mode the cursor stays within the region. -/
def clampToRegionIfOrigin (t : Terminal γ) : Terminal γ :=
  if t.modes.origin then
    { t with cursor := { t.cursor with row := min (max t.cursor.row t.region.1) t.region.2 } }
  else t

def restoreCursor (t : Terminal γ) : Terminal γ :=
  let saved := if t.altActive then t.savedAlt else t.savedPrimary
  let t :=
    { t with
        cursor := { saved.cursor with
          row := min saved.cursor.row (t.rows - 1)
          col := min saved.cursor.col (t.cols - 1) }
        modes := { t.modes with origin := saved.origin } }
  t.clampToRegionIfOrigin.touch

/-! ### Changes of the whole screen -/

/-- Moves the cursor; rows count from the region's top under origin mode. -/
def moveTo (t : Terminal γ) (row col : ℕ) : Terminal γ :=
  let (top, bot) := t.region
  let row := if t.modes.origin then min (min (top + row) 65535) bot else min row (t.rows - 1)
  { t with
      cursor := { t.cursor with row, col := min col (t.cols - 1), pendingWrap := false } }.touch

/-- Fills the screen with `E`. -/
def decaln (t : Terminal γ) : Terminal γ :=
  let t :=
    { t with
        scrollTop := 0
        scrollBot := t.rows - 1
        modes := { t.modes with origin := false }
        cursor := { t.cursor with row := 0, col := 0, pendingWrap := false } }
  let fill := fun (s : Screen) (r : ℕ) =>
    (List.range t.cols).foldl (fun s c => s.setCell r c { ch := 'E' }) s
  (t.modifyScr fun s => (List.range t.rows).foldl fill s).touch

/-- RIS. -/
def fullReset [GraphicsStore γ] (t : Terminal γ) : Terminal γ :=
  { t with
      screenSwitch := some .reset
      altActive := false
      primary := t.primary.clearGrid {}
      alt := t.alt.clearGrid {}
      cursor := {}
      savedPrimary := {}
      savedAlt := {}
      modes := {}
      scrollTop := 0
      scrollBot := t.rows - 1
      tabs := defaultTabs t.cols
      palette := defaultPalette
      fgColor := none
      bgColor := none
      cursorColor := none
      cursorStyleRaw := 0
      kittyPrimary := {}
      kittyAlt := {}
      graphics := GraphicsStore.reset
      lastPrinted := none
      colorStack := []
      lastTextSize := none }.touch

/-- The keyboard stack of the screen drawn on. -/
def kittyStack (t : Terminal γ) : KittyKeyStack := if t.altActive then t.kittyAlt else t.kittyPrimary

def modifyKittyStack (t : Terminal γ) (f : KittyKeyStack → KittyKeyStack) : Terminal γ :=
  if t.altActive then { t with kittyAlt := f t.kittyAlt }
  else { t with kittyPrimary := f t.kittyPrimary }

/-- DECSTR: the cursor, the screen and the other modes stay. -/
def softReset (t : Terminal γ) : Terminal γ :=
  let t :=
    { t with
        modes := { t.modes with
          cursorVisible := true
          origin := false
          insert := false
          autowrap := false
          cursorKeys := false
          keypadApp := false }
        scrollTop := 0
        scrollBot := t.rows - 1
        cursor := { t.cursor with
          style := {}
          hyperlink := 0
          pendingWrap := false
          g0 := .ascii
          g1 := .ascii
          shift := 0 }
        cursorStyleRaw := 0 }
  let t := if t.altActive then { t with savedAlt := {} } else { t with savedPrimary := {} }
  (t.modifyKittyStack fun _ => {}).touch

/-- Changes the size; the primary screen rewraps, the alternate one is cut or padded. -/
def resize (t : Terminal γ) (rows cols : ℕ) : Terminal γ :=
  let rows := max rows 1
  let cols := max cols 1
  if rows = t.rows ∧ cols = t.cols then t
  else
    let here := (t.cursor.row, t.cursor.col)
    let (primary, primaryCur) := t.primary.resize rows cols (if t.altActive then (0, 0) else here) true
    let (alt, altCur) := t.alt.resize rows cols (if t.altActive then here else (0, 0)) false
    let cur := if t.altActive then altCur else primaryCur
    { t with
        primary
        alt
        cursor := { t.cursor with
          row := min cur.1 (rows - 1)
          col := min cur.2 (cols - 1)
          pendingWrap := false }
        scrollTop := 0
        scrollBot := rows - 1
        tabs := t.tabs.take cols ++ (defaultTabs cols).drop t.tabs.length }.touch

/-- DECCOLM, where it is allowed: 132 or 80 columns, the screen cleared unless DECNCSM is set. -/
def setDeccolm (t : Terminal γ) (set : Bool) : Terminal γ :=
  if t.modes.allowDeccolm then
    let t := { t with modes := { t.modes with deccolm := set } }
    let t := t.resize t.rows (if set then 132 else 80)
    let t := { t with scrollTop := 0, scrollBot := t.rows - 1 }
    let t := if t.modes.noClearOnDeccolm then t else t.modifyScr fun s => s.clearGrid {}
    { t with cursor := { t.cursor with row := 0, col := 0, pendingWrap := false } }.touch
  else t

/-- Enters the alternate screen for mode 47, 1047 or 1049. -/
def enterAlt (t : Terminal γ) (mode : ℕ) : Terminal γ :=
  let t := if mode = 1049 then t.saveCursor else t
  { t with altActive := true, alt := if mode = 1049 then t.alt.clearGrid {} else t.alt }

/-- Leaves the alternate screen for mode 47, 1047 or 1049. -/
def leaveAlt (t : Terminal γ) (mode : ℕ) : Terminal γ :=
  let t :=
    { t with altActive := false, alt := if mode = 1047 then t.alt.clearGrid {} else t.alt }
  if mode = 1049 then t.restoreCursor else t

/-- Switches the alternate screen; the event is recorded even when nothing changes. -/
def setAltScreen (t : Terminal γ) (mode : ℕ) (on : Bool) : Terminal γ :=
  let t := { t with screenSwitch := some .alt }
  let t :=
    if on && !t.altActive then t.enterAlt mode
    else if !on && t.altActive then t.leaveAlt mode
    else t
  (t.setRow (min t.cursor.row (t.rows - 1))).touch

/-! ### Escape sequences -/

/-- The charset designated by a final byte. -/
def charsetFor (f : UInt8) : Charset :=
  if f = byte '0' then .decSpecial else if f = byte 'A' then .uk else .ascii

/-- What this terminal says it is. -/
def primaryAttributes : List UInt8 := csi (byte '?' :: numbers [62, 22]) 'c'

/-- A plain escape sequence. -/
def escDispatch [GraphicsStore γ] (t : Terminal γ) (intermediates : List UInt8) (final : UInt8) :
    Terminal γ :=
  match intermediates.head? with
  | none =>
    if final = byte '7' then t.saveCursor
    else if final = byte '8' then t.restoreCursor
    else if final = byte 'D' then t.index
    else if final = byte 'E' then index { t with cursor := { t.cursor with col := 0 } }
    else if final = byte 'H' then t.setTab
    else if final = byte 'M' then t.reverseIndex
    else if final = byte 'c' then t.fullReset
    else if final = byte '=' then { t with modes := { t.modes with keypadApp := true } }.touch
    else if final = byte '>' then { t with modes := { t.modes with keypadApp := false } }.touch
    else if final = byte 'Z' then t.respond primaryAttributes
    else t
  | some im =>
    if im = byte '#' ∧ final = byte '8' then t.decaln
    else if im = byte '(' then { t with cursor := { t.cursor with g0 := charsetFor final } }
    else if im = byte ')' then { t with cursor := { t.cursor with g1 := charsetFor final } }
    else t

/-! ### Application program commands -/

/-- A graphics command; the cursor moves to the cell after the image. -/
def apcDispatch [GraphicsStore γ] (t : Terminal γ) (data : List UInt8) : Terminal γ :=
  match data with
  | g :: rest =>
    if g = byte 'G' then
      let (graphics, resp, advance) :=
        GraphicsStore.dispatch t.graphics rest (t.cursor.row, t.cursor.col)
      let t := { t with graphics }
      let t := match resp with
        | some r => t.respond r
        | none => t
      let t := match advance with
        | some (cols, rows) =>
          let down := min (rows - 1) 65535
          let right := min cols 65535
          { t with
              cursor := { t.cursor with
                row := min (min (t.cursor.row + down) 65535) (t.rows - 1)
                col := min (min (t.cursor.col + right) 65535) (t.cols - 1)
                pendingWrap := false } }
        | none => t
      t.touch
    else t
  | [] => t

end Terminal

end Posh.Term
