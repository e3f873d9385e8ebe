/-
**Modes, charsets, the cursor and the keyboard stack.**

The parts of a terminal's state that are not screen contents.
-/

import Posh.Term.Cell

set_option autoImplicit false

namespace Posh.Term

/-! ### Modes -/

/-- Which mouse events are reported. -/
inductive MouseMode where
  | none
  | x10
  | normal
  | buttonEvent
  | anyEvent
  deriving DecidableEq, Repr

/-- The DECSET parameter of a mouse mode. -/
def MouseMode.decset : MouseMode → Option ℕ
  | none => .none
  | x10 => some 9
  | normal => some 1000
  | buttonEvent => some 1002
  | anyEvent => some 1003

/-- How mouse coordinates are encoded. -/
inductive MouseProtocol where
  | normal
  | utf8
  | sgr
  | sgrPixel
  deriving DecidableEq, Repr

/-- The DECSET parameter of a coordinate encoding. -/
def MouseProtocol.decset : MouseProtocol → Option ℕ
  | normal => none
  | utf8 => some 1005
  | sgr => some 1006
  | sgrPixel => some 1016

structure Modes where
  cursorKeys : Bool := false
  origin : Bool := false
  autowrap : Bool := true
  cursorVisible : Bool := true
  bracketedPaste : Bool := false
  focusReporting : Bool := false
  alternateScroll : Bool := false
  synchronized : Bool := false
  insert : Bool := false
  lnm : Bool := false
  autorepeat : Bool := true
  keypadApp : Bool := false
  reverseVideo : Bool := false
  cursorBlink : Bool := false
  deccolm : Bool := false
  allowDeccolm : Bool := false
  noClearOnDeccolm : Bool := false
  mouseMode : MouseMode := .none
  mouseProtocol : MouseProtocol := .normal
  deriving DecidableEq, Repr

/-! ### The cursor -/

/-- A designated character set. -/
inductive Charset where
  | ascii
  /-- line drawing -/
  | decSpecial
  | uk
  deriving DecidableEq, Repr

/-- The cursor with its pen and charsets. -/
structure CursorState where
  row : ℕ := 0
  col : ℕ := 0
  pendingWrap : Bool := false
  style : Style := {}
  hyperlink : ℕ := 0
  g0 : Charset := .ascii
  g1 : Charset := .ascii
  /-- 1 when G1 is shifted in -/
  shift : ℕ := 0
  deriving DecidableEq, Repr

/-- What DECSC saves. -/
structure SavedCursor where
  cursor : CursorState := {}
  origin : Bool := false
  deriving DecidableEq, Repr

/-- A control that changes the screen drawn on. -/
inductive ScreenSwitch where
  | alt
  | reset
  deriving DecidableEq, Repr

/-- One entry of the colour stack: the palette and the dynamic colours. -/
structure ColorStackEntry where
  palette : List Rgb
  fg : Option Rgb
  bg : Option Rgb
  cursor : Option Rgb
  deriving DecidableEq, Repr

/-- A hyperlink of OSC 8. -/
structure Hyperlink where
  id : List Char
  uri : List Char
  deriving DecidableEq, Repr

/-! ### The keyboard stack -/

/-- The keyboard-protocol flags pushed on one screen, oldest first. -/
structure KittyKeyStack where
  stack : List UInt8 := []
  deriving DecidableEq, Repr

namespace KittyKeyStack

/-- How many entries a stack keeps. -/
def maxStack : ℕ := 128

def flags (k : KittyKeyStack) : UInt8 := k.stack.getLast?.getD 0

/-- Pushes flags; the oldest entry goes when the stack is full. -/
def push (k : KittyKeyStack) (flags : UInt8) : KittyKeyStack :=
  let kept := if k.stack.length ≥ maxStack then k.stack.drop 1 else k.stack
  ⟨kept ++ [flags &&& 0x1f]⟩

/-- Pops up to `n` entries. -/
def pop (k : KittyKeyStack) (n : ℕ) : KittyKeyStack := ⟨k.stack.take (k.stack.length - n)⟩

/-- `CSI = flags ; mode u`: mode 2 adds flags, 3 removes them, any other sets them. -/
def set (k : KittyKeyStack) (flags : UInt8) (mode : ℕ) : KittyKeyStack :=
  let new :=
    if mode = 2 then k.flags ||| (flags &&& 0x1f)
    else if mode = 3 then k.flags &&& ~~~(flags &&& 0x1f)
    else flags &&& 0x1f
  ⟨k.stack.dropLast ++ [new]⟩

end KittyKeyStack

end Posh.Term
