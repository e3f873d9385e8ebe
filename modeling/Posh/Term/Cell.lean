/-
**Cells, styles and colours.**

What one position of the screen holds: a character with the marks combined onto it, its attributes,
its width in columns and the hyperlink it belongs to.  A character two columns wide is a head of
width two and a spacer of width zero after it.
-/

import Mathlib.Data.Nat.Notation

set_option autoImplicit false

namespace Posh.Term

/-- A colour: the terminal's default, a palette slot, or a direct value. -/
inductive Color where
  | default
  | indexed (i : UInt8)
  | rgb (r g b : UInt8)
  deriving DecidableEq, Repr

inductive UnderlineStyle where
  | none
  | single
  | double
  | curly
  | dotted
  | dashed
  deriving DecidableEq, Repr

/-- The attributes of a cell, and the guard against selective erase. -/
structure Style where
  fg : Color := .default
  bg : Color := .default
  underlineColor : Color := .default
  bold : Bool := false
  dim : Bool := false
  italic : Bool := false
  underline : UnderlineStyle := .none
  blink : Bool := false
  inverse : Bool := false
  invisible : Bool := false
  strikethrough : Bool := false
  /-- DECSCA: spared by selective erase -/
  isProtected : Bool := false
  deriving DecidableEq, Repr

/-- One position of the screen. -/
structure Cell where
  ch : Char
  style : Style := {}
  /-- 1, or 2 for the head of a wide character, or 0 for the spacer after one -/
  width : ℕ := 1
  /-- combining marks -/
  extra : List Char := []
  /-- the hyperlink, 0 for none -/
  hyperlink : ℕ := 0
  deriving DecidableEq, Repr

namespace Cell

/-- The spacer's character. -/
def nul : Char := Char.ofNat 0

/-- A space in the given style. -/
def blank (style : Style) : Cell := { ch := ' ', style }

/-- Shows nothing. -/
def isBlank (c : Cell) : Bool := (c.ch == ' ' || c.ch == nul) && c.extra.isEmpty

/-- Can be left out when drawing over a cleared screen. -/
def isDumpSkippable (c : Cell) : Bool := c.isBlank && c.style = {} && c.hyperlink = 0

end Cell

/-! ### The palette -/

/-- Red, green and blue. -/
abbrev Rgb := UInt8 × UInt8 × UInt8

/-- The sixteen named colours. -/
def basePalette : List Rgb :=
  [(0, 0, 0), (205, 0, 0), (0, 205, 0), (205, 205, 0), (0, 0, 238), (205, 0, 205), (0, 205, 205),
    (229, 229, 229), (127, 127, 127), (255, 0, 0), (0, 255, 0), (255, 255, 0), (92, 92, 255),
    (255, 0, 255), (0, 255, 255), (255, 255, 255)]

/-- A colour of the default palette: the named ones, a 6×6×6 cube and a grey ramp. -/
def defaultPaletteEntry (i : ℕ) : Rgb :=
  if i ≤ 15 then basePalette.getD i (0, 0, 0)
  else if i ≤ 231 then
    let v := i - 16
    let scale := fun x : ℕ => if x = 0 then (0 : UInt8) else UInt8.ofNat (55 + 40 * x)
    (scale (v / 36), scale (v / 6 % 6), scale (v % 6))
  else
    let g := UInt8.ofNat (8 + 10 * (i - 232))
    (g, g, g)

/-- The palette a terminal starts with. -/
def defaultPalette : List Rgb := (List.range 256).map defaultPaletteEntry

end Posh.Term
