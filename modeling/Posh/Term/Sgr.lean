/-
**The pen in text.**
-/

import Posh.Term.Cell
import Posh.Term.Emit

set_option autoImplicit false

namespace Posh.Term

/-- A further parameter. -/
def semi (n : ℕ) : List UInt8 := byte ';' :: decimal n

/-- A further part of a parameter. -/
def colon (n : ℕ) : List UInt8 := byte ':' :: decimal n

/-- A foreground or background colour: `base` selects the first eight, `bright` the next eight and
`ext` all others. -/
def colorParams (base bright ext : ℕ) : Color → List UInt8
  | .default => []
  | .indexed i =>
    if i.toNat < 8 then semi (base + i.toNat)
    else if i.toNat < 16 then semi (bright + i.toNat - 8)
    else semi ext ++ semi 5 ++ semi i.toNat
  | .rgb r g b => semi ext ++ semi 2 ++ semi r.toNat ++ semi g.toNat ++ semi b.toNat

def underlineColorParams : Color → List UInt8
  | .default => []
  | .indexed i => semi 58 ++ colon 5 ++ colon i.toNat
  | .rgb r g b => semi 58 ++ colon 2 ++ colon r.toNat ++ colon g.toNat ++ colon b.toNat

def underlineParams : UnderlineStyle → List UInt8
  | .none => []
  | .single => semi 4
  | .double => semi 4 ++ colon 2
  | .curly => semi 4 ++ colon 3
  | .dotted => semi 4 ++ colon 4
  | .dashed => semi 4 ++ colon 5

/-- The parameters that set a style, beginning with a reset. -/
def sgrParams (style : Style) : List UInt8 :=
  decimal 0 ++ (if style.bold then semi 1 else []) ++ (if style.dim then semi 2 else []) ++
    (if style.italic then semi 3 else []) ++ underlineParams style.underline ++
    (if style.blink then semi 5 else []) ++ (if style.inverse then semi 7 else []) ++
    (if style.invisible then semi 8 else []) ++ (if style.strikethrough then semi 9 else []) ++
    colorParams 30 90 38 style.fg ++ colorParams 40 100 48 style.bg ++
    underlineColorParams style.underlineColor

/-- The SGR sequence of a style. -/
def sgrSeq (style : Style) : List UInt8 := csi (sgrParams style) 'm'

end Posh.Term
