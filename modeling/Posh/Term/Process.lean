/-
**Processing a byte stream.**
-/

import Posh.Term.Csi
import Posh.Term.Osc

set_option autoImplicit false

namespace Posh.Term.Terminal

variable {γ : Type} [GraphicsStore γ]

/-- Carries out an action of the parser. -/
def dispatch (t : Terminal γ) : Action → Terminal γ
  | .print c => t.print c
  | .execute b => t.execute b
  | .csi params intermediates marker final => t.csiDispatch params intermediates marker final
  | .esc intermediates final => t.escDispatch intermediates final
  | .osc data bel => t.oscDispatch data bel
  | .dcs _ intermediates final data => t.dcsDispatch intermediates final data
  | .apc data => t.apcDispatch data

def processByte (t : Terminal γ) (b : UInt8) : Terminal γ :=
  (t.parser.advance b).2.foldl dispatch { t with parser := (t.parser.advance b).1 }

/-- **A byte stream.** -/
def process (t : Terminal γ) (bytes : List UInt8) : Terminal γ := bytes.foldl processByte t

@[simp] theorem process_nil (t : Terminal γ) : t.process [] = t := rfl

theorem process_cons (t : Terminal γ) (b : UInt8) (bs : List UInt8) :
    t.process (b :: bs) = (t.processByte b).process bs := rfl

theorem process_append (t : Terminal γ) (xs ys : List UInt8) :
    t.process (xs ++ ys) = (t.process xs).process ys := List.foldl_append

end Posh.Term.Terminal
