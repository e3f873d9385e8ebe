/-
**What drawing changes.**

A character goes to the screen drawn on, at the cursor, and the cursor goes on; a line that ends may scroll the
screen.  The rest of the terminal is as it was, and whatever else is said of what drawing leaves follows from that.
-/

import Posh.Term.Terminal

set_option autoImplicit false

namespace Posh.Term.Terminal

variable {γ : Type}

/-- A terminal without its screens, the cursor's place and what only counts. -/
def undrawn (t : Terminal γ) : Terminal γ :=
  { t with
    primary := .new 1 1 0
    alt := .new 1 1 0
    cursor := { t.cursor with row := 0, col := 0, pendingWrap := false }
    generation := 0
    lastPrinted := none }

/-- Nothing but these has changed. -/
def Drawn (t t' : Terminal γ) : Prop := t'.undrawn = t.undrawn

namespace Drawn

variable {t t' t'' : Terminal γ}

theorem trans (h : Drawn t t') (h' : Drawn t' t'') : Drawn t t'' := Eq.trans h' h

theorem ite {c : Prop} [Decidable c] (h : Drawn t t') (h' : Drawn t t'') : Drawn t (if c then t' else t'') := by
  split
  · exact h
  · exact h'

theorem modifyScr (t : Terminal γ) (g : Screen → Screen) : Drawn t (t.modifyScr g) := ite rfl rfl

theorem index (t : Terminal γ) : Drawn t t.index := by
  have hscroll : Drawn t (t.cancelWrap.scrollUpN 1) := modifyScr t.cancelWrap _
  exact ite hscroll (ite rfl rfl)

/-- The rest of the line goes to the next one. -/
theorem wrapOn (t : Terminal γ) (g : Screen → Screen) :
    Drawn t (Terminal.index { t.modifyScr g with cursor := { (t.modifyScr g).cursor with col := 0 } }) := by
  refine (modifyScr t g).trans ?_
  generalize t.modifyScr g = u
  exact index { u with cursor := { u.cursor with col := 0 } }

theorem wrapPending (t : Terminal γ) : Drawn t t.wrapPending := by
  rw [Terminal.wrapPending]
  exact ite (ite (wrapOn t.cancelWrap _) rfl) rfl

theorem fitWide {w : ℕ} (h : t.fitWide w = some t') : Drawn t t' := by
  rw [Terminal.fitWide] at h
  split at h
  · split at h
    · rw [← Option.some.inj h]
      exact wrapOn t _
    · split at h
      · rw [← Option.some.inj h]
        exact rfl
      · cases h
  · rw [← Option.some.inj h]
    exact rfl

theorem putChar (t : Terminal γ) (c : Char) (w : ℕ) : Drawn t (t.putChar c w) := by
  rw [Terminal.putChar]
  dsimp only
  generalize hins : (if t.modes.insert then _ else t) = t'
  have hinserted : Drawn t t' := hins ▸ ite (modifyScr t _) rfl
  generalize hput : t'.modifyScr _ = u
  have hwritten : Drawn t' u := hput ▸ modifyScr t' _
  exact hinserted.trans (hwritten.trans (ite rfl rfl))

/-- **Printing.** -/
theorem print (t : Terminal γ) {c : Char} (h : ¬ (0x80 ≤ c.toNat ∧ c.toNat < 0xA0)) : Drawn t (t.print c) := by
  rw [Terminal.print, if_neg h]
  dsimp only
  split
  · rw [Terminal.combine]
    exact ite (modifyScr t _) rfl
  · have hwrapped := wrapPending { t.touch with lastPrinted := some (t.mapCharset c) }
    split
    · exact hwrapped
    · rename_i u hfit
      exact trans hwrapped ((fitWide hfit).trans (putChar _ _ _))

end Drawn

end Posh.Term.Terminal
