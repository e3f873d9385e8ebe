/-
**What lies outside the grid.**

Titles, the working directory, the colours and the keyboard stacks are changed by their own commands
alone.  Printing, moving about, the pen, the modes that are no switch of screens, marks, hyperlinks and
graphics leave them, and the screen drawn on, as they are.
-/

import Posh.Term.Drawing
import Posh.Term.ModeReads

set_option autoImplicit false

namespace Posh.Term.Terminal

variable {γ : Type}

/-- What lies outside the grid, and which screen is drawn on. -/
structure Outside where
  title : List Char := []
  iconTitle : List Char := []
  pwd : List Char := []
  palette : List Rgb := defaultPalette
  fgColor : Option Rgb := none
  bgColor : Option Rgb := none
  cursorColor : Option Rgb := none
  kittyPrimary : KittyKeyStack := {}
  kittyAlt : KittyKeyStack := {}
  altActive : Bool := false

def outside (t : Terminal γ) : Outside where
  title := t.title
  iconTitle := t.iconTitle
  pwd := t.pwd
  palette := t.palette
  fgColor := t.fgColor
  bgColor := t.bgColor
  cursorColor := t.cursorColor
  kittyPrimary := t.kittyPrimary
  kittyAlt := t.kittyAlt
  altActive := t.altActive

/-- What lies outside the grid is as it was, and so is the parser. -/
def Leaves (t t' : Terminal γ) : Prop := (t'.outside, t'.parser) = (t.outside, t.parser)

namespace Leaves

variable {t t' t'' : Terminal γ}

theorem refl (t : Terminal γ) : Leaves t t := rfl

theorem trans (h : Leaves t t') (h' : Leaves t' t'') : Leaves t t'' := Eq.trans h' h

theorem outside (h : Leaves t t') : t'.outside = t.outside := congrArg Prod.fst h

theorem parser (h : Leaves t t') : t'.parser = t.parser := congrArg Prod.snd h

theorem ite {c : Prop} [Decidable c] (h : Leaves t t') (h' : Leaves t t'') : Leaves t (if c then t' else t'') := by
  split
  · exact h
  · exact h'

theorem touch (h : Leaves t t') : Leaves t t'.touch := h

theorem modifyScr (t : Terminal γ) (g : Screen → Screen) : Leaves t (t.modifyScr g) := ite rfl rfl

/-! ### Controls -/

theorem of_drawn (h : Drawn t t') : Leaves t t' :=
  show (t'.undrawn.outside, t'.undrawn.parser) = (t.undrawn.outside, t.undrawn.parser) by rw [h]

theorem index (t : Terminal γ) : Leaves t t.index := of_drawn (.index t)

theorem reverseIndex (t : Terminal γ) : Leaves t t.reverseIndex :=
  touch (ite (touch (modifyScr t.cancelWrap _)) (ite rfl rfl))

theorem linefeed (t : Terminal γ) : Leaves t t.linefeed := by
  rw [Terminal.linefeed]
  have hindex := index t
  exact ite hindex hindex

theorem execute (t : Terminal γ) (b : UInt8) : Leaves t (t.execute b) := by
  rw [Terminal.execute]
  exact ite rfl <| ite rfl <| ite rfl <| ite (linefeed t) <| ite rfl <| ite rfl <| ite rfl <| ite (index t) <|
    ite (index { t with cursor := { t.cursor with col := 0 } }) <| ite rfl <| ite (reverseIndex t) rfl

/-! ### Printing -/

/-- **Printing.** -/
theorem print (t : Terminal γ) (c : Char) : Leaves t (t.print c) := by
  by_cases hc : 0x80 ≤ c.toNat ∧ c.toNat < 0xA0
  · rw [Terminal.print, if_pos hc]
    exact execute t _
  · exact of_drawn (.print t hc)

/-! ### Sequences -/

theorem setRegion (t : Terminal γ) (params : List (List ℕ)) : Leaves t (t.setRegion params) := ite rfl rfl

theorem sgr (t : Terminal γ) (params : List (List ℕ)) : Leaves t (t.sgr params) := ite rfl rfl

theorem clearTabs (t : Terminal γ) (n : ℕ) : Leaves t (t.clearTabs n) := ite rfl (ite rfl rfl)

theorem saveCursor (t : Terminal γ) : Leaves t t.saveCursor := ite rfl rfl

theorem restoreCursor (t : Terminal γ) : Leaves t t.restoreCursor := touch (ite rfl rfl)

theorem resize (t : Terminal γ) (rows cols : ℕ) : Leaves t (t.resize rows cols) := ite rfl rfl

theorem withCursor (h : Leaves t t') (cursor : CursorState) : Leaves t { t' with cursor } := h

theorem wholeRegion (h : Leaves t t') : Leaves t { t' with scrollTop := 0, scrollBot := t'.rows - 1 } := h

theorem setDeccolm (t : Terminal γ) (set : Bool) : Leaves t (t.setDeccolm set) := by
  rw [Terminal.setDeccolm]
  refine ite ?_ rfl
  have hmode : Leaves t { t with modes := { t.modes with deccolm := set } } := rfl
  dsimp only
  generalize (if set then 132 else 80) = width
  have hall := (hmode.trans (resize _ t.rows width)).wholeRegion
  refine touch ?_
  split
  · exact hall.withCursor _
  · have hclear := hall.trans (modifyScr _ fun s => s.clearGrid {})
    exact hclear.withCursor _

/-- **A private mode** that is no switch of screens. -/
theorem setDecMode (t : Terminal γ) {n : ℕ} (h : ¬ (n = 47 ∨ n = 1047 ∨ n = 1049)) (set : Bool) :
    Leaves t (t.setDecMode n set) := by
  rw [Terminal.setDecMode]
  dsimp only
  rw [if_neg h]
  exact touch <| ite (setDeccolm t set) <| ite rfl <| ite rfl <|
    ite (ite (saveCursor t) (restoreCursor t)) rfl

/-! ### Commands -/

theorem oscHyperlink (t : Terminal γ) (rest : List Char) : Leaves t (t.oscHyperlink rest) := by
  rw [Terminal.oscHyperlink]
  refine ite rfl ?_
  dsimp only
  split <;> exact rfl

theorem oscPromptMark (t : Terminal γ) (rest : List Char) : Leaves t (t.oscPromptMark rest) := by
  rw [Terminal.oscPromptMark]
  split
  · exact modifyScr t _
  · exact refl t

theorem apcDispatch [GraphicsStore γ] (t : Terminal γ) (data : List UInt8) : Leaves t (t.apcDispatch data) := by
  rw [Terminal.apcDispatch.eq_def]
  split
  · refine ite ?_ rfl
    dsimp only
    split <;> split <;> exact rfl
  · exact refl t

end Leaves

end Posh.Term.Terminal
