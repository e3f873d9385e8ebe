/-
**What only control sequences change.**

The pen, the scroll region, origin mode and the switch of screens wait for a control sequence: printing,
commands and strings leave them, and so do most control sequences too.  Where not even the cursor's row
moves, the terminal is still.
-/

import Posh.Term.Drawing
import Posh.Term.Process
import Posh.Term.Sequences

set_option autoImplicit false

namespace Posh.Term

variable {γ : Type}

namespace Terminal

/-! ### The terminal is as it was -/

/-- What only control sequences change, and the parser, which no action changes. -/
structure Controlled where
  style : Style
  origin : Bool
  scrollTop : ℕ
  scrollBot : ℕ
  screenSwitch : Option ScreenSwitch
  parser : Parser

def controlled (t : Terminal γ) : Controlled where
  style := t.cursor.style
  origin := t.modes.origin
  scrollTop := t.scrollTop
  scrollBot := t.scrollBot
  screenSwitch := t.screenSwitch
  parser := t.parser

/-- What only control sequences change is as it was. -/
def Steady (t t' : Terminal γ) : Prop := t'.controlled = t.controlled

/-- And the cursor's row too. -/
structure Still (t t' : Terminal γ) : Prop where
  steady : Steady t t'
  row : t'.cursor.row = t.cursor.row

namespace Still

variable {t t' t'' : Terminal γ}

theorem refl (t : Terminal γ) : Still t t := ⟨rfl, rfl⟩

theorem trans (h : Still t t') (h' : Still t' t'') : Still t t'' :=
  ⟨h'.steady.trans h.steady, h'.row.trans h.row⟩

theorem ite {c : Prop} [Decidable c] (h : Still t t') (h' : Still t t'') : Still t (if c then t' else t'') := by
  split
  · exact h
  · exact h'

theorem skip {c : Prop} [Decidable c] (hc : ¬ c) (h : Still t t'') : Still t (if c then t' else t'') := by
  rw [if_neg hc]
  exact h

theorem touch (h : Still t t') : Still t t'.touch := ⟨h.steady, h.row⟩

theorem foldl {α : Type} {f : Terminal γ → α → Terminal γ} (hf : ∀ t a, Still t (f t a)) (t : Terminal γ)
    (as : List α) : Still t (as.foldl f t) := by
  induction as generalizing t with
  | nil => exact refl t
  | cons a as ih => exact (hf t a).trans (ih (f t a))

theorem iterate {f : Terminal γ → Terminal γ} (hf : ∀ t, Still t (f t)) (t : Terminal γ) (n : ℕ) :
    Still t (f^[n] t) := by
  induction n generalizing t with
  | zero => exact refl t
  | succ n ih => exact (hf t).trans (ih (f t))

theorem modifyScr (t : Terminal γ) (g : Screen → Screen) : Still t (t.modifyScr g) :=
  ite ⟨rfl, rfl⟩ ⟨rfl, rfl⟩

theorem edited (t : Terminal γ) (g : Screen → Screen) : Still t (t.cancelWrap.modifyScr g).touch :=
  @trans _ t t.cancelWrap _ ⟨rfl, rfl⟩ (touch (modifyScr _ g))

theorem modifyKittyStack (t : Terminal γ) (g : KittyKeyStack → KittyKeyStack) :
    Still t (t.modifyKittyStack g) := ite ⟨rfl, rfl⟩ ⟨rfl, rfl⟩

theorem scrollUpN (t : Terminal γ) (n : ℕ) : Still t (t.scrollUpN n) := touch (modifyScr t _)

theorem scrollDownN (t : Terminal γ) (n : ℕ) : Still t (t.scrollDownN n) := touch (modifyScr t _)

end Still

namespace Steady

variable {t t' t'' : Terminal γ}

theorem refl (t : Terminal γ) : Steady t t := rfl

theorem trans (h : Steady t t') (h' : Steady t' t'') : Steady t t'' := Eq.trans h' h

theorem style (h : Steady t t') : t'.cursor.style = t.cursor.style := congrArg Controlled.style h

theorem origin (h : Steady t t') : t'.modes.origin = t.modes.origin := congrArg Controlled.origin h

theorem scrollTop (h : Steady t t') : t'.scrollTop = t.scrollTop := congrArg Controlled.scrollTop h

theorem scrollBot (h : Steady t t') : t'.scrollBot = t.scrollBot := congrArg Controlled.scrollBot h

theorem screenSwitch (h : Steady t t') : t'.screenSwitch = t.screenSwitch :=
  congrArg Controlled.screenSwitch h

theorem parser (h : Steady t t') : t'.parser = t.parser := congrArg Controlled.parser h

theorem ite {c : Prop} [Decidable c] (h : Steady t t') (h' : Steady t t'') : Steady t (if c then t' else t'') := by
  split
  · exact h
  · exact h'

theorem touch (h : Steady t t') : Steady t t'.touch := h

theorem foldl {α : Type} {f : Terminal γ → α → Terminal γ} (hf : ∀ t a, Steady t (f t a)) (t : Terminal γ)
    (as : List α) : Steady t (as.foldl f t) := by
  induction as generalizing t with
  | nil => exact refl t
  | cons a as ih => exact (hf t a).trans (ih (f t a))

theorem iterate {f : Terminal γ → Terminal γ} (hf : ∀ t, Steady t (f t)) (t : Terminal γ) (n : ℕ) :
    Steady t (f^[n] t) := by
  induction n generalizing t with
  | zero => exact refl t
  | succ n ih => exact (hf t).trans (ih (f t))

/-! ### Controls -/

theorem of_drawn (h : Drawn t t') : Steady t t' :=
  show t'.undrawn.controlled = t.undrawn.controlled from congrArg controlled h

theorem index (t : Terminal γ) : Steady t t.index := of_drawn (.index t)

theorem reverseIndex (t : Terminal γ) : Steady t t.reverseIndex :=
  touch (ite (Still.scrollDownN t.cancelWrap 1).steady (ite rfl rfl))

theorem linefeed (t : Terminal γ) : Steady t t.linefeed := by
  rw [Terminal.linefeed]
  have hindex := index t
  exact ite hindex hindex

theorem execute (t : Terminal γ) (b : UInt8) : Steady t (t.execute b) := by
  rw [Terminal.execute]
  exact ite rfl <| ite rfl <| ite rfl <| ite (linefeed t) <| ite rfl <| ite rfl <| ite rfl <| ite (index t) <|
    ite (index { t with cursor := { t.cursor with col := 0 } }) <| ite rfl <| ite (reverseIndex t) (refl t)

/-! ### Printing -/

theorem print (t : Terminal γ) (c : Char) : Steady t (t.print c) := by
  by_cases hc : 0x80 ≤ c.toNat ∧ c.toNat < 0xA0
  · rw [Terminal.print, if_pos hc]
    exact execute t _
  · exact of_drawn (.print t hc)

end Steady

theorem Still.combine (t : Terminal γ) (c : Char) : Still t (t.combine c) := by
  rw [Terminal.combine]
  exact ite (touch (modifyScr t _)) (refl t)

theorem Still.putChar (t : Terminal γ) (c : Char) (w : ℕ) : Still t (t.putChar c w) := by
  refine ⟨.of_drawn (.putChar t c w), ?_⟩
  rw [Terminal.putChar]
  dsimp only
  generalize hins : (if t.modes.insert then _ else t) = t'
  have hinserted : t'.cursor.row = t.cursor.row := by rw [← hins]; split <;> simp
  generalize hput : t'.modifyScr _ = u
  have hwritten : u.cursor.row = t'.cursor.row := by rw [← hput, modifyScr_cursor]
  split <;> exact hwritten.trans hinserted

/-! ### Commands and strings -/

namespace Still

variable {t t' t'' : Terminal γ}

theorem oscPalette (bel : Bool) (parts : List (List Char)) (t : Terminal γ) :
    Still t (oscPalette bel parts t) := by
  induction parts using List.twoStepInduction generalizing t with
  | nil => exact refl t
  | singleton part => exact refl t
  | cons_cons idx spec parts ih _ =>
    rw [Terminal.oscPalette]
    refine trans ?_ (ih _)
    split
    · refine ite (ite ⟨rfl, rfl⟩ ?_) (refl t)
      split
      · exact ⟨rfl, rfl⟩
      · exact refl t
    · exact refl t

theorem oscDynamicColor (t : Terminal γ) (code : ℕ) (rest : List Char) (bel : Bool) :
    Still t (t.oscDynamicColor code rest bel) := by
  rw [Terminal.oscDynamicColor]
  dsimp only
  refine ite ⟨rfl, rfl⟩ ?_
  split
  · exact touch (ite ⟨rfl, rfl⟩ (ite ⟨rfl, rfl⟩ ⟨rfl, rfl⟩))
  · exact refl t

theorem oscHyperlink (t : Terminal γ) (rest : List Char) : Still t (t.oscHyperlink rest) := by
  rw [Terminal.oscHyperlink]
  dsimp only
  refine ite ⟨rfl, rfl⟩ ?_
  split <;> exact ⟨rfl, rfl⟩

theorem oscClipboard (t : Terminal γ) (rest : List Char) (bel : Bool) : Still t (t.oscClipboard rest bel) := by
  rw [Terminal.oscClipboard]
  dsimp only
  refine ite ⟨rfl, rfl⟩ ?_
  split
  · rename_i decoded _
    have hset := foldl (f := fun (t : Terminal γ) kind => t.setSelection kind decoded)
      (fun _ _ => ite ⟨rfl, rfl⟩ (ite ⟨rfl, rfl⟩ ⟨rfl, rfl⟩)) t
      (slotLetters ((splitOnce ';' rest).getD ([], rest)).1)
    exact ⟨hset.steady, hset.row⟩
  · exact refl t

theorem oscPromptMark (t : Terminal γ) (rest : List Char) : Still t (t.oscPromptMark rest) := by
  rw [Terminal.oscPromptMark]
  split
  · exact touch (modifyScr t _)
  · exact refl t

theorem oscCommand (t : Terminal γ) {code : ℕ} (hcode : code ≠ 66) (rest : List Char) (bel : Bool) :
    Still t (t.oscCommand code rest bel) := by
  rw [Terminal.oscCommand]
  exact ite ⟨rfl, rfl⟩ <| ite ⟨rfl, rfl⟩ <| ite ⟨rfl, rfl⟩ <| ite (oscPalette _ _ t) <| ite ⟨rfl, rfl⟩ <|
    ite (oscHyperlink t _) <| ite ⟨rfl, rfl⟩ <| ite (oscDynamicColor t _ _ _) <| ite ⟨rfl, rfl⟩ <|
    ite (oscClipboard t _ _) <| skip hcode <| ite ⟨rfl, rfl⟩ <| ite ⟨rfl, rfl⟩ <| ite ⟨rfl, rfl⟩ <|
    ite ⟨rfl, rfl⟩ <| ite ⟨rfl, rfl⟩ <| ite (oscPromptMark t _) (refl t)

theorem dcsDispatch (t : Terminal γ) (intermediates : List UInt8) (final : UInt8) (data : List UInt8) :
    Still t (t.dcsDispatch intermediates final data) := by
  rw [Terminal.dcsDispatch]
  refine ite ?_ (ite ?_ (refl t))
  · rw [decrqss]
    split <;> exact ⟨rfl, rfl⟩
  · rw [xtgettcap]
    split
    · exact foldl (f := fun t nameHex => t.respond (capabilityReply nameHex)) (fun _ _ => ⟨rfl, rfl⟩) t _
    · exact refl t

end Still

namespace Steady

variable {t t' t'' : Terminal γ}

theorem oscTextSize (t : Terminal γ) (rest : List Char) : Steady t (t.oscTextSize rest) := by
  rw [Terminal.oscTextSize]
  dsimp only
  refine ite rfl (touch ?_)
  have hprint := @trans _ t { t with lastTextSize := some rest } _ rfl
    (foldl print _ ((splitOnce ';' rest).getD ([], rest)).2)
  split
  · exact ite hprint hprint
  · exact hprint

theorem oscDispatch (t : Terminal γ) (data : List UInt8) (bel : Bool) : Steady t (t.oscDispatch data bel) := by
  rw [Terminal.oscDispatch]
  split
  · rename_i code _
    by_cases hcode : code = 66
    · subst hcode
      exact oscTextSize t _
    · exact (Still.oscCommand t hcode _ _).steady
  · exact refl t

theorem apcDispatch [GraphicsStore γ] (t : Terminal γ) (data : List UInt8) : Steady t (t.apcDispatch data) := by
  rw [Terminal.apcDispatch.eq_def]
  split
  · dsimp only
    refine ite (touch ?_) (refl t)
    split <;> split <;> exact rfl
  · exact refl t

end Steady

/-- **An action that is no sequence** changes none of it. -/
theorem Steady.dispatch [GraphicsStore γ] (t : Terminal γ) {a : Action} (ha : a.isSequence = false) :
    Steady t (t.dispatch a) := by
  cases a with
  | print c => exact .print t c
  | execute b => exact .execute t b
  | csi => cases ha
  | esc => cases ha
  | osc data bel => exact .oscDispatch t data bel
  | dcs params intermediates final data => exact (Still.dcsDispatch t intermediates final data).steady
  | apc data => exact .apcDispatch t data

theorem Steady.dispatchAll [GraphicsStore γ] (t : Terminal γ) {actions : List Action}
    (h : actions.any Action.isSequence = false) : Steady t (actions.foldl Terminal.dispatch t) := by
  induction actions generalizing t with
  | nil => exact .refl t
  | cons a actions ih =>
    obtain ⟨ha, hactions⟩ := Bool.or_eq_false_iff.mp h
    exact (Steady.dispatch t ha).trans (ih _ hactions)

/-! ### Control sequences -/

namespace Still

variable {t t' t'' : Terminal γ}

theorem setCol (t : Terminal γ) (col : ℕ) : Still t (t.setCol col) := ⟨rfl, rfl⟩

theorem horizontalTab (t : Terminal γ) : Still t t.horizontalTab := ⟨rfl, rfl⟩

theorem backTab (t : Terminal γ) : Still t t.backTab := ⟨rfl, rfl⟩

theorem eraseDisplay (t : Terminal γ) (mode : ℕ) (selective : Bool) :
    Still t (t.eraseDisplay mode selective) := edited t _

theorem eraseLine (t : Terminal γ) (mode : ℕ) (selective : Bool) : Still t (t.eraseLine mode selective) :=
  ite (edited t _) <| ite (edited t _) <| ite (edited t _) ⟨rfl, rfl⟩

theorem insertLines (t : Terminal γ) (n : ℕ) : Still t (t.insertLines n) :=
  ite (refl t) ((modifyScr t _).trans (touch (setCol _ 0)))

theorem deleteLines (t : Terminal γ) (n : ℕ) : Still t (t.deleteLines n) :=
  ite (refl t) ((modifyScr t _).trans (touch (setCol _ 0)))

theorem insertChars (t : Terminal γ) (n : ℕ) : Still t (t.insertChars n) :=
  (modifyScr t _).trans ⟨rfl, rfl⟩

theorem deleteChars (t : Terminal γ) (n : ℕ) : Still t (t.deleteChars n) :=
  (modifyScr t _).trans ⟨rfl, rfl⟩

theorem eraseChars (t : Terminal γ) (n : ℕ) : Still t (t.eraseChars n) :=
  (modifyScr t _).trans ⟨rfl, rfl⟩

theorem saveCursor (t : Terminal γ) : Still t t.saveCursor := ite ⟨rfl, rfl⟩ ⟨rfl, rfl⟩

theorem setAnsiMode (t : Terminal γ) (params : List (List ℕ)) (set : Bool) :
    Still t (t.setAnsiMode params set) := by
  refine ⟨?_, rfl⟩
  have horigin : ∀ (m : Modes), (params.foldl (fun (m : Modes) p =>
      let n := p.head?.getD 0
      if n = 4 then { m with insert := set } else if n = 20 then { m with lnm := set } else m) m).origin =
      m.origin := by
    intro m
    induction params generalizing m with
    | nil => rfl
    | cons p params ih =>
      rw [List.foldl_cons, ih]
      dsimp only
      split
      · rfl
      · split <;> rfl
  exact congrArg (fun origin => { t.controlled with origin }) (horigin t.modes)

theorem deviceStatus (t : Terminal γ) (n : ℕ) : Still t (t.deviceStatus n) :=
  ite ⟨rfl, rfl⟩ (ite ⟨rfl, rfl⟩ ⟨rfl, rfl⟩)

theorem windowOps (t : Terminal γ) (params : List (List ℕ)) : Still t (t.windowOps params) :=
  ite ⟨rfl, rfl⟩ (ite ⟨rfl, rfl⟩ (ite ⟨rfl, rfl⟩ ⟨rfl, rfl⟩))

theorem clearTabs (t : Terminal γ) (n : ℕ) : Still t (t.clearTabs n) :=
  ite ⟨rfl, rfl⟩ (ite ⟨rfl, rfl⟩ ⟨rfl, rfl⟩)

theorem popColors (t : Terminal γ) : Still t t.popColors := by
  rw [Terminal.popColors]
  split <;> exact ⟨rfl, rfl⟩

/-- The final bytes of the sequences that move the cursor to another row, change the region or the pen. -/
def moving : List Char := ['A', 'B', 'E', 'F', 'H', 'f', 'b', 'd', 'e', 'm', 'r', 'u']

/-- **Most control sequences** leave the terminal still. -/
theorem csiPlain (t : Terminal γ) (params : List (List ℕ)) {final : UInt8}
    (h : ∀ c ∈ moving, final ≠ byte c) : Still t (t.csiPlain params final) := by
  rw [Terminal.csiPlain]
  exact skip (h 'A' (by decide)) <| skip (h 'B' (by decide)) <| ite ⟨rfl, rfl⟩ <| ite ⟨rfl, rfl⟩ <|
    skip (h 'E' (by decide)) <| skip (h 'F' (by decide)) <| ite ⟨rfl, rfl⟩ <|
    skip (not_or.mpr ⟨h 'H' (by decide), h 'f' (by decide)⟩) <| ite (iterate horizontalTab t _) <|
    ite (eraseDisplay t _ _) <| ite (eraseLine t _ _) <| ite (insertLines t _) <| ite (deleteLines t _) <|
    ite (deleteChars t _) <| ite (scrollUpN t _) <| ite (scrollDownN t _) <| ite (eraseChars t _) <|
    ite (iterate backTab t _) <| ite (insertChars t _) <| ite ⟨rfl, rfl⟩ <| skip (h 'b' (by decide)) <|
    ite (ite ⟨rfl, rfl⟩ ⟨rfl, rfl⟩) <| skip (h 'd' (by decide)) <| skip (h 'e' (by decide)) <|
    ite (clearTabs t _) <| ite (setAnsiMode t params true) <| ite (setAnsiMode t params false) <|
    skip (h 'm' (by decide)) <| ite (deviceStatus t _) <| skip (h 'r' (by decide)) <| ite (saveCursor t) <|
    skip (h 'u' (by decide)) <| ite (windowOps t _) (refl t)

theorem csiMarked (t : Terminal γ) (params : List (List ℕ)) (marker final : UInt8) :
    Still t (t.csiMarked params marker final) :=
  ite ⟨rfl, rfl⟩ <| ite ⟨rfl, rfl⟩ <| ite (modifyKittyStack t _) <| ite (modifyKittyStack t _) <|
    ite (modifyKittyStack t _) (refl t)

end Still

end Terminal

end Posh.Term
