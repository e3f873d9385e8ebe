/-
**The parameters that the parser hands on are bounded.**

A digit is added below a cap, so every part of every parameter is a 16-bit number.
-/

import Posh.Term.Parser

set_option autoImplicit false

namespace Posh.Term

/-- Every part of every parameter is a 16-bit number. -/
def PartsFit (params : List (List ℕ)) : Prop := ∀ parts ∈ params, ∀ v ∈ parts, v ≤ 65535

/-- The parameters of a control sequence. -/
def Action.params : Action → List (List ℕ)
  | .csi params _ _ _ => params
  | _ => []

def Action.ParamsFit (a : Action) : Prop := PartsFit a.params

namespace Parser

/-- So is what is read of them. -/
def ParamsFit (p : Parser) : Prop :=
  p.curVal ≤ 65535 ∧ (∀ v ∈ p.curParts, v ≤ 65535) ∧ PartsFit p.params

theorem paramsFit_fresh : ({} : Parser).ParamsFit := ⟨Nat.zero_le _, nofun, nofun⟩

section

variable {p q : Parser} {b : UInt8}

theorem ParamsFit.cleared (p : Parser) : p.clear.ParamsFit := ⟨Nat.zero_le _, nofun, nofun⟩

theorem ParamsFit.paramDigit (h : p.ParamsFit) (b : UInt8) : (p.paramDigit b).ParamsFit :=
  ⟨Nat.min_le_right _ _, h.2⟩

theorem ParamsFit.parts (h : p.ParamsFit) : ∀ v ∈ p.curParts ++ [p.curVal], v ≤ 65535 :=
  List.forall_mem_append.mpr ⟨h.2.1, List.forall_mem_singleton.mpr h.1⟩

theorem ParamsFit.whole (h : p.ParamsFit) : PartsFit
    (if p.params.length < maxParams then p.params ++ [p.curParts ++ [p.curVal]] else p.params) := by
  split
  · exact List.forall_mem_append.mpr ⟨h.2.2, List.forall_mem_singleton.mpr h.parts⟩
  · exact h.2.2

theorem ParamsFit.paramColon (h : p.ParamsFit) : p.paramColon.ParamsFit := by
  refine ⟨Nat.zero_le _, ?_, h.2.2⟩
  show ∀ v ∈ (if p.curParts.length < maxSubparams then p.curParts ++ [p.curVal] else p.curParts), v ≤ 65535
  split
  · exact h.parts
  · exact h.2.1

theorem ParamsFit.paramSemicolon (h : p.ParamsFit) : p.paramSemicolon.ParamsFit :=
  ⟨Nat.zero_le _, nofun, h.whole⟩

theorem ParamsFit.takeParams (h : p.ParamsFit) : PartsFit p.takeParams.1 := by
  rw [Parser.takeParams]
  dsimp only
  split
  · exact h.whole
  · exact h.2.2

/-- A step that keeps the bound. -/
structure StepFits (r : Parser × List Action) : Prop where
  parser : r.1.ParamsFit
  actions : ∀ a ∈ r.2, a.ParamsFit

namespace StepFits

variable {r r' : Parser × List Action}

theorem ite {c : Prop} [Decidable c] (h : StepFits r) (h' : StepFits r') : StepFits (if c then r else r') := by
  split
  · exact h
  · exact h'

theorem quiet (h : r.1.ParamsFit) (hnone : r.2.flatMap Action.params = []) : StepFits r := by
  refine ⟨h, fun a ha => ?_⟩
  rw [Action.ParamsFit, List.flatMap_eq_nil_iff.mp hnone a ha]
  exact List.forall_mem_nil _

theorem dropped (c : Bool) {a : Action} (ha : a.params = []) :
    (if c then ([] : List Action) else [a]).flatMap Action.params = [] := by
  cases c with
  | true => rfl
  | false => exact (List.append_nil _).trans ha

theorem c1 (h : p.ParamsFit) (b : UInt8) : StepFits (p.c1 b) :=
  ite (quiet (.cleared p) rfl) <| ite (quiet h rfl) <| ite (quiet (.cleared p) rfl) <| ite (quiet h rfl) <| ite (quiet h rfl) <|
    ite (quiet h rfl) (quiet h rfl)

theorem groundByte (h : p.ParamsFit) (b : UInt8) : StepFits (p.groundByte b) :=
  ite (quiet h rfl) <| ite (quiet h rfl) <| ite (quiet h rfl) <| ite (quiet h rfl) <| ite (c1 h b) <|
    ite (quiet h rfl) <| ite (quiet h rfl) <| ite (quiet h rfl) <| ite (quiet h rfl) (quiet h rfl)

theorem orElse (h : p.ParamsFit) (hr : StepFits r) : StepFits (match p.anywhere b with
    | some r => r
    | none => r) := by
  split
  · rename_i hany
    rw [anywhere] at hany
    split at hany
    · cases hany
      exact quiet h rfl
    · split at hany
      · cases hany
        exact quiet h rfl
      · split at hany
        · cases hany
          exact c1 (p := { p with state := .ground }) h b
        · cases hany
  · exact hr

theorem csiDispatch (h : p.ParamsFit) (b : UInt8) : StepFits (p.csiDispatch b) :=
  ⟨⟨Nat.zero_le _, List.forall_mem_nil _, List.forall_mem_nil _⟩, List.forall_mem_singleton.mpr h.takeParams⟩

theorem pushStringByte (h : p.ParamsFit) (b : UInt8) (cap : ℕ) : StepFits (p.pushStringByte b cap, []) := by
  rw [Parser.pushStringByte]
  split
  · exact quiet h rfl
  · exact quiet h rfl

/-- **Every byte keeps the bound.** -/
theorem advance (h : p.ParamsFit) (b : UInt8) : StepFits (p.advance b) := by
  rw [Parser.advance]
  cases p.state with
  | ground =>
    dsimp only
    rw [Parser.ground]
    have hbyte := groundByte (p := p.utf8Reset) h b
    refine ite (ite (ite (quiet h rfl) (quiet h rfl)) ?_) (groundByte h b)
    exact ⟨hbyte.parser, List.forall_mem_cons.mpr ⟨List.forall_mem_nil _, hbyte.actions⟩⟩
  | escape =>
    exact orElse h <| ite (quiet h rfl) <| ite (quiet (.cleared p) rfl) <| ite (quiet (.cleared p) rfl) <|
      ite (quiet h rfl) <| ite (quiet (.cleared p) rfl) <| ite (quiet h rfl) <| ite (quiet h rfl) <|
      ite (quiet h rfl) (quiet h rfl)
  | escapeIntermediate =>
    exact orElse h <| ite (quiet h rfl) <| ite (ite (quiet h rfl) (quiet h rfl)) <|
      ite (quiet h rfl) (quiet h rfl)
  | csiEntry =>
    exact orElse h <| ite (quiet h rfl) <| ite (quiet h rfl) <| ite (quiet (h.paramDigit b) rfl) <|
      ite (quiet h.paramColon rfl) <| ite (quiet h.paramSemicolon rfl) <| ite (quiet h rfl) <|
      ite (csiDispatch h b) (quiet h rfl)
  | csiParam =>
    exact orElse h <| ite (quiet h rfl) <| ite (quiet h rfl) <| ite (quiet (h.paramDigit b) rfl) <|
      ite (quiet h.paramColon rfl) <| ite (quiet h.paramSemicolon rfl) <| ite (quiet h rfl) <|
      ite (csiDispatch h b) (quiet h rfl)
  | csiIntermediate =>
    exact orElse h <| ite (quiet h rfl) <| ite (ite (quiet h rfl) (quiet h rfl)) <| ite (quiet h rfl) <|
      ite (csiDispatch h b) (quiet h rfl)
  | csiIgnore => exact orElse h <| ite (quiet h rfl) <| ite (quiet (.cleared p) rfl) (quiet h rfl)
  | oscString =>
    exact ite (quiet h (dropped _ rfl)) <| ite (quiet h (dropped _ rfl)) <| ite (quiet h rfl) <|
      ite (quiet h rfl) (pushStringByte h b _)
  | dcsEntry =>
    exact orElse h <| ite (quiet (h.paramDigit b) rfl) <| ite (quiet h.paramColon rfl) <|
      ite (quiet h.paramSemicolon rfl) <| ite (quiet h rfl) <| ite (quiet h rfl) <| ite (quiet h rfl) (quiet h rfl)
  | dcsParam =>
    exact orElse h <| ite (quiet (h.paramDigit b) rfl) <| ite (quiet h.paramColon rfl) <|
      ite (quiet h.paramSemicolon rfl) <| ite (quiet h rfl) <| ite (quiet h rfl) <| ite (quiet h rfl) (quiet h rfl)
  | dcsIntermediate =>
    exact orElse h <| ite (ite (quiet h rfl) (quiet h rfl)) <| ite (quiet h rfl) <| ite (quiet h rfl) (quiet h rfl)
  | dcsPassthrough =>
    exact ite (quiet (.cleared p) (dropped _ rfl)) <| ite (quiet (.cleared p) (dropped _ rfl)) <|
      ite (quiet (.cleared p) rfl) (pushStringByte h b _)
  | dcsIgnore => exact ite (quiet h rfl) <| ite (quiet h rfl) (quiet h rfl)
  | sosPmString => exact ite (quiet h rfl) <| ite (quiet h rfl) (quiet h rfl)
  | apcString => exact ite (quiet h (dropped _ rfl)) <| ite (quiet h rfl) (pushStringByte h b _)

end StepFits

end

end Parser

/-! ### Reading them -/

theorem paramOr_le {params : List (List ℕ)} (h : PartsFit params) (i : ℕ) {default : ℕ}
    (hdefault : default ≤ 65535) : paramOr params i default ≤ 65535 := by
  have hparam : param params i 0 ≤ 65535 := by
    rw [param]
    cases hget : params[i]? with
    | none => exact Nat.zero_le _
    | some parts =>
      cases parts with
      | nil => exact Nat.zero_le _
      | cons v parts => exact h _ (List.mem_of_getElem? hget) v List.mem_cons_self
  rw [paramOr]
  split
  · exact hdefault
  · exact hparam

end Posh.Term
