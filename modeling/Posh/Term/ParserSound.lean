/-
**What the parser hands on.**

A character that is printed is no C0 control, and the payload of a command holds none: the machine drops
them inside the string.  This is all the terminal relies on.
-/

import Posh.Term.Parser

set_option autoImplicit false

namespace Posh.Term

open Utf8 (Plain)
open Utf8

/-- What the terminal relies on. -/
def Action.Sound : Action → Prop
  | .print c => Plain c
  | .osc data _ => ∀ b ∈ data, 0x20 ≤ b.toNat
  | _ => True

namespace Parser

/-- A command's payload so far holds no C0 controls. -/
def Sound (p : Parser) : Prop := p.state = .oscString → ∀ b ∈ p.stringBuf, 0x20 ≤ b.toNat

/-- A step to a sound machine that hands on what is relied on. -/
structure StepSound (r : Parser × List Action) : Prop where
  parser : r.1.Sound
  actions : ∀ a ∈ r.2, a.Sound

variable {p : Parser}

theorem Sound.of_state (h : p.state ≠ .oscString) : p.Sound := fun hs => absurd hs h

theorem Sound.ground (h : p.state = .ground) : p.Sound := .of_state (by rw [h]; decide)

theorem sound_fresh : ({} : Parser).Sound := .of_state nofun

theorem decode_plain {bs : List UInt8} {c : Char} (h : decode? bs = some c) : Plain c := by
  rw [decode?.eq_def] at h
  split at h
  · obtain ⟨hb, hc⟩ := Option.ite_none_right_eq_some.mp h
    rw [Bool.and_eq_true] at hb
    rw [← Option.some.inj hc]
    exact code2_plain (width_lead2 hb.1)
  · obtain ⟨hb, hc⟩ := Option.ite_none_right_eq_some.mp h
    rw [Bool.and_eq_true] at hb
    rw [← Option.some.inj hc]
    exact code3_plain hb.1
  · obtain ⟨hb, hc⟩ := Option.ite_none_right_eq_some.mp h
    rw [Bool.and_eq_true, Bool.and_eq_true] at hb
    rw [← Option.some.inj hc]
    exact code4_plain hb.1.1
  · cases h

namespace StepSound

variable {p q : Parser} {b : UInt8} {r r' : Parser × List Action}

theorem quiet (h : q.Sound) : StepSound (q, []) := ⟨h, List.forall_mem_nil _⟩

theorem one (h : q.Sound) {a : Action} (ha : a.Sound) : StepSound (q, [a]) :=
  ⟨h, List.forall_mem_singleton.mpr ha⟩

theorem ite {c : Prop} [Decidable c] (h : StepSound r) (h' : StepSound r') : StepSound (if c then r else r') := by
  split
  · exact h
  · exact h'

theorem startString (p : Parser) (state : ParserState) : (p.startString state).Sound :=
  fun _ => List.forall_mem_nil _

/-! ### Ground -/

theorem c1 (h : p.Sound) (b : UInt8) : StepSound (p.c1 b) :=
  ite (quiet (.of_state nofun)) <| ite (quiet (startString _ _)) <| ite (quiet (.of_state nofun)) <|
  ite (quiet (.of_state nofun)) <| ite (quiet (startString _ _)) <| ite (quiet (startString _ _)) <|
  one h trivial

theorem groundByte (h : p.Sound) (b : UInt8) : StepSound (p.groundByte b) := by
  rw [Parser.groundByte]
  refine ite (quiet (.of_state nofun)) ?_
  split
  · exact one h trivial
  · rename_i hb
    have hplain : Plain (scalar b.toNat) := scalar_plain (by omega)
    exact ite (one h hplain) <| ite (quiet h) <| ite (c1 h b) <| ite (one h replacement_plain) <|
      ite (quiet h) <| ite (quiet h) <| ite (quiet h) <| one h replacement_plain

theorem ground (h : p.Sound) (b : UInt8) : StepSound (p.ground b) := by
  rw [Parser.ground]
  have hreset : p.utf8Reset.Sound := h
  refine ite (ite (ite (one hreset ?_) (quiet h)) ?_) (groundByte h b)
  · cases hd : decode? (p.utf8 ++ [b]) with
    | none => exact replacement_plain
    | some c => exact decode_plain hd
  · have hrest := groundByte hreset b
    exact ⟨hrest.parser, List.forall_mem_cons.mpr ⟨replacement_plain, hrest.actions⟩⟩

/-! ### Escape and control sequences -/

theorem anywhere (h : p.anywhere b = some r) : StepSound r := by
  rw [Parser.anywhere] at h
  split at h
  · cases h
    exact quiet (.of_state nofun)
  · split at h
    · cases h
      exact one (.ground rfl) trivial
    · split at h
      · cases h
        exact c1 (.ground rfl) b
      · cases h

theorem orElse (h : StepSound r) : StepSound (match p.anywhere b with
    | some r => r
    | none => r) := by
  split
  · rename_i hany
    exact anywhere hany
  · exact h

theorem escape (h : p.Sound) (b : UInt8) : StepSound (p.escape b) :=
  orElse <| ite (one h trivial) <| ite (quiet (.of_state nofun)) <| ite (quiet (.of_state nofun)) <|
    ite (quiet (startString _ _)) <| ite (quiet (.of_state nofun)) <| ite (quiet (startString _ _)) <|
    ite (quiet (startString _ _)) <| ite (one (.ground rfl) trivial) (quiet h)

theorem escapeIntermediate (h : p.Sound) (b : UInt8) : StepSound (p.escapeIntermediate b) :=
  orElse <| ite (one h trivial) <| ite (ite (quiet h) (quiet h)) <| ite (one (.ground rfl) trivial) (quiet h)

theorem csiDispatch (p : Parser) (b : UInt8) : StepSound (p.csiDispatch b) := one (.ground rfl) trivial

theorem csiEntry (h : p.Sound) (b : UInt8) : StepSound (p.csiEntry b) :=
  orElse <| ite (one h trivial) <| ite (quiet (.of_state nofun)) <| ite (quiet (.of_state nofun)) <|
    ite (quiet (.of_state nofun)) <| ite (quiet (.of_state nofun)) <| ite (quiet (.of_state nofun)) <|
    ite (csiDispatch p b) (quiet h)

theorem csiParam (h : p.Sound) (b : UInt8) : StepSound (p.csiParam b) :=
  orElse <| ite (one h trivial) <| ite (quiet (.of_state nofun)) <| ite (quiet h) <| ite (quiet h) <|
    ite (quiet h) <| ite (quiet (.of_state nofun)) <| ite (csiDispatch p b) (quiet h)

theorem csiIntermediate (h : p.Sound) (b : UInt8) : StepSound (p.csiIntermediate b) :=
  orElse <| ite (one h trivial) <| ite (ite (quiet h) (quiet h)) <| ite (quiet (.of_state nofun)) <|
    ite (csiDispatch p b) (quiet h)

theorem csiIgnore (h : p.Sound) (b : UInt8) : StepSound (p.csiIgnore b) :=
  orElse <| ite (one h trivial) <| ite (quiet (.of_state nofun)) (quiet h)

/-! ### Strings -/

theorem finishOsc (h : p.Sound) (hstate : p.state = .oscString) (bel : Bool) : StepSound (p.finishOsc bel) := by
  refine ⟨.of_state nofun, ?_⟩
  rw [Parser.finishOsc]
  dsimp only
  split
  · exact List.forall_mem_nil _
  · exact List.forall_mem_singleton.mpr (h hstate)

theorem oscString (h : p.Sound) (hstate : p.state = .oscString) (b : UInt8) : StepSound (p.oscString b) := by
  have hfinish := finishOsc h hstate
  rw [Parser.oscString]
  refine ite (hfinish true) <| ite ⟨.of_state nofun, (hfinish false).actions⟩ <|
    ite (quiet (.of_state nofun)) ?_
  split
  · exact quiet h
  · rename_i hb
    refine quiet fun _ => ?_
    rw [pushStringByte]
    split
    · exact List.forall_mem_append.mpr ⟨h hstate, List.forall_mem_singleton.mpr (by omega)⟩
    · exact h hstate

theorem push (hstate : p.state ≠ .oscString) (b : UInt8) (cap : ℕ) : (p.pushStringByte b cap).Sound := by
  intro hs
  rw [pushStringByte] at hs
  split at hs
  · exact absurd hs hstate
  · exact absurd hs hstate

theorem apcString (hstate : p.state ≠ .oscString) (b : UInt8) : StepSound (p.apcString b) := by
  rw [Parser.apcString]
  refine ite ⟨.of_state nofun, ?_⟩ (ite (quiet (.of_state nofun)) (quiet (push hstate b _)))
  dsimp only
  split
  · exact List.forall_mem_nil _
  · exact List.forall_mem_singleton.mpr trivial

theorem sosPm (h : p.Sound) (b : UInt8) : StepSound (p.sosPm b) :=
  ite (quiet (.of_state nofun)) <| ite (quiet (.of_state nofun)) (quiet h)

/-! ### Device control strings -/

theorem dcsEntry (h : p.Sound) (b : UInt8) : StepSound (p.dcsEntry b) :=
  orElse <| ite (quiet (.of_state nofun)) <| ite (quiet (.of_state nofun)) <| ite (quiet (.of_state nofun)) <|
    ite (quiet (.of_state nofun)) <| ite (quiet (.of_state nofun)) <| ite (quiet (.of_state nofun)) (quiet h)

theorem dcsParam (h : p.Sound) (b : UInt8) : StepSound (p.dcsParam b) :=
  orElse <| ite (quiet h) <| ite (quiet h) <| ite (quiet h) <| ite (quiet (.of_state nofun)) <|
    ite (quiet (.of_state nofun)) <| ite (quiet (.of_state nofun)) (quiet h)

theorem dcsIntermediate (h : p.Sound) (b : UInt8) : StepSound (p.dcsIntermediate b) :=
  orElse <| ite (ite (quiet h) (quiet h)) <| ite (quiet (.of_state nofun)) <|
    ite (quiet (.of_state nofun)) (quiet h)

theorem dcsUnhook (p : Parser) : ∀ a ∈ p.dcsUnhook.2, a.Sound := by
  rw [Parser.dcsUnhook]
  dsimp only
  split
  · exact List.forall_mem_nil _
  · exact List.forall_mem_singleton.mpr trivial

theorem dcsPassthrough (hstate : p.state ≠ .oscString) (b : UInt8) : StepSound (p.dcsPassthrough b) :=
  ite ⟨.of_state nofun, dcsUnhook p⟩ <| ite ⟨.of_state nofun, dcsUnhook p⟩ <|
    ite (quiet (.of_state nofun)) (quiet (push hstate b _))

theorem dcsIgnore (h : p.Sound) (b : UInt8) : StepSound (p.dcsIgnore b) :=
  ite (quiet (.of_state nofun)) <| ite (quiet (.of_state nofun)) (quiet h)

end StepSound

/-- **Every byte keeps it.** -/
theorem sound_advance (h : p.Sound) (b : UInt8) : StepSound (p.advance b) := by
  rw [advance]
  split
  · exact .ground h b
  · exact .escape h b
  · exact .escapeIntermediate h b
  · exact .csiEntry h b
  · exact .csiParam h b
  · exact .csiIntermediate h b
  · exact .csiIgnore h b
  · rename_i hstate
    exact .oscString h hstate b
  · exact .dcsEntry h b
  · exact .dcsParam h b
  · exact .dcsIntermediate h b
  · rename_i hstate
    exact .dcsPassthrough (by rw [hstate]; decide) b
  · exact .dcsIgnore h b
  · exact .sosPm h b
  · rename_i hstate
    exact .apcString (by rw [hstate]; decide) b

end Parser

end Posh.Term
