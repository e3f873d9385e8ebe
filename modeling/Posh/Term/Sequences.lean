/-
**Where sequences begin and end.**

A sequence begins with an escape or a C1 control, which break off whatever is unfinished, and only its
last byte hands it on.  So the bytes read since the machine was last at rest are sequences, each broken
off by the next.
-/

import Mathlib.Data.List.Induction
import Posh.Term.Parser

set_option autoImplicit false

namespace Posh.Term

open Posh.Term.Action

/-- A control sequence or a plain escape sequence. -/
def Action.isSequence : Action → Bool
  | .csi .. => true
  | .esc .. => true
  | _ => false

namespace Parser

variable {p q : Parser} {b : UInt8} {bs : List UInt8} {ss : List (List UInt8)} {s : List UInt8}

/-! ### One byte -/

/-- The bytes that begin sequences: the escape and the C1 control. -/
def Introduces (b : UInt8) : Prop := b = 0x1B ∨ b = 0x9B

instance (b : UInt8) : Decidable (Introduces b) := inferInstanceAs (Decidable (_ ∨ _))

/-- The byte began the sequence that the machine is in. -/
def Opened (b : UInt8) (q : Parser) : Prop :=
  (b = 0x1B ∧ q.state = .escape) ∨ (b = 0x9B ∧ q.state = .csiEntry)

/-- A step that hands a sequence on from within it only, and leaves it then; that is in a sequence only
if it was before, or has just begun it. -/
structure Bounded (p : Parser) (b : UInt8) (r : Parser × List Action) : Prop where
  ended : r.2.any Action.isSequence = true → p.midEscape = true ∧ r.1.midEscape = false
  begun : r.1.midEscape = true → Opened b r.1 ∨ (¬ Introduces b ∧ p.midEscape = true)

theorem any_unless (c : Bool) {a : Action} (ha : a.isSequence = false) :
    (if c then ([] : List Action) else [a]).any isSequence = false := by
  cases c with
  | true => rfl
  | false => exact (Bool.or_false _).trans ha

namespace Bounded

variable {r r' : Parser × List Action}

theorem ite {c : Prop} [Decidable c] (h : Bounded p b r) (h' : Bounded p b r') :
    Bounded p b (if c then r else r') := by
  split
  · exact h
  · exact h'

theorem away (hr : r.1.midEscape = false) (hquiet : r.2.any isSequence = false) : Bounded p b r :=
  ⟨fun h => absurd (h.symm.trans hquiet) (by decide), fun h => absurd (h.symm.trans hr) (by decide)⟩

theorem on (hp : p.midEscape = true) (hb : ¬ Introduces b) (hquiet : r.2.any isSequence = false) : Bounded p b r :=
  ⟨fun h => absurd (h.symm.trans hquiet) (by decide), fun _ => .inr ⟨hb, hp⟩⟩

theorem finish (hp : p.midEscape = true) (hr : r.1.midEscape = false) : Bounded p b r :=
  ⟨fun _ => ⟨hp, hr⟩, fun h => absurd (h.symm.trans hr) (by decide)⟩

theorem enter (hb : Opened b r.1) (hquiet : r.2.any isSequence = false) : Bounded p b r :=
  ⟨fun h => absurd (h.symm.trans hquiet) (by decide), fun _ => .inl hb⟩

theorem c1 (hq : q.state = .ground) : Bounded p b (q.c1 b) := by
  have hrest : q.midEscape = false := by rw [midEscape, hq]
  rw [Parser.c1]
  refine ite (away rfl rfl) <| ite (away rfl rfl) ?_
  by_cases hb : b = 0x9B
  · rw [if_pos hb]
    exact enter (.inr ⟨hb, rfl⟩) rfl
  · rw [if_neg hb]
    exact ite (away rfl rfl) <| ite (away rfl rfl) <| ite (away rfl rfl) (away hrest rfl)

theorem orElse (h : ¬ Introduces b → Bounded p b r) : Bounded p b (match p.anywhere b with
    | some r => r
    | none => r) := by
  cases hany : p.anywhere b with
  | some r' =>
    dsimp only
    rw [anywhere] at hany
    split at hany
    case isTrue hb =>
      cases hany
      exact enter (.inl ⟨hb, rfl⟩) rfl
    case isFalse =>
      split at hany
      case isTrue =>
        cases hany
        exact away rfl rfl
      case isFalse =>
        split at hany
        case isTrue =>
          cases hany
          exact c1 rfl
        case isFalse => cases hany
  | none =>
    refine h fun hb => ?_
    rcases hb with rfl | rfl
    · cases hany
    · cases hany

theorem groundByte (hp : p.state = .ground) : Bounded p b (p.groundByte b) := by
  have hrest : p.midEscape = false := by rw [midEscape, hp]
  rw [Parser.groundByte]
  by_cases hb : b = 0x1B
  · rw [if_pos hb]
    exact enter (.inl ⟨hb, rfl⟩) rfl
  · rw [if_neg hb]
    exact ite (away hrest rfl) <| ite (away hrest rfl) <| ite (away hrest rfl) <| ite (c1 hp) <|
      ite (away hrest rfl) <| ite (away hrest rfl) <| ite (away hrest rfl) <| ite (away hrest rfl)
      (away hrest rfl)

theorem csiDispatch (hp : p.midEscape = true) : Bounded p b (p.csiDispatch b) := finish hp rfl

theorem pushStringByte (hp : p.midEscape = false) (cap : ℕ) : Bounded p b (p.pushStringByte b cap, []) := by
  rw [Parser.pushStringByte]
  split
  · exact away hp rfl
  · exact away hp rfl

theorem escaped (hb : b = 0x1B) {actions : List Action} (hquiet : actions.any isSequence = false)
    (hq : q.state = .escape) : Bounded p b (q, actions) := enter (.inl ⟨hb, hq⟩) hquiet

/-- **What a byte can do to a sequence.** -/
theorem advance (p : Parser) (b : UInt8) : Bounded p b (p.advance b) := by
  have hmidEscape := Parser.midEscape.eq_def p
  rw [Parser.advance]
  -- within a sequence only its final byte hands it on
  cases hstate : p.state with
  | ground =>
    dsimp only
    rw [hstate] at hmidEscape
    rw [Parser.ground]
    split
    · split
      · exact ite (away hmidEscape rfl) (away hmidEscape rfl)
      · have hbyte : Bounded p.utf8Reset b (p.utf8Reset.groundByte b) := groundByte hstate
        exact ⟨fun h => hbyte.ended h, fun h => hbyte.begun h⟩
    · exact groundByte hstate
  | escape =>
    rw [hstate] at hmidEscape
    exact orElse fun hb => ite (on hmidEscape hb rfl) <| ite (on hmidEscape hb rfl) <|
      ite (on hmidEscape hb rfl) <| ite (away rfl rfl) <| ite (away rfl rfl) <| ite (away rfl rfl) <|
      ite (away rfl rfl) <| ite (finish hmidEscape rfl) (on hmidEscape hb rfl)
  | escapeIntermediate =>
    rw [hstate] at hmidEscape
    exact orElse fun hb => ite (on hmidEscape hb rfl) <|
      ite (ite (on hmidEscape hb rfl) (on hmidEscape hb rfl)) <|
      ite (finish hmidEscape rfl) (on hmidEscape hb rfl)
  | csiEntry =>
    rw [hstate] at hmidEscape
    exact orElse fun hb => ite (on hmidEscape hb rfl) <| ite (on hmidEscape hb rfl) <|
      ite (on hmidEscape hb rfl) <| ite (on hmidEscape hb rfl) <| ite (on hmidEscape hb rfl) <|
      ite (on hmidEscape hb rfl) <| ite (csiDispatch hmidEscape) (on hmidEscape hb rfl)
  | csiParam =>
    rw [hstate] at hmidEscape
    exact orElse fun hb => ite (on hmidEscape hb rfl) <| ite (on hmidEscape hb rfl) <|
      ite (on hmidEscape hb rfl) <| ite (on hmidEscape hb rfl) <| ite (on hmidEscape hb rfl) <|
      ite (away rfl rfl) <| ite (csiDispatch hmidEscape) (on hmidEscape hb rfl)
  | csiIntermediate =>
    rw [hstate] at hmidEscape
    exact orElse fun hb => ite (on hmidEscape hb rfl) <|
      ite (ite (on hmidEscape hb rfl) (on hmidEscape hb rfl)) <| ite (away rfl rfl) <|
      ite (csiDispatch hmidEscape) (on hmidEscape hb rfl)
  | csiIgnore =>
    rw [hstate] at hmidEscape
    exact orElse fun _ => ite (away hmidEscape rfl) <| ite (away rfl rfl) (away hmidEscape rfl)
  | oscString =>
    rw [hstate] at hmidEscape
    have hfinish : ∀ bel, (p.finishOsc bel).2.any isSequence = false := fun bel => any_unless _ rfl
    dsimp only
    rw [Parser.oscString]
    by_cases hesc : b = 0x1B
    · rw [if_neg (by rw [hesc]; decide), if_pos hesc]
      exact escaped hesc (hfinish false) rfl
    · rw [if_neg hesc]
      exact ite (away rfl (hfinish true)) <| ite (away rfl rfl) <| ite (away hmidEscape rfl)
        (pushStringByte hmidEscape _)
  | dcsEntry =>
    rw [hstate] at hmidEscape
    exact orElse fun _ => ite (away rfl rfl) <| ite (away rfl rfl) <| ite (away rfl rfl) <|
      ite (away rfl rfl) <| ite (away rfl rfl) <| ite (away rfl rfl) (away hmidEscape rfl)
  | dcsParam =>
    rw [hstate] at hmidEscape
    exact orElse fun _ => ite (away hmidEscape rfl) <| ite (away hmidEscape rfl) <|
      ite (away hmidEscape rfl) <| ite (away rfl rfl) <| ite (away rfl rfl) <| ite (away rfl rfl)
      (away hmidEscape rfl)
  | dcsIntermediate =>
    rw [hstate] at hmidEscape
    exact orElse fun _ => ite (ite (away hmidEscape rfl) (away hmidEscape rfl)) <| ite (away rfl rfl) <|
      ite (away rfl rfl) (away hmidEscape rfl)
  | dcsPassthrough =>
    rw [hstate] at hmidEscape
    have hunhook : p.dcsUnhook.2.any isSequence = false := any_unless _ rfl
    dsimp only
    rw [Parser.dcsPassthrough]
    by_cases hesc : b = 0x1B
    · rw [if_pos hesc]
      exact escaped hesc hunhook rfl
    · rw [if_neg hesc]
      exact ite (away rfl hunhook) <| ite (away rfl rfl) (pushStringByte hmidEscape _)
  | dcsIgnore =>
    rw [hstate] at hmidEscape
    dsimp only
    rw [Parser.dcsIgnore]
    by_cases hesc : b = 0x1B
    · rw [if_pos hesc]
      exact escaped hesc rfl rfl
    · rw [if_neg hesc]
      exact ite (away rfl rfl) (away hmidEscape rfl)
  | sosPmString =>
    rw [hstate] at hmidEscape
    dsimp only
    rw [Parser.sosPm]
    by_cases hesc : b = 0x1B
    · rw [if_pos hesc]
      exact escaped hesc rfl rfl
    · rw [if_neg hesc]
      exact ite (away rfl rfl) (away hmidEscape rfl)
  | apcString =>
    rw [hstate] at hmidEscape
    dsimp only
    rw [Parser.apcString]
    by_cases hesc : b = 0x1B
    · rw [if_pos hesc]
      exact escaped hesc (any_unless _ rfl) rfl
    · rw [if_neg hesc]
      exact ite (away rfl rfl) (pushStringByte hmidEscape _)

end Bounded

/-- **An escape breaks off whatever is unfinished.** -/
theorem advance_esc (p : Parser) :
    (p.advance 0x1B).1.state = .escape ∧ (p.advance 0x1B).2.any isSequence = false := by
  have hstate : (p.advance 0x1B).1.state = .escape := by
    rw [Parser.advance]
    cases p.state with
    | ground =>
      dsimp only
      rw [Parser.ground]
      split
      · rfl
      · rfl
    | _ => rfl
  refine ⟨hstate, (Bool.not_eq_true _).mp fun h => ?_⟩
  have hended := ((Bounded.advance p 0x1B).ended h).2
  rw [midEscape, hstate] at hended
  cases hended

/-! ### Sequences broken off -/

/-- A sequence that is not complete yet. -/
structure Begun (p : Parser) (bs : List UInt8) : Prop where
  opened : ∃ b tail, bs = b :: tail ∧ Opened b (p.advance b).1 ∧ ∀ c ∈ tail, ¬ Introduces c
  inside : ∀ ys zs, bs = ys ++ zs → ys ≠ [] → (p.run ys).1.midEscape = true

/-- Unfinished sequences, each broken off by the next. -/
def Chain (p : Parser) : List (List UInt8) → Prop
  | [] => True
  | s :: ss => p.Begun s ∧ (p.run s).1.Chain ss

theorem run_concat (p : Parser) (bs : List UInt8) (b : UInt8) :
    (p.run (bs ++ [b])).1 = ((p.run bs).1.advance b).1 := by rw [run_append, run_cons, run_nil]

theorem Chain.concat (h : p.Chain ss) (hs : (p.run ss.flatten).1.Begun s) : p.Chain (ss ++ [s]) := by
  induction ss generalizing p with
  | nil => exact ⟨hs, trivial⟩
  | cons s' ss ih =>
    rw [List.flatten_cons, run_append] at hs
    exact ⟨h.1, ih h.2 hs⟩

theorem Chain.split (h : p.Chain (ss ++ [s])) : p.Chain ss ∧ (p.run ss.flatten).1.Begun s := by
  induction ss generalizing p with
  | nil => exact ⟨trivial, h.1⟩
  | cons s' ss ih =>
    obtain ⟨hss, hs⟩ := ih h.2
    rw [List.flatten_cons, run_append]
    exact ⟨⟨h.1, hss⟩, hs⟩

/-- **Among unfinished sequences the machine is never at rest.** -/
theorem Chain.inside (h : p.Chain ss) {ys zs : List UInt8}
    (hsplit : ss.flatten = ys ++ zs) (hys : ys ≠ []) : (p.run ys).1.midEscape = true := by
  induction ss generalizing p ys with
  | nil => exact absurd (List.append_eq_nil_iff.mp hsplit.symm).1 hys
  | cons s ss ih =>
    rw [List.flatten_cons] at hsplit
    rcases List.append_eq_append_iff.mp hsplit with ⟨ys', rfl, hrest⟩ | ⟨zs', hs, -⟩
    · rcases ys' with - | ⟨y, ys'⟩
      · rw [List.append_nil] at hys ⊢
        exact h.1.inside s [] (List.append_nil s).symm hys
      · rw [run_append]
        exact ih h.2 hrest (List.cons_ne_nil y ys')
    · exact h.1.inside ys zs' hs hys

theorem Begun.of_opened (h : Opened b (p.advance b).1) : p.Begun [b] := by
  refine ⟨⟨b, [], rfl, h, nofun⟩, fun ys zs hsplit hys => ?_⟩
  have hstep : (p.advance b).1.midEscape = true := by
    rw [midEscape]
    rcases h with ⟨-, hstate⟩ | ⟨-, hstate⟩ <;> rw [hstate]
  rcases List.append_eq_singleton_iff.mp hsplit.symm with ⟨hnil, -⟩ | ⟨rfl, -⟩
  · exact absurd hnil hys
  · exact hstep

theorem Begun.concat (h : p.Begun bs) (hb : ¬ Introduces b)
    (hmid : ((p.run bs).1.advance b).1.midEscape = true) : p.Begun (bs ++ [b]) := by
  obtain ⟨⟨lead, tail, rfl, hlead, htail⟩, hinside⟩ := h
  refine ⟨⟨lead, tail ++ [b], rfl, hlead, ?_⟩, fun ys zs hsplit hys => ?_⟩
  · exact List.forall_mem_append.mpr ⟨htail, List.forall_mem_singleton.mpr hb⟩
  · rcases List.append_eq_append_iff.mp hsplit with ⟨ys', rfl, hrest⟩ | ⟨zs', hfront, -⟩
    · rcases List.append_eq_singleton_iff.mp hrest.symm with ⟨rfl, -⟩ | ⟨rfl, -⟩
      · rw [List.append_nil]
        exact hinside _ [] (List.append_nil _).symm (List.cons_ne_nil lead tail)
      · rw [run_concat]
        exact hmid
    · exact hinside ys zs' hfront hys

/-- **What was read since the machine was last at rest**: sequences, each broken off by the next. -/
theorem chain_of_midEscape (hp : p.midEscape = false) (bs : List UInt8)
    (h : (p.run bs).1.midEscape = true) : ∃ before broken last, bs = before ++ (broken.flatten ++ last) ∧
      (p.run before).1.midEscape = false ∧ (p.run before).1.Chain (broken ++ [last]) := by
  induction bs using List.reverseRecOn with
  | nil => exact absurd (h.symm.trans hp) (by decide)
  | append_singleton bs b ih =>
    rw [run_concat] at h
    by_cases hmid : (p.run bs).1.midEscape = true
    · obtain ⟨before, broken, last, rfl, hrest, hchain⟩ := ih hmid
      obtain ⟨hbroken, hlast⟩ := hchain.split
      have hrun : (p.run (before ++ (broken.flatten ++ last))).1 =
          ((p.run before).1.run (broken ++ [last]).flatten).1 := by
        rw [run_append, List.flatten_concat]
      rcases (Bounded.advance _ b).begun h with hopened | ⟨hb, -⟩
      · -- the last sequence is broken off too
        refine ⟨before, broken ++ [last], [b], ?_, hrest, hchain.concat ?_⟩
        · rw [List.flatten_concat]
          simp only [List.append_assoc]
        · rw [← hrun]
          exact .of_opened hopened
      · refine ⟨before, broken, last ++ [b], ?_, hrest, hbroken.concat (hlast.concat hb ?_)⟩
        · simp only [List.append_assoc]
        · rw [hrun, List.flatten_concat, run_append] at h
          exact h
    · have hrest := (Bool.not_eq_true _).mp hmid
      rcases (Bounded.advance _ b).begun h with hopened | ⟨-, habsurd⟩
      · exact ⟨bs, [], [b], rfl, hrest, .of_opened hopened, trivial⟩
      · exact absurd habsurd hmid

end Parser

end Posh.Term
