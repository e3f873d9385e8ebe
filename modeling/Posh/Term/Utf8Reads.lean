/-
**Text is read character by character.**

In its ground state the parser collects the bytes of a character, and prints it when the last one is there.
Only continuation bytes are collected: any other byte ends what was collected, which is replaced, and is then
read as if nothing had been there.  Outside the ground state nothing is collected.
-/

import Posh.Term.ParserReads

set_option autoImplicit false

namespace Posh.Term.Parser

/-! ### Well-formed text -/

section Text

variable {p : Parser}

theorem run_char (h : p.Rests) (hutf8 : p.utf8 = []) {c : Char} (hc : Utf8.Plain c)
    (hdel : c.toNat ≠ 0x7F) : p.run (String.utf8EncodeChar c) = (p, [.print c]) := by
  obtain ⟨front, last, q, r, heq, hfront, hlast, -, hback⟩ := reads_char_back h hc hdel
  rw [heq, run_append_nil hfront, run_cons, hlast, hback hutf8]
  rfl

/-- **A text is read back**, and the machine is as it was. -/
theorem run_encode (h : p.Rests) (hutf8 : p.utf8 = []) {cs : List Char}
    (hcs : ∀ c ∈ cs, Utf8.Plain c ∧ c.toNat ≠ 0x7F) : p.run (Utf8.encode cs) = (p, cs.map .print) := by
  induction cs with
  | nil => rfl
  | cons c cs ih =>
    obtain ⟨⟨hc, hdel⟩, hcs⟩ := List.forall_mem_cons.mp hcs
    rw [Utf8.encode_cons, run_append, run_char h hutf8 hc hdel, ih hcs]
    rfl

end Text

/-! ### What is collected -/

/-- Only in the ground state bytes are collected, none of them ASCII. -/
structure Tidy (p : Parser) : Prop where
  ground : p.state ≠ .ground → p.utf8Need = 0
  empty : p.utf8Need = 0 → p.utf8 = []
  high : ∀ b ∈ p.utf8, 0x80 ≤ b.toNat

/-- A step that collects nothing. -/
structure SameUtf8 (p : Parser) (r : Parser × List Action) : Prop where
  utf8 : r.1.utf8 = p.utf8
  need : r.1.utf8Need = p.utf8Need

namespace SameUtf8

variable {p q : Parser} {b : UInt8} {r r' : Parser × List Action}

theorem ite {c : Prop} [Decidable c] (h : SameUtf8 p r) (h' : SameUtf8 p r') :
    SameUtf8 p (if c then r else r') := by
  split
  · exact h
  · exact h'

theorem c1 (p : Parser) (b : UInt8) : SameUtf8 p (p.c1 b) :=
  ite ⟨rfl, rfl⟩ <| ite ⟨rfl, rfl⟩ <| ite ⟨rfl, rfl⟩ <| ite ⟨rfl, rfl⟩ <| ite ⟨rfl, rfl⟩ <|
    ite ⟨rfl, rfl⟩ ⟨rfl, rfl⟩

theorem orElse (h : SameUtf8 p r) : SameUtf8 p (match p.anywhere b with
    | some r => r
    | none => r) := by
  split
  · rename_i r hany
    rw [anywhere] at hany
    split at hany
    · cases hany
      exact ⟨rfl, rfl⟩
    · split at hany
      · cases hany
        exact ⟨rfl, rfl⟩
      · split at hany
        · cases hany
          have hc1 := c1 { p with state := .ground } b
          exact ⟨hc1.utf8, hc1.need⟩
        · cases hany
  · exact h

theorem csiDispatch (p : Parser) (b : UInt8) : SameUtf8 p (p.csiDispatch b) := ⟨rfl, rfl⟩

theorem pushStringByte (p : Parser) (b : UInt8) (cap : ℕ) : SameUtf8 p (p.pushStringByte b cap, []) := by
  rw [Parser.pushStringByte]
  split <;> exact ⟨rfl, rfl⟩

/-- **Outside the ground state nothing is collected.** -/
theorem advance (h : p.state ≠ .ground) (b : UInt8) : SameUtf8 p (p.advance b) := by
  rw [Parser.advance]
  cases hstate : p.state with
  | ground => exact absurd hstate h
  | escape =>
    exact orElse <| ite ⟨rfl, rfl⟩ <| ite ⟨rfl, rfl⟩ <| ite ⟨rfl, rfl⟩ <| ite ⟨rfl, rfl⟩ <|
      ite ⟨rfl, rfl⟩ <| ite ⟨rfl, rfl⟩ <| ite ⟨rfl, rfl⟩ <| ite ⟨rfl, rfl⟩ ⟨rfl, rfl⟩
  | escapeIntermediate =>
    exact orElse <| ite ⟨rfl, rfl⟩ <| ite (ite ⟨rfl, rfl⟩ ⟨rfl, rfl⟩) <| ite ⟨rfl, rfl⟩ ⟨rfl, rfl⟩
  | csiEntry =>
    exact orElse <| ite ⟨rfl, rfl⟩ <| ite ⟨rfl, rfl⟩ <| ite ⟨rfl, rfl⟩ <| ite ⟨rfl, rfl⟩ <|
      ite ⟨rfl, rfl⟩ <| ite ⟨rfl, rfl⟩ <| ite (csiDispatch p b) ⟨rfl, rfl⟩
  | csiParam =>
    exact orElse <| ite ⟨rfl, rfl⟩ <| ite ⟨rfl, rfl⟩ <| ite ⟨rfl, rfl⟩ <| ite ⟨rfl, rfl⟩ <|
      ite ⟨rfl, rfl⟩ <| ite ⟨rfl, rfl⟩ <| ite (csiDispatch p b) ⟨rfl, rfl⟩
  | csiIntermediate =>
    exact orElse <| ite ⟨rfl, rfl⟩ <| ite (ite ⟨rfl, rfl⟩ ⟨rfl, rfl⟩) <| ite ⟨rfl, rfl⟩ <|
      ite (csiDispatch p b) ⟨rfl, rfl⟩
  | csiIgnore => exact orElse <| ite ⟨rfl, rfl⟩ <| ite ⟨rfl, rfl⟩ ⟨rfl, rfl⟩
  | oscString =>
    exact ite ⟨rfl, rfl⟩ <| ite ⟨rfl, rfl⟩ <| ite ⟨rfl, rfl⟩ <| ite ⟨rfl, rfl⟩ (pushStringByte p b _)
  | dcsEntry =>
    exact orElse <| ite ⟨rfl, rfl⟩ <| ite ⟨rfl, rfl⟩ <| ite ⟨rfl, rfl⟩ <| ite ⟨rfl, rfl⟩ <|
      ite ⟨rfl, rfl⟩ <| ite ⟨rfl, rfl⟩ ⟨rfl, rfl⟩
  | dcsParam =>
    exact orElse <| ite ⟨rfl, rfl⟩ <| ite ⟨rfl, rfl⟩ <| ite ⟨rfl, rfl⟩ <| ite ⟨rfl, rfl⟩ <|
      ite ⟨rfl, rfl⟩ <| ite ⟨rfl, rfl⟩ ⟨rfl, rfl⟩
  | dcsIntermediate =>
    exact orElse <| ite (ite ⟨rfl, rfl⟩ ⟨rfl, rfl⟩) <| ite ⟨rfl, rfl⟩ <| ite ⟨rfl, rfl⟩ ⟨rfl, rfl⟩
  | dcsPassthrough =>
    exact ite ⟨rfl, rfl⟩ <| ite ⟨rfl, rfl⟩ <| ite ⟨rfl, rfl⟩ (pushStringByte p b _)
  | dcsIgnore => exact ite ⟨rfl, rfl⟩ <| ite ⟨rfl, rfl⟩ ⟨rfl, rfl⟩
  | sosPmString => exact ite ⟨rfl, rfl⟩ <| ite ⟨rfl, rfl⟩ ⟨rfl, rfl⟩
  | apcString => exact ite ⟨rfl, rfl⟩ <| ite ⟨rfl, rfl⟩ (pushStringByte p b _)

end SameUtf8

section Collected

variable {p q : Parser} {b : UInt8} {bs : List UInt8}

theorem tidy_groundByte (hstate : p.state = .ground) (hempty : p.utf8 = []) (hneed : p.utf8Need = 0)
    (b : UInt8) : (p.groundByte b).1.Tidy ∧ (b.toNat < 0x80 → SameUtf8 p (p.groundByte b)) := by
  have hsame : ∀ {r}, SameUtf8 p r → r.1.Tidy ∧ (b.toNat < 0x80 → SameUtf8 p r) := fun hr =>
    ⟨⟨fun _ => hr.need.trans hneed, fun _ => hr.utf8.trans hempty,
      fun b hb => by rw [hr.utf8, hempty] at hb; cases hb⟩, fun _ => hr⟩
  have hlead : ∀ need, need ≠ 0 → 0x80 ≤ b.toNat → (p.utf8Lead b need, ([] : List Action)).1.Tidy ∧
        (b.toNat < 0x80 → SameUtf8 p (p.utf8Lead b need, [])) := fun need hn hb =>
    ⟨⟨fun h => absurd hstate h, fun h => absurd h hn, List.forall_mem_singleton.mpr hb⟩,
      fun h => absurd hb (Nat.not_le_of_lt h)⟩
  rw [groundByte]
  split
  · exact hsame ⟨rfl, rfl⟩
  split
  · exact hsame ⟨rfl, rfl⟩
  split
  · exact hsame ⟨rfl, rfl⟩
  split
  · exact hsame ⟨rfl, rfl⟩
  split
  · exact hsame (.c1 p b)
  split
  · exact hsame ⟨rfl, rfl⟩
  split
  · exact hlead 1 (by decide) (by omega)
  split
  · exact hlead 2 (by decide) (by omega)
  split
  · exact hlead 3 (by decide) (by omega)
  · exact hsame ⟨rfl, rfl⟩

/-- **Every byte keeps what is collected tidy.** -/
theorem tidy_advance (h : p.Tidy) (b : UInt8) : (p.advance b).1.Tidy := by
  by_cases hstate : p.state = .ground
  · rw [Parser.advance, hstate]
    dsimp only
    rw [Parser.ground]
    split
    case isTrue hneed =>
      split
      case isTrue hcont =>
        dsimp only
        split
        · exact ⟨fun _ => rfl, fun _ => rfl, List.forall_mem_nil _⟩
        · rename_i hmore
          refine ⟨fun hne => absurd hstate hne, fun hzero => ?_, ?_⟩
          · dsimp only at hzero
            omega
          · refine List.forall_mem_append.mpr ⟨h.high, List.forall_mem_singleton.mpr ?_⟩
            rw [Utf8.isCont, Bool.and_eq_true, decide_eq_true_eq] at hcont
            exact hcont.1
      case isFalse => exact (tidy_groundByte (p := p.utf8Reset) hstate rfl rfl b).1
    case isFalse hneed =>
      have hzero : p.utf8Need = 0 := Nat.le_zero.mp (Nat.not_lt.mp hneed)
      exact (tidy_groundByte hstate (h.empty hzero) hzero b).1
  · have hsame := SameUtf8.advance hstate b
    have hzero := h.ground hstate
    exact ⟨fun _ => hsame.need.trans hzero, fun _ => hsame.utf8.trans (h.empty hzero),
      fun x hx => h.high x (hsame.utf8 ▸ hx)⟩

theorem tidy_run (h : p.Tidy) (bs : List UInt8) : (p.run bs).1.Tidy := by
  induction bs generalizing p with
  | nil => exact h
  | cons b bs ih => exact ih (tidy_advance h b)

/-- **An ASCII byte ends what was collected**, which is replaced, and is read as if it had not been there. -/
theorem Tidy.advance_ascii (h : p.Tidy) (hb : b.toNat < 0x80) : p.advance b = ((p.utf8Reset.advance b).1,
          (if p.utf8Need > 0 then [.print Utf8.replacement] else []) ++ (p.utf8Reset.advance b).2) ∧
      (p.advance b).1.utf8 = [] ∧ (p.advance b).1.utf8Need = 0 := by
  have hclean : p.utf8Need = 0 → p.utf8Reset = p := by
    intro hzero
    rw [utf8Reset, ← hzero, ← h.empty hzero]
  by_cases hstate : p.state = .ground
  · have hreset : p.utf8Reset.advance b = p.utf8Reset.groundByte b :=
      Rests.advance (p := p.utf8Reset) ⟨hstate, rfl⟩ b
    have hsame := (tidy_groundByte (p := p.utf8Reset) hstate rfl rfl b).2 hb
    by_cases hneed : p.utf8Need > 0
    · have hcont : Utf8.isCont b = false := by
        rw [Utf8.isCont, Bool.and_eq_false_iff]
        exact .inl (decide_eq_false (Nat.not_le_of_lt hb))
      have heq : p.advance b =
          ((p.utf8Reset.groundByte b).1, .print Utf8.replacement :: (p.utf8Reset.groundByte b).2) := by
        rw [Parser.advance, hstate]
        dsimp only
        rw [Parser.ground, if_pos hneed, hcont, if_neg Bool.false_ne_true]
      rw [hreset, if_pos hneed, heq]
      exact ⟨rfl, hsame.utf8, hsame.need⟩
    · have hzero : p.utf8Need = 0 := Nat.le_zero.mp (Nat.not_lt.mp hneed)
      rw [hclean hzero] at hsame hreset ⊢
      rw [if_neg hneed, List.nil_append, hreset]
      exact ⟨rfl, hsame.utf8.trans (h.empty hzero), hsame.need.trans hzero⟩
  · have hzero := h.ground hstate
    have hsame := SameUtf8.advance hstate b
    rw [hclean hzero, if_neg (by omega), List.nil_append]
    exact ⟨rfl, hsame.utf8.trans (h.empty hzero), hsame.need.trans hzero⟩

end Collected

/-- **Text is read back, and no ASCII byte is lost.**  From the ground state with nothing collected, the
bytes of a text without C0 controls and DEL are printed character by character; and after any bytes at all
none that is collected is ASCII, and an ASCII byte is read as if nothing had been collected, after one
replacement if something had. -/
theorem utf8_reads (p : Parser) (hstate : p.state = .ground) (hutf8 : p.utf8 = []) (hneed : p.utf8Need = 0) :
    (∀ cs : List Char, (∀ c ∈ cs, 0x20 ≤ c.toNat ∧ c.toNat ≠ 0x7F) →
        p.run (Utf8.encode cs) = (p, cs.map .print)) ∧ ∀ (bytes : List UInt8) (b : UInt8), b.toNat < 0x80 →
        let q := (p.run bytes).1
        (∀ x ∈ q.utf8, 0x80 ≤ x.toNat) ∧ (q.state ≠ .ground → q.utf8 = [] ∧ q.utf8Need = 0) ∧ q.advance b =
            ((q.utf8Reset.advance b).1,
              (if q.utf8Need > 0 then [.print Utf8.replacement] else []) ++ (q.utf8Reset.advance b).2) ∧
          (q.advance b).1.utf8 = [] ∧ (q.advance b).1.utf8Need = 0 := by
  refine ⟨fun cs hcs => run_encode ⟨hstate, hneed⟩ hutf8 hcs, fun bytes b hb => ?_⟩
  have htidy : (p.run bytes).1.Tidy :=
    tidy_run ⟨fun _ => hneed, fun _ => hutf8, fun x hx => by rw [hutf8] at hx; cases hx⟩ bytes
  refine ⟨htidy.high, fun hne => ?_, htidy.advance_ascii hb⟩
  have hzero := htidy.ground hne
  exact ⟨htidy.empty hzero, hzero⟩

theorem utf8_reads_escape :
    let q := (Parser.run {} [0xE2, 0x82]).1
    q.advance 0x1B = ((q.utf8Reset.advance 0x1B).1, [.print Utf8.replacement]) :=
  ((utf8_reads {} rfl rfl rfl).2 [0xE2, 0x82] 0x1B (by decide)).2.2.1

end Posh.Term.Parser
