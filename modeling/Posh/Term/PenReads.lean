/-
**A style is read back, whatever came before.**

The pen is changed by control sequences only.  So when a control sequence breaks off what is unfinished,
the pen is as it was, and the sequence is read as if nothing had been unfinished.
-/

import Posh.Term.Replay
import Posh.Term.Utf8Reads

set_option autoImplicit false

namespace Posh.Term

variable {γ : Type}

/-! ### Reading in any state -/

namespace Parser

variable {p q : Parser} {b : UInt8} {bs : List UInt8}

/-- A digit, a colon or a semicolon. -/
def IsParam (b : UInt8) : Prop := 0x30 ≤ b.toNat ∧ b.toNat ≤ 0x3B

instance (b : UInt8) : Decidable (IsParam b) := inferInstanceAs (Decidable (_ ∧ _))

/-- What such a byte does. -/
def paramByte (p : Parser) (b : UInt8) : Parser :=
  if b.toNat ≤ 0x39 then { p.paramDigit b with state := .csiParam }
  else if b = 0x3A then { p.paramColon with state := .csiParam }
  else { p.paramSemicolon with state := .csiParam }

theorem state_paramByte (p : Parser) (b : UInt8) : (p.paramByte b).state = .csiParam := by
  rw [paramByte]
  split
  · rfl
  · split <;> rfl

theorem paramByte_withUtf8 (p : Parser) (b : UInt8) (utf8 : List UInt8) (need : ℕ) :
    (p.withUtf8 utf8 need).paramByte b = (p.paramByte b).withUtf8 utf8 need := by
  rw [paramByte, paramByte]
  split
  · rfl
  · split <;> rfl

theorem advance_param (h : p.state = .csiEntry ∨ p.state = .csiParam) (hb : IsParam b) :
    p.advance b = (p.paramByte b, []) := by
  obtain ⟨hlo, hhi⟩ := hb
  have hnone : p.anywhere b = none := anywhere_eq_none (by omega) (by omega)
  have hlast : ¬ b.toNat ≤ 0x39 → b ≠ 0x3A → b = 0x3B := by
    intro h39 h3A
    have hne : b.toNat ≠ 0x3A := fun heq => h3A (UInt8.toNat_inj.mp heq)
    exact UInt8.toNat_inj.mp (show b.toNat = 0x3B by omega)
  rw [Parser.advance, paramByte]
  rcases h with h | h
  · rw [h]
    dsimp only
    rw [csiEntry, hnone]
    dsimp only
    rw [if_neg (by omega), if_neg (by omega)]
    by_cases h39 : b.toNat ≤ 0x39
    · rw [if_pos h39, if_pos h39]
    · rw [if_neg h39, if_neg h39]
      by_cases h3A : b = 0x3A
      · rw [if_pos h3A, if_pos h3A]
      · rw [if_neg h3A, if_neg h3A, if_pos (hlast h39 h3A)]
  · have hstay : ∀ q : Parser, q.state = p.state → { q with state := .csiParam } = q := by
      intro q hq
      rw [← h, ← hq]
    rw [h]
    dsimp only
    rw [csiParam, hnone]
    dsimp only
    rw [if_neg (by omega), if_neg (by omega)]
    by_cases h39 : b.toNat ≤ 0x39
    · rw [if_pos h39, if_pos h39, hstay (p.paramDigit b) rfl]
    · rw [if_neg h39, if_neg h39]
      by_cases h3A : b = 0x3A
      · rw [if_pos h3A, if_pos h3A, hstay p.paramColon rfl]
      · rw [if_neg h3A, if_neg h3A, if_pos (hlast h39 h3A), hstay p.paramSemicolon rfl]

theorem run_params_withUtf8 (h : p.state = .csiEntry ∨ p.state = .csiParam) (hbs : ∀ b ∈ bs, IsParam b)
    (utf8 : List UInt8) (need : ℕ) : ∃ q, p.run bs = (q, []) ∧ (q.state = .csiEntry ∨ q.state = .csiParam) ∧
      (p.withUtf8 utf8 need).run bs = (q.withUtf8 utf8 need, []) := by
  induction bs generalizing p with
  | nil => exact ⟨p, rfl, h, rfl⟩
  | cons b bs ih =>
    obtain ⟨hb, hbs⟩ := List.forall_mem_cons.mp hbs
    obtain ⟨q, hrun, hstate, hrun'⟩ := ih (.inr (state_paramByte p b)) hbs
    refine ⟨q, ?_, hstate, ?_⟩
    · rw [run_cons_nil (advance_param h hb), hrun]
    · rw [run_cons_nil (advance_param (p := p.withUtf8 utf8 need) h hb), paramByte_withUtf8, hrun']

theorem advance_final (h : p.state = .csiEntry ∨ p.state = .csiParam) (hb : IsFinal b) :
    p.advance b = p.csiDispatch b := by
  obtain ⟨hlo, hhi⟩ := hb
  have hnone : p.anywhere b = none := anywhere_eq_none (by omega) (by omega)
  have hne : b ≠ 0x3A := fun heq => by rw [heq] at hlo; revert hlo; decide
  have hne' : b ≠ 0x3B := fun heq => by rw [heq] at hlo; revert hlo; decide
  rw [Parser.advance]
  rcases h with h | h
  · rw [h]
    dsimp only
    rw [csiEntry, hnone]
    dsimp only
    rw [if_neg (by omega), if_neg (by omega), if_neg (by omega), if_neg hne, if_neg hne',
      if_neg (by omega), if_pos hhi]
  · rw [h]
    dsimp only
    rw [csiParam, hnone]
    dsimp only
    rw [if_neg (by omega), if_neg (by omega), if_neg (by omega), if_neg hne, if_neg hne',
      if_neg (by omega), if_pos hhi]

theorem advance_bracket (h : p.state = .escape) :
    p.advance (byte '[') = ({ p.clear with state := .csiEntry }, []) := by
  rw [Parser.advance, h]
  dsimp only
  rw [escape, anywhere_eq_none (by decide) (by decide)]
  rfl

/-- **A sequence that breaks off what is unfinished is read** as it is between sequences. -/
theorem run_escape_csi (hp : p.state = .escape) {params : List UInt8} {c : Char} {a : Action}
    (hparams : ∀ b ∈ params, IsParam b) (hc : IsFinal (byte c))
    (h : ∀ p : Parser, p.Rests → p.Reads (csi params c) a) :
    ∃ q r, p.run (byte '[' :: params) = (q, []) ∧ q.advance (byte c) = (r, [a]) := by
  have hrests : Rests { p with state := .ground, utf8Need := 0 } := ⟨rfl, rfl⟩
  obtain ⟨front, b, q', r, hsplit, hfront, hlast, -⟩ := (h _ hrests).split
  obtain ⟨hfrontEq, hb⟩ := List.append_inj' (show (esc :: byte '[' :: params) ++ [byte c] = _ from hsplit) rfl
  obtain rfl : byte c = b := List.singleton_inj.mp hb
  obtain ⟨q, hrun, hstate, hrun'⟩ := run_params_withUtf8 (p := { p.clear with state := .csiEntry }) (.inl rfl)
    hparams p.utf8 0
  -- after the introducer the machine that rests is as this one, but for the character
  have hesc : Parser.advance { p with state := .ground, utf8Need := 0 } esc = (p.withUtf8 p.utf8 0, []) := by
    rw [hrests.advance_esc, withUtf8, ← hp]
  rw [← hfrontEq, run_cons_nil hesc, run_cons_nil (advance_bracket (p := p.withUtf8 p.utf8 0) hp)] at hfront
  obtain rfl : q.withUtf8 p.utf8 0 = q' := (Prod.mk.inj (hrun'.symm.trans hfront)).1
  rw [advance_final (p := q.withUtf8 p.utf8 0) hstate hc] at hlast
  refine ⟨q, (q.csiDispatch (byte c)).1, ?_, ?_⟩
  · rw [run_cons_nil (advance_bracket hp), hrun]
  · have haction : (q.csiDispatch (byte c)).2 = [a] := (Prod.mk.inj hlast).2
    rw [advance_final hstate hc, ← haction]

end Parser

/-! ### The sequence of a style -/

theorem itemsText_params (items : List (List ℕ)) : ∀ b ∈ itemsText items, Parser.IsParam b := by
  have hnumber : ∀ (sep : UInt8), Parser.IsParam sep → ∀ n, ∀ b ∈ sep :: decimal n, Parser.IsParam b := by
    intro sep hsep n
    refine List.forall_mem_cons.mpr ⟨hsep, fun b hb => ?_⟩
    obtain ⟨hlo, hhi⟩ := decimal_digits n b hb
    exact ⟨hlo, by omega⟩
  intro b hb
  obtain ⟨item, -, hb⟩ := List.mem_flatMap.mp hb
  cases item with
  | nil => cases hb
  | cons n parts =>
    rcases List.mem_append.mp hb with hb | hb
    · exact hnumber (byte ';') (by decide) n b hb
    · obtain ⟨m, -, hb⟩ := List.mem_flatMap.mp hb
      exact hnumber (byte ':') (by decide) m b hb

theorem sgrParams_params (style : Style) : ∀ b ∈ sgrParams style, Parser.IsParam b := by
  rw [sgrParams_eq]
  refine List.forall_mem_append.mpr ⟨fun b hb => ?_, itemsText_params _⟩
  obtain ⟨hlo, hhi⟩ := decimal_digits 0 b hb
  exact ⟨hlo, by omega⟩

namespace Terminal

variable [GraphicsStore γ]

/-- **The sequence of a style sets the pen to it**, in any state; the protection is no part of it. -/
theorem process_sgrSeq (t : Terminal γ) (style : Style) :
    (t.process (Posh.Term.sgrSeq style)).cursor.style =
      { style with isProtected := t.cursor.style.isProtected } := by
  obtain ⟨hstate, hleaves⟩ := t.parser.advance_esc
  obtain ⟨u, hu⟩ : ∃ u, u = t.processByte esc := ⟨_, rfl⟩
  have hpen : Steady { t with parser := (t.parser.advance esc).1 } u :=
    hu ▸ Steady.dispatchAll _ hleaves
  have huState : u.parser.state = .escape := by
    rw [hpen.parser]
    exact hstate
  have hreads : ∀ p : Parser, p.Rests →
      p.Reads (csi (sgrParams style) 'm') (.csi ([0] :: sgrItems style) [] 0 (byte 'm')) := by
    intro p hp
    rw [sgrParams_eq]
    exact Parser.reads_csi_items hp (by decide) (itemsFit_sgrItems style) (length_sgrItems_lt style)
      (by decide)
  obtain ⟨q, r, hrun, hlast⟩ := Parser.run_escape_csi huState (sgrParams_params style) (by decide) hreads
  have hsplit : Posh.Term.sgrSeq style = esc :: ((byte '[' :: sgrParams style) ++ [byte 'm']) := rfl
  have hdispatch : t.process (Posh.Term.sgrSeq style) = sgr { u with parser := r } ([0] :: sgrItems style) := by
    rw [hsplit, process_cons, ← hu, process_append, process_quiet hrun, process_cons, process_nil,
      processByte]
    dsimp only
    rw [hlast]
    rfl
  have hstyle := applySgr_sgrItems style u.cursor.style
  rw [hpen.style] at hstyle
  rw [hdispatch, sgr]
  dsimp only
  rw [hpen.style]
  split <;> exact hstyle

end Terminal

end Posh.Term
