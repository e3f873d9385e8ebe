/-
**Sequences written are read back.**

A machine that rests between sequences reads what the serialisers write: a control sequence as its
marker, parameters and intermediates, a character as itself, a command as its payload.  A payload longer
than a command may be is dropped.
-/

import Mathlib.Data.Nat.Digits.Defs
import Posh.Term.Parser
import Posh.Term.Sgr

set_option autoImplicit false

namespace Posh.Term

open List (length_append length_cons length_singleton)
open Utf8 (decode? isCont)
open Utf8

/-! ### Parameters in text -/

/-- A further parameter of one or more parts. -/
def itemText : List ℕ → List UInt8
  | [] => []
  | n :: parts => semi n ++ parts.flatMap colon

/-- Further parameters. -/
def itemsText (items : List (List ℕ)) : List UInt8 := items.flatMap itemText

@[simp] theorem itemsText_nil : itemsText [] = [] := rfl

@[simp] theorem itemsText_cons (item : List ℕ) (items : List (List ℕ)) :
    itemsText (item :: items) = itemText item ++ itemsText items := rfl

@[simp] theorem itemsText_append (xs ys : List (List ℕ)) :
    itemsText (xs ++ ys) = itemsText xs ++ itemsText ys := List.flatMap_append

theorem numbers_cons (n : ℕ) (ns : List ℕ) :
    numbers (n :: ns) = decimal n ++ itemsText (ns.map fun m => [m]) := by
  induction ns generalizing n with
  | nil => simp [numbers]
  | cons m ns ih => simp [numbers, ih, itemText, semi]

variable {n : ℕ}

theorem decimal_of_le (h : 10 ≤ n) : decimal n = decimal (n / 10) ++ [byte (Nat.digitChar (n % 10))] := by
  rw [decimal, Nat.toDigits_of_base_le (by decide) h, List.map_append]
  rfl

theorem decimal_of_lt (h : n < 10) : decimal n = [byte (Nat.digitChar n)] := by
  rw [decimal, Nat.toDigits_of_lt_base h]
  rfl

theorem toNat_byte_digitChar (h : n < 10) : (byte (Nat.digitChar n)).toNat = 0x30 + n := by
  have hall : ∀ n < 10, (byte (Nat.digitChar n)).toNat = 0x30 + n := by decide
  exact hall n h

namespace Parser

variable {p q : Parser} {c : Char} {b : UInt8} {body : List UInt8} {n : ℕ} {marker : UInt8} {ns : List ℕ}

/-! ### Between sequences -/

/-- Nothing is unfinished. -/
structure Rests (p : Parser) : Prop where
  state : p.state = .ground
  need : p.utf8Need = 0

theorem rests_fresh : ({} : Parser).Rests := ⟨rfl, rfl⟩

/-- A byte string is read as one action, which its last byte completes. -/
structure Reads (p : Parser) (bytes : List UInt8) (a : Action) : Prop where
  split : ∃ front b q q', bytes = front ++ [b] ∧ p.run front = (q, []) ∧ q.advance b = (q', [a]) ∧ q'.Rests

theorem run_append_nil {xs ys : List UInt8} (h : p.run xs = (q, [])) : p.run (xs ++ ys) = q.run ys := by
  rw [run_append, h]
  rfl

theorem run_cons_nil {bs : List UInt8} (h : p.advance b = (q, [])) : p.run (b :: bs) = q.run bs := by
  rw [run_cons, h]
  rfl

theorem run_singleton (h : p.advance b = (q, [])) : p.run [b] = (q, []) := by
  rw [run_cons_nil h, run_nil]

theorem Rests.advance (h : p.Rests) (b : UInt8) : p.advance b = p.groundByte b := by
  rw [Parser.advance, h.state]
  dsimp only
  rw [ground, h.need]
  rfl

theorem Rests.advance_esc (h : p.Rests) : p.advance esc = ({ p with state := .escape }, []) := by
  rw [h.advance, groundByte, if_pos (by rfl)]

theorem anywhere_eq_none (h : 0x20 ≤ b.toNat) (h' : b.toNat < 0x80) : p.anywhere b = none := by
  have hesc : b ≠ 0x1B := fun heq => by rw [heq] at h; revert h; decide
  have hcan : ¬ (b = 0x18 ∨ b = 0x1A) := by
    rintro (heq | heq) <;> rw [heq] at h <;> revert h <;> decide
  rw [anywhere, if_neg hesc, if_neg hcan, if_neg (by omega)]

/-! ### The parameters of a control sequence -/

/-- The machine has read the marker and these parameters; the last one may go on. -/
structure Reading (marker : UInt8) (ps : List (List ℕ)) (p : Parser) : Prop where
  state : p.state = .csiParam
  need : p.utf8Need = 0
  partSeen : p.partSeen = true
  params : p.params ++ [p.curParts ++ [p.curVal]] = ps
  marker : p.marker = marker
  intermediates : p.intermediates = []

/-- At the beginning of a control sequence, with its marker. -/
structure Entered (marker : UInt8) (p : Parser) : Prop where
  state : p.state = .csiEntry ∨ p.state = .csiParam
  need : p.utf8Need = 0
  params : p.params = []
  curParts : p.curParts = []
  curVal : p.curVal = 0
  marker : p.marker = marker
  intermediates : p.intermediates = []

theorem advance_digit (h : p.state = .csiEntry ∨ p.state = .csiParam) {d : ℕ} (hd : d < 10) :
    p.advance (byte (Nat.digitChar d)) = ({ p with
          curVal := min (p.curVal * 10 + d) 65535
          partSeen := true
          state := .csiParam }, []) := by
  have hb := toNat_byte_digitChar hd
  have hnone : p.anywhere (byte (Nat.digitChar d)) = none :=
    anywhere_eq_none (by omega) (by omega)
  rw [Parser.advance]
  rcases h with h | h
  · rw [h]
    dsimp only
    rw [csiEntry, hnone]
    dsimp only
    rw [if_neg (by omega), if_neg (by omega), if_pos (by omega), paramDigit, hb]
    simp
  · rw [h]
    dsimp only
    rw [csiParam, hnone]
    dsimp only
    rw [if_neg (by omega), if_neg (by omega), if_pos (by omega), paramDigit, hb]
    simp [h]

/-- **A number is read back.** -/
theorem run_decimal (n : ℕ) (hn : n ≤ 65535) (h : p.state = .csiEntry ∨ p.state = .csiParam)
    (hval : p.curVal = 0) :
    p.run (decimal n) = ({ p with curVal := n, partSeen := true, state := .csiParam }, []) := by
  induction n using Nat.strong_induction_on with
  | _ n ih =>
    rcases Nat.lt_or_ge n 10 with hlt | hge
    · rw [decimal_of_lt hlt, run_singleton (advance_digit h hlt), hval]
      simp [Nat.min_eq_left hn]
    · rw [decimal_of_le hge, run_append_nil (ih (n / 10) (by omega) (by omega))]
      rw [run_singleton (advance_digit (.inr rfl) (Nat.mod_lt n (by decide)))]
      have hsum : n / 10 * 10 + n % 10 = n := by omega
      simp [hsum, Nat.min_eq_left hn]

theorem Entered.number (h : p.Entered marker) (hn : n ≤ 65535) :
    ∃ q, p.run (decimal n) = (q, []) ∧ q.Reading marker [[n]] := by
  refine ⟨_, run_decimal n hn h.state h.curVal, ?_⟩
  exact ⟨rfl, h.need, rfl, by simp [h.params, h.curParts], h.marker, h.intermediates⟩

namespace Reading

variable {marker : UInt8} {ps : List (List ℕ)} {l : List ℕ}

theorem advance_eq (h : p.Reading marker ps) (b : UInt8) : p.advance b = p.csiParam b := by
  rw [Parser.advance, h.state]

theorem colon (h : p.Reading marker (ps ++ [l])) (hl : l.length ≤ maxSubparams)
    {n : ℕ} (hn : n ≤ 65535) : ∃ q, p.run (colon n) = (q, []) ∧ q.Reading marker (ps ++ [l ++ [n]]) := by
  obtain ⟨hparams, hlast⟩ := List.append_inj' h.params rfl
  have hparts : p.curParts ++ [p.curVal] = l := by simpa using hlast
  have hlt : p.curParts.length < maxSubparams := by
    rw [← hparts, length_append, length_singleton] at hl
    omega
  have hstep : p.advance (byte ':') =
      ({ p with curParts := p.curParts ++ [p.curVal], curVal := 0, partSeen := true }, []) := by
    rw [h.advance_eq, csiParam, anywhere_eq_none (by decide) (by decide)]
    simp [byte, paramColon, hlt]
  rw [Posh.Term.colon, run_cons_nil hstep]
  refine ⟨_, run_decimal n hn (.inr h.state) rfl, rfl, h.need, rfl, ?_, h.marker, h.intermediates⟩
  simp [hparams, hparts]

theorem semi (h : p.Reading marker ps) (hps : ps.length ≤ maxParams) {n : ℕ} (hn : n ≤ 65535) :
    ∃ q, p.run (semi n) = (q, []) ∧ q.Reading marker (ps ++ [[n]]) := by
  have hlt : p.params.length < maxParams := by
    rw [← h.params, length_append, length_singleton] at hps
    omega
  have hstep : p.advance (byte ';') = ({ p with
          params := p.params ++ [p.curParts ++ [p.curVal]]
          curParts := []
          curVal := 0
          partSeen := true }, []) := by
    rw [h.advance_eq, csiParam, anywhere_eq_none (by decide) (by decide)]
    simp [byte, paramSemicolon, hlt]
  rw [Posh.Term.semi, run_cons_nil hstep]
  refine ⟨_, run_decimal n hn (.inr h.state) rfl, rfl, h.need, rfl, ?_, h.marker, h.intermediates⟩
  simp [h.params]

theorem parts (h : p.Reading marker (ps ++ [l])) {k : List ℕ}
    (hlen : l.length + k.length ≤ maxSubparams) (hns : ∀ n ∈ k, n ≤ 65535) :
    ∃ q, p.run (k.flatMap Posh.Term.colon) = (q, []) ∧ q.Reading marker (ps ++ [l ++ k]) := by
  induction k generalizing p l with
  | nil => exact ⟨p, rfl, by rwa [List.append_nil]⟩
  | cons n k ih =>
    rw [length_cons] at hlen
    rw [List.forall_mem_cons] at hns
    obtain ⟨q, hq, hread⟩ := h.colon (by omega) hns.1
    rw [List.flatMap_cons, run_append_nil hq]
    have hrest := ih hread (by rw [length_append, length_singleton]; omega) hns.2
    rwa [List.append_assoc, List.singleton_append] at hrest

end Reading

/-- Parameters that the machine has room for. -/
structure ItemsFit (items : List (List ℕ)) : Prop where
  ne_nil : ∀ item ∈ items, item ≠ []
  parts : ∀ item ∈ items, item.length ≤ maxSubparams
  values : ∀ item ∈ items, ∀ n ∈ item, n ≤ 65535

theorem itemsFit_singles (h : ∀ m ∈ ns, m ≤ 65535) : ItemsFit (ns.map fun m => [m]) := by
  refine ⟨?_, ?_, ?_⟩
  · simp
  · simp [maxSubparams]
  · simpa using h

/-- **Parameters are read back.** -/
theorem Reading.items {ps items : List (List ℕ)} (h : p.Reading marker ps)
    (hitems : ItemsFit items) (hlen : ps.length + items.length ≤ maxParams) :
    ∃ q, p.run (itemsText items) = (q, []) ∧ q.Reading marker (ps ++ items) := by
  induction items generalizing p ps with
  | nil => exact ⟨p, rfl, by rwa [List.append_nil]⟩
  | cons item items ih =>
    rw [length_cons] at hlen
    obtain ⟨hne, hparts, hvalues⟩ := hitems
    rw [List.forall_mem_cons] at hne hparts hvalues
    obtain ⟨n, ns, rfl⟩ := List.exists_cons_of_ne_nil hne.1
    rw [length_cons] at hparts
    have hvals := List.forall_mem_cons.mp hvalues.1
    obtain ⟨q, hq, hread⟩ := h.semi (by omega) hvals.1
    obtain ⟨q', hq', hread'⟩ := hread.parts (k := ns) (by rw [length_singleton]; omega) hvals.2
    rw [itemsText_cons, itemText, List.append_assoc, run_append_nil hq, run_append_nil hq']
    have hrest := ih hread' ⟨hne.2, hparts.2, hvalues.2⟩
      (by rw [length_append, length_singleton]; omega)
    rwa [List.append_assoc, List.singleton_append, List.singleton_append] at hrest

/-! ### Control sequences -/

/-- A byte that ends a sequence. -/
def IsFinal (b : UInt8) : Prop := 0x40 ≤ b.toNat ∧ b.toNat ≤ 0x7E

instance (b : UInt8) : Decidable (IsFinal b) := inferInstanceAs (Decidable (_ ∧ _))

theorem Rests.entered (h : p.Rests) :
    ∃ q, p.run [esc, byte '['] = (q, []) ∧ q.Entered 0 ∧ q.state = .csiEntry ∧ q.partSeen = false := by
  have hstep : Parser.advance { p with state := .escape } (byte '[') =
      ({ p.clear with state := .csiEntry }, []) := by
    simp only [Parser.advance, escape]
    rw [anywhere_eq_none (by decide) (by decide)]
    simp [byte, clear]
  refine ⟨{ p.clear with state := .csiEntry }, ?_, ⟨.inl rfl, h.need, rfl, rfl, rfl, rfl, rfl⟩, rfl, rfl⟩
  rw [run_cons_nil h.advance_esc, run_singleton hstep]

variable {m : UInt8}

theorem Entered.mark (h : p.Entered 0) (hstate : p.state = .csiEntry)
    (hm : 0x3C ≤ m.toNat ∧ m.toNat ≤ 0x3F) : ∃ q, p.advance m = (q, []) ∧ q.Entered m := by
  refine ⟨{ p with marker := m, state := .csiParam }, ?_,
    .inr rfl, h.need, h.params, h.curParts, h.curVal, rfl, h.intermediates⟩
  have hne : m ≠ 0x3A := fun heq => by rw [heq] at hm; revert hm; decide
  have hne' : m ≠ 0x3B := fun heq => by rw [heq] at hm; revert hm; decide
  rw [Parser.advance, hstate]
  dsimp only
  rw [csiEntry, anywhere_eq_none (by omega) (by omega)]
  dsimp only
  rw [if_neg (by omega), if_neg (by omega), if_neg (by omega), if_neg hne, if_neg hne', if_pos (by omega)]

theorem Reading.dispatch {ps : List (List ℕ)} (h : p.Reading marker ps)
    (hps : ps.length ≤ maxParams) (hb : IsFinal b) : ∃ q, p.advance b = (q, [.csi ps [] marker b]) ∧ q.Rests := by
  obtain ⟨hlo, hhi⟩ := hb
  have hlt : p.params.length < maxParams := by
    rw [← h.params, length_append, length_singleton] at hps
    omega
  have hne : b ≠ 0x3A := fun heq => by rw [heq] at hlo; revert hlo; decide
  have hne' : b ≠ 0x3B := fun heq => by rw [heq] at hlo; revert hlo; decide
  rw [h.advance_eq, csiParam, anywhere_eq_none (by omega) (by omega)]
  dsimp only
  rw [if_neg (by omega), if_neg (by omega), if_neg (by omega), if_neg hne, if_neg hne',
    if_neg (by omega), if_pos hhi, Parser.csiDispatch, takeParams]
  simp only [h.partSeen, Bool.true_or, if_true, if_pos hlt, h.params, h.intermediates, h.marker]
  exact ⟨_, rfl, rfl, h.need⟩

/-- **A control sequence with parameters is read back.** -/
theorem reads_csi_items (h : p.Rests) {items : List (List ℕ)} (hn : n ≤ 65535)
    (hitems : ItemsFit items) (hlen : items.length < maxParams) (hc : IsFinal (byte c)) :
    p.Reads (csi (decimal n ++ itemsText items) c) (.csi ([n] :: items) [] 0 (byte c)) := by
  obtain ⟨p₁, h₁, hentered, -, -⟩ := h.entered
  obtain ⟨p₂, h₂, hread⟩ := hentered.number hn
  obtain ⟨p₃, h₃, hread'⟩ := hread.items hitems (by rw [length_singleton]; omega)
  obtain ⟨p₄, h₄, hrest⟩ := hread'.dispatch (by simp; omega) hc
  refine ⟨[esc, byte '['] ++ (decimal n ++ itemsText items), byte c, p₃, p₄, rfl, ?_, h₄, hrest⟩
  rw [run_append_nil h₁, run_append_nil h₂, h₃]

theorem reads_csi_numbers (h : p.Rests) (hn : n ≤ 65535)
    (hns : ∀ m ∈ ns, m ≤ 65535) (hlen : ns.length < maxParams) (hc : IsFinal (byte c)) :
    p.Reads (csi (numbers (n :: ns)) c) (.csi ([n] :: ns.map fun m => [m]) [] 0 (byte c)) := by
  rw [numbers_cons]
  exact reads_csi_items h hn (itemsFit_singles hns) (by rwa [List.length_map]) hc

theorem reads_csi_empty (h : p.Rests) (hc : IsFinal (byte c)) : p.Reads (csi [] c) (.csi [] [] 0 (byte c)) := by
  obtain ⟨p₁, h₁, hentered, hstate, hseen⟩ := h.entered
  obtain ⟨hlo, hhi⟩ := hc
  have hne : byte c ≠ 0x3A := fun heq => by rw [heq] at hlo; revert hlo; decide
  have hne' : byte c ≠ 0x3B := fun heq => by rw [heq] at hlo; revert hlo; decide
  have hstep : p₁.advance (byte c) = p₁.csiDispatch (byte c) := by
    rw [Parser.advance, hstate]
    dsimp only
    rw [csiEntry, anywhere_eq_none (by omega) (by omega)]
    dsimp only
    rw [if_neg (by omega), if_neg (by omega), if_neg (by omega), if_neg hne, if_neg hne',
      if_neg (by omega), if_pos hhi]
  have hdispatch : p₁.csiDispatch (byte c) = ((p₁.csiDispatch (byte c)).1, [.csi [] [] 0 (byte c)]) := by
    simp [Parser.csiDispatch, takeParams, hseen, hentered.curParts, hentered.params,
      hentered.intermediates, hentered.marker]
  exact ⟨[esc, byte '['], byte c, p₁, _, rfl, h₁, hstep.trans hdispatch, rfl, hentered.need⟩

/-- **A control sequence with a marker is read back.** -/
theorem reads_csi_marked_numbers (h : p.Rests)
    (hm : 0x3C ≤ m.toNat ∧ m.toNat ≤ 0x3F) (hn : n ≤ 65535) (hns : ∀ k ∈ ns, k ≤ 65535)
    (hlen : ns.length < maxParams) (hc : IsFinal (byte c)) :
    p.Reads (csi (m :: numbers (n :: ns)) c) (.csi ([n] :: ns.map fun k => [k]) [] m (byte c)) := by
  obtain ⟨p₁, h₁, hentered, hstate, -⟩ := h.entered
  obtain ⟨p₂, h₂, hmarked⟩ := hentered.mark hstate hm
  obtain ⟨p₃, h₃, hread⟩ := hmarked.number hn
  obtain ⟨p₄, h₄, hread'⟩ := hread.items (itemsFit_singles hns) (by simp; omega)
  obtain ⟨p₅, h₅, hrest⟩ := hread'.dispatch (by simp; omega) hc
  refine ⟨[esc, byte '['] ++ m :: numbers (n :: ns), byte c, p₄, p₅, rfl, ?_, h₅, hrest⟩
  rw [run_append_nil h₁, run_cons_nil h₂, numbers_cons, run_append_nil h₃, h₄]

theorem reads_csi_marked (h : p.Rests)
    (hm : 0x3C ≤ m.toNat ∧ m.toNat ≤ 0x3F) (hn : n ≤ 65535) (hc : IsFinal (byte c)) :
    p.Reads (csi (m :: decimal n) c) (.csi [[n]] [] m (byte c)) :=
  reads_csi_marked_numbers h hm hn (List.forall_mem_nil _) (by decide) hc

/-! ### Plain escape sequences -/

theorem reads_esc (h : p.Rests) (hc : 0x30 ≤ (byte c).toNat ∧ (byte c).toNat ≤ 0x7E)
    (hplain : byte c ∉ [0x5B, 0x5D, 0x50, 0x5F, 0x58, (0x5E : UInt8)]) :
    p.Reads (escSeq [] c) (.esc [] (byte c)) := by
  refine ⟨[esc], byte c, _, { p with state := .ground }, rfl, run_singleton h.advance_esc, ?_, rfl, h.need⟩
  simp only [List.mem_cons, List.not_mem_nil, or_false, not_or] at hplain
  simp only [Parser.advance, escape]
  rw [anywhere_eq_none (by omega) (by omega)]
  dsimp only
  rw [if_neg (by omega), if_neg (by omega), if_neg hplain.1, if_neg hplain.2.1,
    if_neg hplain.2.2.1, if_neg hplain.2.2.2.1, if_neg (by simp [hplain]), if_pos hc.2]

theorem reads_esc_intermediate (h : p.Rests) {im : UInt8}
    (him : 0x20 ≤ im.toNat ∧ im.toNat ≤ 0x2F) (hc : 0x30 ≤ (byte c).toNat ∧ (byte c).toNat ≤ 0x7E) :
    p.Reads (escSeq [im] c) (.esc [im] (byte c)) := by
  have hstep : Parser.advance { p with state := .escape } im =
      ({ p.clear with intermediates := [im], state := .escapeIntermediate }, []) := by
    simp only [Parser.advance, escape]
    rw [anywhere_eq_none (by omega) (by omega)]
    dsimp only
    rw [if_neg (by omega), if_pos him.2]
    rfl
  have hlast : Parser.advance { p.clear with intermediates := [im], state := .escapeIntermediate }
      (byte c) = ({ p.clear with intermediates := [], state := .ground }, [.esc [im] (byte c)]) := by
    simp only [Parser.advance, escapeIntermediate]
    rw [anywhere_eq_none (by omega) (by omega)]
    dsimp only
    rw [if_neg (by omega), if_neg (by omega), if_pos hc.2]
  refine ⟨[esc, im], byte c, _, _, rfl, ?_, hlast, ⟨rfl, h.need⟩⟩
  rw [run_cons_nil h.advance_esc, run_singleton hstep]

/-! ### Text -/

/-- The machine with other bytes of a character. -/
def withUtf8 (p : Parser) (utf8 : List UInt8) (need : ℕ) : Parser := { p with utf8, utf8Need := need }

@[simp] theorem state_withUtf8 (p : Parser) (utf8 : List UInt8) (need : ℕ) :
    (p.withUtf8 utf8 need).state = p.state := rfl

theorem advance_lead (h : p.Rests) {a : UInt8} {need : ℕ} (ha : 0xC2 ≤ a.toNat)
    (hneed : (a.toNat ≤ 0xDF ∧ need = 1) ∨ (0xE0 ≤ a.toNat ∧ a.toNat ≤ 0xEF ∧ need = 2) ∨
      (0xF0 ≤ a.toNat ∧ a.toNat ≤ 0xF4 ∧ need = 3)) : p.advance a = (p.withUtf8 [a] need, []) := by
  have hesc : a ≠ 0x1B := fun heq => by rw [heq] at ha; revert ha; decide
  have hdel : a ≠ 0x7F := fun heq => by rw [heq] at ha; revert ha; decide
  rw [h.advance, groundByte, if_neg hesc, if_neg (by omega), if_neg (by omega), if_neg hdel,
    if_neg (by omega), if_neg (by omega)]
  rcases hneed with ⟨hle, rfl⟩ | ⟨hge, hle, rfl⟩ | ⟨hge, hle, rfl⟩
  · rw [if_pos ⟨ha, hle⟩]
    rfl
  · rw [if_neg (by omega), if_pos ⟨hge, hle⟩]
    rfl
  · rw [if_neg (by omega), if_neg (by omega), if_pos ⟨hge, hle⟩]
    rfl

theorem advance_next (hp : p.state = .ground) (bytes : List UInt8) (need : ℕ) (hb : isCont b) :
    (p.withUtf8 bytes (need + 2)).advance b = (p.withUtf8 (bytes ++ [b]) (need + 1), []) := by
  have hneed : (p.withUtf8 bytes (need + 2)).utf8Need = need + 2 := rfl
  rw [Parser.advance, state_withUtf8, hp]
  dsimp only
  rw [ground, hneed, if_pos (Nat.succ_pos _), if_pos hb]
  dsimp only
  rw [if_neg (by omega)]
  rfl

theorem advance_last (hp : p.state = .ground) (bytes : List UInt8) (hb : isCont b)
    (hc : decode? (bytes ++ [b]) = some c) : (p.withUtf8 bytes 1).advance b = (p.withUtf8 [] 0, [.print c]) := by
  have hneed : (p.withUtf8 bytes 1).utf8Need = 1 := rfl
  have hbytes : (p.withUtf8 bytes 1).utf8 = bytes := rfl
  rw [Parser.advance, state_withUtf8, hp]
  dsimp only
  rw [ground, hneed, if_pos Nat.one_pos, if_pos hb]
  dsimp only
  rw [if_pos rfl, hbytes, hc]
  rfl

/-- **A character is read back**; where nothing was collected the machine is as it was. -/
theorem reads_char_back (h : p.Rests) (hc : Utf8.Plain c) (hdel : c.toNat ≠ 0x7F) :
    ∃ front last q r, String.utf8EncodeChar c = front ++ [last] ∧ p.run front = (q, []) ∧
      q.advance last = (r, [.print c]) ∧ r.Rests ∧ (p.utf8 = [] → r = p) := by
  have hrests : (p.withUtf8 [] 0).Rests := ⟨h.state, rfl⟩
  have hback (hutf8 : p.utf8 = []) : p.withUtf8 [] 0 = p := by rw [withUtf8, ← hutf8, ← h.need]
  rcases encodeChar_shape c with ⟨hlt, heq⟩ | ⟨a, b, heq, ha, hb, hcode⟩ |
    ⟨a, b, d, heq, ha, hd, hcode⟩ | ⟨a, b, d, e, heq, ha, hd, he, hcode⟩
  · rw [Utf8.Plain] at hc
    have hbyte : (UInt8.ofNat c.toNat).toNat = c.toNat := by
      rw [UInt8.toNat_ofNat']
      omega
    have hesc : UInt8.ofNat c.toNat ≠ 0x1B := fun he => by
      rw [he] at hbyte
      rw [← hbyte] at hc
      revert hc
      decide
    refine ⟨[], UInt8.ofNat c.toNat, p, p, heq, rfl, ?_, h, fun _ => rfl⟩
    rw [h.advance, groundByte, if_neg hesc, if_neg (by omega), if_pos (by omega), hbyte, scalar_toNat]
  · have hdecode : decode? [a, b] = some c := by
      rw [decode?, ha, hb, hcode, scalar_toNat]
      rfl
    simp only [isLead2, Bool.and_eq_true, decide_eq_true_eq] at ha
    exact ⟨[a], b, _, _, heq, run_singleton (advance_lead h ha.1 (.inl ⟨ha.2, rfl⟩)),
      advance_last h.state [a] hb hdecode, hrests, hback⟩
  · have hlead := isLead3_lead ha
    have hdecode : decode? [a, b, d] = some c := by
      rw [decode?, ha, hd, hcode, scalar_toNat]
      rfl
    refine ⟨[a, b], d, _, _, heq, ?_, advance_last h.state [a, b] hd hdecode, hrests, hback⟩
    rw [run_cons_nil (advance_lead h (by omega) (.inr (.inl ⟨hlead.1, hlead.2, rfl⟩)))]
    exact run_singleton (advance_next h.state [a] 0 (isCont_of_isLead3 ha))
  · have hlead := isLead4_lead ha
    have hdecode : decode? [a, b, d, e] = some c := by
      rw [decode?, ha, hd, he, hcode, scalar_toNat]
      rfl
    refine ⟨[a, b, d], e, _, _, heq, ?_, advance_last h.state [a, b, d] he hdecode, hrests, hback⟩
    rw [run_cons_nil (advance_lead h (by omega) (.inr (.inr ⟨hlead.1, hlead.2, rfl⟩))),
      run_cons_nil (advance_next h.state [a] 1 (isCont_of_isLead4 ha))]
    exact run_singleton (advance_next h.state [a, b] 0 hd)

theorem reads_char (h : p.Rests) (hc : Utf8.Plain c) (hdel : c.toNat ≠ 0x7F) :
    p.Reads (String.utf8EncodeChar c) (.print c) := by
  obtain ⟨front, last, q, r, heq, hfront, hlast, hrests, -⟩ := reads_char_back h hc hdel
  exact ⟨front, last, q, r, heq, hfront, hlast, hrests⟩

theorem run_del (h : p.Rests) (hc : c.toNat = 0x7F) : p.run (String.utf8EncodeChar c) = (p, []) := by
  have hlt : c.toNat < 0x80 := by omega
  rcases encodeChar_shape c with ⟨-, heq⟩ | ⟨a, b, -, ha, -, hcode⟩ | ⟨a, b, d, -, ha, -, hcode⟩ |
    ⟨a, b, d, e, -, ha, -, -, hcode⟩
  · rw [heq, hc, run_singleton]
    rw [h.advance]
    rfl
  -- no other shape has so small a code
  · simp only [isLead2, Bool.and_eq_true, decide_eq_true_eq] at ha
    rw [code2] at hcode
    omega
  · simp only [isLead3, isCont, Bool.and_eq_true, Bool.or_eq_true, decide_eq_true_eq] at ha
    rw [code3] at hcode
    omega
  · simp only [isLead4, isCont, Bool.and_eq_true, Bool.or_eq_true, decide_eq_true_eq] at ha
    rw [code4] at hcode
    omega

/-! ### Commands -/

/-- The bytes of a command that are kept: the other controls are passed over. -/
def payload (body : List UInt8) : List UInt8 := body.filter fun b => 0x20 ≤ b.toNat

theorem payload_eq_self (h : ∀ b ∈ body, 0x20 ≤ b.toNat) : payload body = body :=
  List.filter_eq_self.mpr fun b hb => decide_eq_true (h b hb)

theorem mem_payload : ∀ b ∈ payload body, 0x20 ≤ b.toNat := fun _ hb =>
  of_decide_eq_true (List.mem_filter.mp hb).2

/-- A byte that ends a command: BEL, CAN, SUB or ESC. -/
def EndsOsc (b : UInt8) : Prop := b = 0x07 ∨ b = 0x18 ∨ b = 0x1A ∨ b = 0x1B

instance (b : UInt8) : Decidable (EndsOsc b) := inferInstanceAs (Decidable (_ ∨ _))

theorem not_endsOsc (h : 0x20 ≤ b.toNat) : ¬ EndsOsc b := by
  rintro (heq | heq | heq | heq) <;> rw [heq] at h <;> revert h <;> decide

theorem run_payload (hbody : ∀ b ∈ body, ¬ EndsOsc b)
    (h : p.state = .oscString) (hover : p.stringOverflow = false → p.stringBuf.length ≤ maxOsc) :
    ∃ q, p.run body = (q, []) ∧ q.state = .oscString ∧ q.utf8Need = p.utf8Need ∧ q.stringOverflow =
        (p.stringOverflow || decide (maxOsc < p.stringBuf.length + (payload body).length)) ∧
      (q.stringOverflow = false → q.stringBuf = p.stringBuf ++ payload body) := by
  induction body generalizing p with
  | nil =>
    refine ⟨p, rfl, h, rfl, ?_, fun _ => (List.append_nil _).symm⟩
    cases hp : p.stringOverflow with
    | true => rfl
    | false => simpa [payload] using hover hp
  | cons b body ih =>
    rw [List.forall_mem_cons] at hbody
    obtain ⟨hbel, hcan, hsub, hesc⟩ : b ≠ 0x07 ∧ b ≠ 0x18 ∧ b ≠ 0x1A ∧ b ≠ 0x1B := by
      simpa only [EndsOsc, not_or] using hbody.1
    have hread : p.advance b = if b.toNat ≤ 0x1F then (p, []) else (p.pushStringByte b maxOsc, []) := by
      rw [Parser.advance, h]
      dsimp only
      rw [oscString, if_neg hbel, if_neg hesc, if_neg (not_or.mpr ⟨hcan, hsub⟩)]
    by_cases hcontrol : b.toNat ≤ 0x1F
    · have hskip : payload (b :: body) = payload body := by
        rw [payload, List.filter_cons, if_neg (by simp; omega)]
        rfl
      rw [if_pos hcontrol] at hread
      rw [run_cons_nil hread, hskip]
      exact ih hbody.2 h hover
    · have hkeep : payload (b :: body) = b :: payload body := by
        rw [payload, List.filter_cons, if_pos (by simp; omega)]
        rfl
      rw [if_neg hcontrol] at hread
      rw [run_cons_nil hread, pushStringByte, hkeep]
      split
      case isTrue hlt =>
        obtain ⟨q, hrun, hstate, hneed, hov, hbuf⟩ :=
          ih (p := { p with stringBuf := p.stringBuf ++ [b] }) hbody.2 h
            (fun _ => by rw [length_append, length_singleton]; omega)
        refine ⟨q, hrun, hstate, hneed, ?_, fun hq => ?_⟩
        · simp only [length_append, length_singleton] at hov
          rw [hov, length_cons, Nat.add_assoc, Nat.add_comm 1]
        · simpa using hbuf hq
      case isFalse hge' =>
        obtain ⟨q, hrun, hstate, hneed, hov, -⟩ :=
          ih (p := { p with stringOverflow := true }) hbody.2 h (fun hf => by cases hf)
        rw [Bool.true_or] at hov
        refine ⟨q, hrun, hstate, hneed, ?_, fun hq => by rw [hov] at hq; cases hq⟩
        rw [hov, length_cons, decide_eq_true (by omega), Bool.or_true]

/-- **A command is read up to its end**; too long a payload is dropped there. -/
theorem run_osc (h : p.Rests) (hbody : ∀ b ∈ body, ¬ EndsOsc b) :
    ∃ q, p.run (esc :: byte ']' :: body) = (q, []) ∧ q.state = .oscString ∧ q.utf8Need = 0 ∧
      q.stringOverflow = decide (maxOsc < (payload body).length) ∧
      (q.stringOverflow = false → q.stringBuf = payload body) := by
  have hstep : Parser.advance { p with state := .escape } (byte ']') =
      (startString { p with state := .escape } .oscString, []) := by
    simp only [Parser.advance, escape]
    rw [anywhere_eq_none (by decide) (by decide)]
    rfl
  obtain ⟨q, hrun, hstate, hneed, hov, hbuf⟩ := run_payload hbody
    (p := startString { p with state := .escape } .oscString) rfl (fun _ => Nat.zero_le _)
  refine ⟨q, ?_, hstate, hneed.trans h.need, ?_, hbuf⟩
  · rw [run_cons_nil h.advance_esc, run_cons_nil hstep, hrun]
  · simpa [startString] using hov

/-- What the end of a command that was collected dispatches. -/
theorem finishOsc_collected {bel : Bool} (hover : p.stringOverflow = decide (maxOsc < (payload body).length))
    (hbuf : p.stringOverflow = false → p.stringBuf = payload body) :
    (p.finishOsc bel).2 = if (payload body).length ≤ maxOsc then [.osc (payload body) bel] else [] := by
  rw [finishOsc]
  by_cases hle : (payload body).length ≤ maxOsc
  · have hfits : p.stringOverflow = false := by
      rw [hover]
      exact decide_eq_false (Nat.not_lt.mpr hle)
    rw [if_pos hle, hfits, hbuf hfits]
    rfl
  · have hlong : p.stringOverflow = true := by
      rw [hover]
      exact decide_eq_true (Nat.not_le.mp hle)
    rw [if_neg hle, hlong]
    rfl

end Parser

end Posh.Term
