/-
**The decoding tables, and what they decode.**

The table that is built from a list of code lengths is the one of their canonical code: its counts are the
counts of the lengths, and every symbol with a word stands at its place among the symbols sorted by length.
The lengths are refused exactly when one is too long or the words do not fit.  Walking the code a bit at a
time then finds the symbol of every word, and never looks outside the table.
-/

import Posh.Lib.CanonicalCode
import Posh.Term.Inflate

set_option autoImplicit false

namespace Posh.Term

open ByteCursor Checked
open ByteCursor.Outcome (bind_ok)
open List (length_cons range')
open Function (update update_of_ne update_self)
open Bits (value)
open Bits

namespace Huffman

/-! ### Counting -/

/-- Lengths that a table can have. -/
def Short (lengths : List ℕ) : Prop := ∀ l ∈ lengths, l ≤ 15

instance decidableShort (lengths : List ℕ) : Decidable (Short lengths) :=
  inferInstanceAs (Decidable (∀ l ∈ lengths, l ≤ 15))

variable {lengths : List ℕ} {f : ℕ → ℕ} {ls : List ℕ}

theorem Short.lengthOf_le (h : Short lengths) (s : ℕ) : CanonicalCode.lengthOf lengths s ≤ 15 := by
  rw [CanonicalCode.lengthOf, List.getD_eq_getElem?_getD]
  cases hs : lengths[s]? with
  | none => exact Nat.zero_le 15
  | some l => exact h l (List.mem_of_getElem? hs)

theorem countLengths_short (hls : Short ls) (hf : ∀ l < 16, f l + ls.length < 2 ^ 16) :
    countLengths ls (table 16 f) = .ok (table 16 fun l => f l + ls.count l) := by
  induction ls generalizing f with
  | nil => rfl
  | cons a ls ih =>
    have ha : a ≤ 15 := hls a List.mem_cons_self
    have hroom := hf a (by omega)
    rw [length_cons] at hroom
    rw [countLengths, if_neg (by omega), get_table f (by omega), bind_ok,
      fits_eq (by omega), bind_ok, set_table f (by omega), bind_ok,
      ih (fun l hl => hls l (List.mem_cons_of_mem _ hl))]
    · refine congrArg Outcome.ok (table_congr fun l _ => ?_)
      rw [List.count_cons]
      by_cases hal : a = l
      · rw [hal, update_self, if_pos (beq_self_eq_true l)]
        omega
      · rw [update_of_ne (Ne.symm hal), if_neg (mt beq_iff_eq.1 hal), Nat.add_zero]
    · intro l hl
      have hroom' := hf l hl
      rw [length_cons] at hroom'
      by_cases hal : l = a
      · rw [hal, update_self]
        omega
      · rw [update_of_ne hal]
        omega

theorem countLengths_long (hls : ¬Short ls)
    (hf : ∀ l < 16, f l + ls.length < 2 ^ 16) : countLengths ls (table 16 f) = .error .badHuffman := by
  induction ls generalizing f with
  | nil => exact absurd (List.forall_mem_nil _) hls
  | cons a ls ih =>
    rw [countLengths]
    by_cases ha : 15 < a
    · rw [if_pos ha]
    · have hroom := hf a (by omega)
      rw [length_cons] at hroom
      rw [if_neg ha, get_table f (by omega), bind_ok, fits_eq (by omega), bind_ok,
        set_table f (by omega), bind_ok]
      refine ih (fun hshort => hls (List.forall_mem_cons.2 ⟨Nat.le_of_not_lt ha, hshort⟩)) ?_
      intro l hl
      have hroom' := hf l hl
      rw [length_cons] at hroom'
      by_cases hal : l = a
      · rw [hal, update_self]
        omega
      · rw [update_of_ne hal]
        omega

/-! ### Room for the words -/

open CanonicalCode

theorem checkRoom_spec (hlen : lengths.length < 2 ^ 16) (n : ℕ) :
    ∀ l, l + n ≤ 15 → first lengths l + count lengths l ≤ 2 ^ l →
      checkRoom ((range' (l + 1) n).map (count lengths))
          ((2 : ℤ) ^ l - ((first lengths l + count lengths l : ℕ) : ℤ)) =
        if ∀ k ≤ l + n, l < k → first lengths k + count lengths k ≤ 2 ^ k then .ok () else .error .badHuffman := by
  induction n with
  | zero =>
    intro l _ _
    rw [if_pos fun k hk hlk => absurd hk (by omega)]
    rfl
  | succ n ih =>
    intro l hl hroom
    rw [List.range'_succ, List.map_cons, checkRoom]
    have hleft : 2 * ((2 : ℤ) ^ l - ((first lengths l + count lengths l : ℕ) : ℤ)) -
        (count lengths (l + 1) : ℤ) =
          (2 : ℤ) ^ (l + 1) - ((first lengths (l + 1) + count lengths (l + 1) : ℕ) : ℤ) := by
      rw [first]
      push_cast
      ring
    have hpow : (2 : ℤ) ^ (l + 1) ≤ 2 ^ 15 := by
      exact_mod_cast Nat.pow_le_pow_right (by decide : 0 < 2) (by omega : l + 1 ≤ 15)
    have hcount : count lengths (l + 1) < 2 ^ 16 := by
      rw [count_of_pos (Nat.succ_pos l)]
      exact Nat.lt_of_le_of_lt List.count_le_length hlen
    have hroomZ : ((first lengths l + count lengths l : ℕ) : ℤ) ≤ 2 ^ l := by exact_mod_cast hroom
    have hnext : ((first lengths (l + 1) + count lengths (l + 1) : ℕ) : ℤ) =
        2 * ((first lengths l + count lengths l : ℕ) : ℤ) + (count lengths (l + 1) : ℤ) := by
      rw [first]
      push_cast
      ring
    have hpow' : (2 : ℤ) ^ (l + 1) = 2 * 2 ^ l := by ring
    rw [hleft, fitsSigned_eq (by omega) (by omega), bind_ok]
    by_cases hfits : first lengths (l + 1) + count lengths (l + 1) ≤ 2 ^ (l + 1)
    · have hfitsZ : ((first lengths (l + 1) + count lengths (l + 1) : ℕ) : ℤ) ≤ 2 ^ (l + 1) := by
        exact_mod_cast hfits
      rw [if_neg (by omega), ih (l + 1) (by omega) hfits]
      refine if_congr ⟨fun h k hk hlk => ?_, fun h k hk hlk => h k (by omega) (by omega)⟩ rfl rfl
      rcases Nat.lt_or_eq_of_le (Nat.succ_le_of_lt hlk) with hlt | rfl
      · exact h k (by omega) hlt
      · exact hfits
    · have hfitsZ : (2 : ℤ) ^ (l + 1) < ((first lengths (l + 1) + count lengths (l + 1) : ℕ) : ℤ) := by
        exact_mod_cast Nat.lt_of_not_le hfits
      rw [if_pos (by omega), if_neg fun h => hfits (h (l + 1) (by omega) (Nat.lt_succ_self l))]

theorem checkRoom_counts (hlen : lengths.length < 2 ^ 16) : checkRoom ((table 16 (count lengths)).drop 1) 1 =
      if Fits lengths 15 then .ok () else .error .badHuffman := by
  have hdrop : (table 16 (count lengths)).drop 1 = (range' 1 15).map (count lengths) := rfl
  have hzero : first lengths 0 + count lengths 0 = 0 := rfl
  have hspec := checkRoom_spec hlen 15 0 (Nat.le_refl 15) (hzero.le.trans (Nat.zero_le _))
  rw [hzero] at hspec
  rw [hdrop]
  refine hspec.trans (if_congr ⟨fun h l hl => ?_, fun h k hk _ => h k (by omega)⟩ rfl rfl)
  rcases Nat.eq_zero_or_pos l with rfl | hpos
  · rw [hzero]
    exact Nat.zero_le _
  · exact h l (by omega) hpos

/-! ### Sorting the symbols -/

theorem sumOffsets_spec (hlen : lengths.length < 2 ^ 16) (n : ℕ) :
    ∀ l, l + n = 15 → sumOffsets (table 16 (count lengths)) (range' l n)
        (table 16 fun k => if k ≤ l then base lengths k else 0) = .ok (table 16 (base lengths)) := by
  induction n with
  | zero =>
    intro l hl
    refine congrArg Outcome.ok (table_congr fun k hk => if_pos (by omega))
  | succ n ih =>
    intro l hl
    have hsum : base lengths l + count lengths l < 2 ^ 16 :=
      Nat.lt_of_le_of_lt (base_le_length lengths (l + 1)) hlen
    rw [List.range'_succ, sumOffsets, get_table _ (by omega), bind_ok,
      get_table _ (by omega), bind_ok, if_pos (Nat.le_refl l), fits_eq hsum, bind_ok,
      set_table _ (by omega), bind_ok, ← ih (l + 1) (by omega)]
    refine congrArg _ (table_congr fun k _ => ?_)
    rcases Nat.lt_trichotomy k (l + 1) with hk | rfl | hk
    · rw [update_of_ne (by omega), if_pos (by omega), if_pos (by omega)]
    · rw [update_self, if_pos (Nat.le_refl _), base]
    · rw [update_of_ne (by omega), if_neg (by omega), if_neg (by omega)]

/-- Where the next symbol of each length goes, after the lengths in `done`. -/
def nextPlace (lengths done : List ℕ) (l : ℕ) : ℕ :=
  if l = 0 then 0 else base lengths l + done.count l

theorem placeSymbols_spec (hlen : lengths.length < 2 ^ 16) (hshort : Short lengths)
    (ls : List ℕ) : ∀ (done symbols : List ℕ), lengths = done ++ ls → symbols.length = base lengths 16 →
      (∀ s < done.length, Used lengths s → symbols[slot lengths s]? = some s) →
      ∃ placed, placeSymbols done.length ls (table 16 (nextPlace lengths done)) symbols = .ok placed ∧
        placed.length = base lengths 16 ∧ ∀ s, Used lengths s → placed[slot lengths s]? = some s := by
  induction ls with
  | nil =>
    intro done symbols hsplit hsymbols hplaced
    refine ⟨symbols, rfl, hsymbols, fun s hs => hplaced s ?_ hs⟩
    rw [← List.append_nil done, ← hsplit]
    exact hs.lt_length
  | cons a ls ih =>
    intro done symbols hsplit hsymbols hplaced
    have hsplit' : lengths = (done ++ [a]) ++ ls := by rw [hsplit, List.append_assoc]; rfl
    have hat : lengths[done.length]? = some a := by
      rw [hsplit, List.getElem?_append_right (Nat.le_refl _), Nat.sub_self, List.getElem?_cons_zero]
    have hword : lengthOf lengths done.length = a := lengthOf_eq hat
    have hsucc : (done ++ [a]).length = done.length + 1 := List.length_append
    have ha : a ≤ 15 := hshort a (List.mem_of_getElem? hat)
    rw [placeSymbols]
    by_cases hzero : a = 0
    · -- a symbol without a word
      have hnext : nextPlace lengths done = nextPlace lengths (done ++ [a]) := by
        funext l
        rw [nextPlace, nextPlace]
        by_cases hl : l = 0
        · rw [if_pos hl, if_pos hl]
        · rw [if_neg hl, if_neg hl, List.count_append, hzero, List.count_singleton,
            if_neg (by simpa using Ne.symm hl), Nat.add_zero]
      rw [if_neg (not_not.2 hzero), hnext, ← hsucc]
      refine ih _ _ hsplit' hsymbols fun s hs hused => hplaced s ?_ hused
      rw [hsucc] at hs
      refine Nat.lt_of_le_of_ne (Nat.le_of_lt_succ hs) ?_
      rintro rfl
      rw [Used, hword, hzero] at hused
      cases hused
    · have hused : Used lengths done.length := by
        rw [Used, hword]
        exact Nat.pos_of_ne_zero hzero
      have hplace : nextPlace lengths done a = slot lengths done.length := by
        rw [nextPlace, if_neg hzero, slot, rank, hword, hsplit, List.take_left]
      have hslot : slot lengths done.length < base lengths 16 := hused.slot_lt (by omega)
      have hbase := base_le_length lengths 16
      have hsym : done.length % 2 ^ 16 = done.length :=
        Nat.mod_eq_of_lt (Nat.lt_trans hused.lt_length hlen)
      have hnext : update (nextPlace lengths done) a (slot lengths done.length + 1) =
          nextPlace lengths (done ++ [a]) := by
        funext l
        by_cases hl : l = a
        · rw [hl, update_self, ← hplace, nextPlace, nextPlace, if_neg hzero, if_neg hzero,
            List.count_append, List.count_singleton_self]
          rfl
        · have hcount : (done ++ [a]).count l = done.count l := by
            rw [List.count_append, List.count_singleton, if_neg (by simpa using Ne.symm hl), Nat.add_zero]
          rw [update_of_ne hl, nextPlace, nextPlace, hcount]
      rw [if_pos hzero, get_table _ (by omega), bind_ok, hplace, hsym,
        set_eq (by omega), bind_ok, fits_eq (by omega), bind_ok,
        set_table _ (by omega), bind_ok, hnext, ← hsucc]
      refine ih _ _ hsplit' ((List.length_set ..).trans hsymbols) fun s hs hs' => ?_
      rw [hsucc] at hs
      rcases Nat.lt_or_eq_of_le (Nat.le_of_lt_succ hs) with hlt | rfl
      · have hne : slot lengths done.length ≠ slot lengths s := fun h =>
          absurd (slot_injective hused hs' h) hlt.ne'
        rw [List.getElem?_set_ne hne, hplaced s hlt hs']
      · rw [List.getElem?_set_self (by omega)]

/-! ### The table -/

/-- The decoding table of a list of code lengths. -/
structure IsTable (lengths : List ℕ) (h : Huffman) : Prop where
  counts : h.counts = table 16 (count lengths)
  length_symbols : h.symbols.length = base lengths 16
  symbols : ∀ s, Used lengths s → h.symbols[slot lengths s]? = some s

/-- **Which lengths have a table, and which table that is.** -/
theorem new_spec (hlen : lengths.length < 2 ^ 16) :
    (Short lengths ∧ Fits lengths 15 → ∃ h, new lengths = .ok h ∧ IsTable lengths h) ∧
      (¬(Short lengths ∧ Fits lengths 15) → new lengths = .error .badHuffman) := by
  have hzeros : List.replicate 16 0 = table 16 fun _ => 0 := rfl
  have hroom : ∀ l < 16, (fun _ => 0 : ℕ → ℕ) l + lengths.length < 2 ^ 16 := fun l _ => by
    rw [Nat.zero_add]
    exact hlen
  by_cases hshort : Short lengths
  · have hcounts : update (fun l => 0 + lengths.count l) 0 0 = count lengths := by
      funext l
      by_cases hl : l = 0
      · rw [hl, update_self]
        rfl
      · rw [update_of_ne hl, count, if_neg hl, Nat.zero_add]
    have hoffsets : (table 16 fun _ => 0) = table 16 fun k => if k ≤ 1 then base lengths k else 0 := by
      refine table_congr fun k _ => ?_
      rcases k with _ | _ | k
      · rfl
      · rfl
      · rw [if_neg (by omega)]
    have hnext : base lengths = nextPlace lengths [] := by
      funext l
      rw [nextPlace]
      by_cases hl : l = 0
      · rw [if_pos hl, hl]
        rfl
      · rw [if_neg hl]
        rfl
    have htotal : base lengths 16 = (lengths.filter fun l => l ≠ 0).length :=
      base_eq fun a ha => Nat.lt_succ_of_le (hshort a ha)
    rw [new, hzeros, countLengths_short hshort hroom, bind_ok, set_table _ (by omega),
      bind_ok, hcounts, checkRoom_counts hlen]
    by_cases hfits : Fits lengths 15
    · obtain ⟨placed, hplaced, hlength, hsymbols⟩ := placeSymbols_spec hlen hshort lengths []
        (List.replicate (base lengths 16) 0) rfl List.length_replicate fun s hs => absurd hs (Nat.not_lt_zero s)
      refine ⟨fun _ => ⟨⟨table 16 (count lengths), placed⟩, ?_, rfl, hlength, hsymbols⟩,
        fun h => absurd ⟨hshort, hfits⟩ h⟩
      rw [if_pos hfits, bind_ok, hoffsets, sumOffsets_spec hlen 14 1 rfl, bind_ok, ← htotal, hnext]
      exact congrArg (fun o : Inflating (List ℕ) => o.bind _) hplaced
    · refine ⟨fun h => absurd h.2 hfits, fun _ => ?_⟩
      rw [if_neg hfits]
      rfl
  · refine ⟨fun h => absurd h.1 hshort, fun _ => ?_⟩
    rw [new, hzeros, countLengths_long hshort hroom]
    rfl

theorem new_meets (hlen : lengths.length < 2 ^ 16) : (new lengths).Meets (IsTable lengths) := by
  obtain ⟨hgood, hbad⟩ := new_spec hlen
  by_cases h : Short lengths ∧ Fits lengths 15
  · obtain ⟨t, ht, htable⟩ := hgood h
    rw [ht]
    exact htable
  · rw [hbad h]
    trivial

end Huffman

/-! ### Reading fields -/

section

variable {data : List UInt8} {pos : ℕ} {rest : List Bool} {lengths : List ℕ} {h : Huffman} {w : List Bool}

theorem or_shifted {out i : ℕ} (hout : out < 2 ^ i) (byte : UInt8) (k : ℕ) :
    out ||| ((byte.toNat >>> k) % 2) <<< i = out + 2 ^ i * (byte.toNat.testBit k).toNat := by
  rw [Nat.toNat_testBit, Nat.shiftRight_eq_div_pow, Nat.or_comm, ← Nat.shiftLeft_add_eq_or_of_lt hout,
    Nat.shiftLeft_eq, Nat.add_comm, Nat.mul_comm]

theorem readBitsInto_eq : ∀ {i out pos : ℕ}, Bits.At data pos (w ++ rest) → out < 2 ^ i →
    readBitsInto data w.length i out pos = .ok (out + 2 ^ i * value w, pos + w.length) := by
  induction w with
  | nil =>
    intro i out pos _ _
    rw [List.length_nil, readBitsInto, value, Nat.mul_zero, Nat.add_zero, Nat.add_zero]
  | cons b w ih =>
    intro i out pos hcur hout
    obtain ⟨byte, hbyte, hbit⟩ := hcur.head
    have hb := b.toNat_le
    have hout' : out + 2 ^ i * b.toNat < 2 ^ (i + 1) := by
      have hmul := Nat.mul_le_mul_left (2 ^ i) hb
      rw [Nat.pow_succ]
      omega
    rw [length_cons, readBitsInto, hbyte]
    dsimp only
    rw [or_shifted hout, hbit, ih hcur.next hout', value, Nat.pow_succ]
    refine congrArg Outcome.ok (Prod.ext ?_ ?_)
    · show out + 2 ^ i * b.toNat + 2 ^ i * 2 * value w = out + 2 ^ i * (b.toNat + 2 * value w)
      ring
    · show pos + 1 + w.length = pos + (w.length + 1)
      omega

/-- **A field is read.** -/
theorem readBits_eq (h : Bits.At data pos (w ++ rest)) :
    readBits data w.length pos = .ok (value w, pos + w.length) := by
  have hread : readBitsInto data w.length 0 0 pos = _ := readBitsInto_eq h Nat.one_pos
  rw [pow_zero, one_mul, Nat.zero_add] at hread
  exact hread

theorem readBits_lsb {n k : ℕ} (hn : n < 2 ^ k) (h : Bits.At data pos (lsb k n ++ rest)) :
    readBits data k pos = .ok (n, pos + k) := by
  have hread := readBits_eq h
  rw [length_lsb, value_lsb, Nat.mod_eq_of_lt hn] at hread
  exact hread

theorem readBitsInto_truncated : ∀ {rest : List Bool} {n i out pos : ℕ}, Bits.At data pos rest →
    rest.length < n → readBitsInto data n i out pos = .error .truncated := by
  intro rest
  induction rest with
  | nil =>
    intro n i out pos hcur hn
    cases n with
    | zero => cases hn
    | succ n => rw [readBitsInto, hcur.none]
  | cons b rest ih =>
    intro n i out pos hcur hn
    cases n with
    | zero => cases hn
    | succ n =>
      obtain ⟨byte, hbyte, -⟩ := hcur.head
      rw [readBitsInto, hbyte]
      exact ih hcur.next (Nat.lt_of_succ_lt_succ hn)

theorem readBits_meets (n : ℕ) (hpos : pos ≤ 8 * data.length) :
    (readBits data n pos).Meets fun r => r.1 < 2 ^ n ∧ r.2 = pos + n ∧ r.2 ≤ 8 * data.length := by
  have hcur := at_of_le hpos
  obtain ⟨rest, hrest⟩ : ∃ rest, (ofBytes data).drop pos = rest := ⟨_, rfl⟩
  rw [hrest] at hcur
  rcases Nat.lt_or_ge rest.length n with hlt | hge
  · rw [readBits, readBitsInto_truncated hcur hlt]
    trivial
  · have hw : (rest.take n).length = n := List.length_take_of_le hge
    have hsplit : Bits.At data pos (rest.take n ++ rest.drop n) := by
      rw [List.take_append_drop]
      exact hcur
    have hread := readBits_eq hsplit
    have hlt := value_lt (rest.take n)
    have hlen := hcur.length_eq
    rw [hw] at hread hlt
    rw [hread]
    exact ⟨hlt, rfl, by show pos + n ≤ _; omega⟩

/-! ### Reading words -/

open CanonicalCode

theorem double_or {a b : ℕ} (hb : b < 2) : a * 2 ||| b = a * 2 + b := by
  rw [← pow_one 2, ← Nat.shiftLeft_eq, Nat.shiftLeft_add_eq_or_of_lt (by rw [pow_one]; exact hb)]

theorem readBits_one {b : Bool} (h : Bits.At data pos (b :: rest)) :
    readBits data 1 pos = .ok (b.toNat, pos + 1) := by
  have hread := readBits_eq (w := [b]) h
  rw [List.length_singleton, value, value, Nat.mul_zero, Nat.add_zero] at hread
  exact hread

theorem decodeFrom_step (htable : h.IsTable lengths) {l m : ℕ}
    {b : Bool} (hl : l ≤ 15) (hbit : m % 2 = b.toNat) (hcur : Bits.At data pos (b :: rest)) :
    decodeFrom data h (range' l (16 - l)) (m / 2 * 2) (first lengths l) (base lengths l) pos =
      if m < first lengths l + count lengths l then
        (Checked.sub (base lengths l + m) (first lengths l)).bind fun place =>
        (Checked.get h.symbols place).bind fun sym => .ok (sym, pos + 1)
      else decodeFrom data h (range' (l + 1) (16 - (l + 1))) (m * 2) (first lengths (l + 1))
        (base lengths (l + 1)) (pos + 1) := by
  have hrange : range' l (16 - l) = l :: range' (l + 1) (16 - (l + 1)) := by
    have hsize : 16 - l = (16 - (l + 1)) + 1 := by omega
    rw [hsize, List.range'_succ]
  have hcode : m / 2 * 2 ||| b.toNat = m := by
    rw [double_or (by have := b.toNat_le; omega), ← hbit]
    omega
  rw [hrange, decodeFrom, readBits_one hcur, bind_ok]
  simp only [hcode, htable.counts, get_table (count lengths) (by omega : l < 16), bind_ok,
    Nat.shiftLeft_eq, pow_one, first, base, Nat.mul_comm 2]

/-- **The walk finds the symbol of a word.**  At length `l` the last `j + 1` bits are left. -/
theorem decodeFrom_codeword {s : ℕ} (htable : h.IsTable lengths)
    (hused : Used lengths s) (hmax : lengthOf lengths s ≤ 15) (j : ℕ) :
    ∀ {l pos : ℕ}, l + j = lengthOf lengths s → Bits.At data pos (msb (j + 1) (code lengths s) ++ rest) →
      decodeFrom data h (range' l (16 - l)) (code lengths s / 2 ^ (j + 1) * 2) (first lengths l)
        (base lengths l) pos = .ok (s, pos + (j + 1)) := by
  induction j with
  | zero =>
    intro l pos hl hcur
    have hrank := hused.rank_lt
    have hword : code lengths s = first lengths l + rank lengths s := by rw [code, ← hl, Nat.add_zero]
    have hslot : base lengths l + code lengths s - first lengths l = slot lengths s := by
      rw [hword, slot, ← hl, Nat.add_zero]
      omega
    have hlt : code lengths s < first lengths l + count lengths l := by
      rw [hword, ← Nat.add_zero l, hl]
      omega
    rw [Nat.zero_add, pow_one, decodeFrom_step htable (by omega) (toNat_lowBit _).symm hcur,
      if_pos hlt, sub_eq (by omega), bind_ok, hslot, get_eq (htable.symbols s hused), bind_ok]
  | succ j ih =>
    intro l pos hl hcur
    -- the first bits of the word are past the words of this length
    have hpast : first lengths l + count lengths l ≤ code lengths s / 2 ^ (j + 1) :=
      count_le_of_shorter (by omega)
    have hdiv : code lengths s / 2 ^ (j + 1 + 1) = code lengths s / 2 ^ (j + 1) / 2 := by
      rw [Nat.div_div_eq_div_mul, Nat.pow_succ 2 (j + 1)]
    rw [Nat.add_comm (j + 1) 1, msb_add, List.append_assoc] at hcur
    rw [hdiv, decodeFrom_step htable (by omega) (toNat_lowBit _).symm hcur,
      if_neg (Nat.not_lt.2 hpast), ih (by omega) hcur.next]
    exact congrArg Outcome.ok (Prod.ext rfl (by show pos + 1 + (j + 1) = pos + (j + 1 + 1); omega))

/-- **A word is read as its symbol.** -/
theorem decodeSymbol_codeword {s : ℕ} (htable : h.IsTable lengths)
    (hfits : Fits lengths 15) (hused : Used lengths s) (hmax : lengthOf lengths s ≤ 15)
    (hcur : Bits.At data pos (codeword lengths s ++ rest)) :
    decodeSymbol data h pos = .ok (s, pos + (codeword lengths s).length) := by
  obtain ⟨j, hj⟩ := Nat.exists_eq_succ_of_ne_zero hused.ne'
  have hlt := code_lt hused hfits hmax
  rw [hj] at hlt
  rw [codeword, hj] at hcur ⊢
  have hnone : code lengths s / 2 ^ (j + 1) = 0 := Nat.div_eq_of_lt hlt
  have hwalk := decodeFrom_codeword htable hused hmax j (l := 1) (by omega) hcur
  rw [hnone] at hwalk
  rw [length_msb]
  exact hwalk

theorem decodeFrom_meets (htable : h.IsTable lengths) (n : ℕ) :
    ∀ {l code pos : ℕ}, l + n = 16 → first lengths l ≤ code → pos ≤ 8 * data.length →
      (decodeFrom data h (range' l n) code (first lengths l) (base lengths l) pos).Meets
        fun r => pos < r.2 ∧ r.2 ≤ 8 * data.length := by
  induction n with
  | zero => exact fun _ _ _ => trivial
  | succ n ih =>
    intro l code pos hl hcode hpos
    rw [List.range'_succ, decodeFrom]
    refine (readBits_meets 1 hpos).bind ?_
    rintro ⟨bit, pos'⟩ ⟨hbit, hnext, hin⟩
    dsimp only at hbit hnext hin ⊢
    have hge : first lengths l ≤ code ||| bit := Nat.le_trans hcode Nat.left_le_or
    rw [htable.counts, get_table _ (by omega), bind_ok]
    by_cases hfound : code ||| bit < first lengths l + count lengths l
    · -- the place is among those of the symbols of this length
      have hmono : base lengths l + count lengths l ≤ base lengths 16 := base_mono (by omega)
      have hlen := htable.length_symbols
      rw [if_pos hfound, sub_eq (by omega), bind_ok]
      refine (get_meets (by omega)).bind fun sym _ => ?_
      exact ⟨by show pos < pos'; omega, hin⟩
    · rw [if_neg hfound, Nat.shiftLeft_eq, Nat.shiftLeft_eq, pow_one, Nat.mul_comm _ 2,
        Nat.mul_comm (first lengths l + count lengths l) 2]
      refine Outcome.Meets.mono (ih (l := l + 1) (by omega) ?_ hin) fun r hr => ⟨by omega, hr.2⟩
      rw [first]
      omega

theorem decodeSymbol_meets (htable : h.IsTable lengths) (hpos : pos ≤ 8 * data.length) :
    (decodeSymbol data h pos).Meets fun r => pos < r.2 ∧ r.2 ≤ 8 * data.length :=
  decodeFrom_meets htable 15 (l := 1) rfl (Nat.le_refl 0) hpos

end

end Posh.Term
