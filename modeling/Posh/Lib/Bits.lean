/-
**The bits of a byte string.**

The bits of a byte string, least significant first in each byte, and the numbers that are written in them:
a field with its least significant bit first, a code word with its most significant bit first.  A cursor
`Bits.At data pos rest` says that `rest` are the bits from `pos` on.

Main results:

* `Bits.value_lsb`, `Bits.word_msb` — what is written is read back;
* `Bits.ofBytes_pack` — packing fills the last byte with zeros;
* `Bits.getElem?_ofBytes` — the bit at a place, as it is looked up in its byte.
-/

import Mathlib.Data.List.Basic
import Mathlib.Data.Nat.Bits
import Mathlib.Tactic.Ring

set_option autoImplicit false

namespace Bits

open List (length_cons length_nil replicate)

/-! ### Fields -/

/-- The number in a field, least significant bit first. -/
def value : List Bool → ℕ
  | [] => 0
  | b :: bs => b.toNat + 2 * value bs

/-- The `k` low bits of a number, least significant first. -/
def lsb : ℕ → ℕ → List Bool
  | 0, _ => []
  | k + 1, n => decide (n % 2 = 1) :: lsb k (n / 2)

@[simp] theorem length_lsb (k n : ℕ) : (lsb k n).length = k := by
  induction k generalizing n with
  | zero => rfl
  | succ k ih => rw [lsb, length_cons, ih]

theorem toNat_lowBit (n : ℕ) : (decide (n % 2 = 1)).toNat = n % 2 := by
  rcases Nat.mod_two_eq_zero_or_one n with h | h
  · rw [h]
    rfl
  · rw [h]
    rfl

/-- **A field is read back**, modulo its width. -/
theorem value_lsb (k n : ℕ) : value (lsb k n) = n % 2 ^ k := by
  induction k generalizing n with
  | zero => rw [lsb, value, pow_zero, Nat.mod_one]
  | succ k ih => rw [lsb, value, ih, toNat_lowBit, Nat.pow_succ', Nat.mod_mul]

theorem value_lt (bs : List Bool) : value bs < 2 ^ bs.length := by
  induction bs with
  | nil => exact Nat.one_pos
  | cons b bs ih =>
    have hb := b.toNat_le
    rw [value, length_cons, Nat.pow_succ']
    omega

theorem value_append (v w : List Bool) : value (v ++ w) = value v + 2 ^ v.length * value w := by
  induction v with
  | nil => rw [List.nil_append, value, length_nil, pow_zero, one_mul, Nat.zero_add]
  | cons b v ih =>
    rw [List.cons_append, value, value, ih, length_cons, Nat.pow_succ']
    ring

theorem lsb_value (bs : List Bool) : lsb bs.length (value bs) = bs := by
  induction bs with
  | nil => rfl
  | cons b bs ih =>
    have hb := b.toNat_le
    have hlow : (b.toNat + 2 * value bs) % 2 = b.toNat := by omega
    have hhigh : (b.toNat + 2 * value bs) / 2 = value bs := by omega
    rw [length_cons, value, lsb, hlow, hhigh, ih]
    cases b <;> rfl

/-! ### Code words -/

/-- The code word of a number in `k` bits, most significant bit first. -/
def msb (k n : ℕ) : List Bool := (lsb k n).reverse

@[simp] theorem length_msb (k n : ℕ) : (msb k n).length = k := by
  rw [msb, List.length_reverse, length_lsb]

/-- The last bit of a code word is the lowest. -/
theorem msb_succ (k n : ℕ) : msb (k + 1) n = msb k (n / 2) ++ [decide (n % 2 = 1)] := by
  rw [msb, lsb, List.reverse_cons, ← msb]

/-- A code word begins with its high bits. -/
theorem msb_add (k j n : ℕ) : msb (k + j) n = msb k (n / 2 ^ j) ++ msb j n := by
  induction j generalizing n with
  | zero =>
    rw [Nat.add_zero, pow_zero, Nat.div_one]
    exact (List.append_nil _).symm
  | succ j ih =>
    rw [← Nat.add_assoc, msb_succ, ih, msb_succ j n, List.append_assoc, Nat.div_div_eq_div_mul, Nat.pow_succ']

/-! ### Bytes -/

/-- The bits of a byte, least significant first. -/
def ofByte (b : UInt8) : List Bool := lsb 8 b.toNat

/-- The bits of a byte string. -/
def ofBytes (data : List UInt8) : List Bool := data.flatMap ofByte

@[simp] theorem ofBytes_nil : ofBytes [] = [] := rfl

@[simp] theorem ofBytes_cons (b : UInt8) (data : List UInt8) :
    ofBytes (b :: data) = ofByte b ++ ofBytes data := List.flatMap_cons

@[simp] theorem ofBytes_append (v w : List UInt8) : ofBytes (v ++ w) = ofBytes v ++ ofBytes w :=
  List.flatMap_append

@[simp] theorem length_ofByte (b : UInt8) : (ofByte b).length = 8 := length_lsb 8 _

@[simp] theorem length_ofBytes (data : List UInt8) : (ofBytes data).length = 8 * data.length := by
  induction data with
  | nil => rfl
  | cons b data ih =>
    rw [ofBytes_cons, List.length_append, length_ofByte, ih, length_cons]
    omega

theorem drop_ofBytes (data : List UInt8) (n : ℕ) : (ofBytes data).drop (8 * n) = ofBytes (data.drop n) := by
  induction n generalizing data with
  | zero => rw [Nat.mul_zero, List.drop_zero, List.drop_zero]
  | succ n ih =>
    cases data with
    | nil => rw [ofBytes_nil, List.drop_nil, List.drop_nil, ofBytes_nil]
    | cons b data =>
      rw [ofBytes_cons, Nat.mul_succ, Nat.add_comm, ← List.drop_drop,
        List.drop_left' (length_ofByte b), ih, List.drop_succ_cons]

theorem take_ofBytes (data : List UInt8) (n : ℕ) : (ofBytes data).take (8 * n) = ofBytes (data.take n) := by
  have hdrop := drop_ofBytes data n
  have hsplit : ofBytes data = ofBytes (data.take n) ++ ofBytes (data.drop n) := by
    rw [← ofBytes_append, List.take_append_drop]
  refine (List.append_left_inj (ofBytes (data.drop n))).1 ?_
  rw [← hsplit, ← hdrop, List.take_append_drop]

theorem ofByte_injective {a b : UInt8} (h : ofByte a = ofByte b) : a = b := by
  have hvalue := congrArg value h
  rw [ofByte, ofByte, value_lsb, value_lsb, Nat.mod_eq_of_lt a.toNat_lt, Nat.mod_eq_of_lt b.toNat_lt]
    at hvalue
  exact UInt8.toNat_inj.1 hvalue

theorem ofBytes_injective {v w : List UInt8} (h : ofBytes v = ofBytes w) : v = w := by
  induction v generalizing w with
  | nil =>
    have hlen := congrArg List.length h
    rw [length_ofBytes, length_ofBytes, length_nil] at hlen
    exact (List.length_eq_zero_iff.1 (by omega)).symm
  | cons a v ih =>
    cases w with
    | nil =>
      have hlen := congrArg List.length h
      rw [length_ofBytes, length_ofBytes, length_nil, length_cons] at hlen
      omega
    | cons b w =>
      rw [ofBytes_cons, ofBytes_cons] at h
      obtain ⟨hhead, htail⟩ := List.append_inj h ((length_ofByte a).trans (length_ofByte b).symm)
      rw [ofByte_injective hhead, ih htail]

theorem getElem?_lsb {k i : ℕ} (n : ℕ) (h : i < k) : (lsb k n)[i]? = some (n.testBit i) := by
  induction k generalizing i n with
  | zero => cases h
  | succ k ih =>
    cases i with
    | zero => rw [lsb, List.getElem?_cons_zero, Nat.testBit_zero]
    | succ i => rw [lsb, List.getElem?_cons_succ, ih _ (Nat.lt_of_succ_lt_succ h), Nat.testBit_succ]

/-- **The bit at a place**, as it is looked up in its byte. -/
theorem getElem?_ofBytes (data : List UInt8) (pos : ℕ) :
    (ofBytes data)[pos]? = data[pos / 8]?.map fun b => b.toNat.testBit (pos % 8) := by
  induction data generalizing pos with
  | nil => rfl
  | cons b data ih =>
    rw [ofBytes_cons]
    rcases Nat.lt_or_ge pos 8 with h | h
    · have hdiv : pos / 8 = 0 := Nat.div_eq_of_lt h
      have hmod : pos % 8 = pos := Nat.mod_eq_of_lt h
      rw [List.getElem?_append_left (by rw [length_ofByte]; exact h), ofByte, getElem?_lsb _ h, hdiv, hmod]
      rfl
    · have hdiv : pos / 8 = (pos - 8) / 8 + 1 := by omega
      have hmod : pos % 8 = (pos - 8) % 8 := by omega
      rw [List.getElem?_append_right (by rw [length_ofByte]; exact h), length_ofByte, ih, hdiv, hmod,
        List.getElem?_cons_succ]

/-- Bits packed into bytes; the last byte is filled up with zeros. -/
def pack (bs : List Bool) : List UInt8 :=
  if bs = [] then [] else UInt8.ofNat (value (bs.take 8)) :: pack (bs.drop 8)
termination_by bs.length
decreasing_by
  have hpos := List.length_pos_iff.2 ‹bs ≠ []›
  rw [List.length_drop]
  omega

theorem ofByte_value (bs : List Bool) (h : bs.length ≤ 8) :
    ∃ k, ofByte (UInt8.ofNat (value bs)) = bs ++ replicate k false := by
  have hlt : value bs < 2 ^ 8 :=
    Nat.lt_of_lt_of_le (value_lt bs) (Nat.pow_le_pow_right (by decide) h)
  have hbyte : (UInt8.ofNat (value bs)).toNat = value bs := by
    rw [UInt8.toNat_ofNat']
    exact Nat.mod_eq_of_lt hlt
  have hzeros : ∀ k, value (replicate k false) = 0 := by
    intro k
    induction k with
    | zero => rfl
    | succ k ih => rw [List.replicate_succ, value, ih]; rfl
  refine ⟨8 - bs.length, ?_⟩
  have hfill : (bs ++ replicate (8 - bs.length) false).length = 8 := by
    rw [List.length_append, List.length_replicate]
    omega
  have hvalue : value (bs ++ replicate (8 - bs.length) false) = value bs := by
    rw [value_append, hzeros, Nat.mul_zero, Nat.add_zero]
  have hread := lsb_value (bs ++ replicate (8 - bs.length) false)
  rw [hfill, hvalue] at hread
  rw [ofByte, hbyte, hread]

/-- **Packing fills the last byte with zeros.** -/
theorem ofBytes_pack (bs : List Bool) : ∃ k, ofBytes (pack bs) = bs ++ replicate k false := by
  induction hn : bs.length using Nat.strong_induction_on generalizing bs with
  | _ n ih =>
    rw [pack]
    by_cases hnil : bs = []
    · rw [if_pos hnil, hnil]
      exact ⟨0, rfl⟩
    · have hpos := List.length_pos_iff.2 hnil
      rw [if_neg hnil, ofBytes_cons]
      rcases Nat.lt_or_ge bs.length 9 with h | h
      · have hrest : bs.drop 8 = [] := List.drop_eq_nil_iff.2 (by omega)
        obtain ⟨k, hk⟩ := ofByte_value (bs.take 8) (by rw [List.length_take]; omega)
        rw [hrest, hk, List.take_of_length_le (by omega), pack, if_pos rfl, ofBytes_nil, List.append_nil]
        exact ⟨k, rfl⟩
      · obtain ⟨k, hk⟩ := ofByte_value (bs.take 8) (by rw [List.length_take]; omega)
        obtain ⟨j, hj⟩ := ih (bs.drop 8).length (by rw [List.length_drop]; omega) _ rfl
        -- eight bits are a whole byte
        have hzero : k = 0 := by
          have hlen := congrArg List.length hk
          rw [length_ofByte, List.length_append, List.length_replicate, List.length_take] at hlen
          omega
        rw [hk, hzero, hj, List.replicate_zero, List.append_nil, ← List.append_assoc, List.take_append_drop]
        exact ⟨j, rfl⟩

theorem length_pack (bs : List Bool) : (pack bs).length = (bs.length + 7) / 8 := by
  induction hn : bs.length using Nat.strong_induction_on generalizing bs with
  | _ n ih =>
    rw [pack]
    by_cases hnil : bs = []
    · rw [if_pos hnil, ← hn, hnil]
      rfl
    · have hpos := List.length_pos_iff.2 hnil
      rw [if_neg hnil, length_cons, ih (bs.drop 8).length (by rw [List.length_drop]; omega) _ rfl,
        List.length_drop]
      omega

/-! ### Cursors -/

/-- `rest` are the bits of `data` from `pos` on. -/
structure At (data : List UInt8) (pos : ℕ) (rest : List Bool) : Prop where
  le_length : pos ≤ 8 * data.length
  drop_eq : (ofBytes data).drop pos = rest

section

variable {data : List UInt8} {pos : ℕ} {w rest : List Bool} {b : Bool}

theorem at_zero (data : List UInt8) : At data 0 (ofBytes data) := ⟨Nat.zero_le _, List.drop_zero⟩

theorem At.length_eq (h : At data pos rest) : 8 * data.length = pos + rest.length := by
  have hle := h.le_length
  rw [← h.drop_eq, List.length_drop, length_ofBytes]
  omega

theorem at_of_le (h : pos ≤ 8 * data.length) : At data pos ((ofBytes data).drop pos) := ⟨h, rfl⟩

theorem At.advance (h : At data pos (w ++ rest)) : At data (pos + w.length) rest := by
  have hlen := h.length_eq
  refine ⟨?_, ?_⟩
  · rw [List.length_append] at hlen
    omega
  · rw [← List.drop_drop, h.drop_eq, List.drop_left]

theorem At.next (h : At data pos (b :: rest)) : At data (pos + 1) rest := h.advance (w := [b])

theorem At.head (h : At data pos (b :: rest)) :
    ∃ byte, data[pos / 8]? = some byte ∧ byte.toNat.testBit (pos % 8) = b := by
  have hbit : (ofBytes data)[pos]? = some b := by
    rw [← Nat.add_zero pos, ← List.getElem?_drop, h.drop_eq]
    rfl
  rw [getElem?_ofBytes, Option.map_eq_some_iff] at hbit
  exact hbit

theorem At.none (h : At data pos []) : data[pos / 8]? = none := by
  have hlen := h.length_eq
  rw [length_nil] at hlen
  exact List.getElem?_eq_none (by omega)

end

end Bits
