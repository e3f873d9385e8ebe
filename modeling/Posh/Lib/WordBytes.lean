/-
**Fixed-width numbers on the wire.**

The little-endian and big-endian byte images of a number at a width of `k` bytes, and the numbers
they are read back as.  A number too large for its width is truncated, as a narrowing cast does:
reading back gives the remainder modulo `256 ^ k`.

Main results:

* `WordBytes.ofLe_le`, `WordBytes.ofBe_be` — what is written is read back, modulo the width;
* `WordBytes.le_ofLe` — what is read is written back.
-/

import Mathlib.Tactic.Ring

set_option autoImplicit false

namespace WordBytes

/-- The `k` low bytes of `n`, least significant first. -/
def le : ℕ → ℕ → List UInt8
  | 0, _ => []
  | k + 1, n => UInt8.ofNat (n % 256) :: le k (n / 256)

/-- The number whose bytes, least significant first, are given. -/
def ofLe : List UInt8 → ℕ
  | [] => 0
  | b :: bs => b.toNat + 256 * ofLe bs

/-- The `k` low bytes of `n`, most significant first. -/
def be (k n : ℕ) : List UInt8 := (le k n).reverse

/-- The number whose bytes, most significant first, are given. -/
def ofBe (bs : List UInt8) : ℕ := ofLe bs.reverse

@[simp] theorem length_le (k n : ℕ) : (le k n).length = k := by
  induction k generalizing n with
  | zero => rfl
  | succ k ih => rw [le, List.length_cons, ih]

@[simp] theorem length_be (k n : ℕ) : (be k n).length = k := by
  rw [be, List.length_reverse, length_le]

/-- **Reading back what was written**, modulo the width. -/
theorem ofLe_le (k n : ℕ) : ofLe (le k n) = n % 256 ^ k := by
  induction k generalizing n with
  | zero => simp [le, ofLe, Nat.mod_one]
  | succ k ih =>
    have hb : (UInt8.ofNat (n % 256)).toNat = n % 256 := by
      rw [UInt8.toNat_ofNat']
      omega
    rw [le, ofLe, ih, hb, Nat.pow_succ', Nat.mod_mul]

theorem ofLe_lt (bs : List UInt8) : ofLe bs < 256 ^ bs.length := by
  induction bs with
  | nil => exact Nat.one_pos
  | cons b bs ih =>
    have hb := b.toNat_lt
    rw [ofLe, List.length_cons, Nat.pow_succ']
    omega

/-- **Writing what was read.** -/
theorem le_ofLe (bs : List UInt8) : le bs.length (ofLe bs) = bs := by
  induction bs with
  | nil => rfl
  | cons b bs ih =>
    have hb := b.toNat_lt
    have hlow : (b.toNat + 256 * ofLe bs) % 256 = b.toNat := by omega
    have hhigh : (b.toNat + 256 * ofLe bs) / 256 = ofLe bs := by omega
    rw [ofLe, List.length_cons, le, hlow, hhigh, ih, UInt8.ofNat_toNat]

theorem ofBe_be (k n : ℕ) : ofBe (be k n) = n % 256 ^ k := by
  rw [ofBe, be, List.reverse_reverse, ofLe_le]

theorem be_ofBe (bs : List UInt8) : be bs.length (ofBe bs) = bs := by
  have h := le_ofLe bs.reverse
  rw [List.length_reverse] at h
  rw [be, ofBe, h, List.reverse_reverse]

theorem ofBe_lt (bs : List UInt8) : ofBe bs < 256 ^ bs.length := by
  have h := ofLe_lt bs.reverse
  rwa [List.length_reverse] at h

end WordBytes
