/-
**Laying one colour over another.**

A colour that covers a part of what is below it, with straight samples, is laid over another: what is covered then is
what the upper one covers and what the lower one covers of the rest, and the sample that is seen is the mean of the
two, each weighed with what is seen of it.

Counted in whole steps, of which `m` cover everything, both are quotients of whole numbers, and rounding them down is
division.

Main results:

* `AlphaOver.floor_cover`, `AlphaOver.floor_sample` — **rounded down, in whole steps**;
* `AlphaOver.steps_cover_le`, `AlphaOver.steps_sample_le` — neither is more than the whole.
-/

import Mathlib.Algebra.Order.Floor.Semifield
import Mathlib.Tactic.FieldSimp
import Mathlib.Tactic.Ring

set_option autoImplicit false

namespace AlphaOver

variable {K : Type*} [Field K]

/-- What is covered, when something that covers `sa` lies over something that covers `da`. -/
def cover (sa da : K) : K := sa + da * (1 - sa)

/-- A sample of the colour that is seen, when `s` lies over `d`. -/
def sample (sa da s d : K) : K := (s * sa + d * da * (1 - sa)) / cover sa da

/-! ### Whole steps -/

/-- What is covered, in steps of which `m * m` cover everything. -/
def steps (m sa da : ℕ) : ℕ := sa * m + da * (m - sa)

/-- The samples, weighed with these steps. -/
def weighed (m sa da s d : ℕ) : ℕ := s * sa * m + d * da * (m - sa)

section Steps

variable {m sa da s d : ℕ}

theorem steps_le (hsa : sa ≤ m) (hda : da ≤ m) : steps m sa da ≤ m * m := by
  have hbelow : da * (m - sa) ≤ m * (m - sa) := Nat.mul_le_mul_right _ hda
  calc steps m sa da ≤ sa * m + m * (m - sa) := Nat.add_le_add_left hbelow _
    _ = m * (sa + (m - sa)) := by ring
    _ = m * m := by rw [Nat.add_sub_cancel' hsa]

theorem weighed_le (hs : s ≤ m) (hd : d ≤ m) : weighed m sa da s d ≤ steps m sa da * m := by
  have hupper : s * sa * m ≤ m * sa * m := Nat.mul_le_mul_right _ (Nat.mul_le_mul_right _ hs)
  have hlower : d * da * (m - sa) ≤ m * da * (m - sa) := Nat.mul_le_mul_right _ (Nat.mul_le_mul_right _ hd)
  calc weighed m sa da s d ≤ m * sa * m + m * da * (m - sa) := Nat.add_le_add hupper hlower
    _ = steps m sa da * m := by rw [steps]; ring

theorem steps_cover_le (hsa : sa ≤ m) (hda : da ≤ m) : steps m sa da / m ≤ m :=
  Nat.div_le_of_le_mul (steps_le hsa hda)

theorem steps_sample_le (hs : s ≤ m) (hd : d ≤ m) : weighed m sa da s d / steps m sa da ≤ m :=
  Nat.div_le_of_le_mul (weighed_le hs hd)

variable [CharZero K]

theorem cover_eq (hm : 0 < m) (hsa : sa ≤ m) :
    cover (sa / m : K) (da / m) = (steps m sa da : ℕ) / ((m : K) * m) := by
  have hne : (m : K) ≠ 0 := Nat.cast_ne_zero.2 (Nat.pos_iff_ne_zero.1 hm)
  rw [cover, steps]
  push_cast [Nat.cast_sub hsa]
  field_simp

theorem sample_eq (hm : 0 < m) (hsa : sa ≤ m) :
    sample (sa / m : K) (da / m) s d = (weighed m sa da s d : ℕ) / (steps m sa da : ℕ) := by
  have hne : (m : K) ≠ 0 := Nat.cast_ne_zero.2 (Nat.pos_iff_ne_zero.1 hm)
  have hnum : (s * (sa / m) + d * (da / m) * (1 - sa / m) : K) = (weighed m sa da s d : ℕ) / ((m : K) * m) := by
    rw [weighed]
    push_cast [Nat.cast_sub hsa]
    field_simp
  rw [sample, hnum, cover_eq hm hsa, div_div_div_cancel_right₀ (mul_ne_zero hne hne)]

end Steps

/-! ### Rounding down -/

section Floor

variable [LinearOrder K] [IsStrictOrderedRing K] [FloorSemiring K] {m sa da s d : ℕ}

/-- **What is covered, rounded down.** -/
theorem floor_cover (hm : 0 < m) (hsa : sa ≤ m) :
    ⌊(m : K) * cover (sa / m : K) (da / m)⌋₊ = steps m sa da / m := by
  have hne : (m : K) ≠ 0 := Nat.cast_ne_zero.2 (Nat.pos_iff_ne_zero.1 hm)
  rw [cover_eq hm hsa, ← Nat.floor_div_eq_div (K := K)]
  congr 1
  field_simp

/-- **A sample that is seen, rounded down.** -/
theorem floor_sample (hm : 0 < m) (hsa : sa ≤ m) :
    ⌊sample (sa / m : K) (da / m) s d⌋₊ = weighed m sa da s d / steps m sa da := by
  rw [sample_eq hm hsa, Nat.floor_div_eq_div]

end Floor

end AlphaOver
