/-
**Binary search for a partition point.**

A predicate on indices holds up to some index and fails from it on; halving the range finds that index.

Main results:

* `BinarySearch.partitionPoint_spec` — **what is found**.
-/

import Mathlib.Tactic.Common

set_option autoImplicit false

namespace BinarySearch

/-- The first index of `lo..hi` at which the predicate fails, or `hi`; in at most `fuel` rounds. -/
def partitionPoint (p : ℕ → Bool) : ℕ → ℕ → ℕ → ℕ
  | 0, lo, _ => lo
  | fuel + 1, lo, hi =>
    if lo < hi then
      let mid := lo + (hi - lo) / 2
      if p mid then partitionPoint p fuel (mid + 1) hi else partitionPoint p fuel lo mid
    else lo

/-- An index of the range before which the predicate holds, and from which on it fails. -/
structure Splits (p : ℕ → Bool) (lo hi k : ℕ) : Prop where
  lo_le : lo ≤ k
  le_hi : k ≤ hi
  before : ∀ j, lo ≤ j → j < k → p j = true
  after : ∀ j, k ≤ j → j < hi → p j = false

/-- **What is found.** -/
theorem partitionPoint_spec {p : ℕ → Bool} {fuel lo hi : ℕ} (hfuel : hi - lo ≤ fuel) (hle : lo ≤ hi)
    (hp : ∀ j k, j ≤ k → k < hi → p k = true → p j = true) : Splits p lo hi (partitionPoint p fuel lo hi) := by
  induction fuel generalizing lo hi with
  | zero =>
    obtain rfl : lo = hi := by omega
    rw [partitionPoint]
    exact ⟨Nat.le_refl _, Nat.le_refl _, fun j _ _ => by omega, fun j _ _ => by omega⟩
  | succ fuel ih =>
    rw [partitionPoint]
    split
    case isTrue hlt =>
      dsimp only
      split
      case isTrue hmid =>
        have h := @ih (lo + (hi - lo) / 2 + 1) hi (by omega) (by omega) hp
        have hlo := h.lo_le
        refine ⟨by omega, h.le_hi, fun j hj hlt' => ?_, h.after⟩
        rcases Nat.lt_or_ge (lo + (hi - lo) / 2) j with hgt | hge
        · exact h.before j hgt hlt'
        · exact hp j _ hge (by omega) hmid
      case isFalse hmid =>
        have h := @ih lo (lo + (hi - lo) / 2) (by omega) (by omega)
          fun j k hjk hk => hp j k hjk (by omega)
        have hhi := h.le_hi
        refine ⟨h.lo_le, by omega, h.before, fun j hj hlt' => ?_⟩
        rcases Nat.lt_or_ge j (lo + (hi - lo) / 2) with hgt | hge
        · exact h.after j hj hgt
        · exact (Bool.not_eq_true _).mp fun htrue => hmid (hp _ j hge hlt' htrue)
    case isFalse hlt => exact ⟨Nat.le_refl _, hle, fun j _ _ => by omega, fun j _ _ => by omega⟩

end BinarySearch
