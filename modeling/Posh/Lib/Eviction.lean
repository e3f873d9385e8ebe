/-
**Letting the oldest go.**

A store that has grown too heavy lets its records go one by one, the oldest first, until the rest is light enough.
Which ones stay is known before: a record stays if it is light enough together with all that are not older.

Main results:

* `Eviction.not_crowded_of_le` — from a light store none has to go;
* `Eviction.crowded_oldest` — from a heavy store the oldest has to go;
* `Eviction.since_rest` — **and when it is gone, the others weigh with the younger ones what they weighed**.
-/

import Mathlib.Algebra.GroupWithZero.Nat
import Mathlib.Data.List.Basic

set_option autoImplicit false

namespace Eviction

variable {α : Type*} {age weight weight' : α → ℕ} {l l' : List α} {x y : α} {bound n : ℕ}

/-- What the records weigh that were stored at `n` or later. -/
def since (age weight : α → ℕ) (l : List α) (n : ℕ) : ℕ :=
  ((l.filter fun y => decide (n ≤ age y)).map weight).sum

/-- A record that is too heavy together with all that are not older. -/
def Crowded (age weight : α → ℕ) (bound : ℕ) (l : List α) (x : α) : Prop :=
  bound < since age weight l (age x)

instance (age weight : α → ℕ) (bound : ℕ) (l : List α) (x : α) : Decidable (Crowded age weight bound l x) :=
  inferInstanceAs (Decidable (_ < _))

theorem since_le_sum (age weight : α → ℕ) (l : List α) (n : ℕ) : since age weight l n ≤ (l.map weight).sum := by
  induction l with
  | nil => exact Nat.le_refl 0
  | cons y l ih =>
    rw [since] at ih ⊢
    rw [List.filter_cons, List.map_cons, List.sum_cons]
    split
    · rw [List.map_cons, List.sum_cons]
      omega
    · omega

theorem since_eq_sum (h : ∀ y ∈ l, n ≤ age y) : since age weight l n = (l.map weight).sum := by
  rw [since, List.filter_eq_self.2]
  intro y hy
  exact decide_eq_true (h y hy)

theorem since_perm (h : l.Perm l') : since age weight l n = since age weight l' n :=
  ((h.filter _).map weight).sum_nat

theorem since_cons_of_lt (h : age x < n) : since age weight (x :: l) n = since age weight l n := by
  rw [since, List.filter_cons_of_neg (by simpa using h)]
  rfl

theorem since_cons_of_le (h : n ≤ age x) : since age weight (x :: l) n = weight x + since age weight l n := by
  rw [since, List.filter_cons_of_pos (by simpa using h), List.map_cons, List.sum_cons]
  rfl

theorem since_eq_zero (h : ∀ y ∈ l, age y < n) : since age weight l n = 0 := by
  rw [since, List.filter_eq_nil_iff.2]
  · rfl
  · intro y hy
    simpa using h y hy

theorem since_congr (h : ∀ y ∈ l, weight y = weight' y) : since age weight l n = since age weight' l n :=
  congrArg List.sum (List.map_congr_left fun y hy => h y (List.mem_of_mem_filter hy))

theorem not_crowded_of_le (h : (l.map weight).sum ≤ bound) (x : α) : ¬ Crowded age weight bound l x :=
  Nat.not_lt.2 (Nat.le_trans (since_le_sum age weight l (age x)) h)

theorem crowded_oldest (hmin : ∀ y ∈ l, age x ≤ age y) (hover : bound < (l.map weight).sum) :
    Crowded age weight bound l x := by
  rw [Crowded, since_eq_sum hmin]
  exact hover

/-- **When the oldest is gone, the others weigh with the younger ones what they weighed.** -/
theorem since_rest (hperm : l.Perm (x :: l')) (hlt : age x < n) : since age weight l n = since age weight l' n :=
  (since_perm hperm).trans (since_cons_of_lt hlt)

end Eviction
