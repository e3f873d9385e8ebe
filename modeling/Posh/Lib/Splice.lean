/-
**Replacing the middle of a word.**

The shortest description of one word relative to another that keeps a common beginning and a common
end: how many symbols at each end are shared, and the symbols between.  `commonPrefix` and
`commonSuffix` are computed the way a scan does it, the second bounded so that the two shared parts
do not overlap in either word; `splice` puts the middle back.

Main results:

* `Splice.common_add_le` — the shared ends do not overlap, in either word;
* `Splice.splice_middle` — **the middle and the shared ends rebuild the word**.
-/

import Mathlib.Data.Nat.Notation
import Mathlib.Data.List.Basic
import Mathlib.Tactic.Common

set_option autoImplicit false

namespace Splice

variable {α : Type*} [DecidableEq α]

/-- The number of leading symbols two words share. -/
def commonPrefix : List α → List α → ℕ
  | x :: xs, y :: ys => if x = y then commonPrefix xs ys + 1 else 0
  | _, _ => 0

/-- The number of trailing symbols two words share, at most `bound`. -/
def commonSuffix (bound : ℕ) (xs ys : List α) : ℕ :=
  min (commonPrefix xs.reverse ys.reverse) bound

/-- What stands between the first `p` and the last `s` symbols. -/
def middle (p s : ℕ) (ys : List α) : List α := (ys.take (ys.length - s)).drop p

/-- The first `p` and the last `s` symbols of `xs` with `mid` between them. -/
def splice (p s : ℕ) (mid xs : List α) : List α :=
  xs.take p ++ mid ++ xs.drop (xs.length - s)

@[simp] theorem commonPrefix_nil_left (ys : List α) : commonPrefix [] ys = 0 := by
  cases ys <;> rfl

@[simp] theorem commonPrefix_nil_right (xs : List α) : commonPrefix xs [] = 0 := by
  cases xs <;> rfl

theorem commonPrefix_le_left (xs ys : List α) : commonPrefix xs ys ≤ xs.length := by
  induction xs generalizing ys with
  | nil => simp
  | cons x xs ih =>
    cases ys with
    | nil => simp
    | cons y ys =>
      have h := ih ys
      rw [commonPrefix, List.length_cons]
      split <;> omega

theorem commonPrefix_le_right (xs ys : List α) : commonPrefix xs ys ≤ ys.length := by
  induction xs generalizing ys with
  | nil => simp
  | cons x xs ih =>
    cases ys with
    | nil => simp
    | cons y ys =>
      have h := ih ys
      rw [commonPrefix, List.length_cons]
      split <;> omega

theorem take_eq_of_le_commonPrefix (xs ys : List α) : ∀ n ≤ commonPrefix xs ys, xs.take n = ys.take n := by
  induction xs generalizing ys with
  | nil =>
    intro n hn
    rw [commonPrefix_nil_left, Nat.le_zero] at hn
    rw [hn, List.take_zero, List.take_zero]
  | cons x xs ih =>
    intro n hn
    cases ys with
    | nil =>
      rw [commonPrefix_nil_right, Nat.le_zero] at hn
      rw [hn, List.take_zero, List.take_zero]
    | cons y ys =>
      cases n with
      | zero => rw [List.take_zero, List.take_zero]
      | succ n =>
        rw [commonPrefix] at hn
        split at hn
        case isTrue hxy => rw [List.take_succ_cons, List.take_succ_cons, hxy, ih ys n (by omega)]
        case isFalse => omega

theorem commonPrefix_max {xs ys : List α} (hx : commonPrefix xs ys < xs.length)
    (hy : commonPrefix xs ys < ys.length) : xs[commonPrefix xs ys]? ≠ ys[commonPrefix xs ys]? := by
  induction xs generalizing ys with
  | nil => exact absurd hx (Nat.not_lt_zero _)
  | cons x xs ih =>
    cases ys with
    | nil => exact absurd hy (Nat.not_lt_zero _)
    | cons y ys =>
      rw [commonPrefix] at hx hy ⊢
      split at hx
      case isTrue hxy =>
        rw [if_pos hxy, List.length_cons] at hy
        rw [List.length_cons] at hx
        rw [if_pos hxy, List.getElem?_cons_succ, List.getElem?_cons_succ]
        exact ih (Nat.lt_of_succ_lt_succ hx) (Nat.lt_of_succ_lt_succ hy)
      case isFalse hxy =>
        rw [if_neg hxy, List.getElem?_cons_zero, List.getElem?_cons_zero]
        exact fun heq => hxy (Option.some.inj heq)

theorem commonSuffix_max {xs ys : List α} {bound : ℕ} (hbound : commonSuffix bound xs ys < bound)
    (hx : commonSuffix bound xs ys < xs.length) (hy : commonSuffix bound xs ys < ys.length) :
    xs[xs.length - 1 - commonSuffix bound xs ys]? ≠ ys[ys.length - 1 - commonSuffix bound xs ys]? := by
  have hscan : commonSuffix bound xs ys = commonPrefix xs.reverse ys.reverse := by
    rw [commonSuffix] at hbound ⊢
    omega
  rw [hscan] at hx hy ⊢
  rw [← List.getElem?_reverse hx, ← List.getElem?_reverse hy]
  exact commonPrefix_max (by rwa [List.length_reverse]) (by rwa [List.length_reverse])

theorem drop_eq_of_le_commonSuffix {bound n : ℕ} {xs ys : List α} (hn : n ≤ commonSuffix bound xs ys) :
    xs.drop (xs.length - n) = ys.drop (ys.length - n) := by
  have h := take_eq_of_le_commonPrefix xs.reverse ys.reverse n (Nat.le_trans hn (Nat.min_le_left _ _))
  rw [List.take_reverse, List.take_reverse] at h
  exact List.reverse_injective h

theorem common_add_le (xs ys : List α) {bound : ℕ} (hb : bound = min xs.length ys.length - commonPrefix xs ys) :
    commonPrefix xs ys + commonSuffix bound xs ys ≤ xs.length ∧
      commonPrefix xs ys + commonSuffix bound xs ys ≤ ys.length := by
  have hl := commonPrefix_le_left xs ys
  have hr := commonPrefix_le_right xs ys
  have hs : commonSuffix bound xs ys ≤ bound := Nat.min_le_right _ _
  omega

/-- **The middle and the shared ends rebuild the word.** -/
theorem splice_middle {p s : ℕ} {xs ys : List α} (hp : p ≤ commonPrefix xs ys) {bound : ℕ}
    (hs : s ≤ commonSuffix bound xs ys) (hlen : p + s ≤ ys.length) : splice p s (middle p s ys) xs = ys := by
  have hfit : min p (ys.length - s) = p := Nat.min_eq_left (by omega)
  have hfront : (ys.take (ys.length - s)).take p = ys.take p := by rw [List.take_take, hfit]
  calc splice p s (middle p s ys) xs
      = ys.take p ++ (ys.take (ys.length - s)).drop p ++ ys.drop (ys.length - s) := by
        rw [splice, middle, take_eq_of_le_commonPrefix xs ys p hp, drop_eq_of_le_commonSuffix hs]
    _ = ys.take (ys.length - s) ++ ys.drop (ys.length - s) := by
        rw [← hfront, List.take_append_drop]
    _ = ys := List.take_append_drop _ _

end Splice
