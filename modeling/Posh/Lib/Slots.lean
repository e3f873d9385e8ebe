/-
**A list filled in any order.**

The elements of a list arrive one by one, each with its index, in any order.  They are kept in slots, one
for each index up to the highest that arrived; a slot is empty until its element comes.

Main results:

* `Slots.filled_set_perm` — filling an empty slot adds one element;
* `Slots.Agrees.grow`, `Slots.Agrees.set` — new slots, and one filled with its element;
* `Slots.Agrees.sum_filled_le` — what arrived weighs no more than the list;
* `Slots.Agrees.eq_map_some` — **when as many arrived as the list has, all did**.
-/

import Mathlib.Algebra.GroupWithZero.Nat
import Mathlib.Data.List.Perm.Basic

set_option autoImplicit false

namespace Slots

variable {α : Type*} {s : List (Option α)} {xs : List α} {k : ℕ} {a : α}

/-- The elements that arrived, by index. -/
def filled (s : List (Option α)) : List α := s.filterMap id

/-- The slots hold elements of the list, each at its index. -/
structure Agrees (s : List (Option α)) (xs : List α) : Prop where
  length_le : s.length ≤ xs.length
  at_index : ∀ (k : ℕ) (a : α), s[k]? = some (some a) → xs[k]? = some a

theorem filled_set_perm (h : s[k]? = some none) : (filled (s.set k (some a))).Perm (a :: filled s) := by
  induction s generalizing k with
  | nil => cases h
  | cons x s ih =>
    cases k with
    | zero =>
      rw [List.getElem?_cons_zero, Option.some.injEq] at h
      rw [h]
      exact .refl _
    | succ k =>
      rw [List.getElem?_cons_succ] at h
      cases x with
      | none => exact ih h
      | some b => exact ((ih h).cons b).trans (.swap a b _)

theorem filled_append_none (s : List (Option α)) (n : ℕ) : filled (s ++ List.replicate n none) = filled s := by
  induction n with
  | zero => rw [List.replicate_zero, List.append_nil]
  | succ n ih =>
    rw [List.replicate_succ', ← List.append_assoc, filled, List.filterMap_append, ← filled, ih]
    exact List.append_nil _

theorem length_filled_le (s : List (Option α)) : (filled s).length ≤ s.length :=
  List.length_filterMap_le _ _

theorem length_filled_eq_iff : (filled s).length = s.length ↔ none ∉ s := by
  induction s with
  | nil => simp [filled]
  | cons x s ih =>
    cases x with
    | none =>
      have hle := length_filled_le s
      have hcons : filled (none :: s) = filled s := rfl
      rw [hcons, List.length_cons]
      exact iff_of_false (by omega) fun hnot => hnot List.mem_cons_self
    | some a =>
      have hcons : filled (some a :: s) = a :: filled s := rfl
      rw [hcons, List.length_cons, List.length_cons, Nat.succ_inj, ih, List.mem_cons, not_or]
      exact ⟨fun h => ⟨nofun, h⟩, And.right⟩

theorem getElem?_append_none {n : ℕ} :
    (s ++ List.replicate n none)[k]? = some (some a) ↔ s[k]? = some (some a) := by
  by_cases hk : k < s.length
  · rw [List.getElem?_append_left hk]
  · rw [List.getElem?_append_right (by omega), List.getElem?_replicate, List.getElem?_eq_none (by omega)]
    constructor
    · intro h
      split at h <;> cases h
    · intro h
      cases h

theorem agrees_nil (xs : List α) : Agrees ([] : List (Option α)) xs :=
  ⟨Nat.zero_le _, fun _ _ h => by cases h⟩

theorem Agrees.grow (h : Agrees s xs) {n : ℕ} (hn : s.length + n ≤ xs.length) :
    Agrees (s ++ List.replicate n none) xs where
  length_le := by rw [List.length_append, List.length_replicate]; exact hn
  at_index := fun k a hk => h.at_index k a (getElem?_append_none.mp hk)

theorem Agrees.set (h : Agrees s xs) (ha : xs[k]? = some a) : Agrees (s.set k (some a)) xs where
  length_le := by rw [List.length_set]; exact h.length_le
  at_index := fun j b hj => by
    rw [List.getElem?_set] at hj
    split at hj
    · rename_i heq
      split at hj
      · rw [Option.some.injEq, Option.some.injEq] at hj
        rw [← heq, ha, hj]
      · cases hj
    · exact h.at_index j b hj

theorem Agrees.sum_filled_le (h : Agrees s xs) (weight : α → ℕ) :
    ((filled s).map weight).sum ≤ (xs.map weight).sum := by
  induction s generalizing xs with
  | nil => exact Nat.zero_le _
  | cons x s ih =>
    cases xs with
    | nil => exact absurd h.length_le (by simp)
    | cons y xs =>
      have htail : Agrees s xs :=
        ⟨Nat.le_of_succ_le_succ h.length_le, fun k a hk => h.at_index (k + 1) a hk⟩
      rw [List.map_cons, List.sum_cons]
      cases x with
      | none => exact Nat.le_trans (ih htail) (Nat.le_add_left _ _)
      | some b =>
        have hy : some y = some b := h.at_index 0 b rfl
        rw [Option.some.inj hy]
        exact Nat.add_le_add_left (ih htail) _

/-- **When as many arrived as the list has, all did.** -/
theorem Agrees.eq_map_some (h : Agrees s xs) (hfull : (filled s).length = xs.length) : s = xs.map some := by
  induction s generalizing xs with
  | nil =>
    rw [List.eq_nil_of_length_eq_zero hfull.symm]
    rfl
  | cons x s ih =>
    cases xs with
    | nil => exact absurd h.length_le (by simp)
    | cons y xs =>
      have htail : Agrees s xs :=
        ⟨Nat.le_of_succ_le_succ h.length_le, fun k a hk => h.at_index (k + 1) a hk⟩
      have hle := Nat.le_trans (length_filled_le s) htail.length_le
      cases x with
      | none =>
        have hcount : (filled s).length = xs.length + 1 := hfull
        omega
      | some b =>
        have hy : some y = some b := h.at_index 0 b rfl
        rw [Option.some.inj hy, ih htail (Nat.succ.inj hfull), List.map_cons]

theorem Agrees.length_filled_eq (h : Agrees s xs)
    (hall : ∀ k < xs.length, ∃ a, s[k]? = some (some a)) : (filled s).length = xs.length := by
  induction s generalizing xs with
  | nil =>
    rcases xs with _ | ⟨y, xs⟩
    · rfl
    · obtain ⟨a, ha⟩ := hall 0 (Nat.succ_pos _)
      cases ha
  | cons x s ih =>
    rcases xs with _ | ⟨y, xs⟩
    · exact absurd h.length_le (Nat.not_succ_le_zero _)
    · have htail : Agrees s xs :=
        ⟨Nat.le_of_succ_le_succ h.length_le, fun k a hk => h.at_index (k + 1) a hk⟩
      obtain ⟨a, ha⟩ := hall 0 (Nat.succ_pos _)
      rw [List.getElem?_cons_zero, Option.some.injEq] at ha
      rw [ha]
      exact congrArg (· + 1) (ih htail fun k hk => hall (k + 1) (Nat.succ_lt_succ hk))

theorem filled_map_some (xs : List α) : filled (xs.map some) = xs := by
  rw [filled, List.filterMap_map]
  exact List.filterMap_some

end Slots
