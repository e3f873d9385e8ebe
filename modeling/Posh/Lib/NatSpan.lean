/-
**Spans of numbers, and the parts of a list they name.**

A log that only grows is read in pieces; a piece is a span of positions, from `lo` up to `hi`.  The
positions of several pieces, one piece after another, ascend exactly when every piece starts past the
end of all those before it.

Main results:

* `NatSpan.pairwise_numbersOf_concat` — **the numbers of a list of spans and of one more ascend exactly
  when those of the list do and each of its spans is before the last**;
* `NatSpan.map_some_slice`, `NatSpan.slice_append` — a slice is the entries at its numbers, and stays
  when the list grows.
-/

import Mathlib.Data.List.Range

set_option autoImplicit false

/-- The numbers from `lo` up to `hi`. -/
structure NatSpan where
  lo : ℕ
  hi : ℕ
  deriving DecidableEq, Repr

namespace NatSpan

variable {α : Type*} {s t : NatSpan} {l : List NatSpan} {xs : List α}

/-! ### The numbers of spans -/

/-- The numbers of a span, in order. -/
def numbers (s : NatSpan) : List ℕ := List.range' s.lo (s.hi - s.lo)

/-- The numbers of spans, one span after another. -/
def numbersOf (l : List NatSpan) : List ℕ := l.flatMap numbers

/-- `s` ends before `t` starts, unless one of them is empty. -/
def Before (s t : NatSpan) : Prop := s.lo < s.hi → t.lo < t.hi → s.hi ≤ t.lo

instance (s t : NatSpan) : Decidable (s.Before t) := by
  unfold Before
  infer_instance

@[simp] theorem mem_numbers {n : ℕ} : n ∈ s.numbers ↔ s.lo ≤ n ∧ n < s.hi := by
  rw [numbers, List.mem_range'_1]
  omega

@[simp] theorem numbersOf_nil : numbersOf [] = [] := rfl

theorem numbersOf_concat (l : List NatSpan) (s : NatSpan) : numbersOf (l ++ [s]) = numbersOf l ++ s.numbers := by
  rw [numbersOf, List.flatMap_append, List.flatMap_singleton, numbersOf]

theorem mem_numbersOf {n : ℕ} : n ∈ numbersOf l ↔ ∃ s ∈ l, s.lo ≤ n ∧ n < s.hi := by
  simp only [numbersOf, List.mem_flatMap, mem_numbers]

theorem pairwise_numbers (s : NatSpan) : s.numbers.Pairwise (· < ·) := List.pairwise_lt_range'

theorem before_iff : s.Before t ↔ ∀ m ∈ s.numbers, ∀ n ∈ t.numbers, m < n := by
  simp only [mem_numbers]
  constructor
  · intro h m hm n hn
    have hle := h (by omega) (by omega)
    omega
  · intro h hs ht
    -- the last number of one and the first of the other
    have hlt := h (s.hi - 1) (by omega) t.lo (by omega)
    omega

/-- **One more span**: the numbers ascend exactly when they did and every span is before it. -/
theorem pairwise_numbersOf_concat :
    (numbersOf (l ++ [s])).Pairwise (· < ·) ↔ (numbersOf l).Pairwise (· < ·) ∧ ∀ t ∈ l, t.Before s := by
  rw [numbersOf_concat, List.pairwise_append]
  refine and_congr_right fun _ => ?_
  constructor
  · rintro ⟨-, h⟩ t ht
    exact before_iff.2 fun m hm n hn => h m (List.mem_flatMap.2 ⟨t, ht, hm⟩) n hn
  · intro h
    refine ⟨pairwise_numbers s, fun m hm n hn => ?_⟩
    obtain ⟨t, ht, hmt⟩ := List.mem_flatMap.1 hm
    exact before_iff.1 (h t ht) m hmt n hn

/-- **A step that may add a span**: the numbers ascend exactly when they did and the span added, if any,
starts past all the others. -/
theorem pairwise_numbersOf_toList (l : List NatSpan) (o : Option NatSpan) :
    (numbersOf (l ++ o.toList)).Pairwise (· < ·) ↔
      (numbersOf l).Pairwise (· < ·) ∧ ∀ s ∈ o, ∀ t ∈ l, t.Before s := by
  cases o with
  | none =>
    rw [Option.toList_none, List.append_nil]
    exact (and_iff_left fun s hs => by cases hs).symm
  | some s =>
    rw [Option.toList_some, pairwise_numbersOf_concat]
    refine and_congr_right fun _ => ⟨?_, fun h => h s rfl⟩
    rintro h t ht
    cases ht
    exact h

/-! ### The part of a list -/

/-- The entries of a list at the numbers of a span. -/
def slice (s : NatSpan) (xs : List α) : List α := (xs.take s.hi).drop s.lo

theorem slice_append (h : s.hi ≤ xs.length) (ys : List α) : s.slice (xs ++ ys) = s.slice xs := by
  rw [slice, List.take_append_of_le_length h, slice]

theorem map_some_slice (h : s.hi ≤ xs.length) :
    (s.slice xs).map some = s.numbers.map fun n => xs[n]? := by
  apply List.ext_getElem?
  intro i
  rw [slice, numbers, List.getElem?_map, List.getElem?_map, List.getElem?_drop, List.getElem?_take]
  by_cases hi : s.lo + i < s.hi
  · have hlt : s.lo + i < xs.length := by omega
    rw [if_pos hi, List.getElem?_range' (by omega), Option.map_some, Nat.one_mul,
      List.getElem?_eq_getElem hlt, Option.map_some]
  · rw [if_neg hi, List.getElem?_eq_none (by rw [List.length_range']; omega)]
    rfl

theorem drop_back_eq_slice (s : NatSpan) (xs : List α) :
    (xs.take s.hi).drop (s.hi - min (s.hi - s.lo) s.hi) = s.slice xs := by
  rw [slice]
  by_cases hle : s.lo ≤ s.hi
  · have hlo : s.hi - min (s.hi - s.lo) s.hi = s.lo := by omega
    rw [hlo]
  · -- an empty span names nothing, from wherever it is counted
    have hnil : ∀ n, s.hi ≤ n → (xs.take s.hi).drop n = [] := by
      intro n hn
      rw [List.drop_eq_nil_iff, List.length_take]
      omega
    rw [hnil _ (by omega), hnil _ (by omega)]

theorem map_getElem?_append (h : ∀ s ∈ l, s.hi ≤ xs.length) (ys : List α) :
    ((numbersOf l).map fun n => (xs ++ ys)[n]?) = (numbersOf l).map fun n => xs[n]? := by
  refine List.map_congr_left fun n hn => ?_
  obtain ⟨s, hs, -, hlt⟩ := mem_numbersOf.1 hn
  exact List.getElem?_append_left (Nat.lt_of_lt_of_le hlt (h s hs))

end NatSpan
