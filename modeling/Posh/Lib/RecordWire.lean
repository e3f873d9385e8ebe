/-
**A byte stream of records, seen by lengths.**

A reliable byte stream that carries framed records can be written, cut and read at any byte.  Where
only the position of the record boundaries matters, a byte is `none` inside a record and `some r` at
the last byte of the record `r`; a reader has a record when its last byte has arrived.

Main results:

* `RecordWire.takeRecord_spec` — reading takes the first record;
* `RecordWire.take_append_wireOf` — cutting a stream at a record boundary drops the records after it.
-/

import Mathlib.Data.List.Basic

set_option autoImplicit false

namespace RecordWire

variable {ρ : Type*}

/-- The bytes of a record: `len` of them before the last. -/
def wireOf (len : ℕ) (r : ρ) : List (Option ρ) := List.replicate len none ++ [some r]

/-- The records that a stream of bytes completes, in order. -/
def records (w : List (Option ρ)) : List ρ := w.filterMap id

/-- The first complete record and the bytes after it. -/
def takeRecord : List (Option ρ) → Option (ρ × List (Option ρ))
  | [] => none
  | none :: w => takeRecord w
  | some r :: w => some (r, w)

@[simp] theorem records_nil : records ([] : List (Option ρ)) = [] := rfl

@[simp] theorem records_append (v w : List (Option ρ)) :
    records (v ++ w) = records v ++ records w := List.filterMap_append

@[simp] theorem records_wireOf (len : ℕ) (r : ρ) : records (wireOf len r) = [r] := by
  induction len with
  | zero => rfl
  | succ len ih =>
    rw [wireOf, List.replicate_succ, List.cons_append]
    exact ih

theorem takeRecord_spec {w rest : List (Option ρ)} {r : ρ} (h : takeRecord w = some (r, rest)) :
    records w = r :: records rest := by
  induction w with
  | nil => cases h
  | cons b w ih =>
    cases b with
    | none => exact ih h
    | some s =>
      simp only [takeRecord, Option.some.injEq, Prod.mk.injEq] at h
      obtain ⟨rfl, rfl⟩ := h
      rfl

theorem take_append_wireOf (w : List (Option ρ)) (len : ℕ) (r : ρ) : (w ++ wireOf len r).take w.length = w := by
  rw [List.take_append_of_le_length (Nat.le_refl _), List.take_length]

end RecordWire
