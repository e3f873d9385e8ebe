/-
**Slicing text at byte offsets.**

A text is a list of characters, and an offset into it counts bytes of its UTF-8 encoding.  A slice begins and ends
between two characters; an offset inside a character, or past the end, is out of range.

Main results:

* `Utf8.splitAt_eq_some` — **where a text can be split**;
* `Utf8.slice_append`, `Utf8.sliceFrom_append` — slices behind a text that is known.
-/

import Posh.Lib.ByteCursor
import Posh.Lib.Utf8

set_option autoImplicit false

namespace Utf8

open ByteCursor

/-! ### Sizes -/

/-- How many bytes a text has. -/
def size (s : List Char) : ℕ := (encode s).length

@[simp] theorem size_nil : size [] = 0 := rfl

@[simp] theorem size_cons (c : Char) (s : List Char) : size (c :: s) = c.utf8Size + size s := by
  rw [size, encode_cons, List.length_append, String.length_utf8EncodeChar, size]

@[simp] theorem size_append (s t : List Char) : size (s ++ t) = size s + size t := by
  rw [size, encode_append, List.length_append, size, size]

variable {s : List Char}

theorem size_eq_zero : size s = 0 ↔ s = [] := by
  cases s with
  | nil => exact ⟨fun _ => rfl, fun _ => rfl⟩
  | cons c s =>
    have hpos := c.utf8Size_pos
    rw [size_cons]
    exact ⟨fun h => by omega, fun h => by cases h⟩

theorem utf8Size_eq_one {c : Char} : c.utf8Size = 1 ↔ c.toNat < 0x80 := by
  rw [Char.utf8Size_eq_one_iff, UInt32.le_iff_toNat_le]
  exact Nat.lt_succ_iff.symm

theorem size_ascii (h : ∀ c ∈ s, c.toNat < 0x80) : size s = s.length := by
  induction s with
  | nil => rfl
  | cons c s ih =>
    obtain ⟨hc, hs⟩ := List.forall_mem_cons.1 h
    rw [size_cons, utf8Size_eq_one.2 hc, ih hs, List.length_cons, Nat.add_comm]

theorem length_le_size (s : List Char) : s.length ≤ size s := by
  induction s with
  | nil => exact Nat.le_refl 0
  | cons c s ih =>
    have hpos := c.utf8Size_pos
    rw [size_cons, List.length_cons]
    omega

/-! ### Splitting -/

/-- The text in front of the offset `n` and the text from it on. -/
def splitAt : List Char → ℕ → Option (List Char × List Char)
  | s, 0 => some ([], s)
  | [], _ + 1 => none
  | c :: s, n + 1 => if c.utf8Size ≤ n + 1 then (splitAt s (n + 1 - c.utf8Size)).map fun p => (c :: p.1, p.2) else none

@[simp] theorem splitAt_zero (s : List Char) : splitAt s 0 = some ([], s) := by
  cases s <;> rfl

theorem splitAt_append (front back : List Char) : splitAt (front ++ back) (size front) = some (front, back) := by
  induction front with
  | nil => exact splitAt_zero back
  | cons c front ih =>
    obtain ⟨n, hn⟩ : ∃ n, c.utf8Size + size front = n + 1 :=
      ⟨_, (Nat.succ_pred_eq_of_pos (Nat.add_pos_left c.utf8Size_pos _)).symm⟩
    rw [size_cons, hn, List.cons_append, splitAt, if_pos (by omega),
      (by omega : n + 1 - c.utf8Size = size front), ih]
    rfl

/-- **Where a text can be split.** -/
theorem splitAt_eq_some {s front back : List Char} {n : ℕ} :
    splitAt s n = some (front, back) ↔ s = front ++ back ∧ size front = n := by
  constructor
  · intro h
    induction s generalizing n front back with
    | nil =>
      cases n with
      | zero =>
        cases h
        exact ⟨rfl, rfl⟩
      | succ n => cases h
    | cons c s ih =>
      cases n with
      | zero =>
        rw [splitAt_zero] at h
        cases h
        exact ⟨rfl, rfl⟩
      | succ n =>
        rw [splitAt] at h
        split at h
        · next hle =>
            obtain ⟨⟨front', back'⟩, hsplit, heq⟩ := Option.map_eq_some_iff.1 h
            obtain ⟨hs, hsize⟩ := ih hsplit
            cases heq
            refine ⟨congrArg (c :: ·) hs, ?_⟩
            rw [size_cons, hsize]
            omega
        · cases h
  · rintro ⟨rfl, rfl⟩
    exact splitAt_append front back

theorem splitAt_eq_none {n : ℕ} : splitAt s n = none ↔ ∀ front back, s = front ++ back → size front ≠ n := by
  rw [Option.eq_none_iff_forall_ne_some]
  constructor
  · intro h front back hs hsize
    exact h (front, back) (splitAt_eq_some.2 ⟨hs, hsize⟩)
  · rintro h ⟨front, back⟩ hsplit
    obtain ⟨hs, hsize⟩ := splitAt_eq_some.1 hsplit
    exact h front back hs hsize

/-! ### Slices -/

variable {ε : Type*}

/-- `&s[lo..]` -/
def sliceFrom (s : List Char) (lo : ℕ) : Outcome ε (List Char) :=
  match splitAt s lo with
  | some (_, back) => .ok back
  | none => .outOfRange

/-- `&s[lo..hi]` -/
def slice (s : List Char) (lo hi : ℕ) : Outcome ε (List Char) :=
  if lo ≤ hi then
    (sliceFrom s lo).bind fun back =>
      match splitAt back (hi - lo) with
      | some (middle, _) => .ok middle
      | none => .outOfRange
  else .outOfRange

theorem sliceFrom_append (front back : List Char) : (sliceFrom (front ++ back) (size front) : Outcome ε _) = .ok back := by
  rw [sliceFrom, splitAt_append]

/-- **A slice behind a text that is known.** -/
theorem slice_append (front back : List Char) (n : ℕ) :
    (slice (front ++ back) (size front) (size front + n) : Outcome ε _) = match splitAt back n with
      | some (middle, _) => .ok middle
      | none => .outOfRange := by
  rw [slice, if_pos (Nat.le_add_right _ _), sliceFrom_append, Outcome.bind_ok, Nat.add_sub_cancel_left]

end Utf8
