/-
**The binary diff, read by read.**

`applyDiff` takes what is there of a slice; the code's slices stop the program when they are not
there.  Here every slice is checked.  A diff is refused when it is too short or does not fit its base, and
else no slice is out of range.  The diff that is made shares as much of the base as it can: the shared
beginning is the longest one, and the shared end is the longest one that does not overlap it.
-/

import Posh.FrameBody
import Posh.Lib.ByteCursor

set_option autoImplicit false

namespace Posh

open ByteCursor
open ByteCursor.Outcome (bind_ok failIf)
open Splice

variable {old new diff : Bytes}

/-! ### Every slice checked -/

/-- `data[..n]` -/
def headTo (data : Bytes) (n : ℕ) : Outcome Unit Bytes :=
  if n ≤ data.length then .ok (data.take n) else .outOfRange

/-- `data[data.len() - n..]` -/
def lastOf (data : Bytes) (n : ℕ) : Outcome Unit Bytes :=
  if n ≤ data.length then tailAt data (data.length - n) else .outOfRange

/-- The new dump, from the base and the diff; an error when the diff does not fit the base. -/
def readDiff (old diff : Bytes) : Outcome Unit Bytes :=
  (Outcome.failIf (diff.length < 8) ()).bind fun _ =>
  (wordAt 4 diff 0).bind fun pre =>
  (wordAt 4 diff 4).bind fun suffix =>
  (Outcome.failIf (pre + suffix > old.length) ()).bind fun _ =>
  (tailAt diff 8).bind fun middle =>
  (headTo old pre).bind fun front =>
  (lastOf old suffix).bind fun back =>
  .ok (front ++ middle ++ back)

/-- The count of bytes shared at the beginning. -/
def sharedPrefix (diff : Bytes) : ℕ := WordBytes.ofLe (diff.take 4)

/-- The count of bytes shared at the end. -/
def sharedSuffix (diff : Bytes) : ℕ := WordBytes.ofLe ((diff.drop 4).take 4)

/-- **Checking changes nothing.** -/
theorem readDiff_eq (old diff : Bytes) : readDiff old diff = match applyDiff old diff with
    | some out => .ok out
    | none => .error () := by
  rw [applyDiff, readDiff]
  by_cases hshort : diff.length < 8
  · rw [if_pos hshort, failIf, if_pos hshort]
    rfl
  · have hpre : wordAt 4 diff 0 = (.ok (sharedPrefix diff) : Outcome Unit ℕ) := by
      rw [wordAt, if_pos (by omega), List.drop_zero, sharedPrefix]
    have hsuffix : wordAt 4 diff 4 = (.ok (sharedSuffix diff) : Outcome Unit ℕ) := by
      rw [wordAt, if_pos (by omega), sharedSuffix]
    rw [if_neg hshort, Outcome.failIf_of_not _ hshort, bind_ok, hpre, bind_ok, hsuffix,
      bind_ok, ← sharedPrefix, ← sharedSuffix]
    dsimp only
    by_cases hfit : sharedPrefix diff + sharedSuffix diff > old.length
    · rw [if_pos hfit, failIf, if_pos hfit]
      rfl
    · rw [if_neg hfit, Outcome.failIf_of_not _ hfit, bind_ok, tailAt, if_pos (by omega),
        bind_ok, headTo, if_pos (by omega), bind_ok, lastOf, if_pos (by omega), tailAt,
        if_pos (Nat.sub_le _ _), bind_ok]
      rfl

theorem applyDiff_eq_none : applyDiff old diff = none ↔
    diff.length < 8 ∨ old.length < sharedPrefix diff + sharedSuffix diff := by
  rw [applyDiff, ← sharedPrefix, ← sharedSuffix]
  split
  case isTrue hshort => exact iff_of_true rfl (.inl hshort)
  case isFalse hshort =>
    rw [or_iff_right hshort]
    dsimp only
    split
    case isTrue hfit => exact iff_of_true rfl hfit
    case isFalse hfit => exact iff_of_false (fun h => by cases h) hfit

/-! ### What a diff shares -/

/-- The base and the new dump share the beginning and the end that the diff says, and the bytes next to
them differ. -/
structure SharesMost (old new diff : Bytes) : Prop where
  front : old.take (sharedPrefix diff) = new.take (sharedPrefix diff)
  back : old.drop (old.length - sharedSuffix diff) = new.drop (new.length - sharedSuffix diff)
  fits : sharedPrefix diff + sharedSuffix diff ≤ min old.length new.length
  front_max : sharedPrefix diff < min old.length new.length →
    old[sharedPrefix diff]? ≠ new[sharedPrefix diff]?
  back_max : sharedPrefix diff + sharedSuffix diff < min old.length new.length →
    old[old.length - 1 - sharedSuffix diff]? ≠ new[new.length - 1 - sharedSuffix diff]?

/-- **A diff shares most of its base.** -/
theorem sharesMost_makeDiff (hold : old.length < 2 ^ 32) : SharesMost old new (makeDiff old new) := by
  obtain ⟨hlo, hln⟩ := common_add_le old new rfl
  have hfront := take_eq_of_le_commonPrefix old new _ (Nat.le_refl _)
  have hmax := @commonPrefix_max _ _ old new
  have hback := @drop_eq_of_le_commonSuffix _ _
    (min old.length new.length - commonPrefix old new) _ old new (Nat.le_refl _)
  have hbackMax := @commonSuffix_max _ _ old new (min old.length new.length - commonPrefix old new)
  rw [makeDiff]
  generalize commonSuffix (min old.length new.length - commonPrefix old new) old new = s
    at hlo hln hback hbackMax ⊢
  generalize commonPrefix old new = p at hlo hln hfront hmax hbackMax ⊢
  obtain ⟨-, hp, hs, -⟩ := makeDiff_parts p s (middle p s new)
  rw [Nat.mod_eq_of_lt (by omega)] at hp hs
  rw [← sharedPrefix] at hp
  rw [← sharedSuffix] at hs
  constructor
  case front => rwa [hp]
  case back => rwa [hs]
  case fits =>
    rw [hp, hs]
    omega
  case front_max =>
    rw [hp]
    exact fun h => hmax (by omega) (by omega)
  case back_max =>
    rw [hp, hs]
    exact fun h => hbackMax (by omega) (by omega) (by omega)

/-- **A diff is undone by its base, and read within range.** -/
theorem diff_correct :
    (∀ old new : Bytes, old.length < 2 ^ 32 → new.length < 2 ^ 32 →
      applyDiff old (makeDiff old new) = some new ∧ SharesMost old new (makeDiff old new)) ∧ ∀ base d : Bytes,
      (applyDiff base d = none ↔ d.length < 8 ∨ base.length < sharedPrefix d + sharedSuffix d) ∧
        readDiff base d ≠ .outOfRange ∧ ∀ out, readDiff base d = .ok out ↔ applyDiff base d = some out := by
  refine ⟨fun old new hold _ => ⟨applyDiff_makeDiff new hold, sharesMost_makeDiff hold⟩, fun base d =>
    ⟨applyDiff_eq_none, ?_, fun out => ?_⟩⟩
  · rw [readDiff_eq]
    cases applyDiff base d <;> exact fun h => by cases h
  · rw [readDiff_eq]
    cases applyDiff base d with
    | none => exact iff_of_false (fun h => by cases h) fun h => by cases h
    | some out' => exact ⟨fun h => by cases h; rfl, fun h => by cases h; rfl⟩

theorem diff_correct_repeated :
    applyDiff [1, 1, 2] (makeDiff [1, 1, 2] [1, 1, 1, 2]) = some [1, 1, 1, 2] ∧
      SharesMost [1, 1, 2] [1, 1, 1, 2] (makeDiff [1, 1, 2] [1, 1, 1, 2]) :=
  diff_correct.1 _ _ (by decide) (by decide)

end Posh
