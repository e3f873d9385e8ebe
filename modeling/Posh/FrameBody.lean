/-
**Server frames and the binary diff.**

A frame is the unit of screen-state synchronisation: a full dump of the screen, a diff against a
dump the client has acknowledged, rows of scrollback, or an empty carrier of acknowledgements.  The
diff is a prefix/suffix splice: the two shared lengths, four bytes each, little-endian, and the bytes
between.

The lengths are written as 32-bit numbers.  A `Dump` is therefore a byte string whose length such a
number can hold; of the two arguments of a diff only the base has to be one.  What does not depend on the
bound is said of any type whose values have bytes.
-/

import Posh.InputStream
import Posh.Lib.Splice
import Posh.Lib.WordBytes

set_option autoImplicit false

namespace Posh

open WordBytes
open Splice

/-! ### Frames -/

inductive FrameBody where
  /-- a whole dump -/
  | full (bytes : Bytes)
  /-- a diff against the dump of frame `base`, whose checksum may be stamped on it -/
  | diff (base : ℕ) (baseSum : Option UInt32) (diff : Bytes)
  /-- nothing but the acknowledgements of the frame -/
  | empty
  /-- escapes that turn the screen of frame `base` into this one -/
  | morph (base : ℕ) (baseSum : Option UInt32) (escapes : Bytes)
  /-- rows that entered the scrollback since frame `base` -/
  | scrollback (base : ℕ) (rows : List Bytes)
  /-- rows of an epoch's row space from `rowOffset` on -/
  | scrollback2 (epoch : UInt8) (rowOffset : ℕ) (rows : List Bytes)
  deriving DecidableEq, Repr

/-- A capability entry. -/
structure Cap where
  id : UInt8
  payload : Bytes
  deriving DecidableEq, Repr

structure ServerFrame where
  flags : UInt8 := 0
  caps : List Cap := []
  frameNum : ℕ
  /-- the input offset received -/
  inputAck : ℕ := 0
  /-- the input offset whose echo is in this frame's screen -/
  echoAck : ℕ := 0
  body : FrameBody
  deriving DecidableEq, Repr

/-! ### The diff -/

/-- The shared lengths and the bytes between; the lengths are truncated to 32 bits. -/
def makeDiff (old new : Bytes) : Bytes :=
  let pre := Splice.commonPrefix old new
  let maxSuffix := min old.length new.length - pre
  let suffix := Splice.commonSuffix maxSuffix old new
  WordBytes.le 4 pre ++ WordBytes.le 4 suffix ++ Splice.middle pre suffix new

/-- The new dump, from the base and the diff; `none` when the diff does not fit the base. -/
def applyDiff (old diff : Bytes) : Option Bytes :=
  if diff.length < 8 then none
  else
    let pre := WordBytes.ofLe (diff.take 4)
    let suffix := WordBytes.ofLe ((diff.drop 4).take 4)
    if pre + suffix > old.length then none
    else some (Splice.splice pre suffix (diff.drop 8) old)

theorem take_le_append (n : ℕ) (rest : Bytes) : (le 4 n ++ rest).take 4 = le 4 n := by
  rw [List.take_append_of_le_length (by simp), List.take_of_length_le (by simp)]

theorem drop_le_append (n : ℕ) (rest : Bytes) : (le 4 n ++ rest).drop 4 = rest := by
  have h : (le 4 n).length = 4 := length_le _ _
  rw [List.drop_append, List.drop_of_length_le (by omega), h]
  rfl

theorem makeDiff_parts (p s : ℕ) (mid : Bytes) :
    let d := le 4 p ++ le 4 s ++ mid
    d.length = 8 + mid.length ∧ ofLe (d.take 4) = p % 256 ^ 4 ∧
      ofLe ((d.drop 4).take 4) = s % 256 ^ 4 ∧ d.drop 8 = mid := by
  have hdrop : (le 4 p ++ (le 4 s ++ mid)).drop 8 = mid := by
    rw [show (8 : ℕ) = 4 + 4 from rfl, ← List.drop_drop, drop_le_append, drop_le_append]
  simp only [List.append_assoc, take_le_append, drop_le_append, ofLe_le, hdrop,
    List.length_append, length_le, and_true]
  omega

/-- **A diff applied to its base gives the new dump.** -/
theorem applyDiff_makeDiff {old : Bytes} (new : Bytes) (hold : old.length < 2 ^ 32) :
    applyDiff old (makeDiff old new) = some new := by
  obtain ⟨hlo, hln⟩ := common_add_le old new rfl
  have hp := commonPrefix_le_left old new
  rw [makeDiff, applyDiff]
  simp only
  generalize hs : commonSuffix (min old.length new.length - commonPrefix old new)
    old new = s at hlo hln ⊢
  generalize hpre : commonPrefix old new = p at hp hlo hln hs ⊢
  obtain ⟨hlen, h1, h2, h3⟩ := makeDiff_parts p s (middle p s new)
  have e1 : p % 256 ^ 4 = p := Nat.mod_eq_of_lt (by omega)
  have e2 : s % 256 ^ 4 = s := Nat.mod_eq_of_lt (by omega)
  rw [if_neg (by omega), h1, h2, h3, e1, e2, if_neg (by omega)]
  rw [splice_middle (Nat.le_of_eq hpre.symm) (Nat.le_of_eq hs.symm) hln]

theorem length_le_makeDiff_nil (new : Bytes) : new.length ≤ (makeDiff [] new).length := by
  have hmid : (makeDiff [] new).length = 8 + new.length := by
    simp [makeDiff, commonSuffix, middle]
    omega
  omega

/-! ### The checksum of a base -/

/-- FNV-1a, 32 bits, over a base's bytes. -/
def baseChecksum (bytes : Bytes) : UInt32 :=
  bytes.foldl (fun h b => (h ^^^ b.toUInt32) * 0x01000193) 0x811c9dc5

/-- The checksums tell the members of `dumps` apart. -/
def NoCollision (dumps : List Bytes) : Prop :=
  ∀ a ∈ dumps, ∀ b ∈ dumps, baseChecksum a = baseChecksum b → a = b

instance (dumps : List Bytes) : Decidable (NoCollision dumps) := by
  unfold NoCollision; infer_instance

/-! ### Dumps -/

/-- The bytes of a screen, their number within the range of the diff's length fields. -/
structure Dump where
  bytes : Bytes
  length_lt : bytes.length < 2 ^ 32
  deriving DecidableEq

namespace Dump

/-- The dump of frame 0, which both ends start from. -/
def empty : Dump := ⟨[], by decide⟩

@[simp] theorem bytes_empty : empty.bytes = [] := rfl

end Dump

/-- What the frame codecs look at in a dump. -/
class DumpBytes (δ : Type) where
  bytes : δ → Bytes
  /-- the dump of frame 0 -/
  empty : δ

instance : DumpBytes Dump := ⟨Dump.bytes, Dump.empty⟩

/-- Dumps of any length. -/
instance : DumpBytes Bytes := ⟨fun bytes => bytes, []⟩

theorem applyDiff_dump (base cur : Dump) : applyDiff base.bytes (makeDiff base.bytes cur.bytes) = some cur.bytes :=
  applyDiff_makeDiff cur.bytes base.length_lt

end Posh
