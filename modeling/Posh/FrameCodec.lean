/-
**The two visible-frame codecs.**

A codec owns both halves of the visible-frame wire: the server encodes the current screen against
the baseline the client has acknowledged, and the client applies the body to its model.  `DumpDiff`
ships dumps, whole or as a diff, and the client rebuilds its model from the dump; `MorphDelta` ships
the escapes that turn one screen into the other, and falls back to a whole dump where escapes cannot
express the transition.

The terminal model and the painter enter through a `Display`, the operations of theirs the codecs
use; nothing here depends on what these compute.
-/

import Posh.FrameBody

set_option autoImplicit false

namespace Posh

open DumpBytes

/-! ### The terminal and the painter -/

/-- What the frame codecs use of a terminal model `τ` and of the painter of its snapshots `σ`. -/
structure Display (τ σ : Type) where
  /-- a fresh terminal: its rows, columns and scrollback bound -/
  withScrollback : ℕ → ℕ → ℕ → τ
  process : τ → Bytes → τ
  rows : τ → ℕ
  cols : τ → ℕ
  resize : τ → ℕ → ℕ → τ
  /-- the snapshot of an empty screen -/
  blank : ℕ → ℕ → σ
  /-- the escapes that paint the second snapshot over the first -/
  newFrame : Bool → σ → σ → Bool → Bytes

/-- A display that shows nothing, for runs on concrete bytes. -/
def nullDisplay : Display Unit Unit where
  withScrollback _ _ _ := ()
  process _ _ := ()
  rows _ := 24
  cols _ := 80
  resize _ _ _ := ()
  blank _ _ := ()
  newFrame _ _ _ _ := []

/-! ### What the codecs exchange -/

/-- The acknowledged frame an encoder may build on. -/
structure BaselineRef (σ : Type) (δ : Type := Dump) where
  num : ℕ
  dump : δ
  snapshot : σ
  altScreen : Bool
  rows : ℕ
  cols : ℕ

/-- The screen an encoder turns into a body. -/
structure CurrentFrame (σ : Type) (δ : Type := Dump) where
  dump : δ
  snapshot : σ
  altScreen : Bool
  rows : ℕ
  cols : ℕ

/-- What an applier did with a body. -/
inductive ApplyOutcome where
  /-- an empty body -/
  | noChange
  /-- the body cannot be applied -/
  | reackAndWait
  /-- the model shows the frame whose dump is `dump` -/
  | advanced (dump : Bytes)
  /-- the model moved on without a dump -/
  | advancedNoDump
  deriving DecidableEq, Repr

variable {τ σ δ : Type}

/-! ### Dumps and diffs -/

namespace DumpDiff

/-- A diff against the acknowledged dump when that is a net win, else the whole dump. -/
def encode [DumpBytes δ] (acked : Option (BaselineRef σ δ)) (cur : CurrentFrame σ δ) : FrameBody :=
  let curBytes := DumpBytes.bytes cur.dump
  match acked with
  | some base =>
    let diff := makeDiff (DumpBytes.bytes base.dump) curBytes
    if diff.length + 8 < curBytes.length then .diff base.num none diff
    else .full curBytes
  | none => .full curBytes

/-- The client's model rebuilt from a dump, clamped to the real tty. -/
def rebuild (D : Display τ σ) (rows cols : ℕ) (bytes : Bytes) : τ :=
  let term := D.process (D.withScrollback rows cols 0) bytes
  if D.rows term ≠ rows ∨ D.cols term ≠ cols then D.resize term rows cols else term

/-- Reconstructs the dump and rebuilds the model from it. -/
def apply (D : Display τ σ) (rows cols : ℕ) (appliedData : Bytes) (serverTerm : τ) :
    FrameBody → ApplyOutcome × τ
  | .empty => (.noChange, serverTerm)
  | .full bytes => (.advanced bytes, rebuild D rows cols bytes)
  | .diff _ _ diff =>
    match applyDiff appliedData diff with
    | some bytes => (.advanced bytes, rebuild D rows cols bytes)
    | none => (.reackAndWait, serverTerm)
  | _ => (.reackAndWait, serverTerm)

/-- What is encoded: the whole dump, or a diff that is a net win against the acknowledged one. -/
theorem encode_cases [DumpBytes δ] (acked : Option (BaselineRef σ δ)) (cur : CurrentFrame σ δ) :
    encode acked cur = .full (bytes cur.dump) ∨ ∃ base, acked = some base ∧
        (makeDiff (bytes base.dump) (bytes cur.dump)).length + 8 <
          (bytes cur.dump).length ∧ encode acked cur = .diff base.num none
          (makeDiff (bytes base.dump) (bytes cur.dump)) := by
  cases acked with
  | none => exact .inl rfl
  | some base =>
    by_cases hwin : (makeDiff (bytes base.dump) (bytes cur.dump)).length + 8 <
        (bytes cur.dump).length
    · exact .inr ⟨base, rfl, hwin, if_pos hwin⟩
    · exact .inl (if_neg hwin)

end DumpDiff

/-! ### Escapes -/

namespace MorphDelta

/-- Whether the transition can be expressed as escapes: neither the screen in use nor the size
changes. -/
def morphExpressible (acked : BaselineRef σ δ) (cur : CurrentFrame σ δ) : Bool :=
  acked.altScreen == cur.altScreen && acked.rows == cur.rows && acked.cols == cur.cols

/-- Escapes from the acknowledged screen when they can express the transition, else a keyframe. -/
def encode [DumpBytes δ] (D : Display τ σ) (acked : Option (BaselineRef σ δ))
    (cur : CurrentFrame σ δ) : FrameBody :=
  match acked with
  | some base =>
    if morphExpressible base cur then
      .morph base.num none (D.newFrame true base.snapshot cur.snapshot false)
    else DumpDiff.encode none cur
  | none => DumpDiff.encode none cur

/-- Escapes go to the existing model; everything else is `DumpDiff`'s. -/
def apply (D : Display τ σ) (rows cols : ℕ) (appliedData : Bytes) (serverTerm : τ) :
    FrameBody → ApplyOutcome × τ
  | .morph _ _ escapes => (.advancedNoDump, D.process serverTerm escapes)
  | body => DumpDiff.apply D rows cols appliedData serverTerm body

end MorphDelta

/-! ### The client's codec -/

/-- The client's codec. -/
inductive FrameSync where
  | dumpDiff
  | morph
  deriving DecidableEq, Repr

namespace FrameSync

/-- Whether the client advertises that it takes escapes. -/
def advertisesMorph : FrameSync → Bool
  | dumpDiff => false
  | morph => true

/-- The applier of a codec. -/
def apply (D : Display τ σ) : FrameSync → ℕ → ℕ → Bytes → τ → FrameBody → ApplyOutcome × τ
  | dumpDiff => DumpDiff.apply D
  | morph => MorphDelta.apply D

/-- **When a client's dump advances, and to what**, whichever its codec: to the bytes of a whole
dump, or to what the diff gives on the bytes it is applied to. -/
theorem apply_advanced (D : Display τ σ) (codec : FrameSync) (rows cols : ℕ) (base dump : Bytes)
    (term : τ) (body : FrameBody) (h : (codec.apply D rows cols base term body).1 = .advanced dump) :
    body = .full dump ∨ ∃ num sum diff, body = .diff num sum diff ∧ applyDiff base diff = some dump := by
  have hdump : (DumpDiff.apply D rows cols base term body).1 = .advanced dump → body = .full dump ∨
        ∃ num sum diff, body = .diff num sum diff ∧ applyDiff base diff = some dump := by
    intro h
    cases body with
    | full bytes =>
      simp only [DumpDiff.apply, ApplyOutcome.advanced.injEq] at h
      exact .inl (by rw [h])
    | diff num sum diff =>
      cases hd : applyDiff base diff with
      | none => simp [DumpDiff.apply, hd] at h
      | some bytes =>
        simp only [DumpDiff.apply, hd, ApplyOutcome.advanced.injEq] at h
        exact .inr ⟨num, sum, diff, rfl, by rw [hd, h]⟩
    | empty => cases h
    | morph | scrollback | scrollback2 => cases h
  cases codec with
  | dumpDiff => exact hdump h
  | morph =>
    cases body with
    | morph => cases h
    | full | diff | empty | scrollback | scrollback2 => exact hdump h

/-- A whole dump is applied by either codec. -/
theorem apply_full (D : Display τ σ) (codec : FrameSync) (rows cols : ℕ) (base bytes : Bytes)
    (term : τ) : codec.apply D rows cols base term (.full bytes) =
      (.advanced bytes, DumpDiff.rebuild D rows cols bytes) := by
  cases codec <;> rfl

theorem apply_advancedNoDump (D : Display τ σ) (codec : FrameSync) (rows cols : ℕ) (base : Bytes)
    (term : τ) (body : FrameBody) (h : (codec.apply D rows cols base term body).1 = .advancedNoDump) :
    ∃ num sum escapes, body = .morph num sum escapes := by
  have hdump : (DumpDiff.apply D rows cols base term body).1 ≠ .advancedNoDump := by
    cases body with
    | diff num sum diff =>
      cases hd : applyDiff base diff <;> simp [DumpDiff.apply, hd]
    | full | empty | morph | scrollback | scrollback2 => simp [DumpDiff.apply]
  cases codec with
  | dumpDiff => exact absurd h hdump
  | morph =>
    cases body with
    | morph num sum escapes => exact ⟨num, sum, escapes, rfl⟩
    | full | diff | empty | scrollback | scrollback2 => exact absurd h hdump

end FrameSync

/-! ### The checksum of a diff's base -/

/-- A peer that verifies bases gets the checksum of the acknowledged dump on every diff. -/
def stampBaseSum (wants : Bool) (acked : Option Dump) (body : FrameBody) : FrameBody :=
  match wants, acked, body with
  | true, some d, .diff base _ diff => .diff base (some (baseChecksum d.bytes)) diff
  | _, _, body => body

@[simp] theorem stampBaseSum_full (wants : Bool) (acked : Option Dump) (bytes : Bytes) :
    stampBaseSum wants acked (.full bytes) = .full bytes := by
  cases wants <;> cases acked <;> rfl

@[simp] theorem stampBaseSum_diff (wants : Bool) (d : Dump) (base : ℕ) (diff : Bytes) :
    stampBaseSum wants (some d) (.diff base none diff) =
      .diff base (if wants then some (baseChecksum d.bytes) else none) diff := by
  cases wants <;> rfl

end Posh
