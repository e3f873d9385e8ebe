/-
**The records between a session daemon and its clients.**

A record is a byte that says what it is, the length of its payload in four bytes, little-endian, and the
payload.  A reader keeps what it has not read yet, splits off records while they are complete, skips those of
a kind it does not know, and gives up at a length past the bound.
-/

import Posh.InputStream
import Posh.Lib.Framing
import Posh.Lib.WordBytes

set_option autoImplicit false

namespace Posh

open List (cons_append length_cons)
open WordBytes

/-! ### Records -/

inductive IpcTag where
  | input | output | resize | detach | detachAll | kill | info | init | history | run | ack | exit | frame
  | shell | frameAck | clientCaps | switchRequest | switch | exitCause | modal
  deriving DecidableEq, Repr

namespace IpcTag

def toByte : IpcTag → UInt8
  | input => 0
  | output => 1
  | resize => 2
  | detach => 3
  | detachAll => 4
  | kill => 5
  | info => 6
  | init => 7
  | history => 8
  | run => 9
  | ack => 10
  | exit => 11
  | frame => 12
  | shell => 13
  | frameAck => 14
  | clientCaps => 15
  | switchRequest => 16
  | switch => 17
  | exitCause => 18
  | modal => 19

def fromByte (b : UInt8) : Option IpcTag :=
  match b.toNat with
  | 0 => some input
  | 1 => some output
  | 2 => some resize
  | 3 => some detach
  | 4 => some detachAll
  | 5 => some kill
  | 6 => some info
  | 7 => some init
  | 8 => some history
  | 9 => some run
  | 10 => some ack
  | 11 => some exit
  | 12 => some frame
  | 13 => some shell
  | 14 => some frameAck
  | 15 => some clientCaps
  | 16 => some switchRequest
  | 17 => some switch
  | 18 => some exitCause
  | 19 => some modal
  | _ => none

@[simp] theorem fromByte_toByte (tag : IpcTag) : fromByte tag.toByte = some tag := by
  cases tag <;> rfl

end IpcTag

structure IpcRecord where
  tag : IpcTag
  payload : Bytes
  deriving DecidableEq, Repr

/-- The largest payload a reader accepts. -/
def maxFrameLen : ℕ := 64 * 1024 * 1024

def IpcRecord.toBytes (r : IpcRecord) : Bytes :=
  r.tag.toByte :: (WordBytes.le 4 r.payload.length ++ r.payload)

/-- Appends a record to a buffer. -/
def appendFrame (buf : Bytes) (tag : IpcTag) (payload : Bytes) : Bytes :=
  buf ++ IpcRecord.toBytes { tag, payload }

/-- The next record of a buffer and what follows it; records of unknown kinds are skipped. -/
def parseIpcRecord : Bytes → Except String (Option (IpcRecord × Bytes))
  | tag :: l₀ :: l₁ :: l₂ :: l₃ :: rest =>
    let len := WordBytes.ofLe [l₀, l₁, l₂, l₃]
    if len > maxFrameLen then .error s!"frame length {len} exceeds maximum {maxFrameLen}"
    else if rest.length < len then .ok none
    else
      match IpcTag.fromByte tag with
      | some tag => .ok (some ({ tag, payload := rest.take len }, rest.drop len))
      | none => parseIpcRecord (rest.drop len)
  | _ => .ok none
termination_by buf => buf.length
decreasing_by
  rw [List.length_drop]
  simp only [List.length_cons]
  omega

/-- The writer and the reader as a framing. -/
def ipcFraming : Framing UInt8 IpcRecord String where
  encode := IpcRecord.toBytes
  parse := parseIpcRecord

/-- A payload the reader accepts. -/
def IpcRecord.Fits (r : IpcRecord) : Prop := r.payload.length ≤ maxFrameLen

instance IpcRecord.decidableFits (r : IpcRecord) : Decidable r.Fits := by
  unfold IpcRecord.Fits; infer_instance

/-! ### A record within the bound is self-delimiting -/

theorem IpcRecord.toBytes_ne_nil (r : IpcRecord) : r.toBytes ≠ [] := List.cons_ne_nil _ _

theorem IpcRecord.length_toBytes (r : IpcRecord) : r.toBytes.length = 5 + r.payload.length := by
  rw [toBytes, length_cons, List.length_append, length_le]
  omega

variable {r : IpcRecord}

theorem ofLe_payload_length (hr : r.Fits) : ofLe (le 4 r.payload.length) = r.payload.length := by
  have hle : r.payload.length ≤ 64 * 1024 * 1024 := hr
  rw [ofLe_le, Nat.mod_eq_of_lt (by omega)]

theorem parseIpcRecord_header (hr : r.Fits) (rest : Bytes) :
    parseIpcRecord (r.tag.toByte :: (le 4 r.payload.length ++ rest)) =
      if rest.length < r.payload.length then .ok none
      else .ok (some (⟨r.tag, rest.take r.payload.length⟩, rest.drop r.payload.length)) := by
  have hlen := ofLe_payload_length hr
  have hmax : ¬ r.payload.length > maxFrameLen := Nat.not_lt.2 hr
  obtain ⟨l₀, l₁, l₂, l₃, hle⟩ : ∃ l₀ l₁ l₂ l₃, le 4 r.payload.length = [l₀, l₁, l₂, l₃] :=
    ⟨_, _, _, _, rfl⟩
  rw [hle] at hlen ⊢
  rw [cons_append, cons_append, cons_append, cons_append, List.nil_append, parseIpcRecord]
  simp only [hlen, hmax, if_false, IpcTag.fromByte_toByte]

theorem parseIpcRecord_toBytes_append (hr : r.Fits) (rest : Bytes) :
    parseIpcRecord (r.toBytes ++ rest) = .ok (some (r, rest)) := by
  rw [IpcRecord.toBytes, cons_append, List.append_assoc, parseIpcRecord_header hr,
    if_neg (by rw [List.length_append]; omega), List.take_left', List.drop_left'] <;> rfl

theorem parseIpcRecord_short {buf : Bytes} (h : buf.length < 5) : parseIpcRecord buf = .ok none := by
  unfold parseIpcRecord
  split
  case h_1 => simp only [length_cons] at h; omega
  case h_2 => rfl

theorem parseIpcRecord_inside (hr : r.Fits) {p : Bytes} (hp : p <+: r.toBytes)
    (hne : p ≠ r.toBytes) : parseIpcRecord p = .ok none := by
  have hlt : p.length < r.toBytes.length :=
    lt_of_le_of_ne hp.length_le fun h => hne (hp.eq_of_length h)
  rw [r.length_toBytes] at hlt
  rcases Nat.lt_or_ge p.length 5 with hshort | hlong
  · exact parseIpcRecord_short hshort
  · -- the header is there, and not all of the payload
    have hheader : (r.tag.toByte :: le 4 r.payload.length) <+: p := by
      refine List.prefix_of_prefix_length_le ?_ hp ?_
      · exact ⟨r.payload, rfl⟩
      · rw [length_cons, length_le]
        exact hlong
    obtain ⟨rest, rfl⟩ := hheader
    rw [List.length_append, length_cons, length_le] at hlt
    rw [cons_append, parseIpcRecord_header hr, if_pos (by omega)]

theorem parseIpcRecord_shrinks {buf rest : Bytes}
    (h : parseIpcRecord buf = .ok (some (r, rest))) : rest.length < buf.length := by
  induction buf using parseIpcRecord.induct with
  | case1 tag l₀ l₁ l₂ l₃ body len hmax =>
    rw [parseIpcRecord, if_pos hmax] at h
    cases h
  | case2 tag l₀ l₁ l₂ l₃ body len hmax hshort =>
    rw [parseIpcRecord, if_neg hmax, if_pos hshort] at h
    cases h
  | case3 tag l₀ l₁ l₂ l₃ body len hmax hshort known htag =>
    rw [parseIpcRecord, if_neg hmax, if_neg hshort, htag] at h
    cases h
    rw [List.length_drop]
    simp only [length_cons]
    omega
  | case4 tag l₀ l₁ l₂ l₃ body len hmax hshort htag ih =>
    rw [parseIpcRecord, if_neg hmax, if_neg hshort, htag] at h
    have hlt := ih h
    rw [List.length_drop] at hlt
    simp only [length_cons]
    omega
  | case5 buf hbuf =>
    rw [parseIpcRecord] at h
    · cases h
    · exact hbuf

/-- **A record within the bound is self-delimiting.** -/
theorem ipcFraming_lawful : ipcFraming.Lawful IpcRecord.Fits where
  encode_ne_nil := fun r _ => r.toBytes_ne_nil
  parse_encode := fun _ rest hr => parseIpcRecord_toBytes_append hr rest
  parse_inside := fun _ _ hr hp hne => parseIpcRecord_inside hr hp hne
  parse_shrinks := fun _ _ _ h => parseIpcRecord_shrinks h

theorem parseIpcRecord_nil : ipcFraming.parse [] = .ok none := parseIpcRecord_short (by decide)

end Posh
