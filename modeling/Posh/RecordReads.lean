/-
**Agent records and the boundaries of reads.**

The decoder of the agent stream is fed whatever was read.  Records may begin and end anywhere in a read;
only a header that names no kind, or too long a payload, is an error, and the decoder stays at it.  The
read that completes such a header gives the error, and the records that it completed as well are lost with
it; so the reads do make a difference, exactly when one of them ends a record and the bad header behind it.
-/

import Posh.AgentStream
import Mathlib.Data.List.GetD

set_option autoImplicit false

namespace Posh

open WordBytes
open RecordKind (fromByte)

namespace RecordDecoder

/-- Feeds one read after another; what each of them gives. -/
def pushAll : RecordDecoder → List Bytes → List (Except String (List AgentRecord))
  | _, [] => []
  | d, bytes :: reads => (d.push bytes).1 :: pushAll (d.push bytes).2 reads

end RecordDecoder

/-- The records that the reads gave, until the first error. -/
def recordsBeforeError : List (Except String (List AgentRecord)) → List AgentRecord
  | [] => []
  | .error _ :: _ => []
  | .ok records :: results => records ++ recordsBeforeError results

/-- A whole header of no known kind, or of too long a payload. -/
def MalformedHeader (buf : Bytes) : Prop :=
  agentRecordHeaderLen ≤ buf.length ∧
    (3 < buf.getD 4 0 ∨ agentRecordPayloadMax < WordBytes.ofBe ((buf.drop 5).take 4))

section Parse

variable {buf rest more : Bytes} {r : AgentRecord} {e : String} {b : UInt8} {kind : RecordKind}

theorem fromByte_ok (h : fromByte b = .ok kind) : kind.toByte = b := by
  rw [fromByte] at h
  split at h
  case isTrue hb => cases h; exact hb.symm
  case isFalse =>
    split at h
    case isTrue hb => cases h; exact hb.symm
    case isFalse =>
      split at h
      case isTrue hb => cases h; exact hb.symm
      case isFalse =>
        split at h
        case isTrue hb => cases h; exact hb.symm
        case isFalse => cases h

theorem fromByte_error_iff : (∃ e, fromByte b = .error e) ↔ 3 < b := by
  constructor
  · rintro ⟨e, h⟩
    by_contra hle
    have hle : b.toNat ≤ 3 := Nat.le_of_not_lt hle
    have hcases : b = 0 ∨ b = 1 ∨ b = 2 ∨ b = 3 := by
      simp only [← UInt8.toNat_inj]
      show b.toNat = 0 ∨ b.toNat = 1 ∨ b.toNat = 2 ∨ b.toNat = 3
      omega
    rcases hcases with rfl | rfl | rfl | rfl <;> cases h
  · intro hlt
    have hlt : 3 < b.toNat := hlt
    have hne : ∀ c : UInt8, c.toNat ≤ 3 → b ≠ c := by
      rintro c hc rfl
      omega
    rw [fromByte, if_neg (hne 0 (by decide)), if_neg (hne 1 (by decide)),
      if_neg (hne 2 (by decide)), if_neg (hne 3 (by decide))]
    exact ⟨_, rfl⟩

theorem header_pieces (hlen : agentRecordHeaderLen ≤ buf.length) : be 4 (ofBe (buf.take 4)) ++ [buf.getD 4 0] ++
      be 4 (ofBe ((buf.drop 5).take 4)) ++ buf.drop agentRecordHeaderLen = buf := by
  rw [agentRecordHeaderLen] at *
  have hchan : be 4 (ofBe (buf.take 4)) = buf.take 4 := by
    have hback := be_ofBe (buf.take 4)
    rwa [List.length_take, Nat.min_eq_left (by omega)] at hback
  have hsize : be 4 (ofBe ((buf.drop 5).take 4)) = (buf.drop 5).take 4 := by
    have hback := be_ofBe ((buf.drop 5).take 4)
    rwa [List.length_take, List.length_drop, Nat.min_eq_left (by omega)] at hback
  have hkind : [buf.getD 4 0] = (buf.drop 4).take 1 := by
    rw [List.getD_eq_getElem _ _ (by omega), List.drop_eq_getElem_cons (by omega)]
    rfl
  have h9 : (buf.drop 5).drop 4 = buf.drop 9 := List.drop_drop
  have h5 : (buf.drop 4).drop 1 = buf.drop 5 := List.drop_drop
  rw [hchan, hsize, hkind, List.append_assoc, List.append_assoc, ← h9,
    List.take_append_drop, ← h5, List.take_append_drop, List.take_append_drop]

theorem parseRecord_some (h : parseRecord buf = .ok (some (r, rest))) : r.Fits ∧ buf = r.toBytes ++ rest := by
  rw [parseRecord] at h
  split at h
  · cases h
  case isFalse hshort =>
    have hlen : agentRecordHeaderLen ≤ buf.length := Nat.not_lt.mp hshort
    dsimp only at h
    split at h
    · cases h
    case h_2 kind hkind =>
      split at h
      · cases h
      case isFalse hfits =>
        split at h
        · cases h
        case isFalse hwhole =>
          obtain ⟨rfl, rfl⟩ := Prod.mk.inj (Option.some.inj (Except.ok.inj h))
          have hchan : (UInt32.ofNat (ofBe (buf.take 4))).toNat = ofBe (buf.take 4) := by
            have hlt := ofBe_lt (buf.take 4)
            rw [agentRecordHeaderLen] at hlen
            rw [List.length_take, Nat.min_eq_left (by omega)] at hlt
            exact UInt32.toNat_ofNat_of_lt' hlt
          have hpieces := header_pieces hlen
          obtain ⟨len, hlenEq⟩ : ∃ len, len = ofBe ((buf.drop 5).take 4) := ⟨_, rfl⟩
          rw [← hlenEq] at hfits hwhole hpieces ⊢
          have hbody : (buf.take (agentRecordHeaderLen + len)).drop agentRecordHeaderLen =
              (buf.drop agentRecordHeaderLen).take len := by
            rw [List.drop_take, Nat.add_sub_cancel_left]
          have hpayload : ((buf.drop agentRecordHeaderLen).take len).length = len := by
            rw [List.length_take, List.length_drop]
            omega
          rw [hbody]
          refine ⟨by rw [AgentRecord.Fits, hpayload]; exact Nat.not_lt.mp hfits, ?_⟩
          rw [AgentRecord.toBytes, hchan, hpayload, fromByte_ok hkind, List.append_assoc,
            ← List.drop_drop, List.take_append_drop, hpieces]

theorem parseRecord_error : (∃ e, parseRecord buf = .error e) ↔ MalformedHeader buf := by
  rw [parseRecord, MalformedHeader]
  split
  case isTrue hshort => exact ⟨by simp, fun h => absurd hshort (Nat.not_lt.mpr h.1)⟩
  case isFalse hlen =>
    have hlen : agentRecordHeaderLen ≤ buf.length := Nat.not_lt.mp hlen
    rw [← fromByte_error_iff]
    dsimp only
    split
    case h_1 e hkind => exact ⟨fun _ => ⟨hlen, .inl ⟨e, hkind⟩⟩, fun _ => ⟨e, rfl⟩⟩
    case h_2 kind hkind =>
      rw [hkind]
      split
      case isTrue hlong => exact ⟨fun _ => ⟨hlen, .inr hlong⟩, fun _ => ⟨_, rfl⟩⟩
      case isFalse hfits =>
        have hno : ¬ (agentRecordHeaderLen ≤ buf.length ∧ ((∃ e : String, Except.ok kind = Except.error e) ∨
            agentRecordPayloadMax < ofBe ((buf.drop 5).take 4))) := by
          rintro ⟨-, ⟨e, h⟩ | hlong⟩
          · cases h
          · exact hfits hlong
        split
        · exact ⟨by simp, fun h => absurd h hno⟩
        · exact ⟨by simp, fun h => absurd h hno⟩

theorem header_append (hlen : agentRecordHeaderLen ≤ buf.length) (more : Bytes) :
    (buf ++ more).getD 4 0 = buf.getD 4 0 ∧ ((buf ++ more).drop 5).take 4 = (buf.drop 5).take 4 := by
  rw [agentRecordHeaderLen] at hlen
  constructor
  · rw [List.getD_append _ _ _ _ (by omega)]
  · rw [List.drop_append_of_le_length (by omega),
      List.take_append_of_le_length (by rw [List.length_drop]; omega)]

theorem parseRecord_error_append (h : parseRecord buf = .error e) (more : Bytes) :
    parseRecord (buf ++ more) = .error e := by
  have hlen : agentRecordHeaderLen ≤ buf.length := (parseRecord_error.mp ⟨e, h⟩).1
  obtain ⟨hkind, hsize⟩ := header_append hlen more
  have hlong : ¬ (buf ++ more).length < agentRecordHeaderLen := by
    rw [List.length_append]
    omega
  rw [parseRecord, if_neg (Nat.not_lt.mpr hlen)] at h
  rw [parseRecord, if_neg hlong, hkind, hsize]
  dsimp only at h ⊢
  split at h
  · exact h
  · split at h
    case isTrue hmax => rw [if_pos hmax]; exact h
    case isFalse hmax =>
      split at h
      · cases h
      · cases h

end Parse

/-- **The codec can be run as the bytes arrive.** -/
theorem agentFraming_streams : agentFraming.Streams AgentRecord.Fits where
  parse_nil := parseRecord_nil
  parse_some := fun _ _ _ h => parseRecord_some h
  parse_error := fun _ more _ h => parseRecord_error_append h more

/-! ### The boundaries of reads -/

section Boundaries

variable (reads : List Bytes)

theorem pushAll_eq_arrivals (d : RecordDecoder) : d.pushAll reads = agentFraming.arrivals d.buf reads := by
  induction reads generalizing d with
  | nil => rfl
  | cons bytes reads ih =>
    rw [RecordDecoder.pushAll, Framing.arrivals, ih]
    rfl

theorem recordsBeforeError_eq (results : List (Except String (List AgentRecord))) :
    recordsBeforeError results = Framing.beforeError results := by
  induction results with
  | nil => rfl
  | cons result results ih =>
    cases result with
    | error e => rfl
    | ok records => rw [recordsBeforeError, Framing.beforeError, ih]

theorem parseRecord_none_iff {bad rest more : Bytes} (hbad : MalformedHeader bad)
    (hsplit : bad = rest ++ more) : parseRecord rest = .ok none ↔ rest.length < agentRecordHeaderLen := by
  constructor
  · intro h
    by_contra hlen
    have hlen := Nat.not_lt.mp hlen
    obtain ⟨hkind, hsize⟩ := header_append hlen more
    obtain ⟨e, herror⟩ := parseRecord_error.mpr
      (show MalformedHeader rest from ⟨hlen, by rw [← hkind, ← hsize, ← hsplit]; exact hbad.2⟩)
    rw [herror] at h
    cases h
  · exact fun h => if_pos h

/-- **When the boundaries make no difference.**  After an error every push gives one.  The records before
it are those of the bytes one by one exactly when, whatever records come before a malformed header, a read
ends after the last of them and before the end of the header. -/
theorem pushAll_boundaries_iff :
    recordsBeforeError (RecordDecoder.new.pushAll reads) =
        recordsBeforeError (RecordDecoder.new.pushAll (reads.flatten.map ([·]))) ∧
      (RecordDecoder.new.pushAll reads).Pairwise (fun a b => ∀ e, a = .error e → b = .error e) ↔
    ∀ (records : List AgentRecord) (bad : Bytes), (∀ r ∈ records, r.Fits) →
      reads.flatten = records.flatMap AgentRecord.toBytes ++ bad → MalformedHeader bad →
      ∃ before after, reads = before ++ after ∧
        (records.flatMap AgentRecord.toBytes).length ≤ before.flatten.length ∧
        before.flatten.length < (records.flatMap AgentRecord.toBytes).length + agentRecordHeaderLen := by
  rw [recordsBeforeError_eq, recordsBeforeError_eq, pushAll_eq_arrivals, pushAll_eq_arrivals,
    and_iff_left (Framing.arrivals_pairwise agentFraming_lawful agentFraming_streams _ reads)]
  refine (Framing.beforeError_arrivals_iff agentFraming_lawful agentFraming_streams reads).trans ?_
  constructor
  · intro h records bad hfits hflat hbad
    obtain ⟨e, herror⟩ := parseRecord_error.mpr hbad
    obtain ⟨before, after, rest, rfl, hbefore, hwait⟩ := h records bad e hfits hflat herror
    have hsplit : bad = rest ++ after.flatten := by
      rw [List.flatten_append, hbefore, List.append_assoc] at hflat
      exact (List.append_cancel_left hflat).symm
    have hlt := (parseRecord_none_iff hbad hsplit).mp hwait
    refine ⟨before, after, rfl, ?_, ?_⟩
    · rw [hbefore, List.length_append]
      exact Nat.le_add_right _ _
    · rw [hbefore, List.length_append]
      exact Nat.add_lt_add_left hlt _
  · intro h records bad e hfits hflat herror
    have hbad := parseRecord_error.mp ⟨e, herror⟩
    obtain ⟨before, after, rfl, hle, hlt⟩ := h records bad hfits hflat hbad
    have hprefix : agentFraming.encodeAll records <+: before.flatten := by
      rw [List.flatten_append] at hflat
      exact List.prefix_of_prefix_length_le (List.prefix_append _ bad)
        (hflat.symm ▸ List.prefix_append _ after.flatten) hle
    obtain ⟨rest, hrest⟩ := hprefix
    have hsplit : bad = rest ++ after.flatten := by
      rw [List.flatten_append, ← hrest, List.append_assoc] at hflat
      exact (List.append_cancel_left hflat).symm
    refine ⟨before, after, rest, rfl, hrest.symm, (parseRecord_none_iff hbad hsplit).mpr ?_⟩
    rw [← hrest, List.length_append] at hlt
    exact Nat.lt_of_add_lt_add_left hlt

/-- A record and a header of the unknown kind 9, in one read: the record is lost. -/
theorem pushAll_one_read :
    let reads := [AgentRecord.toBytes ⟨1, .close, []⟩ ++ [0, 0, 0, 0, 9, 0, 0, 0, 0]]
    recordsBeforeError (RecordDecoder.new.pushAll reads) = [] ∧
      recordsBeforeError (RecordDecoder.new.pushAll (reads.flatten.map ([·]))) = [⟨1, .close, []⟩] := by
  decide +kernel

end Boundaries

end Posh
