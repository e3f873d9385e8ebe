/-
**The wire images of frames and client messages.**

A message is a flags byte, a capability table if one of the flag bits says so, the fixed fields, and a
body.  Both directions share the flags byte and the table.  A server frame's body starts with the byte that
says its kind.

The decoders compute offsets into the received bytes and index and slice there; an access out of range is
an outcome of its own, so that the checks in front of the accesses have something to prove.
-/

import Posh.FrameBody
import Posh.Lib.ByteCursor

set_option autoImplicit false

namespace Posh.Wire

open ByteCursor
open ByteCursor.Outcome (bind_ok failIf failIf_meets failIf_of_not)
open UInt8 (ofNat)
open List (append_assoc cons_append)
open ServerFrame
open FrameBody
open WordBytes

/-! ### Messages -/

inductive FrameBody where
  | full (bytes : Bytes)
  | diff (base : UInt64) (baseSum : Option UInt32) (diff : Bytes)
  | empty
  | morph (base : UInt64) (baseSum : Option UInt32) (escapes : Bytes)
  | scrollback (base : UInt64) (rows : List Bytes)
  | scrollback2 (epoch : UInt8) (rowOffset : UInt64) (rows : List Bytes)
  deriving DecidableEq, Repr

/-- The body carries rows of scrollback. -/
def FrameBody.IsScrollback : FrameBody → Prop
  | scrollback _ _ | scrollback2 _ _ _ => True
  | _ => False

/-- The rows of a scrollback body. -/
def FrameBody.rows : FrameBody → List Bytes
  | scrollback _ rows | scrollback2 _ _ rows => rows
  | _ => []

structure ServerFrame where
  flags : UInt8
  caps : List Cap
  frameNum : UInt64
  inputAck : UInt64
  echoAck : UInt64
  body : FrameBody
  deriving DecidableEq, Repr

structure ClientMessage where
  flags : UInt8
  caps : List Cap
  ackedFrame : UInt64
  rows : UInt16
  cols : UInt16
  inputBase : UInt64
  input : Bytes
  deriving DecidableEq, Repr

/-- Why bytes are no message. -/
inductive WireError where
  | messageTooShort
  | tableTruncated
  | entryTruncated
  | payloadTruncated
  | serverFrameTooShort
  | clientMessageTooShort
  | diffTooShort
  | diffSumTooShort
  | morphTooShort
  | morphSumTooShort
  | scrollbackTooShort
  | scrollbackRowCount
  | scrollbackRowHeader
  | scrollbackRow
  | scrollback2TooShort
  | scrollback2RowCount
  | scrollback2RowHeader
  | scrollback2Row
  | unknownBodyKind
  deriving DecidableEq, Repr

/-- The text of an error. -/
def WireError.message : WireError → String
  | messageTooShort => "message too short"
  | tableTruncated => "capability table truncated"
  | entryTruncated => "capability entry truncated"
  | payloadTruncated => "capability payload truncated"
  | serverFrameTooShort => "server frame too short"
  | clientMessageTooShort => "client message too short"
  | diffTooShort => "diff frame too short"
  | diffSumTooShort => "diff-sum frame too short"
  | morphTooShort => "morph frame too short"
  | morphSumTooShort => "morph-sum frame too short"
  | scrollbackTooShort => "scrollback frame too short"
  | scrollbackRowCount => "scrollback row count exceeds body"
  | scrollbackRowHeader => "scrollback row header truncated"
  | scrollbackRow => "scrollback row truncated"
  | scrollback2TooShort => "scrollback2 frame too short"
  | scrollback2RowCount => "scrollback2 row count exceeds body"
  | scrollback2RowHeader => "scrollback2 row header truncated"
  | scrollback2Row => "scrollback2 row truncated"
  | unknownBodyKind => "unknown frame body kind"

/-! ### The capability table -/

/-- The flag bit that says a table follows. -/
def flagExtension : UInt8 := 2

def encodeTable (caps : List Cap) : Bytes :=
  UInt8.ofNat caps.length :: caps.flatMap fun c => c.id :: UInt8.ofNat c.payload.length :: c.payload

/-- The entries that are left to read, and the offset behind them. -/
def decodeEntries (data : Bytes) : ℕ → ℕ → Outcome WireError (List Cap × ℕ)
  | 0, pos => .ok ([], pos)
  | n + 1, pos =>
    match data[pos]?, data[pos + 1]? with
    | some id, some len =>
      match getRange data (pos + 2) (pos + 2 + len.toNat) with
      | some payload =>
        (decodeEntries data n (pos + 2 + len.toNat)).bind fun (caps, used) =>
          .ok ({ id, payload } :: caps, used)
      | none => .error .payloadTruncated
    | _, _ => .error .entryTruncated

def decodeTable (data : Bytes) : Outcome WireError (List Cap × ℕ) :=
  match data[0]? with
  | none => .error .tableTruncated
  | some count => decodeEntries data count.toNat 1

/-- The flags byte of a message with a table. -/
def flagsWithExtension (flags : UInt8) (table : List Cap) : UInt8 :=
  if table.isEmpty then flags else flags ||| flagExtension

/-- The flags byte, and the table if there is one. -/
def encodeFlagsAndCaps (flags : UInt8) (caps : List Cap) : Bytes :=
  flagsWithExtension flags caps :: if caps.isEmpty then [] else encodeTable caps

/-- The runtime flags, the table, and the offset of the fixed fields. -/
def decodeFlagsAndCaps (data : Bytes) : Outcome WireError (UInt8 × List Cap × ℕ) :=
  match data[0]? with
  | none => .error .messageTooShort
  | some first =>
    if first &&& flagExtension = 0 then .ok (first, [], 1)
    else
      (tailAt data 1).bind fun rest =>
      (decodeTable rest).bind fun (table, used) =>
      .ok (first &&& ~~~flagExtension, table, 1 + used)

variable {data rest : Bytes} {pos : ℕ} {count header truncated : WireError} {rows : List Bytes} {caps : List Cap}

theorem decodeEntries_encode (hcaps : ∀ c ∈ caps, c.payload.length ≤ 255) (h : At data pos
      ((caps.flatMap fun c => c.id :: ofNat c.payload.length :: c.payload) ++ rest)) :
    ∃ used, decodeEntries data caps.length pos = .ok (caps, used) ∧ At data used rest := by
  induction caps generalizing pos with
  | nil => exact ⟨pos, rfl, h⟩
  | cons c caps ih =>
    have hlen : (ofNat c.payload.length).toNat = c.payload.length := by
      have := hcaps c List.mem_cons_self
      exact UInt8.toNat_ofNat_of_lt' (Nat.lt_succ_of_le this)
    rw [List.flatMap_cons, append_assoc, cons_append, cons_append] at h
    have h1 := h.next
    have h2 := h1.next
    obtain ⟨used, hrun, hat⟩ := ih (fun d hd => hcaps d (List.mem_cons_of_mem _ hd)) (h2.advance rfl)
    refine ⟨used, ?_, hat⟩
    rw [List.length_cons, decodeEntries, h.getElem?_eq, h1.getElem?_eq]
    simp only [hlen, h2.getRange_eq rfl, hrun, bind_ok]

theorem decodeEntries_meets {n pos : ℕ} (h : At data pos rest) :
    (decodeEntries data n pos).Meets fun (caps, used) =>
      caps.length = n ∧ (∀ c ∈ caps, c.payload.length ≤ 255) ∧ ∃ rest',
        rest = (caps.flatMap fun c => c.id :: ofNat c.payload.length :: c.payload) ++ rest' ∧
          At data used rest' := by
  induction n generalizing pos rest with
  | zero => exact ⟨rfl, fun _ hc => absurd hc List.not_mem_nil, rest, rfl, h⟩
  | succ n ih =>
    rw [decodeEntries]
    split
    case h_2 => trivial
    case h_1 id len hid hlen =>
      obtain ⟨rest1, rfl, h1⟩ := h.of_getElem? hid
      obtain ⟨rest2, rfl, h2⟩ := h1.of_getElem? hlen
      split
      case h_2 => trivial
      case h_1 payload hpayload =>
        obtain ⟨hplen, rest3, rfl, h3⟩ := h2.of_getRange hpayload
        refine (ih h3).bind ?_
        rintro ⟨caps, used⟩ ⟨hcount, hcaps, rest', rfl, hat⟩
        refine ⟨congrArg (· + 1) hcount, ?_, rest', ?_, hat⟩
        · intro c hc
          rcases List.mem_cons.mp hc with rfl | hc
          · have := len.toNat_lt
            simp only [hplen]
            omega
          · exact hcaps c hc
        · rw [List.flatMap_cons, hplen, UInt8.ofNat_toNat, append_assoc, cons_append, cons_append]

theorem at_shift {data mid rest : Bytes} {p q : ℕ} (h : At data p mid) (h' : At mid q rest) :
    At data (p + q) rest := by
  have hlen := h.length_eq
  have hle := h'.le_length
  exact ⟨by omega, by rw [← List.drop_drop, h.drop_eq, h'.drop_eq]⟩

theorem and_extension_or (f : UInt8) : (f ||| flagExtension) &&& flagExtension ≠ 0 ∧
      (f &&& flagExtension = 0 → (f ||| flagExtension) &&& ~~~flagExtension = f) := by
  rcases f with ⟨⟨f⟩⟩
  revert f
  decide +kernel

theorem or_extension_and (f : UInt8) : f &&& ~~~flagExtension &&& flagExtension = 0 ∧
      (f &&& flagExtension ≠ 0 → f &&& ~~~flagExtension ||| flagExtension = f) := by
  rcases f with ⟨⟨f⟩⟩
  revert f
  decide +kernel

/-- A capability table that its count byte and its length bytes can hold. -/
def TableFits (caps : List Cap) : Prop :=
  caps.length ≤ 255 ∧ ∀ c ∈ caps, c.payload.length ≤ 255

/-- The extension bit is set, and the table it announces is empty. -/
def EmptyTable (data : Bytes) : Prop :=
  ∃ first, data[0]? = some first ∧ first &&& flagExtension ≠ 0 ∧ data[1]? = some 0

/-- **The flags and the table that are written are read back.** -/
theorem decodeFlagsAndCaps_encode {flags : UInt8} (hflags : flags &&& flagExtension = 0) (hcaps : TableFits caps)
    (hdata : data = encodeFlagsAndCaps flags caps ++ rest) :
    ∃ pos, decodeFlagsAndCaps data = .ok (flags, caps, pos) ∧ At data pos rest := by
  subst hdata
  rcases caps with _ | ⟨c, caps⟩
  · refine ⟨1, ?_, Nat.succ_pos _, rfl⟩
    rw [decodeFlagsAndCaps]
    exact if_pos hflags
  · have hcount : (ofNat (c :: caps).length).toNat = (c :: caps).length :=
      UInt8.toNat_ofNat_of_lt' (Nat.lt_succ_of_le hcaps.1)
    have h0 := at_zero (encodeFlagsAndCaps flags (c :: caps) ++ rest)
    have h1 : At (encodeFlagsAndCaps flags (c :: caps) ++ rest) 1
        (encodeTable (c :: caps) ++ rest) :=
      At.next (b := flags ||| flagExtension) h0
    have ht1 : At (encodeTable (c :: caps) ++ rest) 1
        (((c :: caps).flatMap fun c => c.id :: ofNat c.payload.length :: c.payload) ++ rest) :=
      At.next (b := ofNat (c :: caps).length) (at_zero _)
    obtain ⟨used, hrun, hat⟩ := decodeEntries_encode hcaps.2 ht1
    refine ⟨1 + used, ?_, at_shift h1 hat⟩
    have htable : decodeTable (encodeTable (c :: caps) ++ rest) = .ok (c :: caps, used) := by
      rw [← hrun, ← hcount]
      rfl
    obtain ⟨hset, hclear⟩ := and_extension_or flags
    show (if (flags ||| flagExtension) &&& flagExtension = 0 then _ else _) = _
    rw [if_neg hset, h1.tailAt_eq, bind_ok, htable, bind_ok]
    show Outcome.ok ((flags ||| flagExtension) &&& ~~~flagExtension, c :: caps, 1 + used) = _
    rw [hclear hflags]

/-- **What reading the flags and the table says is there.** -/
theorem decodeFlagsAndCaps_meets (data : Bytes) :
    (decodeFlagsAndCaps data).Meets fun (flags, caps, pos) => ∃ rest, At data pos rest ∧
      (EmptyTable data ∨ data = encodeFlagsAndCaps flags caps ++ rest) := by
  rw [decodeFlagsAndCaps]
  split
  case h_1 => trivial
  case h_2 first hfirst =>
    obtain ⟨tail, rfl, h1⟩ := (at_zero data).of_getElem? hfirst
    split
    case isTrue => exact ⟨tail, h1, .inr rfl⟩
    case isFalse hset =>
      refine h1.tailAt_meets.bind ?_
      rintro table rfl
      rw [decodeTable]
      split
      case h_1 => trivial
      case h_2 count hcount =>
        obtain ⟨entries, rfl, ht1⟩ := (at_zero table).of_getElem? hcount
        refine (decodeEntries_meets ht1).bind ?_
        rintro ⟨caps, used⟩ ⟨hlen, -, rest, rfl, hat⟩
        refine ⟨rest, at_shift h1 hat, ?_⟩
        rcases caps with _ | ⟨c, caps⟩
        · refine .inl ⟨first, rfl, hset, ?_⟩
          have hzero : count = 0 := UInt8.toNat_inj.mp hlen.symm
          rw [hzero]
          rfl
        · refine .inr ?_
          have hcount' : ofNat (c :: caps).length = count := by
            rw [hlen, UInt8.ofNat_toNat]
          show first :: count :: _ = (first &&& ~~~flagExtension ||| flagExtension) ::
            ((ofNat (c :: caps).length :: _) ++ rest)
          rw [(or_extension_and first).2 hset, hcount', cons_append]

/-! ### Fixed-width fields -/

def u64Bytes (n : UInt64) : Bytes := WordBytes.le 8 n.toNat

def u32Bytes (n : UInt32) : Bytes := WordBytes.le 4 n.toNat

def u16Bytes (n : UInt16) : Bytes := WordBytes.le 2 n.toNat

def u64At : Bytes → ℕ → Outcome WireError UInt64 := wordAs UInt64.ofNat 8

def u32At : Bytes → ℕ → Outcome WireError UInt32 := wordAs UInt32.ofNat 4

def u16At : Bytes → ℕ → Outcome WireError UInt16 := wordAs UInt16.ofNat 2

section Fields

variable {data rest : Bytes} {pos : ℕ}

theorem u64At_eq {n : UInt64} (h : At data pos (u64Bytes n ++ rest)) :
    u64At data pos = .ok n ∧ At data (pos + 8) rest :=
  ⟨h.wordAs_eq UInt64.ofNat_toNat n.toNat_lt, h.advance (length_le 8 _)⟩

theorem u64At_meets (h : At data pos rest) (hk : 8 ≤ rest.length) :
    (u64At data pos).Meets fun n => ∃ rest', rest = u64Bytes n ++ rest' ∧ At data (pos + 8) rest' :=
  h.wordAs_meets hk fun _ hn => UInt64.toNat_ofNat_of_lt' hn

theorem u32At_eq {n : UInt32} (h : At data pos (u32Bytes n ++ rest)) :
    u32At data pos = .ok n ∧ At data (pos + 4) rest :=
  ⟨h.wordAs_eq UInt32.ofNat_toNat n.toNat_lt, h.advance (length_le 4 _)⟩

theorem u32At_meets (h : At data pos rest) (hk : 4 ≤ rest.length) :
    (u32At data pos).Meets fun n => ∃ rest', rest = u32Bytes n ++ rest' ∧ At data (pos + 4) rest' :=
  h.wordAs_meets hk fun _ hn => UInt32.toNat_ofNat_of_lt' hn

theorem u16At_eq {n : UInt16} (h : At data pos (u16Bytes n ++ rest)) :
    u16At data pos = .ok n ∧ At data (pos + 2) rest :=
  ⟨h.wordAs_eq UInt16.ofNat_toNat n.toNat_lt, h.advance (length_le 2 _)⟩

theorem u16At_meets (h : At data pos rest) (hk : 2 ≤ rest.length) :
    (u16At data pos).Meets fun n => ∃ rest', rest = u16Bytes n ++ rest' ∧ At data (pos + 2) rest' :=
  h.wordAs_meets hk fun _ hn => UInt16.toNat_ofNat_of_lt' hn

end Fields

/-! ### The rows of a scrollback body -/

/-- The most rows of one body. -/
def maxScrollbackRows : ℕ := 2 ^ 20

/-- How many rows, and each behind its length; both numbers are truncated to their widths. -/
def encodeRows (rows : List Bytes) : Bytes :=
  u32Bytes (UInt32.ofNat rows.length) ++ rows.flatMap fun row => u16Bytes (UInt16.ofNat row.length) ++ row

/-- The rows that are left to read. -/
def decodeRowsFrom (header truncated : WireError) (data : Bytes) :
    ℕ → ℕ → Outcome WireError (List Bytes)
  | 0, _ => .ok []
  | n + 1, pos =>
    match data[pos]?, data[pos + 1]? with
    | some lo, some hi =>
      let len := WordBytes.ofLe [lo, hi]
      match getRange data (pos + 2) (pos + 2 + len) with
      | some row =>
        (decodeRowsFrom header truncated data n (pos + 2 + len)).bind fun rows =>
          .ok (row :: rows)
      | none => .error truncated
    | _, _ => .error header

/-- The number of rows at an offset, which the rest of the body must be able to hold, and the rows. -/
def decodeRows (count header truncated : WireError) (data : Bytes) (pos : ℕ) :
    Outcome WireError (List Bytes) :=
  (u32At data pos).bind fun appended =>
  (Outcome.failIf (maxScrollbackRows < appended.toNat ∨
    data.length - (pos + 4) < appended.toNat * 2) count).bind fun _ =>
  decodeRowsFrom header truncated data appended.toNat (pos + 4)

/-- Rows that their count and their lengths can hold. -/
def RowsFit (rows : List Bytes) : Prop :=
  rows.length ≤ maxScrollbackRows ∧ ∀ row ∈ rows, row.length ≤ 65535

theorem decodeRowsFrom_encode {header truncated : WireError}
    (hrows : ∀ row ∈ rows, row.length ≤ 65535)
    (h : At data pos ((rows.flatMap fun row => u16Bytes (UInt16.ofNat row.length) ++ row) ++ rest)) :
    decodeRowsFrom header truncated data rows.length pos = .ok rows := by
  induction rows generalizing pos with
  | nil => rfl
  | cons row rows ih =>
    rw [List.flatMap_cons, append_assoc, append_assoc] at h
    obtain ⟨lo, hi, hbytes⟩ : ∃ lo hi, u16Bytes (UInt16.ofNat row.length) = [lo, hi] := ⟨_, _, rfl⟩
    have hlen : ofLe [lo, hi] = row.length := by
      have hle := hrows row List.mem_cons_self
      rw [← hbytes, u16Bytes, ofLe_le,
        UInt16.toNat_ofNat_of_lt' (Nat.lt_succ_of_le hle), Nat.mod_eq_of_lt (by omega)]
    rw [hbytes, cons_append, cons_append, List.nil_append] at h
    have h2 := h.next.next
    rw [List.length_cons, decodeRowsFrom, h.getElem?_eq, h.next.getElem?_eq]
    simp only [hlen, h2.getRange_eq rfl,
      ih (fun r hr => hrows r (List.mem_cons_of_mem _ hr)) (h2.advance rfl), bind_ok]

theorem decodeRowsFrom_meets {header truncated : WireError} {n pos : ℕ} (h : At data pos rest) :
    (decodeRowsFrom header truncated data n pos).Meets fun rows => rows.length = n := by
  induction n generalizing pos rest with
  | zero => exact rfl
  | succ n ih =>
    rw [decodeRowsFrom]
    split
    case h_2 => trivial
    case h_1 lo hi hlo hhi =>
      obtain ⟨rest1, -, h1⟩ := h.of_getElem? hlo
      obtain ⟨rest2, -, h2⟩ := h1.of_getElem? hhi
      simp only
      split
      case h_2 => trivial
      case h_1 row hrow =>
        obtain ⟨-, rest3, -, h3⟩ := h2.of_getRange hrow
        exact (ih h3).bind fun rows hlen => congrArg (· + 1) hlen

theorem two_mul_length_le (rows : List Bytes) :
    rows.length * 2 ≤ (rows.flatMap fun row => u16Bytes (UInt16.ofNat row.length) ++ row).length := by
  induction rows with
  | nil => exact Nat.le_refl 0
  | cons row rows ih =>
    have hlen : (u16Bytes (UInt16.ofNat row.length)).length = 2 := length_le 2 _
    rw [List.flatMap_cons, List.length_append, List.length_append, List.length_cons, hlen]
    omega

/-- **The rows of a body that are written are read back.** -/
theorem decodeRows_encode {data : Bytes} (hrows : RowsFit rows) (h : At data pos (encodeRows rows)) :
    decodeRows count header truncated data pos = .ok rows := by
  obtain ⟨hcount, hat⟩ := u32At_eq h
  have hle : rows.length ≤ 2 ^ 20 := hrows.1
  have hn : (UInt32.ofNat rows.length).toNat = rows.length :=
    UInt32.toNat_ofNat_of_lt' (Nat.lt_of_le_of_lt hle (by decide))
  have hbody := two_mul_length_le rows
  have hlen := hat.length_eq
  rw [decodeRows, hcount, bind_ok, hn, failIf_of_not, bind_ok]
  · rw [← List.append_nil (rows.flatMap _)] at hat
    exact decodeRowsFrom_encode hrows.2 hat
  · rw [maxScrollbackRows]
    omega

/-- **Reading rows stays within the body.** -/
theorem decodeRows_meets (h : At data pos rest) (hk : 4 ≤ rest.length) :
    (decodeRows count header truncated data pos).Meets fun rows =>
      rows.length ≤ maxScrollbackRows := by
  refine (u32At_meets h hk).bind ?_
  rintro appended ⟨rest', rfl, hat⟩
  refine (failIf_meets count).bind fun _ hcount => ?_
  have hrows : (decodeRowsFrom header truncated data appended.toNat (pos + 4)).Meets _ :=
    decodeRowsFrom_meets hat
  rw [not_or, Nat.not_lt] at hcount
  exact hrows.mono fun rows hlen => hlen ▸ hcount.1

/-! ### The body of a frame -/

def bodyFull : UInt8 := 0
def bodyDiff : UInt8 := 1
def bodyEmpty : UInt8 := 2
def bodyScrollback : UInt8 := 3
def bodyMorph : UInt8 := 4
def bodyDiffSum : UInt8 := 5
def bodyMorphSum : UInt8 := 6
def bodyScrollback2 : UInt8 := 7

/-- The base of a diff or of escapes, and its checksum if one is stamped. -/
def encodeBase (base : UInt64) (baseSum : Option UInt32) : Bytes :=
  u64Bytes base ++ match baseSum with
    | some sum => u32Bytes sum
    | none => []

def FrameBody.encode : FrameBody → Bytes
  | full bytes => bodyFull :: bytes
  | diff base baseSum bytes =>
    (if baseSum.isSome then bodyDiffSum else bodyDiff) :: (encodeBase base baseSum ++ bytes)
  | morph base baseSum escapes =>
    (if baseSum.isSome then bodyMorphSum else bodyMorph) :: (encodeBase base baseSum ++ escapes)
  | empty => [bodyEmpty]
  | scrollback base rows => bodyScrollback :: (u64Bytes base ++ encodeRows rows)
  | scrollback2 epoch rowOffset rows =>
    bodyScrollback2 :: epoch :: (u64Bytes rowOffset ++ encodeRows rows)

/-- A base without a checksum, behind a kind byte at `pos`, and the bytes after it. -/
def decodeBased (make : UInt64 → Option UInt32 → Bytes → FrameBody) (short : WireError) (data : Bytes)
    (pos : ℕ) : Outcome WireError FrameBody :=
  (Outcome.failIf (data.length < pos + 9) short).bind fun _ =>
  (u64At data (pos + 1)).bind fun base =>
  (tailAt data (pos + 9)).bind fun rest =>
  .ok (make base none rest)

/-- A base with its checksum. -/
def decodeBasedSum (make : UInt64 → Option UInt32 → Bytes → FrameBody) (short : WireError)
    (data : Bytes) (pos : ℕ) : Outcome WireError FrameBody :=
  (Outcome.failIf (data.length < pos + 13) short).bind fun _ =>
  (u64At data (pos + 1)).bind fun base =>
  (u32At data (pos + 9)).bind fun sum =>
  (tailAt data (pos + 13)).bind fun rest =>
  .ok (make base (some sum) rest)

/-- The body whose kind byte is at `pos`. -/
def FrameBody.decode (data : Bytes) (pos : ℕ) : Outcome WireError FrameBody :=
  (byteAt data pos).bind fun kind =>
  if kind = bodyFull then (tailAt data (pos + 1)).bind fun bytes => .ok (full bytes)
  else if kind = bodyDiff then decodeBased diff .diffTooShort data pos
  else if kind = bodyDiffSum then decodeBasedSum diff .diffSumTooShort data pos
  else if kind = bodyMorph then decodeBased morph .morphTooShort data pos
  else if kind = bodyMorphSum then decodeBasedSum morph .morphSumTooShort data pos
  else if kind = bodyEmpty then .ok empty
  else if kind = bodyScrollback then
    (Outcome.failIf (data.length < pos + 13) .scrollbackTooShort).bind fun _ =>
    (u64At data (pos + 1)).bind fun base =>
    (decodeRows .scrollbackRowCount .scrollbackRowHeader .scrollbackRow data (pos + 9)).bind
      fun rows => .ok (scrollback base rows)
  else if kind = bodyScrollback2 then
    (Outcome.failIf (data.length < pos + 14) .scrollback2TooShort).bind fun _ =>
    (byteAt data (pos + 1)).bind fun epoch =>
    (u64At data (pos + 2)).bind fun rowOffset =>
    (decodeRows .scrollback2RowCount .scrollback2RowHeader .scrollback2Row data (pos + 10)).bind
      fun rows => .ok (scrollback2 epoch rowOffset rows)
  else .error .unknownBodyKind

section Body

variable {data rest : Bytes} {pos : ℕ} {make : UInt64 → Option UInt32 → Bytes → FrameBody}
variable {short : WireError} {kind : UInt8} {base : UInt64}

theorem decodeBased_encode (h : At data pos (kind :: (encodeBase base none ++ rest))) :
    decodeBased make short data pos = .ok (make base none rest) := by
  have hbody := h.next
  rw [encodeBase, List.append_nil] at hbody
  obtain ⟨hbase, hat⟩ := u64At_eq hbody
  have hlen := hat.length_eq
  rw [decodeBased, failIf_of_not _ (by omega), bind_ok, hbase, bind_ok, hat.tailAt_eq, bind_ok]

theorem decodeBasedSum_encode {sum : UInt32} (h : At data pos (kind :: (encodeBase base (some sum) ++ rest))) :
    decodeBasedSum make short data pos = .ok (make base (some sum) rest) := by
  have hbody := h.next
  rw [encodeBase, append_assoc] at hbody
  obtain ⟨hbase, hat⟩ := u64At_eq hbody
  obtain ⟨hsum, hat'⟩ := u32At_eq hat
  have hlen := hat'.length_eq
  rw [decodeBasedSum, failIf_of_not _ (by omega), bind_ok, hbase, bind_ok,
    hsum, bind_ok, hat'.tailAt_eq, bind_ok]

theorem decodeBased_meets (h : At data pos (kind :: rest)) :
    (decodeBased make short data pos).Meets fun body =>
      ∃ base bytes, body = make base none bytes ∧ rest = encodeBase base none ++ bytes := by
  have hlen := h.next.length_eq
  refine (failIf_meets short).bind fun _ hlong => ?_
  refine (u64At_meets h.next (by omega)).bind ?_
  rintro base ⟨bytes, rfl, hat⟩
  refine hat.tailAt_meets.bind ?_
  rintro _ rfl
  exact ⟨base, _, rfl, by rw [encodeBase, List.append_nil]⟩

theorem decodeBasedSum_meets (h : At data pos (kind :: rest)) :
    (decodeBasedSum make short data pos).Meets fun body =>
      ∃ base sum bytes, body = make base (some sum) bytes ∧ rest = encodeBase base (some sum) ++ bytes := by
  have hlen := h.next.length_eq
  refine (failIf_meets short).bind fun _ hlong => ?_
  refine (u64At_meets h.next (by omega)).bind ?_
  rintro base ⟨rest1, rfl, hat⟩
  have hlen1 := hat.length_eq
  refine (u32At_meets hat (by omega)).bind ?_
  rintro sum ⟨bytes, rfl, hat'⟩
  refine hat'.tailAt_meets.bind ?_
  rintro _ rfl
  exact ⟨base, sum, _, rfl, by rw [encodeBase, append_assoc]⟩

/-- **A body that is written is read back.** -/
theorem FrameBody.decode_encode {body : FrameBody} (hrows : RowsFit body.rows)
    (h : At data pos body.encode) : decode data pos = .ok body := by
  cases body with
  | full bytes =>
    rw [decode, h.byteAt_eq, bind_ok, if_pos rfl, h.next.tailAt_eq, bind_ok]
  | diff base baseSum bytes =>
    cases baseSum with
    | none =>
      rw [decode, h.byteAt_eq, bind_ok]
      exact decodeBased_encode h
    | some sum =>
      rw [decode, h.byteAt_eq, bind_ok]
      exact decodeBasedSum_encode h
  | empty =>
    rw [decode, h.byteAt_eq, bind_ok]
    rfl
  | morph base baseSum escapes =>
    cases baseSum with
    | none =>
      rw [decode, h.byteAt_eq, bind_ok]
      exact decodeBased_encode h
    | some sum =>
      rw [decode, h.byteAt_eq, bind_ok]
      exact decodeBasedSum_encode h
  | scrollback base rows =>
    obtain ⟨hbase, hat⟩ := u64At_eq h.next
    obtain ⟨-, hrest⟩ := u32At_eq hat
    have hlen := hrest.length_eq
    rw [decode, h.byteAt_eq, bind_ok]
    show (failIf (data.length < pos + 13) WireError.scrollbackTooShort).bind _ = _
    rw [failIf_of_not _ (by omega), bind_ok, hbase, bind_ok, decodeRows_encode hrows hat, bind_ok]
    rfl
  | scrollback2 epoch rowOffset rows =>
    obtain ⟨hoffset, hat⟩ := u64At_eq h.next.next
    obtain ⟨-, hrest⟩ := u32At_eq hat
    have hlen := hrest.length_eq
    rw [decode, h.byteAt_eq, bind_ok]
    show (failIf (data.length < pos + 14) WireError.scrollback2TooShort).bind _ = _
    rw [failIf_of_not _ (by omega), bind_ok, h.next.byteAt_eq, bind_ok,
      hoffset, bind_ok, decodeRows_encode hrows hat, bind_ok]
    rfl

/-- The bytes a body was read from are those it is written as: all of them, or for an empty body those up
to the kind byte.  Nothing is said of rows. -/
def FrameBody.ReadFrom (body : FrameBody) (bytes : Bytes) : Prop :=
  ¬body.IsScrollback → bytes = body.encode ∨ body = .empty ∧ ∃ trailing, bytes = body.encode ++ trailing

/-- **Reading a body stays within the bytes, and what it says is there.** -/
theorem FrameBody.decode_meets (h : At data pos rest) (hk : 1 ≤ rest.length) :
    (decode data pos).Meets fun body => body.ReadFrom rest := by
  refine (h.byteAt_meets hk).bind ?_
  rintro kind ⟨rest', rfl, h1⟩
  have hlen := h1.length_eq
  by_cases hfull : kind = bodyFull
  · rw [if_pos hfull]
    refine h1.tailAt_meets.bind ?_
    rintro bytes rfl
    exact fun _ => .inl (by rw [hfull]; rfl)
  rw [if_neg hfull]
  by_cases hdiff : kind = bodyDiff
  · rw [if_pos hdiff]
    refine (decodeBased_meets h).mono ?_
    rintro body ⟨base, bytes, rfl, rfl⟩
    exact fun _ => .inl (by rw [hdiff]; rfl)
  rw [if_neg hdiff]
  by_cases hdiffSum : kind = bodyDiffSum
  · rw [if_pos hdiffSum]
    refine (decodeBasedSum_meets h).mono ?_
    rintro body ⟨base, sum, bytes, rfl, rfl⟩
    exact fun _ => .inl (by rw [hdiffSum]; rfl)
  rw [if_neg hdiffSum]
  by_cases hmorph : kind = bodyMorph
  · rw [if_pos hmorph]
    refine (decodeBased_meets h).mono ?_
    rintro body ⟨base, bytes, rfl, rfl⟩
    exact fun _ => .inl (by rw [hmorph]; rfl)
  rw [if_neg hmorph]
  by_cases hmorphSum : kind = bodyMorphSum
  · rw [if_pos hmorphSum]
    refine (decodeBasedSum_meets h).mono ?_
    rintro body ⟨base, sum, bytes, rfl, rfl⟩
    exact fun _ => .inl (by rw [hmorphSum]; rfl)
  rw [if_neg hmorphSum]
  by_cases hempty : kind = bodyEmpty
  · rw [if_pos hempty]
    exact fun _ => .inr ⟨rfl, rest', by rw [hempty]; rfl⟩
  rw [if_neg hempty]
  by_cases hsb : kind = bodyScrollback
  · rw [if_pos hsb]
    refine (failIf_meets _).bind fun _ hlong => ?_
    refine (u64At_meets h1 (by omega)).bind ?_
    rintro base ⟨rest2, rfl, h2⟩
    have hlen2 := h2.length_eq
    refine (decodeRows_meets h2 (by omega)).bind fun rows _ => ?_
    exact fun hnot => absurd trivial hnot
  rw [if_neg hsb]
  by_cases hsb2 : kind = bodyScrollback2
  · rw [if_pos hsb2]
    refine (failIf_meets _).bind fun _ hlong => ?_
    refine (h1.byteAt_meets (by omega)).bind ?_
    rintro epoch ⟨rest2, rfl, h2⟩
    have hlen2 := h2.length_eq
    refine (u64At_meets h2 (by omega)).bind ?_
    rintro rowOffset ⟨rest3, rfl, h3⟩
    have hlen3 := h3.length_eq
    refine (decodeRows_meets h3 (by omega)).bind fun rows _ => ?_
    exact fun hnot => absurd trivial hnot
  rw [if_neg hsb2]
  trivial

end Body

/-! ### Whole messages -/

def ServerFrame.encode (m : ServerFrame) : Bytes :=
  encodeFlagsAndCaps m.flags m.caps ++
    (u64Bytes m.frameNum ++ (u64Bytes m.inputAck ++ (u64Bytes m.echoAck ++ m.body.encode)))

def ServerFrame.decode (data : Bytes) : Outcome WireError ServerFrame :=
  (decodeFlagsAndCaps data).bind fun (flags, caps, pos) =>
  (Outcome.failIf (data.length < pos + 25) .serverFrameTooShort).bind fun _ =>
  (u64At data pos).bind fun frameNum =>
  (u64At data (pos + 8)).bind fun inputAck =>
  (u64At data (pos + 16)).bind fun echoAck =>
  (FrameBody.decode data (pos + 24)).bind fun body =>
  .ok { flags, caps, frameNum, inputAck, echoAck, body }

def ClientMessage.encode (m : ClientMessage) : Bytes :=
  encodeFlagsAndCaps m.flags m.caps ++ (u64Bytes m.ackedFrame ++ (u16Bytes m.rows ++ (u16Bytes m.cols ++
      (u64Bytes m.inputBase ++ m.input))))

def ClientMessage.decode (data : Bytes) : Outcome WireError ClientMessage :=
  (decodeFlagsAndCaps data).bind fun (flags, caps, pos) =>
  (Outcome.failIf (data.length < pos + 20) .clientMessageTooShort).bind fun _ =>
  (u64At data pos).bind fun ackedFrame =>
  (u16At data (pos + 8)).bind fun rows =>
  (u16At data (pos + 10)).bind fun cols =>
  (u64At data (pos + 12)).bind fun inputBase =>
  (tailAt data (pos + 20)).bind fun input =>
  .ok { flags, caps, ackedFrame, rows, cols, inputBase, input }

/-- The extension bit of the flags is clear, and the table and the rows fit their counts. -/
structure ServerFrame.Fits (m : ServerFrame) : Prop where
  flags : m.flags &&& flagExtension = 0
  caps : TableFits m.caps
  rows : RowsFit m.body.rows

structure ClientMessage.Fits (m : ClientMessage) : Prop where
  flags : m.flags &&& flagExtension = 0
  caps : TableFits m.caps

theorem ServerFrame.decode_encode {m : ServerFrame} (h : m.Fits) : decode m.encode = .ok m := by
  obtain ⟨pos, hflags, h0⟩ := decodeFlagsAndCaps_encode h.flags h.caps rfl
  obtain ⟨hframe, h1⟩ := u64At_eq h0
  obtain ⟨hinput, h2⟩ := u64At_eq h1
  obtain ⟨hecho, h3⟩ := u64At_eq h2
  have hbody := FrameBody.decode_encode h.rows h3
  have hlen := h3.length_eq
  have hpos : 1 ≤ m.body.encode.length := by
    cases m.body <;> exact Nat.succ_pos _
  rw [decode, encode, hflags, bind_ok]
  simp only
  rw [failIf_of_not _ (by omega), bind_ok, hframe, bind_ok, hinput,
    bind_ok, hecho, bind_ok, hbody, bind_ok]

theorem ClientMessage.decode_encode {m : ClientMessage} (h : m.Fits) : ClientMessage.decode m.encode = .ok m := by
  have hsplit : m.encode = encodeFlagsAndCaps m.flags m.caps ++ (u64Bytes m.ackedFrame ++
      (u16Bytes m.rows ++ (u16Bytes m.cols ++ (u64Bytes m.inputBase ++ m.input)))) := rfl
  obtain ⟨pos, hflags, h0⟩ := decodeFlagsAndCaps_encode h.flags h.caps hsplit
  obtain ⟨hacked, h1⟩ := u64At_eq h0
  obtain ⟨hrows, h2⟩ := u16At_eq h1
  obtain ⟨hcols, h3⟩ := u16At_eq h2
  obtain ⟨hbase, h4⟩ := u64At_eq h3
  have hlen := h4.length_eq
  rw [ClientMessage.decode, hflags, bind_ok]
  simp only
  rw [failIf_of_not _ (by omega), bind_ok, hacked, bind_ok, hrows,
    bind_ok, hcols, bind_ok, hbase, bind_ok, h4.tailAt_eq, bind_ok]

/-- **Reading a frame stays within the bytes, and what it says is there.** -/
theorem ServerFrame.decode_meets (data : Bytes) :
    (decode data).Meets fun m => EmptyTable data ∨ m.body.IsScrollback ∨
      data = m.encode ∨ m.body = .empty ∧ ∃ trailing, data = m.encode ++ trailing := by
  refine (decodeFlagsAndCaps_meets data).bind ?_
  rintro ⟨flags, caps, pos⟩ ⟨rest, h0, htable⟩
  have hlen := h0.length_eq
  refine (failIf_meets _).bind fun _ hlong => ?_
  refine (u64At_meets h0 (by omega)).bind ?_
  rintro frameNum ⟨rest1, rfl, h1⟩
  have hlen1 := h1.length_eq
  refine (u64At_meets h1 (by omega)).bind ?_
  rintro inputAck ⟨rest2, rfl, h2⟩
  have hlen2 := h2.length_eq
  refine (u64At_meets h2 (by omega)).bind ?_
  rintro echoAck ⟨rest3, rfl, h3⟩
  have hlen3 := h3.length_eq
  refine (FrameBody.decode_meets h3 (by omega)).bind fun body hbody => ?_
  rcases htable with hempty | rfl
  · exact .inl hempty
  by_cases hsb : body.IsScrollback
  · exact .inr (.inl hsb)
  rcases hbody hsb with rfl | ⟨rfl, trailing, rfl⟩
  · exact .inr (.inr (.inl rfl))
  · refine .inr (.inr (.inr ⟨rfl, trailing, ?_⟩))
    rw [encode]
    simp only [append_assoc]

/-- **Reading a client's message stays within the bytes, and what it says is there.** -/
theorem ClientMessage.decode_meets (data : Bytes) :
    (ClientMessage.decode data).Meets fun m => EmptyTable data ∨ data = m.encode := by
  refine (decodeFlagsAndCaps_meets data).bind ?_
  rintro ⟨flags, caps, pos⟩ ⟨rest, h0, htable⟩
  have hlen := h0.length_eq
  refine (failIf_meets _).bind fun _ hlong => ?_
  refine (u64At_meets h0 (by omega)).bind ?_
  rintro ackedFrame ⟨rest1, rfl, h1⟩
  have hlen1 := h1.length_eq
  refine (u16At_meets h1 (by omega)).bind ?_
  rintro rows ⟨rest2, rfl, h2⟩
  have hlen2 := h2.length_eq
  refine (u16At_meets h2 (by omega)).bind ?_
  rintro cols ⟨rest3, rfl, h3⟩
  have hlen3 := h3.length_eq
  refine (u64At_meets h3 (by omega)).bind ?_
  rintro inputBase ⟨rest4, rfl, h4⟩
  refine h4.tailAt_meets.bind ?_
  rintro input rfl
  exact htable.imp id id

/-! ### The codecs -/

/-- **The wire codecs.**  A message that fits is read back as it was written.  The decoders never read out
of range, whatever the bytes.  A message they accept is written as the bytes it was read from, unless an
empty table was announced, or it carries rows, or it is a frame with an empty body, which may be followed
by bytes that are not looked at. -/
theorem wire_codecs :
    (∀ m : ServerFrame, m.Fits → ServerFrame.decode m.encode = .ok m) ∧
    (∀ m : ClientMessage, m.Fits → ClientMessage.decode m.encode = .ok m) ∧
    (∀ data : Bytes, ServerFrame.decode data ≠ .outOfRange ∧ ClientMessage.decode data ≠ .outOfRange) ∧
    (∀ (data : Bytes) (m : ServerFrame), ServerFrame.decode data = .ok m → ¬EmptyTable data →
      ¬m.body.IsScrollback → m.encode = data ∨ m.body = .empty ∧ ∃ trailing, data = m.encode ++ trailing) ∧
    ∀ (data : Bytes) (m : ClientMessage), ClientMessage.decode data = .ok m → ¬EmptyTable data →
      m.encode = data := by
  refine ⟨fun m => ServerFrame.decode_encode, fun m => ClientMessage.decode_encode, fun data =>
    ⟨(ServerFrame.decode_meets data).ne_outOfRange, (ClientMessage.decode_meets data).ne_outOfRange⟩, ?_, ?_⟩
  · intro data m hm hempty hsb
    rcases (ServerFrame.decode_meets data).of_eq_ok hm with h | h | h | h
    · exact absurd h hempty
    · exact absurd h hsb
    · exact .inl h.symm
    · exact .inr h
  · intro data m hm hempty
    exact (((ClientMessage.decode_meets data).of_eq_ok hm).resolve_left hempty).symm

/-- An empty body with a byte after it is accepted, and written without the byte. -/
theorem wire_codecs_trailing :
    ∃ m, ServerFrame.decode (List.replicate 25 0 ++ [bodyEmpty, 99]) = .ok m ∧
      ¬m.body.IsScrollback ∧ ¬EmptyTable (List.replicate 25 0 ++ [bodyEmpty, 99]) ∧
      m.encode ≠ List.replicate 25 0 ++ [bodyEmpty, 99] := by
  refine ⟨⟨0, [], 0, 0, 0, .empty⟩, by decide +kernel, fun h => h, ?_, by decide +kernel⟩
  rintro ⟨first, hfirst, hset, -⟩
  cases hfirst
  exact hset rfl

theorem wire_codecs_diff :
    ServerFrame.decode (ServerFrame.encode ⟨5, [⟨3, [7]⟩], 9, 4, 4, .diff 8 (some 17) [1, 2]⟩) =
      .ok ⟨5, [⟨3, [7]⟩], 9, 4, 4, .diff 8 (some 17) [1, 2]⟩ :=
  wire_codecs.1 _ ⟨by decide, ⟨by decide, by decide⟩, by decide, by decide⟩

end Posh.Wire
