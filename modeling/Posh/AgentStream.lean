/-
**The agent record stream.**

The forwarded agent's connections are multiplexed over one reliable byte stream in each direction.
A record (a channel number, a kind and a payload) is framed by a nine-byte header and pushed on an
`InputOutbox`; the peer's `InputInbox` extracts the bytes it has not seen, and a `RecordDecoder`
reassembles the records, whatever the cuts between the chunks that arrive.

`AgentLink` is one direction between two `AgentStream` values with everything in flight.  It is the
byte link of `Posh/InputStream.lean` with the framing of `Posh/Lib/Framing.lean` on top, and the
proofs are assembled from the two: a step of `AgentLink` is a step of `Link`, and a drain of the
decoder produces what the framing laws say.
-/

import Mathlib.Tactic.IntervalCases
import Posh.InputStream
import Posh.Lib.Framing
import Posh.Lib.WordBytes

set_option autoImplicit false

namespace Posh

open List (append_assoc append_nil prefix_refl)
open WordBytes
open Framing
open Runs (exec)

/-! ### Records -/

/-- Fixed record header: channel, kind, length, big-endian. -/
def agentRecordHeaderLen : ℕ := 9

/-- Upper bound on a single record's payload. -/
def agentRecordPayloadMax : ℕ := 256 * 1024

inductive RecordKind where
  /-- a new client connected to the agent socket -/
  | «open»
  /-- one chunk of the channel's byte pipe -/
  | data
  /-- either side closes the channel -/
  | close
  /-- the local agent is unreachable -/
  | fail
  deriving DecidableEq, Repr

namespace RecordKind

def toByte : RecordKind → UInt8
  | «open» => 0
  | data => 1
  | close => 2
  | fail => 3

def fromByte (b : UInt8) : Except String RecordKind :=
  if b = 0 then .ok «open»
  else if b = 1 then .ok data
  else if b = 2 then .ok close
  else if b = 3 then .ok fail
  else .error s!"agent record: unknown kind {b}"

@[simp] theorem fromByte_toByte (k : RecordKind) : fromByte k.toByte = .ok k := by
  cases k <;> rfl

end RecordKind

structure AgentRecord where
  channel : UInt32
  kind : RecordKind
  payload : Bytes
  deriving DecidableEq, Repr

/-- The payloads a sender may frame (`encode_into` asserts the bound). -/
def AgentRecord.Fits (r : AgentRecord) : Prop := r.payload.length ≤ agentRecordPayloadMax

instance (r : AgentRecord) : Decidable r.Fits := by
  unfold AgentRecord.Fits; infer_instance

/-- The framed bytes of a record. -/
def AgentRecord.toBytes (r : AgentRecord) : Bytes :=
  WordBytes.be 4 r.channel.toNat ++ [r.kind.toByte] ++ WordBytes.be 4 r.payload.length ++ r.payload

theorem AgentRecord.length_toBytes (r : AgentRecord) :
    r.toBytes.length = agentRecordHeaderLen + r.payload.length := by
  simp [toBytes, agentRecordHeaderLen]
  omega

/-! ### The decoder -/

/-- One round of the decoder's loop: the record at the front of the buffer and what follows it. -/
def parseRecord (buf : Bytes) : Except String (Option (AgentRecord × Bytes)) :=
  if buf.length < agentRecordHeaderLen then .ok none
  else
    let channel := UInt32.ofNat (WordBytes.ofBe (buf.take 4))
    match RecordKind.fromByte (buf.getD 4 0) with
    | .error e => .error e
    | .ok kind =>
      let len := WordBytes.ofBe ((buf.drop 5).take 4)
      if len > agentRecordPayloadMax then
        .error s!"agent record: payload len {len} exceeds cap {agentRecordPayloadMax}"
      else
        let total := agentRecordHeaderLen + len
        -- header parsed, payload not yet fully arrived
        if buf.length < total then .ok none
        else
          let payload := (buf.take total).drop agentRecordHeaderLen
          .ok (some ({ channel, kind, payload }, buf.drop total))

/-- The record codec. -/
def agentFraming : Framing UInt8 AgentRecord String where
  encode := AgentRecord.toBytes
  parse := parseRecord

/-- Streaming reassembler of the record stream: the bytes of the record in the middle of which it
is. -/
structure RecordDecoder where
  buf : Bytes := []
  deriving DecidableEq, Repr

namespace RecordDecoder

def new : RecordDecoder := {}

/-- Feeds freshly applied bytes; the records that became complete, or the error that ends the
connection. -/
def push (d : RecordDecoder) (bytes : Bytes) : Except String (List AgentRecord) × RecordDecoder :=
  ((agentFraming.drain (d.buf ++ bytes)).1, ⟨(agentFraming.drain (d.buf ++ bytes)).2⟩)

end RecordDecoder

/-! ### The codec is self-delimiting -/

theorem toBytes_append_fields (r : AgentRecord) (rest : Bytes) :
    (r.toBytes ++ rest).take 4 = be 4 r.channel.toNat ∧ (r.toBytes ++ rest).getD 4 0 = r.kind.toByte
      ∧ ((r.toBytes ++ rest).drop 5).take 4 = be 4 r.payload.length
      ∧ (r.toBytes ++ rest).drop agentRecordHeaderLen = r.payload ++ rest := by
  have hc : (be 4 r.channel.toNat).length = 4 := length_be _ _
  have hl : (be 4 r.payload.length).length = 4 := length_be _ _
  refine ⟨?_, ?_, ?_, ?_⟩
  · simp only [AgentRecord.toBytes, append_assoc]
    rw [List.take_append_of_le_length (by omega), List.take_of_length_le (by omega)]
  · simp only [AgentRecord.toBytes, append_assoc, List.getD_eq_getElem?_getD]
    rw [List.getElem?_append_right (by omega), hc]
    rfl
  · simp only [AgentRecord.toBytes, append_assoc]
    rw [List.drop_append, List.drop_of_length_le (by omega), hc]
    simp only [List.nil_append, List.singleton_append, Nat.reduceSub, List.drop_succ_cons, List.drop_zero]
    rw [List.take_append_of_le_length (by omega), List.take_of_length_le (by omega)]
  · simp only [AgentRecord.toBytes, append_assoc, agentRecordHeaderLen]
    rw [List.drop_append, List.drop_of_length_le (by omega), hc]
    simp only [List.nil_append, List.singleton_append, Nat.reduceSub, List.drop_succ_cons]
    rw [List.drop_append, List.drop_of_length_le (by omega), hl]
    rfl

theorem ofNat_ofBe_channel (c : UInt32) : UInt32.ofNat (ofBe (be 4 c.toNat)) = c := by
  have hc : c.toNat < 256 ^ 4 := c.toNat_lt
  rw [ofBe_be, Nat.mod_eq_of_lt hc, UInt32.ofNat_toNat]

variable {r : AgentRecord}

theorem ofBe_payload_length (hr : r.Fits) : ofBe (be 4 r.payload.length) = r.payload.length := by
  have hlt : r.payload.length < 256 ^ 4 := by
    have h : r.payload.length ≤ 256 * 1024 := hr
    omega
  rw [ofBe_be, Nat.mod_eq_of_lt hlt]

theorem parseRecord_of_fields {buf : Bytes} (hr : r.Fits) (hlen : agentRecordHeaderLen ≤ buf.length)
    (hchan : buf.take 4 = be 4 r.channel.toNat) (hkind : buf.getD 4 0 = r.kind.toByte)
    (hsize : (buf.drop 5).take 4 = be 4 r.payload.length) :
    parseRecord buf = if buf.length < agentRecordHeaderLen + r.payload.length then .ok none
      else .ok (some (⟨r.channel, r.kind,
        (buf.take (agentRecordHeaderLen + r.payload.length)).drop agentRecordHeaderLen⟩,
        buf.drop (agentRecordHeaderLen + r.payload.length))) := by
  have hmax : ¬ r.payload.length > agentRecordPayloadMax := Nat.not_lt.2 hr
  rw [parseRecord, if_neg (Nat.not_lt.2 hlen)]
  simp only [hchan, hkind, hsize, RecordKind.fromByte_toByte, ofNat_ofBe_channel,
    ofBe_payload_length hr, hmax, if_false]

theorem parseRecord_toBytes_append (hr : r.Fits) (rest : Bytes) :
    parseRecord (r.toBytes ++ rest) = .ok (some (r, rest)) := by
  obtain ⟨hchan, hkind, hsize, hbody⟩ := toBytes_append_fields r rest
  have hlen := r.length_toBytes
  have happ : (r.toBytes ++ rest).length = r.toBytes.length + rest.length := List.length_append
  rw [parseRecord_of_fields hr (by omega) hchan hkind hsize, if_neg (by omega)]
  have hpay : ((r.toBytes ++ rest).take (agentRecordHeaderLen + r.payload.length)).drop
      agentRecordHeaderLen = r.payload := by
    rw [List.drop_take, hbody, Nat.add_sub_cancel_left, List.take_left']
    rfl
  have hrest : (r.toBytes ++ rest).drop (agentRecordHeaderLen + r.payload.length) = rest := by
    rw [← hlen, List.drop_left']
    rfl
  rw [hpay, hrest]

theorem parseRecord_inside (hr : r.Fits) {p : Bytes} (hp : p <+: r.toBytes)
    (hne : p ≠ r.toBytes) : parseRecord p = .ok none := by
  have hlen := r.length_toBytes
  have hlt : p.length < r.toBytes.length :=
    lt_of_le_of_ne hp.length_le fun h => hne (hp.eq_of_length h)
  by_cases hshort : p.length < agentRecordHeaderLen
  · rw [parseRecord, if_pos hshort]
  · -- the header is there: it is the header of `r`
    have h9 : 9 ≤ p.length := Nat.not_lt.1 hshort
    obtain ⟨q, hq⟩ := hp
    obtain ⟨hchan, hkind, hsize, -⟩ := toBytes_append_fields r []
    rw [append_nil, ← hq] at hchan hkind hsize
    rw [List.take_append_of_le_length (by omega)] at hchan
    rw [List.getD_eq_getElem?_getD, List.getElem?_append_left (by omega),
      ← List.getD_eq_getElem?_getD] at hkind
    rw [List.drop_append_of_le_length (by omega),
      List.take_append_of_le_length (by rw [List.length_drop]; omega)] at hsize
    rw [parseRecord_of_fields hr h9 hchan hkind hsize, if_pos (by omega)]

theorem parseRecord_shrinks {b rest : Bytes}
    (h : parseRecord b = .ok (some (r, rest))) : rest.length < b.length := by
  unfold parseRecord at h
  split at h
  · cases h
  · rename_i hlen
    have h9 : 9 ≤ b.length := Nat.not_lt.1 hlen
    simp only at h
    split at h
    · cases h
    · split at h
      · cases h
      · split at h
        · cases h
        · simp only [Except.ok.injEq, Option.some.injEq, Prod.mk.injEq] at h
          rw [← h.2, List.length_drop, agentRecordHeaderLen]
          omega

/-- **The record codec is self-delimiting** on the records whose payload fits. -/
theorem agentFraming_lawful : agentFraming.Lawful AgentRecord.Fits where
  encode_ne_nil := by
    intro r _ h
    have hlen := r.length_toBytes
    rw [show r.toBytes = [] from h, agentRecordHeaderLen, List.length_nil] at hlen
    omega
  parse_encode := fun _ rest hr => parseRecord_toBytes_append hr rest
  parse_inside := fun _ _ hr hp hne => parseRecord_inside hr hp hne
  parse_shrinks := fun _ _ _ h => parseRecord_shrinks h

theorem parseRecord_nil : agentFraming.parse [] = .ok none := rfl

/-! ### One end of the stream -/

/-- One end's view of the bidirectional agent byte stream. -/
structure AgentStream where
  outbox : InputOutbox := .new
  inbox : InputInbox := .new
  decoder : RecordDecoder := .new
  /-- cumulative bytes handed to the wire, re-sends included -/
  sentBytes : ℕ := 0
  deriving DecidableEq, Repr

namespace AgentStream

def new : AgentStream := {}

/-- Frames a record onto the send side. -/
def send (s : AgentStream) (record : AgentRecord) : AgentStream :=
  { s with outbox := s.outbox.push record.toBytes }

def sendBase (s : AgentStream) : ℕ := s.outbox.base

def pending (s : AgentStream) : Bytes := s.outbox.pending

def hasPending (s : AgentStream) : Bool := !s.outbox.isEmpty

/-- `len` bytes were emitted; the counter saturates at its 64-bit maximum. -/
def markSent (s : AgentStream) (len : ℕ) : AgentStream :=
  { s with sentBytes := min (s.sentBytes + len) (2 ^ 64 - 1) }

def queuedBytes (s : AgentStream) : ℕ := s.outbox.endOffset

def resentBytes (s : AgentStream) : ℕ := s.sentBytes - s.queuedBytes

def recvAck (s : AgentStream) : ℕ := s.inbox.nextOffset

/-- Drops the acknowledged prefix of the send side. -/
def ack (s : AgentStream) (upto : ℕ) : AgentStream := { s with outbox := s.outbox.ack upto }

/-- Accepts a chunk of the peer's stream: the records that completed, or the decoder's error. -/
def recv (s : AgentStream) (base : ℕ) (data : Bytes) :
    Except String (List AgentRecord) × AgentStream :=
  match s.inbox.accept base data with
  | (some fresh, inbox) =>
    ((s.decoder.push fresh).1, { s with inbox, decoder := (s.decoder.push fresh).2 })
  | (none, inbox) => (.ok [], { s with inbox })

end AgentStream

/-! ### One direction and everything in flight -/

/-- The sending end, the receiving end, every chunk and acknowledgement sent, and the history: the
records sent, those `recv` returned, and the errors it returned. -/
structure AgentLink where
  tx : AgentStream := .new
  rx : AgentStream := .new
  /-- every chunk sent: its base and its bytes -/
  msgs : List (ℕ × Bytes) := []
  /-- every acknowledgement sent -/
  acks : List ℕ := []
  /-- history: the records sent -/
  sent : List AgentRecord := []
  /-- history: the records `recv` returned -/
  surfaced : List AgentRecord := []
  /-- history: the errors `recv` returned -/
  errors : List String := []
  deriving DecidableEq, Repr

namespace AgentLink

def init : AgentLink := {}

inductive Act where
  /-- the sender frames a record (its payload within the bound) -/
  | send (r : AgentRecord)
  /-- the sender emits the first `n` pending bytes, with their base -/
  | emit (n : ℕ)
  /-- the `i`-th chunk arrives -/
  | deliver (i : ℕ)
  /-- the receiver emits its acknowledgement -/
  | emitAck
  /-- the `i`-th acknowledgement arrives -/
  | deliverAck (i : ℕ)
  deriving DecidableEq, Repr

/-- A chunk arrives at the receiving end. -/
def receive (s : AgentLink) (base : ℕ) (data : Bytes) : AgentLink :=
  match s.rx.recv base data with
  | (.ok rs, rx) => { s with rx, surfaced := s.surfaced ++ rs }
  | (.error e, rx) => { s with rx, errors := s.errors ++ [e] }

def step (s : AgentLink) : Act → Option AgentLink
  | .send r =>
    if r.Fits then some { s with tx := s.tx.send r, sent := s.sent ++ [r] } else none
  | .emit n =>
    some { s with
      tx := s.tx.markSent (s.tx.pending.take n).length
      msgs := s.msgs ++ [(s.tx.sendBase, s.tx.pending.take n)] }
  | .deliver i => s.msgs[i]?.map fun m => s.receive m.1 m.2
  | .emitAck => some { s with acks := s.acks ++ [s.rx.recvAck] }
  | .deliverAck i => s.acks[i]?.map fun n => { s with tx := s.tx.ack n }

/-! ### The byte link underneath -/

/-- The byte link that carries the records: what was pushed is the encoding of what was sent, and
what was applied is the encoding of what was surfaced, followed by the bytes the decoder holds. -/
def toLink (s : AgentLink) : Link where
  outbox := s.tx.outbox
  inbox := s.rx.inbox
  msgs := s.msgs
  acks := s.acks
  pushed := agentFraming.encodeAll s.sent
  applied := agentFraming.encodeAll s.surfaced ++ s.rx.decoder.buf

/-- The action of the byte link under an action of the record stream. -/
def Act.toLink : Act → Link.Act
  | .send r => .push r.toBytes
  | .emit n => .send n
  | .deliver i => .deliver i
  | .emitAck => .sendAck
  | .deliverAck i => .deliverAck i

@[simp] theorem toLink_init : init.toLink = Link.init := rfl

/-- The invariant of the record stream. -/
structure Inv (s : AgentLink) : Prop where
  /-- the byte link underneath keeps its own invariant -/
  link : Link.Inv s.toLink
  /-- only records that fit were framed -/
  fits : ∀ r ∈ s.sent, r.Fits
  /-- what was surfaced is a prefix of what was sent -/
  surfaced_prefix : s.surfaced <+: s.sent
  /-- the decoder holds no complete record -/
  waits : agentFraming.parse s.rx.decoder.buf = .ok none
  /-- `recv` never failed -/
  no_error : s.errors = []

theorem inv_init : Inv init where
  link := Link.inv_init
  fits := by intro r hr; simp [init] at hr
  surfaced_prefix := prefix_refl _
  waits := parseRecord_nil
  no_error := rfl

variable {s : AgentLink} {as : List Act}

/-- The bytes in the decoder and the fresh ones are the front of the records still to come. -/
theorem buffered_prefix (h : Inv s) {base : ℕ} {data fresh : Bytes} (hc : IsChunk s.toLink.pushed base data)
    (hf : (s.rx.inbox.accept base data).1 = some fresh) {todo : List AgentRecord}
    (htodo : s.surfaced ++ todo = s.sent) : s.rx.decoder.buf ++ fresh <+: agentFraming.encodeAll todo := by
  have happ := (Link.inv_receive h.link hc).applied_eq
  have hpre : agentFraming.encodeAll s.surfaced ++ (s.rx.decoder.buf ++ fresh) <+:
      agentFraming.encodeAll s.surfaced ++ agentFraming.encodeAll todo := by
    rw [← encodeAll_append, htodo, ← append_assoc]
    have happ' : agentFraming.encodeAll s.surfaced ++ s.rx.decoder.buf ++
        (s.rx.inbox.accept base data).1.getD [] =
          (agentFraming.encodeAll s.sent).take (s.rx.inbox.accept base data).2.next := happ
    rw [hf, Option.getD_some] at happ'
    rw [happ']
    exact List.take_prefix _ _
  exact (List.prefix_append_right_inj _).1 hpre

/-- **A delivery on the record stream is a delivery on the byte link**, and keeps the record
stream's own clauses. -/
theorem receive_spec (h : Inv s) {base : ℕ} {data : Bytes} (hc : IsChunk s.toLink.pushed base data) :
    (s.receive base data).toLink = s.toLink.receive base data ∧ Inv (s.receive base data) := by
  have hlink := Link.inv_receive h.link hc
  cases hacc : s.rx.inbox.accept base data with
  | mk o inbox =>
    cases o with
    | none =>
      -- nothing new: the decoder is not run
      have hrec : s.receive base data = { s with rx := { s.rx with inbox } } := by
        simp only [receive, AgentStream.recv, hacc, append_nil]
      have htoLink : (s.receive base data).toLink = s.toLink.receive base data := by
        rw [hrec]
        simp only [toLink, Link.receive, hacc, Option.getD_none, append_nil]
      refine ⟨htoLink, ?_⟩
      exact
        { link := htoLink ▸ hlink
          fits := by rw [hrec]; exact h.fits
          surfaced_prefix := by rw [hrec]; exact h.surfaced_prefix
          waits := by rw [hrec]; exact h.waits
          no_error := by rw [hrec]; exact h.no_error }
    | some fresh =>
      -- the decoder drains what it held and the fresh bytes
      obtain ⟨todo, htodo⟩ := h.surfaced_prefix
      have hbuf := buffered_prefix h hc (by rw [hacc]) htodo
      have hfits : ∀ r ∈ todo, r.Fits := by
        intro r hr
        exact h.fits r (htodo ▸ List.mem_append_right _ hr)
      obtain ⟨out, rest, hdrain, hout, heq, hwait⟩ :=
        drain_spec agentFraming_lawful parseRecord_nil todo _ hfits hbuf
      have hrec : s.receive base data = { s with
            rx := { s.rx with inbox, decoder := ⟨rest⟩ }
            surfaced := s.surfaced ++ out } := by
        simp only [receive, AgentStream.recv, hacc, RecordDecoder.push, hdrain]
      have htoLink : (s.receive base data).toLink = s.toLink.receive base data := by
        rw [hrec]
        simp only [toLink, Link.receive, hacc, Option.getD_some, encodeAll_append, append_assoc]
        rw [heq]
      refine ⟨htoLink, ?_⟩
      exact
        { link := htoLink ▸ hlink
          fits := by rw [hrec]; exact h.fits
          surfaced_prefix := by
            rw [hrec, ← htodo]
            exact (List.prefix_append_right_inj _).2 hout
          waits := by rw [hrec]; exact hwait
          no_error := by rw [hrec]; exact h.no_error }

/-- **A step of the record stream is a step of the byte link.** -/
theorem step_refines {s t : AgentLink} {a : Act} (h : Inv s) (hstep : step s a = some t) :
    Link.step s.toLink a.toLink = some t.toLink ∧ Inv t := by
  cases a with
  | send r =>
    rw [step] at hstep
    split at hstep
    case isTrue hr =>
      rw [Option.some.injEq] at hstep
      have hsim : Link.step s.toLink (.push r.toBytes) = some t.toLink := by
        subst hstep
        simp only [Link.step, toLink, AgentStream.send, encodeAll_append,
          encodeAll_cons, encodeAll_nil, append_nil]
        rfl
      have hlink := Link.inv_step h.link hsim
      subst hstep
      refine ⟨hsim, hlink, ?_, ?_, h.waits, h.no_error⟩
      · intro r' hr'
        rcases List.mem_append.1 hr' with hr' | hr'
        · exact h.fits r' hr'
        · rw [List.mem_singleton.1 hr']
          exact hr
      · exact h.surfaced_prefix.trans (List.prefix_append _ _)
    case isFalse => cases hstep
  | emit n =>
    rw [step, Option.some.injEq] at hstep
    have hsim : Link.step s.toLink (.send n) = some t.toLink := by subst hstep; rfl
    have hlink := Link.inv_step h.link hsim
    subst hstep
    exact ⟨hsim, hlink, h.fits, h.surfaced_prefix, h.waits, h.no_error⟩
  | deliver i =>
    rw [step, Option.map_eq_some_iff] at hstep
    obtain ⟨m, hm, rfl⟩ := hstep
    obtain ⟨hsim, hinv⟩ := receive_spec h (h.link.msgs_ok m (List.mem_of_getElem? hm)).1
    refine ⟨?_, hinv⟩
    show s.msgs[i]?.map _ = _
    rw [hm, Option.map_some, hsim]
  | emitAck =>
    rw [step, Option.some.injEq] at hstep
    have hsim : Link.step s.toLink .sendAck = some t.toLink := by subst hstep; rfl
    have hlink := Link.inv_step h.link hsim
    subst hstep
    exact ⟨hsim, hlink, h.fits, h.surfaced_prefix, h.waits, h.no_error⟩
  | deliverAck i =>
    rw [step, Option.map_eq_some_iff] at hstep
    obtain ⟨n, hn, rfl⟩ := hstep
    have hsim : Link.step s.toLink (.deliverAck i) = some (toLink { s with tx := s.tx.ack n }) := by
      show s.acks[i]?.map _ = _
      rw [hn]
      rfl
    exact ⟨hsim, Link.inv_step h.link hsim, h.fits, h.surfaced_prefix, h.waits, h.no_error⟩

/-- **The invariant holds in every run.** -/
theorem inv_of_exec_init (hrun : exec step init as = some s) : Inv s :=
  Runs.exec_invariant (fun _ _ _ h hstep => (step_refines h hstep).2) inv_init hrun

/-! ### What the stream is for -/

theorem surfaced_eq_sent (h : Inv s) (hall : s.rx.recvAck = s.tx.queuedBytes) : s.surfaced = s.sent := by
  obtain ⟨todo, htodo⟩ := h.surfaced_prefix
  have hend : s.tx.queuedBytes = (agentFraming.encodeAll s.sent).length :=
    h.link.tracks.endOffset_eq
  have hfull : agentFraming.encodeAll s.surfaced ++ s.rx.decoder.buf = agentFraming.encodeAll s.sent := by
    have happ : agentFraming.encodeAll s.surfaced ++ s.rx.decoder.buf =
        (agentFraming.encodeAll s.sent).take s.rx.recvAck := h.link.applied_eq
    rw [happ, hall, hend, List.take_length]
  rw [← htodo, encodeAll_append] at hfull
  have hbuf : s.rx.decoder.buf = agentFraming.encodeAll todo := List.append_cancel_left hfull
  have hwait := h.waits
  rw [hbuf] at hwait
  have hnil : todo = [] := by
    refine eq_nil_of_stuck agentFraming_lawful (fun r hr => ?_) hwait
    exact h.fits r (htodo ▸ List.mem_append_right _ hr)
  rw [← htodo, hnil, append_nil]

theorem history_step {s t : AgentLink} {a : Act} (hstep : step s a = some t) :
    s.sent <+: t.sent ∧ s.surfaced <+: t.surfaced := by
  cases a with
  | send r =>
    rw [step] at hstep
    split at hstep
    · rw [Option.some.injEq] at hstep
      subst hstep
      exact ⟨List.prefix_append _ _, prefix_refl _⟩
    · cases hstep
  | emit n | emitAck =>
    rw [step, Option.some.injEq] at hstep
    subst hstep
    exact ⟨prefix_refl _, prefix_refl _⟩
  | deliver i =>
    rw [step, Option.map_eq_some_iff] at hstep
    obtain ⟨m, hm, rfl⟩ := hstep
    unfold receive
    split
    · exact ⟨prefix_refl _, List.prefix_append _ _⟩
    · exact ⟨prefix_refl _, prefix_refl _⟩
  | deliverAck i =>
    rw [step, Option.map_eq_some_iff] at hstep
    obtain ⟨n, hn, rfl⟩ := hstep
    exact ⟨prefix_refl _, prefix_refl _⟩

/-- **The record stream implements a lossless pipe of records.** -/
theorem records_refine_pipe (hrun : exec step init as = some s) :
    ∃ bs p, exec Pipe.step Pipe.empty bs = some p ∧ p.written = s.sent ∧ p.read = s.surfaced :=
  Pipe.simulates AgentLink.sent AgentLink.surfaced
    (fun _ _ _ h hstep => (step_refines h hstep).2) (fun _ _ _ _ => history_step)
    (fun _ hu => hu.surfaced_prefix) inv_init rfl rfl hrun

theorem records_refine_pipe_cut :
    ∃ s, exec step init [.send ⟨7, .data, [1, 2]⟩, .emit 3, .emit 20, .deliver 1, .deliver 0] = some s ∧
      ∃ bs p, exec Pipe.step Pipe.empty bs = some p ∧ p.written = s.sent ∧ p.read = s.surfaced := by
  refine ⟨_, rfl, ?_⟩
  exact records_refine_pipe (show exec step init
    [.send ⟨7, .data, [1, 2]⟩, .emit 3, .emit 20, .deliver 1, .deliver 0] = _ from rfl)

/-- **Every record is surfaced once, in order, intact.**  Under any loss, duplication and reordering
of chunks and acknowledgements: what `recv` returned is a prefix of what was sent, it never returned
an error, and when the receiver's acknowledgement is the sender's end offset, everything sent has
been surfaced. -/
theorem records_exactly_once (as : List Act) {s : AgentLink}
    (hrun : Runs.exec step init as = some s) :
    s.surfaced <+: s.sent ∧ s.errors = [] ∧ (s.rx.recvAck = s.tx.queuedBytes → s.surfaced = s.sent) := by
  have h := inv_of_exec_init hrun
  exact ⟨h.surfaced_prefix, h.no_error, surfaced_eq_sent h⟩

/-- A record whose header is cut by a chunk boundary, and a duplicate of the first chunk. -/
theorem records_exactly_once_cut :
    ∃ s, Runs.exec step init
        [.send ⟨7, .data, [1, 2]⟩, .emit 3, .deliver 0, .emit 20, .deliver 1, .deliver 0] = some s ∧
      s.surfaced <+: s.sent ∧ s.surfaced = [⟨7, .data, [1, 2]⟩] := by
  refine ⟨_, rfl, (records_exactly_once
    [.send ⟨7, .data, [1, 2]⟩, .emit 3, .deliver 0, .emit 20, .deliver 1, .deliver 0]
    rfl).1, by decide⟩

end AgentLink

end Posh
