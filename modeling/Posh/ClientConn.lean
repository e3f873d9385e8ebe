/-
**The bytes the daemon owes a client.**

What goes to a client is appended to a buffer, from which the socket takes bytes as it can.  For a coalescing
client the newest visible frame replaces the one before it, as long as none of the bytes of that one were
taken: an anchor remembers where it starts, every other record that is appended drops the anchor, and every
byte that is taken moves it.

A visible frame also carries what is announced to the client: the label of what the session runs, with it
once the kind of the session and the offer of the push command, and the entries of the history.
-/

import Posh.FrameWire
import Posh.HistoryCursor
import Posh.IpcRecords
import Posh.Picker
import Posh.RoamingServer

set_option autoImplicit false

namespace Posh

variable {τ σ : Type}

/-! ### The entries of a frame's table -/

def capProtocolVersion : UInt8 := 0
def capScrollback : UInt8 := 3
def capMorph : UInt8 := 4
def capBaseSum : UInt8 := 5
def capLossy : UInt8 := 9
def capScrollback2 : UInt8 := 10
def capCoalesce : UInt8 := 12
def capSessionActivity : UInt8 := 15
def capSessionKind : UInt8 := 20
def capPushCmd : UInt8 := 21
def capScrollback2Extent : UInt8 := 24

/-- The first entry with an id. -/
def findCap (caps : List Cap) (id : UInt8) : Option Cap := caps.find? fun cap => cap.id == id

/-- The table of a frame: the version of the protocol comes first. -/
def ownTable (extra : List Cap) : List Cap := { id := capProtocolVersion, payload := [1] } :: extra

/-- What a session runs, and its title, in UTF-8. -/
structure SessionActivity where
  process : Bytes
  title : Bytes
  deriving DecidableEq, Repr

/-- A character begins at `i`, or the text ends there. -/
def isCharBoundary (s : Bytes) (i : ℕ) : Bool :=
  match s[i]? with
  | some b => i = 0 || decide (b < 0x80) || decide (0xC0 ≤ b)
  | none => i = s.length

/-- The last boundary at or before `i`. -/
def floorBoundary (s : Bytes) : ℕ → ℕ
  | 0 => 0
  | i + 1 => if isCharBoundary s (i + 1) then i + 1 else floorBoundary s i

/-- At most 128 bytes of a text, cut between characters. -/
def clampActivity (s : Bytes) : Bytes := s.take (floorBoundary s (min s.length 128))

/-- The entry of a label. -/
def encodeSessionActivity (a : SessionActivity) : Cap where
  id := capSessionActivity
  payload :=
    1 :: UInt8.ofNat (clampActivity a.process).length :: (clampActivity a.process ++
      UInt8.ofNat (clampActivity a.title).length :: clampActivity a.title)

def SessionKind.toByte : SessionKind → UInt8
  | .unknown => 0
  | .anonymous => 1
  | .named => 2
  | .system => 3

def encodeSessionKind (kind : SessionKind) : Cap where
  id := capSessionKind
  payload := [kind.toByte]

def encodePushCmd : Cap where
  id := capPushCmd
  payload := []

def encodeScrollback2Ack (epoch : UInt8) : Cap where
  id := capScrollback2
  payload := [0x02, epoch]

def encodeScrollback2Extent (x : Scrollback2Extent) : Cap where
  id := capScrollback2Extent
  payload := 1 :: x.epoch :: (WordBytes.le 8 x.availRows ++ WordBytes.le 8 x.evictedUpto)

/-! ### Frames on the wire -/

/-- A body with its numbers as wide as on the wire. -/
def FrameBody.toWire : FrameBody → Wire.FrameBody
  | .full bytes => .full bytes
  | .diff base baseSum bytes => .diff (UInt64.ofNat base) baseSum bytes
  | .empty => .empty
  | .morph base baseSum escapes => .morph (UInt64.ofNat base) baseSum escapes
  | .scrollback base rows => .scrollback (UInt64.ofNat base) rows
  | .scrollback2 epoch rowOffset rows => .scrollback2 epoch (UInt64.ofNat rowOffset) rows

/-- A frame with its numbers as wide as on the wire. -/
def ServerFrame.toWire (f : ServerFrame) : Wire.ServerFrame where
  flags := f.flags
  caps := f.caps
  frameNum := UInt64.ofNat f.frameNum
  inputAck := UInt64.ofNat f.inputAck
  echoAck := UInt64.ofNat f.echoAck
  body := f.body.toWire

/-- The payload of a record that carries a frame. -/
def ServerFrame.bytes (f : ServerFrame) : Bytes := f.toWire.encode

/-! ### Connections -/

/-- A keyframe a client is owed for its new geometry. -/
inductive RegeometryKeyframe where
  /-- not built yet -/
  | owed
  /-- sent under this number -/
  | sent (num : ℕ)
  deriving DecidableEq, Repr

/-- What pacing keeps that a visible frame or an acknowledgement looks at. -/
structure Pacing where
  history : Option HistoryCursor := none
  extent : Option Scrollback2Extent := none
  lastFresh : Option ℕ := none
  sentFrames : List (ℕ × ℕ) := []

structure ClientConn (σ : Type) where
  /-- the bytes the socket has not taken yet -/
  writeBuf : Bytes := []
  /-- the table of the client's attachment -/
  caps : List Cap := []
  /-- makes the client's frames, if it takes frames -/
  producer : Option (FrameProducer σ Bytes) := none
  lossy : Bool := false
  coalesce : Bool := false
  /-- the client turned coalescing off for now -/
  coalesceOff : Bool := false
  /-- where the newest visible frame starts in the buffer, while it may be replaced -/
  pendingFrameStart : Option ℕ := none
  sbFloor : ℕ := 0
  ackedSbTotal : ℕ := 0
  echoFlag : UInt8 := 0
  overlayFlag : UInt8 := 0
  wantsActivity : Bool := false
  activityNow : Option SessionActivity := none
  /-- the label recorded as sent -/
  activitySent : Option SessionActivity := none
  kind : SessionKind := .unknown
  /-- the kind is recorded as sent -/
  kindSent : Bool := false
  wantsPushCmd : Bool := false
  /-- the push command is recorded as offered -/
  pushOffered : Bool := false
  regeometryKeyframe : Option RegeometryKeyframe := none
  pacing : Option Pacing := none

namespace ClientConn

/-- The client asked for the label and was not sent the present one. -/
def answerDue (c : ClientConn σ) : Bool :=
  c.wantsActivity && c.activityNow.isSome && decide (c.activityNow ≠ c.activitySent)

/-- Appends a record.  Whatever it is, the visible frame before it can no longer be replaced. -/
def queue (c : ClientConn σ) (tag : IpcTag) (payload : Bytes) : ClientConn σ :=
  { c with
    pendingFrameStart := none
    writeBuf := appendFrame c.writeBuf tag payload }

/-- The client's frames are coalesced right now. -/
def coalescing (c : ClientConn σ) : Bool := c.coalesce && !c.coalesceOff

/-- The daemon does not acknowledge this client's frames itself. -/
def withhold (c : ClientConn σ) : Bool := c.lossy || c.coalescing

def usesMorph (c : ClientConn σ) : Bool := c.lossy && (findCap c.caps capMorph).isSome

def stampsBaseSum (c : ClientConn σ) : Bool := c.lossy && (findCap c.caps capBaseSum).isSome

def flags (c : ClientConn σ) : UInt8 := c.echoFlag ||| c.overlayFlag

/-- The socket took `n` bytes: the anchor moves along, and is gone once bytes of its frame are. -/
def written (c : ClientConn σ) (n : ℕ) : ClientConn σ :=
  { c with
    writeBuf := c.writeBuf.drop n
    pendingFrameStart :=
      c.pendingFrameStart.bind fun start => if n ≤ start then some (start - n) else none }

/-! ### Visible frames -/

/-- The announcements of the next visible frame: the label when it is due, and with the first of them the
kind and the offer. -/
def announcements (c : ClientConn σ) : List Cap :=
  if c.answerDue then
    (c.activityNow.map encodeSessionActivity).toList ++
      (if c.kindSent then [] else [encodeSessionKind c.kind]) ++
      (if c.wantsPushCmd && !c.pushOffered then [encodePushCmd] else [])
  else []

def recordAnnouncements (c : ClientConn σ) : ClientConn σ :=
  if c.answerDue then
    { c with
      activitySent := c.activityNow
      kindSent := true
      pushOffered := c.pushOffered || c.wantsPushCmd }
  else c

/-- The entries of the history: the epoch, and the extent if it is of this epoch. -/
def historyEntries (c : ClientConn σ) : List Cap :=
  let epoch := (c.pacing.bind Pacing.history).bind HistoryCursor.currentEpoch
  let extent := (c.pacing.bind Pacing.extent).filter fun x => some x.epoch == epoch
  (epoch.map encodeScrollback2Ack).toList ++ (extent.map encodeScrollback2Extent).toList

/-- A diff for a client that checks its base gets the checksum of that base. -/
def stampBase (wants : Bool) (acked : Option Bytes) (body : FrameBody) : FrameBody :=
  match wants, acked, body with
  | true, some dump, .diff base _ bytes => .diff base (some (baseChecksum dump)) bytes
  | _, _, body => body

/-- The visible frame of a producer that has moved on. -/
def visibleFrame (D : Display τ σ) (c : ClientConn σ) (producer : FrameProducer σ Bytes) : ServerFrame where
  flags := c.flags
  caps := ownTable (c.announcements ++ c.historyEntries)
  frameNum := producer.currentNum
  body := stampBase c.stampsBaseSum producer.ackedDump (producer.encodeVisible D c.usesMorph)

/-- A keyframe that was owed is sent under the newest visible number. -/
def noteKeyframe (c : ClientConn σ) : ClientConn σ :=
  if c.regeometryKeyframe = some .owed then
    { c with
      regeometryKeyframe := c.producer.map fun p => .sent p.lastVisibleNum }
  else c

/-- Puts a visible frame at the end of the buffer; for a coalescing client in the place of the one before
it, if that may be replaced. -/
def queueVisible (c : ClientConn σ) (encoded : Bytes) : ClientConn σ :=
  if c.coalescing then
    let writeBuf :=
      match c.pendingFrameStart with
      | some start => if start ≤ c.writeBuf.length then c.writeBuf.take start else c.writeBuf
      | none => c.writeBuf
    { ({ c with writeBuf } : ClientConn σ).queue .frame encoded with
      pendingFrameStart := some writeBuf.length }
  else c.queue .frame encoded

/-- **Queues a visible frame** of a screen; nothing, for a client that takes no frames. -/
def queueFrame (D : Display τ σ) (c : ClientConn σ) (dump : Bytes) (snapshot : σ) (alt : Bool)
    (dims : ℕ × ℕ) : Bool × ClientConn σ :=
  match c.producer with
  | none => (false, c.recordAnnouncements)
  | some p =>
    let moved := p.advanceVisible dump snapshot alt dims 0
    let frame := c.visibleFrame D moved
    let producer := if c.withhold then moved else (moved.ack frame.frameNum).2
    (true, ({ c.recordAnnouncements with producer := some producer } :
      ClientConn σ).noteKeyframe.queueVisible frame.bytes)

/-! ### Growth -/

/-- The client asked for the scrollback, and rows beyond what it has entered it. -/
def scrollbackDue (c : ClientConn σ) (term : SessionTerm) : Bool :=
  (findCap c.caps capScrollback).isSome && !term.altScreen &&
    decide (max c.ackedSbTotal c.sbFloor < term.sbTotal)

/-- The frame of the rows, from a producer that has moved on. -/
def scrollbackFrame (c : ClientConn σ) (producer : FrameProducer σ Bytes) (term : SessionTerm) :
    ServerFrame :=
  let grown := term.sbTotal - producer.currentSbTotal
  let upto := term.ring.length - grown
  let appended := min (producer.currentSbTotal - max c.ackedSbTotal c.sbFloor) upto
  { flags := c.flags
    caps := ownTable []
    frameNum := producer.currentNum
    body := .scrollback producer.lastVisibleNum ((term.ring.take upto).drop (upto - appended)) }

/-- **Queues the rows that entered the scrollback**, if the client is due some and holds a base. -/
def maybeQueueScrollback (c : ClientConn σ) (term : SessionTerm) : Bool × ClientConn σ :=
  match c.producer with
  | none => (false, c)
  | some p =>
    if c.scrollbackDue term && p.hasAckedBase then
      let moved := p.advanceScrollbackAfterVisible term.sbTotal
      let frame := c.scrollbackFrame moved term
      let acked := if c.withhold then (none, moved) else moved.ack frame.frameNum
      (true, ({ c with
        producer := some acked.2
        ackedSbTotal := max c.ackedSbTotal (acked.1.getD 0) } : ClientConn σ).queue .frame frame.bytes)
    else (false, c)

/-! ### Acknowledgements -/

/-- The number of the frame and the flags of an acknowledgement. -/
def decodeFrameAck (payload : Bytes) : Option (ℕ × UInt8) :=
  if payload.length = 9 then some (WordBytes.ofLe (payload.take 8), payload.getD 8 0) else none

def frameAckResync : UInt8 := 0x01

def frameAckCoalesceOff : UInt8 := 0x02

/-- The switch of coalescing, which only a client that advertised it has. -/
def applyCoalesceOff (c : ClientConn σ) (flags : UInt8) : ClientConn σ :=
  if c.coalesce then
    let off := flags &&& frameAckCoalesceOff != 0
    { c with
      coalesceOff := off
      pendingFrameStart := if off then none else c.pendingFrameStart }
  else c

/-- What becomes of a keyframe that is owed when frame `acked` is acknowledged: it is settled, or the base
is dropped again. -/
def settleKeyframe (keyframe : Option RegeometryKeyframe) (acked : ℕ) (p : FrameProducer σ Bytes) :
    Option RegeometryKeyframe × FrameProducer σ Bytes :=
  match keyframe with
  | some (.sent num) =>
    if num ≤ acked then (if p.hasAckedBase then none else keyframe, p) else (keyframe, p.dropAckedBase)
  | some .owed => (keyframe, p.dropAckedBase)
  | none => (none, p)

/-- **Applies an acknowledgement**; the flag tells that the client is owed a keyframe at once. -/
def applyFrameAck (c : ClientConn σ) (payload : Bytes) : Bool × ClientConn σ :=
  if !c.lossy && !c.coalesce then (false, c)
  else
    match decodeFrameAck payload with
    | none => (false, c)
    | some (acked, flags) =>
      let c := c.applyCoalesceOff flags
      match c.producer with
      | none => (false, c)
      | some p =>
        let settled := settleKeyframe c.regeometryKeyframe acked (p.ack acked).2
        let c : ClientConn σ :=
          { c with
            ackedSbTotal := max c.ackedSbTotal ((p.ack acked).1.getD 0)
            regeometryKeyframe := settled.1
            producer := some settled.2 }
        if flags &&& frameAckResync != 0 then
          (true,
  { c with
              producer := some settled.2.dropAckedBase
              pacing := c.pacing.map fun p => { p with lastFresh := none, sentFrames := [] } })
        else (false, c)

/-! ### What the client asks for -/

/-- A table of the client: a request for the label, and one for the push command, is remembered. -/
def absorbClientCaps (c : ClientConn σ) (table : List Cap) : ClientConn σ :=
  { c with
    wantsActivity := c.wantsActivity || (findCap table capSessionActivity).isSome
    wantsPushCmd :=
      c.wantsPushCmd || ((findCap table capPushCmd).filter fun cap => cap.payload == []).isSome }

/-- The table of an attachment; a client that knows the protocol takes frames from now on. -/
def applyInit (D : Display τ σ) (c : ClientConn σ) (table : List Cap) (rows cols : ℕ) : ClientConn σ :=
  let c := { c.absorbClientCaps table with
    lossy := (findCap table capLossy).isSome
    coalesce := (findCap table capCoalesce).isSome
    caps := table }
  if c.producer.isNone && (findCap c.caps capProtocolVersion).isSome then
    { c with
      producer := some (.new D (max rows 1) (max cols 1)) }
  else c

/-- The daemon refreshes the label for a client that asked for it. -/
def refreshActivity (c : ClientConn σ) (activity : SessionActivity) : ClientConn σ :=
  if c.wantsActivity then { c with activityNow := some activity } else c

/-! ### What the operations do -/

/-- The part of the buffer a visible frame is appended to. -/
def kept (c : ClientConn σ) : Bytes :=
  if c.coalescing then
    match c.pendingFrameStart with
    | some start => if start ≤ c.writeBuf.length then c.writeBuf.take start else c.writeBuf
    | none => c.writeBuf
  else c.writeBuf

/-- The next visible frame takes the place of the one before it. -/
def replaces (c : ClientConn σ) : Bool :=
  c.coalescing && c.pendingFrameStart.any fun start => decide (start ≤ c.writeBuf.length)

variable {c : ClientConn σ} {cap : Cap} (D : Display τ σ)

theorem kept_of_replaces (h : c.replaces = true) :
    ∃ start, c.pendingFrameStart = some start ∧ start ≤ c.writeBuf.length ∧ c.kept = c.writeBuf.take start := by
  unfold replaces at h
  rw [Bool.and_eq_true, Option.any_eq_true] at h
  obtain ⟨hco, start, hstart, hle⟩ := h
  refine ⟨start, hstart, of_decide_eq_true hle, ?_⟩
  rw [kept, if_pos hco, hstart]
  exact if_pos (of_decide_eq_true hle)

theorem kept_of_not_replaces (h : c.replaces = false) : c.kept = c.writeBuf := by
  unfold replaces at h
  unfold kept
  split
  case isFalse => rfl
  case isTrue hco =>
    rw [hco, Bool.true_and] at h
    split
    case h_2 => rfl
    case h_1 start hstart =>
      rw [hstart, Option.any_some, decide_eq_false_iff_not] at h
      exact if_neg h

theorem queueVisible_eq (c : ClientConn σ) (encoded : Bytes) : c.queueVisible encoded = { c with
        writeBuf := appendFrame c.kept .frame encoded
        pendingFrameStart := if c.coalescing then some c.kept.length else none } := by
  unfold queueVisible kept
  cases c.coalescing <;> rfl

theorem recordAnnouncements_eq (c : ClientConn σ) : c.recordAnnouncements = { c with
        activitySent := c.recordAnnouncements.activitySent
        kindSent := c.kindSent || c.answerDue
        pushOffered := c.pushOffered || (c.answerDue && c.wantsPushCmd) } := by
  unfold recordAnnouncements
  cases c.answerDue <;> simp

theorem noteKeyframe_eq (c : ClientConn σ) :
    c.noteKeyframe = { c with regeometryKeyframe := c.noteKeyframe.regeometryKeyframe } := by
  unfold noteKeyframe
  split <;> rfl

/-- The buffer and what is recorded as sent are left alone; at most the anchor is dropped. -/
structure Leaves (c c' : ClientConn σ) : Prop where
  writeBuf : c'.writeBuf = c.writeBuf
  anchor : c'.pendingFrameStart = c.pendingFrameStart ∨ c'.pendingFrameStart = none
  kindSent : c'.kindSent = c.kindSent
  pushOffered : c'.pushOffered = c.pushOffered

theorem Leaves.refl (c : ClientConn σ) : Leaves c c := ⟨rfl, .inl rfl, rfl, rfl⟩

theorem queueFrame_none (h : c.producer = none) (dump : Bytes) (snapshot : σ) (alt : Bool) (dims : ℕ × ℕ) :
    c.queueFrame D dump snapshot alt dims = (false, c.recordAnnouncements) := by
  rw [queueFrame, h]

/-- **What a visible frame does** to the buffer and to what is recorded as sent. -/
theorem queueFrame_some {p : FrameProducer σ Bytes}
    (h : c.producer = some p) (dump : Bytes) (snapshot : σ) (alt : Bool) (dims : ℕ × ℕ) :
    (c.queueFrame D dump snapshot alt dims).2.writeBuf =
        appendFrame c.kept .frame (c.visibleFrame D (p.advanceVisible dump snapshot alt dims 0)).bytes ∧
      (c.queueFrame D dump snapshot alt dims).2.pendingFrameStart =
        (if c.coalescing then some c.kept.length else none) ∧
      (c.queueFrame D dump snapshot alt dims).2.kindSent = (c.kindSent || c.answerDue) ∧
      (c.queueFrame D dump snapshot alt dims).2.pushOffered =
        (c.pushOffered || (c.answerDue && c.wantsPushCmd)) := by
  rw [queueFrame, h]
  dsimp only
  rw [queueVisible_eq, noteKeyframe_eq, recordAnnouncements_eq]
  exact ⟨rfl, rfl, rfl, rfl⟩

theorem maybeQueueScrollback_cases (c : ClientConn σ) (term : SessionTerm) :
    c.maybeQueueScrollback term = (false, c) ∨ ∃ p, c.producer = some p ∧ (c.maybeQueueScrollback term).1 = true ∧
        ∃ c', Leaves c c' ∧ (c.maybeQueueScrollback term).2 = c'.queue .frame
          (c.scrollbackFrame (p.advanceScrollbackAfterVisible term.sbTotal) term).bytes := by
  unfold maybeQueueScrollback
  split
  case h_1 => exact .inl rfl
  case h_2 p hp =>
    split
    case isFalse => exact .inl rfl
    case isTrue =>
      refine .inr ⟨p, hp, rfl, ?_⟩
      dsimp only
      refine ⟨_, ?_, rfl⟩
      exact ⟨rfl, .inl rfl, rfl, rfl⟩

theorem leaves_applyCoalesceOff (c : ClientConn σ) (flags : UInt8) : Leaves c (c.applyCoalesceOff flags) := by
  unfold applyCoalesceOff
  split
  case isFalse => exact .refl c
  case isTrue =>
    refine ⟨rfl, ?_, rfl, rfl⟩
    dsimp only
    split
    · exact .inr rfl
    · exact .inl rfl

theorem leaves_applyFrameAck (c : ClientConn σ) (payload : Bytes) : Leaves c (c.applyFrameAck payload).2 := by
  unfold applyFrameAck
  split
  case isTrue => exact .refl c
  case isFalse =>
    split
    case h_1 => exact .refl c
    case h_2 acked flags _ =>
      have hoff := leaves_applyCoalesceOff c flags
      dsimp only
      split
      case h_1 => exact hoff
      case h_2 => split <;> exact ⟨hoff.writeBuf, hoff.anchor, hoff.kindSent, hoff.pushOffered⟩

theorem leaves_applyInit (c : ClientConn σ) (table : List Cap) (rows cols : ℕ) :
    Leaves c (c.applyInit D table rows cols) := by
  unfold applyInit
  dsimp only
  split <;> exact ⟨rfl, .inl rfl, rfl, rfl⟩

theorem leaves_refreshActivity (c : ClientConn σ) (activity : SessionActivity) :
    Leaves c (c.refreshActivity activity) := by
  unfold refreshActivity
  split
  case isTrue => exact ⟨rfl, .inl rfl, rfl, rfl⟩
  case isFalse => exact .refl c

/-! ### What a visible frame announces -/

/-- An entry is one of the announcements: the label, the kind or the offer. -/
def isAnnouncement (id : UInt8) : Bool := id == capSessionActivity || id == capSessionKind || id == capPushCmd

theorem isAnnouncement_cases {id : UInt8} (h : isAnnouncement id = true) :
    id = capSessionActivity ∨ id = capSessionKind ∨ id = capPushCmd := by
  simpa [isAnnouncement, or_assoc] using h

theorem mem_announcements : cap ∈ c.announcements ↔ c.answerDue = true ∧
      ((∃ a, c.activityNow = some a ∧ encodeSessionActivity a = cap) ∨
        (c.kindSent = false ∧ cap = encodeSessionKind c.kind) ∨
        ((c.wantsPushCmd = true ∧ c.pushOffered = false) ∧ cap = encodePushCmd)) := by
  unfold announcements
  cases c.answerDue <;> cases c.kindSent <;> cases c.wantsPushCmd <;> cases c.pushOffered <;> simp

theorem label_mem_announcements (c : ClientConn σ) :
    (∃ cap ∈ c.announcements, cap.id = capSessionActivity) ↔ c.answerDue = true := by
  constructor
  · rintro ⟨cap, hcap, -⟩
    exact (mem_announcements.1 hcap).1
  · intro h
    have hnow : c.activityNow.isSome = true := by
      unfold answerDue at h
      rw [Bool.and_eq_true, Bool.and_eq_true] at h
      exact h.1.2
    obtain ⟨a, ha⟩ := Option.isSome_iff_exists.1 hnow
    exact ⟨encodeSessionActivity a, mem_announcements.2 ⟨h, .inl ⟨a, ha, rfl⟩⟩, rfl⟩

theorem kindSent_of_mem_announcements (h : cap ∈ c.announcements)
    (hid : cap.id = capSessionKind) : c.kindSent = false := by
  rcases (mem_announcements.1 h).2 with ⟨a, -, rfl⟩ | ⟨hsent, -⟩ | ⟨-, rfl⟩
  · cases hid
  · exact hsent
  · cases hid

theorem pushOffered_of_mem_announcements (h : cap ∈ c.announcements)
    (hid : cap.id = capPushCmd) : c.wantsPushCmd = true ∧ c.pushOffered = false := by
  rcases (mem_announcements.1 h).2 with ⟨a, -, rfl⟩ | ⟨-, rfl⟩ | ⟨hoffer, -⟩
  · cases hid
  · cases hid
  · exact hoffer

theorem isAnnouncement_of_mem (h : cap ∈ c.announcements) : isAnnouncement cap.id = true := by
  rcases (mem_announcements.1 h).2 with ⟨a, -, rfl⟩ | ⟨-, rfl⟩ | ⟨-, rfl⟩ <;> rfl

theorem isAnnouncement_of_mem_historyEntries (h : cap ∈ c.historyEntries) : isAnnouncement cap.id = false := by
  unfold historyEntries at h
  simp only [List.mem_append, Option.mem_toList, Option.map_eq_some_iff] at h
  rcases h with ⟨epoch, -, rfl⟩ | ⟨x, -, rfl⟩ <;> rfl

/-- **The announcements a visible frame carries**: the entries beside them are others. -/
theorem announces_visibleFrame (c : ClientConn σ) (p : FrameProducer σ Bytes) {id : UInt8}
    (hid : isAnnouncement id = true) :
    (∃ cap ∈ (c.visibleFrame D p).caps, cap.id = id) ↔ ∃ cap ∈ c.announcements, cap.id = id := by
  constructor
  · rintro ⟨cap, hcap, rfl⟩
    rcases List.mem_cons.1 hcap with rfl | hcap
    · cases hid
    · rcases List.mem_append.1 hcap with hcap | hcap
      · exact ⟨cap, hcap, rfl⟩
      · rw [isAnnouncement_of_mem_historyEntries hcap] at hid
        cases hid
  · rintro ⟨cap, hcap, rfl⟩
    exact ⟨cap, List.mem_cons_of_mem _ (List.mem_append_left _ hcap), rfl⟩

end ClientConn

end Posh
