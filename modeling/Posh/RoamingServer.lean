/-
**The roaming server's frame production.**

One iteration of the server's loop either produces a fresh visible frame, or a fresh scrollback slot,
or sends the current slot again, or sends an empty frame, or nothing; the clocks and the pacing
decide which of these an iteration has the opportunity for.  The peer modelled here takes scrollback
rows by growth bodies (the offset-addressed stream's opportunities never arise for it).

The screen broadcast and the session's terminal are whatever the environment makes them; only their
generation, their dump and their scrollback are looked at.
-/

import Posh.FrameProducer

set_option autoImplicit false

namespace Posh

variable {τ σ : Type}

/-! ### Messages, screens and opportunities -/

structure ClientMessage where
  /-- the client asks the session to end -/
  flagShutdown : Bool := false
  /-- the client asks for a keyframe -/
  flagResync : Bool := false
  /-- the client takes growth bodies -/
  capScrollback : Bool := false
  /-- the client takes escapes -/
  capMorph : Bool := false
  /-- the client verifies bases -/
  capBaseSum : Bool := false
  ackedFrame : ℕ
  inputBase : ℕ := 0
  input : Bytes := []
  deriving DecidableEq, Repr

/-- The screen broadcast: the session's, or that of the overlay shell above it. -/
structure Screen (σ : Type) where
  generation : ℕ
  /-- the dump shaped for the client's mirror -/
  dump : Dump
  snapshot : σ
  altScreen : Bool := false
  dims : ℕ × ℕ

/-- What the loop reads of the session's own terminal. -/
structure SessionTerm where
  altScreen : Bool := false
  /-- rows that ever entered the primary screen's scrollback -/
  sbTotal : ℕ := 0
  /-- the rows its ring still holds, as dumped -/
  ring : List Bytes := []

/-- What the clocks and the rest of the loop allow an iteration, and what its frame carries
besides the body. -/
structure Opportunity where
  paced : Bool
  rtoDue : Bool := false
  heartbeatDue : Bool := false
  forceAck : Bool := false
  flags : UInt8 := 0
  caps : List Cap := []
  inputAck : ℕ := 0
  echoAck : ℕ := 0
  deriving DecidableEq, Repr

/-! ### The loop's state -/

/-- The state of the loop that frame production reads and writes. -/
structure ServerLoop (σ : Type) where
  producer : FrameProducer σ
  src : Screen σ
  term : SessionTerm
  /-- an overlay shell is up -/
  overlay : Bool := false
  /-- the generation of the newest visible frame -/
  lastGen : ℕ
  forceFrame : Bool := false
  shutdown : Bool := false
  ackedSbTotal : ℕ := 0
  sbFloor : ℕ := 0
  sbHigh : ℕ := 0
  currentIsSb : Bool := false
  lastWasSb : Bool := false
  peerWantsScrollback : Bool := false
  peerWantsMorph : Bool := false
  peerWantsBaseSum : Bool := false

namespace ServerLoop

/-- The loop before its first iteration, for a session whose screen is `src`. -/
def new (D : Display τ σ) (src : Screen σ) (term : SessionTerm) (rows cols : ℕ) : ServerLoop σ where
  producer := .new D rows cols
  src := src
  term := term
  lastGen := src.generation

/-! ### A message from the client -/

/-- The end of the session is asked for, once. -/
def onShutdownFlag (s : ServerLoop σ) (msg : ClientMessage) : ServerLoop σ :=
  if msg.flagShutdown && !s.shutdown then { s with shutdown := true, forceFrame := true } else s

/-- The acknowledgement, with the scrollback coverage it confirms. -/
def onAck (s : ServerLoop σ) (msg : ClientMessage) : ServerLoop σ :=
  { s with
    producer := (s.producer.ack msg.ackedFrame).2
    ackedSbTotal :=
      match (s.producer.ack msg.ackedFrame).1 with
      | some sbTotal => max s.ackedSbTotal sbTotal
      | none => s.ackedSbTotal }

/-- A keyframe is asked for; after the acknowledgement, which would hold the base again. -/
def onResyncFlag (s : ServerLoop σ) (msg : ClientMessage) : ServerLoop σ :=
  if msg.flagResync then { s with producer := s.producer.dropAckedBase, forceFrame := true } else s

/-- What the peer wants, per message; on (re)activation rows accumulate forward from here. -/
def onCaps (s : ServerLoop σ) (msg : ClientMessage) : ServerLoop σ :=
  let s :=
    if msg.capScrollback && !s.peerWantsScrollback then
      { s with sbFloor := s.term.sbTotal, sbHigh := max s.sbHigh s.term.sbTotal }
    else s
  { s with
    peerWantsScrollback := msg.capScrollback
    peerWantsMorph := msg.capMorph
    peerWantsBaseSum := msg.capBaseSum }

/-- A client's message arrives. -/
def onClientMessage (s : ServerLoop σ) (msg : ClientMessage) : ServerLoop σ :=
  (((s.onShutdownFlag msg).onAck msg).onResyncFlag msg).onCaps msg

/-! ### Production -/

def dirty (s : ServerLoop σ) : Bool := s.src.generation != s.lastGen

/-- The newest visible frame was leapt and everything is acknowledged: one frame is forced, since
nothing else would deliver its content. -/
def nudge (s : ServerLoop σ) : ServerLoop σ :=
  if !s.dirty && !s.shutdown && decide (s.producer.ackedNum ≥ s.producer.currentNum)
      && s.producer.visibleFrameLeapt then
    { s with forceFrame := true }
  else s

def wantVisible (s : ServerLoop σ) (t : Opportunity) : Bool := (s.dirty || s.forceFrame) && t.paced

def wantScrollback (s : ServerLoop σ) (t : Opportunity) : Bool :=
  s.peerWantsScrollback && !s.overlay && !s.term.altScreen && !s.forceFrame && !s.shutdown
    && decide (s.term.sbTotal > s.sbHigh)
    && decide (s.term.sbTotal > max s.ackedSbTotal s.sbFloor)
    && s.producer.hasAckedBase && t.paced

/-- At most one fresh body per opportunity; when both are ready they alternate. -/
def makeScrollback (s : ServerLoop σ) (t : Opportunity) : Bool :=
  s.wantScrollback t && (!s.wantVisible t || !s.lastWasSb)

def makeVisible (s : ServerLoop σ) (t : Opportunity) : Bool :=
  s.wantVisible t && !s.makeScrollback t

/-- The rows a scrollback slot covers and the ring still holds, between the acknowledged coverage
and the slot's. -/
def scrollbackRows (s : ServerLoop σ) : List Bytes :=
  let grown := s.term.sbTotal - s.producer.currentSbTotal
  let upto := s.term.ring.length - grown
  let want := s.producer.currentSbTotal - max s.ackedSbTotal s.sbFloor
  let appended := min want upto
  (s.term.ring.take upto).drop (upto - appended)

/-- The body of the current slot, encoded at the moment it is sent. -/
def body (D : Display τ σ) (s : ServerLoop σ) : FrameBody :=
  if s.currentIsSb then .scrollback s.producer.ackedNum s.scrollbackRows
  else
    stampBaseSum s.peerWantsBaseSum s.producer.ackedDump
      (s.producer.encodeVisible D s.peerWantsMorph)

/-- The frame that carries a body. -/
def frame (s : ServerLoop σ) (t : Opportunity) (body : FrameBody) : ServerFrame where
  flags := t.flags
  caps := t.caps
  frameNum := s.producer.currentNum
  inputAck := t.inputAck
  echoAck := t.echoAck
  body := body

/-- A fresh visible slot. -/
def advanceVisible (s : ServerLoop σ) : ServerLoop σ :=
  { s with
    lastGen := s.src.generation
    forceFrame := false
    producer := s.producer.advanceVisible s.src.dump s.src.snapshot s.src.altScreen s.src.dims
      s.ackedSbTotal
    currentIsSb := false
    lastWasSb := false }

/-- A fresh scrollback slot. -/
def advanceScrollback (s : ServerLoop σ) : ServerLoop σ :=
  { s with
    producer := s.producer.advanceScrollback s.term.sbTotal
    sbHigh := s.term.sbTotal
    currentIsSb := true
    lastWasSb := true }

/-- Sends the current slot, encoded now. -/
def sendCurrent (D : Display τ σ) (s : ServerLoop σ) (t : Opportunity) :
    Option ServerFrame × ServerLoop σ :=
  (some (s.frame t (s.body D)), s)

/-- **One iteration's production**: the frame sent, if any, and the state afterwards. -/
def produce (D : Display τ σ) (s : ServerLoop σ) (t : Opportunity) :
    Option ServerFrame × ServerLoop σ :=
  let s := s.nudge
  if s.makeVisible t then s.advanceVisible.sendCurrent D t
  else if s.makeScrollback t then s.advanceScrollback.sendCurrent D t
  else if decide (s.producer.ackedNum < s.producer.currentNum) && t.rtoDue then s.sendCurrent D t
  else if t.heartbeatDue
      || (t.forceAck && decide (s.producer.ackedNum ≥ s.producer.currentNum)) then
    (some (s.frame t .empty), s)
  else (none, s)

/-- Whether an iteration sends the current slot again. -/
def retransmits (s : ServerLoop σ) (t : Opportunity) : Bool :=
  !s.nudge.makeVisible t && !s.nudge.makeScrollback t
    && decide (s.nudge.producer.ackedNum < s.nudge.producer.currentNum) && t.rtoDue

/-- **The server would send nothing more on its own**: everything is acknowledged, the screen is the
one last framed, and no frame is forced or about to be. -/
structure Quiescent (s : ServerLoop σ) : Prop where
  acked_current : s.producer.ackedNum = s.producer.currentNum
  clean : s.src.generation = s.lastGen
  unforced : s.forceFrame = false
  unleapt : s.producer.visibleFrameLeapt = false

/-! ### What a message and an iteration do -/

variable (s : ServerLoop σ)

@[simp] theorem onCaps_producer (msg : ClientMessage) : (s.onCaps msg).producer = s.producer := by
  unfold onCaps
  split <;> rfl

@[simp] theorem onCaps_currentIsSb (msg : ClientMessage) : (s.onCaps msg).currentIsSb = s.currentIsSb := by
  unfold onCaps
  split <;> rfl

@[simp] theorem onShutdownFlag_producer (msg : ClientMessage) : (s.onShutdownFlag msg).producer = s.producer := by
  unfold onShutdownFlag
  split <;> rfl

@[simp] theorem onShutdownFlag_currentIsSb (msg : ClientMessage) :
    (s.onShutdownFlag msg).currentIsSb = s.currentIsSb := by
  unfold onShutdownFlag
  split <;> rfl

theorem onClientMessage_producer (msg : ClientMessage) :
    (s.onClientMessage msg).producer = if msg.flagResync then (s.producer.ack msg.ackedFrame).2.dropAckedBase
      else (s.producer.ack msg.ackedFrame).2 := by
  unfold onClientMessage onResyncFlag
  rw [onCaps_producer]
  split <;> simp only [onAck, onShutdownFlag_producer]

@[simp] theorem onClientMessage_currentIsSb (msg : ClientMessage) :
    (s.onClientMessage msg).currentIsSb = s.currentIsSb := by
  unfold onClientMessage onResyncFlag
  rw [onCaps_currentIsSb]
  split <;> simp only [onAck, onShutdownFlag_currentIsSb]

@[simp] theorem onClientMessage_peerWantsBaseSum (msg : ClientMessage) :
    (s.onClientMessage msg).peerWantsBaseSum = msg.capBaseSum := rfl

@[simp] theorem onClientMessage_peerWantsMorph (msg : ClientMessage) :
    (s.onClientMessage msg).peerWantsMorph = msg.capMorph := rfl

@[simp] theorem nudge_producer : s.nudge.producer = s.producer := by
  unfold nudge
  split <;> rfl

@[simp] theorem nudge_currentIsSb : s.nudge.currentIsSb = s.currentIsSb := by
  unfold nudge
  split <;> rfl

@[simp] theorem nudge_peerWantsMorph : s.nudge.peerWantsMorph = s.peerWantsMorph := by
  unfold nudge
  split <;> rfl

@[simp] theorem nudge_peerWantsBaseSum : s.nudge.peerWantsBaseSum = s.peerWantsBaseSum := by
  unfold nudge
  split <;> rfl

theorem hasAckedBase_of_makeScrollback {s : ServerLoop σ} {t : Opportunity}
    (h : s.makeScrollback t = true) : s.producer.hasAckedBase = true := by
  simp only [makeScrollback, wantScrollback, Bool.and_eq_true] at h
  exact h.1.1.2

/-- **Everything an iteration can send**: a fresh visible slot, a fresh scrollback slot, the current
slot again while it is unacknowledged, an empty frame, or nothing. -/
theorem produce_cases (D : Display τ σ) (s : ServerLoop σ) (t : Opportunity) :
    s.produce D t = s.nudge.advanceVisible.sendCurrent D t ∨ (s.producer.hasAckedBase = true ∧
      s.produce D t = s.nudge.advanceScrollback.sendCurrent D t) ∨
    (s.retransmits t = true ∧ s.produce D t = s.nudge.sendCurrent D t) ∨
    s.produce D t = (some (s.nudge.frame t .empty), s.nudge) ∨ s.produce D t = (none, s.nudge) := by
  unfold produce
  simp only
  split
  · exact .inl rfl
  · rename_i hvis
    split
    case isTrue hsb =>
      have hbase := hasAckedBase_of_makeScrollback hsb
      rw [nudge_producer] at hbase
      exact .inr (.inl ⟨hbase, rfl⟩)
    case isFalse hsb =>
      split
      case isTrue hre =>
        refine .inr (.inr (.inl ⟨?_, rfl⟩))
        rw [retransmits, Bool.not_eq_true _ |>.mp hvis, Bool.not_eq_true _ |>.mp hsb]
        exact hre
      case isFalse =>
        split
        · exact .inr (.inr (.inr (.inl rfl)))
        · exact .inr (.inr (.inr (.inr rfl)))

end ServerLoop

end Posh
