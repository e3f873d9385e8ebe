/-
**The session daemon's side of one framed client.**

The daemon keeps a frame producer for each framed client and a buffer of the bytes not yet written to
its socket.  Three kinds of client differ in who acknowledges: a reliable one is acknowledged by the
daemon itself as soon as a frame is queued; for a lossy one (a relay over datagrams) and for a
coalescing one (a local viewport) the base advances on the client's own `FrameAck` records only.  For
a coalescing client the newest visible frame replaces its predecessor in the buffer, as long as none
of the predecessor's bytes were written.

The bytes of a record matter only by their number, which is a parameter (`wireLen`).
-/

import Posh.RoamingServer
import Posh.Lib.RecordWire

set_option autoImplicit false

namespace Posh

variable {τ σ : Type}

/-! ### Records and state -/

/-- A client's acknowledgement record. -/
structure FrameAck where
  ackedFrame : ℕ
  /-- the client asks for a keyframe -/
  resync : Bool := false
  /-- the client turns coalescing off -/
  coalesceOff : Bool := false
  deriving DecidableEq, Repr

/-- What a frame of the daemon carries besides its number and body. -/
structure FrameHeader where
  flags : UInt8 := 0
  caps : List Cap := []
  deriving DecidableEq, Repr

/-- The daemon's state for one framed client. -/
structure DaemonClient (σ : Type) where
  producer : FrameProducer σ
  /-- a relay over datagrams: never acknowledged by the daemon itself -/
  lossy : Bool := false
  /-- the client negotiated coalescing -/
  coalesce : Bool := false
  /-- and turned it off for now -/
  coalesceOff : Bool := false
  capMorph : Bool := false
  capScrollback : Bool := false
  capBaseSum : Bool := false
  ackedSbTotal : ℕ := 0
  sbFloor : ℕ := 0
  /-- the bytes not yet written to the socket -/
  writeBuf : List (Option ServerFrame) := []
  /-- where the newest visible frame starts in the buffer, while it may still be replaced -/
  pendingFrameStart : Option ℕ := none

namespace DaemonClient

/-- Frames are coalesced right now. -/
def coalescing (c : DaemonClient σ) : Bool := c.coalesce && !c.coalesceOff

/-- The daemon does not acknowledge this client's frames itself. -/
def withhold (c : DaemonClient σ) : Bool := c.lossy || c.coalescing

def usesMorph (c : DaemonClient σ) : Bool := c.lossy && c.capMorph

/-- Appends a record; whatever it is, the visible frame before it can no longer be replaced. -/
def queue (wireLen : ServerFrame → ℕ) (c : DaemonClient σ) (f : ServerFrame) : DaemonClient σ :=
  { c with
    pendingFrameStart := none
    writeBuf := c.writeBuf ++ RecordWire.wireOf (wireLen f) f }

/-- The first `n` bytes are written; the place of a frame none of whose bytes were written moves
along. -/
def drain (c : DaemonClient σ) (n : ℕ) : DaemonClient σ :=
  { c with
    writeBuf := c.writeBuf.drop n
    pendingFrameStart :=
      c.pendingFrameStart.bind fun start => if n ≤ start then some (start - n) else none }

/-! ### Visible frames -/

/-- The producer with the screen as its newest visible frame. -/
def advanceVisible (c : DaemonClient σ) (src : Screen σ) : FrameProducer σ :=
  c.producer.advanceVisible src.dump src.snapshot src.altScreen src.dims 0

/-- The frame of a screen: encoded against the acknowledged base, with its checksum for a lossy
client that verifies bases. -/
def visibleFrame (D : Display τ σ) (c : DaemonClient σ) (src : Screen σ) (hdr : FrameHeader) :
    ServerFrame where
  flags := hdr.flags
  caps := hdr.caps
  frameNum := (c.advanceVisible src).currentNum
  body :=
    stampBaseSum (c.lossy && c.capBaseSum) (c.advanceVisible src).ackedDump
      ((c.advanceVisible src).encodeVisible D c.usesMorph)

/-- The producer after a visible frame, which the daemon acknowledges itself unless it is withheld. -/
def producerAfterVisible (c : DaemonClient σ) (src : Screen σ) : FrameProducer σ :=
  if c.withhold then c.advanceVisible src
  else ((c.advanceVisible src).ack (c.advanceVisible src).currentNum).2

/-- The buffer a coalesced frame goes to: cut where the frame it replaces starts. -/
def truncated (c : DaemonClient σ) : List (Option ServerFrame) :=
  match c.pendingFrameStart with
  | some start => if start ≤ c.writeBuf.length then c.writeBuf.take start else c.writeBuf
  | none => c.writeBuf

/-- The bytes a visible frame is appended to. -/
def kept (c : DaemonClient σ) : List (Option ServerFrame) :=
  if c.coalescing then c.truncated else c.writeBuf

/-- **Queues a visible frame.** -/
def queueFrame (D : Display τ σ) (wireLen : ServerFrame → ℕ) (c : DaemonClient σ) (src : Screen σ)
    (hdr : FrameHeader) : DaemonClient σ :=
  let frame := c.visibleFrame D src hdr
  let c' := { c with producer := c.producerAfterVisible src }
  if c.coalescing then
    { ({ c' with writeBuf := c.truncated } : DaemonClient σ).queue wireLen frame with
      pendingFrameStart := some c.truncated.length }
  else c'.queue wireLen frame

/-! ### Scrollback -/

/-- The client is due the rows that entered the scrollback. -/
def scrollbackDue (c : DaemonClient σ) (term : SessionTerm) : Bool :=
  c.capScrollback && !term.altScreen
    && decide (term.sbTotal > max c.ackedSbTotal c.sbFloor) && c.producer.hasAckedBase

/-- The growth frame of a terminal: it threads off the newest visible frame. -/
def scrollbackFrame (c : DaemonClient σ) (term : SessionTerm) (hdr : FrameHeader) : ServerFrame :=
  let producer := c.producer.advanceScrollbackAfterVisible term.sbTotal
  let grown := term.sbTotal - producer.currentSbTotal
  let upto := term.ring.length - grown
  let appended := min (producer.currentSbTotal - max c.ackedSbTotal c.sbFloor) upto
  { flags := hdr.flags
    caps := hdr.caps
    frameNum := producer.currentNum
    body := .scrollback producer.lastVisibleNum ((term.ring.take upto).drop (upto - appended)) }

/-- The slot's acknowledgement by the daemon itself, unless it is withheld. -/
def ackScrollback (c : DaemonClient σ) : DaemonClient σ :=
  if c.withhold then c
  else
    { c with
      producer := (c.producer.ack c.producer.currentNum).2
      ackedSbTotal :=
        match (c.producer.ack c.producer.currentNum).1 with
        | some sbTotal => max c.ackedSbTotal sbTotal
        | none => c.ackedSbTotal }

/-- **Queues a growth frame, if one is due.** -/
def maybeQueueScrollback (wireLen : ServerFrame → ℕ) (c : DaemonClient σ) (term : SessionTerm)
    (hdr : FrameHeader) : DaemonClient σ :=
  if c.scrollbackDue term then
    let frame := c.scrollbackFrame term hdr
    let producer := c.producer.advanceScrollbackAfterVisible term.sbTotal
    ({ c with producer } : DaemonClient σ).ackScrollback.queue wireLen frame
  else c

/-! ### Acknowledgements -/

/-- The runtime switch of coalescing, which only a client that negotiated it has. -/
def applyCoalesceOff (c : DaemonClient σ) (ack : FrameAck) : DaemonClient σ :=
  if c.coalesce then
    { c with
      coalesceOff := ack.coalesceOff
      pendingFrameStart := if ack.coalesceOff then none else c.pendingFrameStart }
  else c

/-- Applies an acknowledgement; the flag tells whether the base was dropped and a keyframe is owed. -/
def applyFrameAck (c : DaemonClient σ) (ack : FrameAck) : Bool × DaemonClient σ :=
  -- a reliable client never sends one
  if !c.lossy && !c.coalesce then (false, c)
  else
    let c := c.applyCoalesceOff ack
    let c :=
      { c with
        producer := (c.producer.ack ack.ackedFrame).2
        ackedSbTotal :=
          match (c.producer.ack ack.ackedFrame).1 with
          | some sbTotal => max c.ackedSbTotal sbTotal
          | none => c.ackedSbTotal }
    if ack.resync then (true, { c with producer := c.producer.dropAckedBase }) else (false, c)

/-- **Handles an acknowledgement**: a keyframe that is owed is queued at once, from the screen
broadcast at that moment. -/
def handleFrameAck (D : Display τ σ) (wireLen : ServerFrame → ℕ) (c : DaemonClient σ) (ack : FrameAck)
    (src : Screen σ) (hdr : FrameHeader) : DaemonClient σ :=
  if (c.applyFrameAck ack).1 then (c.applyFrameAck ack).2.queueFrame D wireLen src hdr
  else (c.applyFrameAck ack).2

/-- The broadcast source is swapped: the next frame is a keyframe. -/
def dropAckedBase (c : DaemonClient σ) : DaemonClient σ :=
  { c with producer := c.producer.dropAckedBase }

/-- The log after a step of the daemon: a fresh slot is recorded. -/
def logAfter (log : List LoggedFrame) (d d' : DaemonClient σ) (visible : Bool) : List LoggedFrame :=
  if d'.producer.currentNum = d.producer.currentNum then log
  else log ++ [⟨visible, d'.producer.current.data⟩]

/-! ### What the operations do -/

@[simp] theorem queue_producer (wireLen : ServerFrame → ℕ) (c : DaemonClient σ) (f : ServerFrame) :
    (c.queue wireLen f).producer = c.producer := rfl

/-- **What a visible frame does**: the producer moves on, and the frame goes to the end of what is
kept of the buffer. -/
theorem queueFrame_eq (D : Display τ σ) (wireLen : ServerFrame → ℕ) (c : DaemonClient σ)
    (src : Screen σ) (hdr : FrameHeader) :
    c.queueFrame D wireLen src hdr =
  { c with
        producer := c.producerAfterVisible src
        writeBuf := c.kept ++
          RecordWire.wireOf (wireLen (c.visibleFrame D src hdr)) (c.visibleFrame D src hdr)
        pendingFrameStart := if c.coalescing then some c.kept.length else none } := by
  unfold queueFrame kept
  cases c.coalescing <;> rfl

theorem queueFrame_uncoalesced (D : Display τ σ) (wireLen : ServerFrame → ℕ) {c : DaemonClient σ}
    (h : c.coalescing = false) (src : Screen σ) (hdr : FrameHeader) : c.queueFrame D wireLen src hdr =
      ({ c with producer := c.producerAfterVisible src } : DaemonClient σ).queue wireLen
        (c.visibleFrame D src hdr) := by
  rw [queueFrame_eq, kept, h]
  rfl

theorem maybeQueueScrollback_cases (wireLen : ServerFrame → ℕ) (c : DaemonClient σ)
    (term : SessionTerm) (hdr : FrameHeader) : c.maybeQueueScrollback wireLen term hdr = c ∨
      (c.producer.hasAckedBase = true ∧ c.maybeQueueScrollback wireLen term hdr =
        ({ c with producer := c.producer.advanceScrollbackAfterVisible term.sbTotal } :
          DaemonClient σ).ackScrollback.queue wireLen (c.scrollbackFrame term hdr)) := by
  unfold maybeQueueScrollback
  split
  case isTrue h =>
    simp only [scrollbackDue, Bool.and_eq_true] at h
    exact .inr ⟨h.2, rfl⟩
  case isFalse => exact .inl rfl

theorem producerAfterVisible_cases (c : DaemonClient σ) (src : Screen σ) :
    (c.withhold = true ∧ c.producerAfterVisible src = c.advanceVisible src) ∨ (c.withhold = false ∧
        c.producerAfterVisible src = ((c.advanceVisible src).ack (c.producer.current.num + 1)).2) := by
  unfold producerAfterVisible
  cases hw : c.withhold with
  | true => exact .inl ⟨rfl, rfl⟩
  | false => exact .inr ⟨rfl, rfl⟩

theorem producerAfterVisible_current (c : DaemonClient σ) (src : Screen σ) :
    (c.producerAfterVisible src).current = (c.advanceVisible src).current ∧
      (c.producerAfterVisible src).lastVisibleNum = c.producer.current.num + 1 := by
  rcases c.producerAfterVisible_cases src with ⟨-, heq⟩ | ⟨-, heq⟩
  · rw [heq]
    exact ⟨rfl, rfl⟩
  · rw [heq]
    exact FrameProducer.ack_current _ _

theorem ackScrollback_producer (c : DaemonClient σ) : (c.ackScrollback.producer = c.producer ∨
        c.ackScrollback.producer = (c.producer.ack c.producer.current.num).2) ∧
      c.ackScrollback.lossy = c.lossy ∧ c.ackScrollback.coalesce = c.coalesce ∧
      c.ackScrollback.writeBuf = c.writeBuf := by
  unfold ackScrollback
  split
  case isTrue => exact ⟨.inl rfl, rfl, rfl, rfl⟩
  case isFalse => exact ⟨.inr rfl, rfl, rfl, rfl⟩

/-- An acknowledgement of a client that is not acknowledged by the daemon moves its base, or drops
it; the place of a frame that may be replaced is at most forgotten. -/
theorem applyFrameAck_eq {c : DaemonClient σ} (h : c.lossy = true ∨ c.coalesce = true) (ack : FrameAck) :
    (c.applyFrameAck ack).1 = ack.resync ∧ (c.applyFrameAck ack).2.producer =
        (if ack.resync then (c.producer.ack ack.ackedFrame).2.dropAckedBase
          else (c.producer.ack ack.ackedFrame).2) ∧
      (c.applyFrameAck ack).2.lossy = c.lossy ∧ (c.applyFrameAck ack).2.coalesce = c.coalesce ∧
      (c.applyFrameAck ack).2.capMorph = c.capMorph ∧ (c.applyFrameAck ack).2.capBaseSum = c.capBaseSum ∧
      (c.applyFrameAck ack).2.writeBuf = c.writeBuf ∧
      ((c.applyFrameAck ack).2.pendingFrameStart = c.pendingFrameStart ∨
        (c.applyFrameAck ack).2.pendingFrameStart = none) := by
  have hframed : (!c.lossy && !c.coalesce) = false := by
    rcases h with h | h
    · rw [h, Bool.not_true, Bool.false_and]
    · rw [h, Bool.not_true, Bool.and_false]
  unfold applyFrameAck applyCoalesceOff
  rw [if_neg (by rw [hframed]; exact Bool.false_ne_true)]
  cases hc : c.coalesce <;> cases ack.resync <;> cases ack.coalesceOff <;> simp [hc]

end DaemonClient

end Posh
