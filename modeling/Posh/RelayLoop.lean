/-
**A session relayed to a roaming client.**

Three machines and two links: the session daemon with its lossy client, the bridge on the session's
host, and the roaming client.  The socket between daemon and bridge is ordered and lossless, and its
bytes move when the two ends please; between bridge and client a frame or a message, once sent, can
arrive at any later moment and any number of times.  The session prints what it likes, and overlays
swap the source broadcast.

The daemon's frames are numbered from 0 by each connection, so a connection is linked above the
client's frame ceiling; a client that comes from another connection may still have frames and messages
of that one in flight.
-/

import Posh.RoamingClient
import Posh.SessionBridge

set_option autoImplicit false

namespace Posh

open DaemonClient (logAfter queue_producer)
open DaemonClient
open RecordWire

variable {τ σ : Type}

/-! ### The system -/

/-- How a relayed attachment starts. -/
structure RelayConfig where
  rows : ℕ
  cols : ℕ
  ringCapacity : ℕ := 1
  /-- the client takes growth bodies -/
  scrollback : Bool := true
  /-- rows already in the session's scrollback -/
  sbFloor : ℕ := 0
  /-- the client verifies bases -/
  baseSums : Bool
  /-- the client's frame ceiling when the daemon was linked -/
  frameOffset : ℕ := 0

/-- The daemon's client, the bridge and the roaming client, with everything in flight. -/
structure RelayLoop (τ σ : Type) where
  daemon : DaemonClient σ
  bridge : SessionBridge
  client : ClientState τ
  /-- records written to the daemon's socket that it has not read yet -/
  up : List DaemonRecord := []
  /-- every frame sent to the client -/
  frames : List ServerFrame := []
  /-- every client message sent -/
  messages : List ClientMessage := []
  /-- history: the kind and the dump recorded for each of the daemon's frame numbers -/
  log : List LoggedFrame := initialLog

namespace RelayLoop

/-- A client that has shown nothing yet. -/
def freshClient (D : Display τ σ) (c : RelayConfig) : ClientState τ where
  rows := c.rows
  cols := c.cols
  applier := .dumpDiff
  serverTerm := D.withScrollback c.rows c.cols 0
  history := { scrollback := .new c.ringCapacity }

/-- A fresh daemon connection for a client that may have frames and messages of its own in flight. -/
def link (D : Display τ σ) (c : RelayConfig) (client : ClientState τ) (frames : List ServerFrame)
    (messages : List ClientMessage) : RelayLoop τ σ where
  daemon :=
    { producer := .new D c.rows c.cols
      lossy := true
      capMorph := client.applier.advertisesMorph
      capScrollback := c.scrollback
      capBaseSum := c.baseSums
      sbFloor := c.sbFloor }
  bridge := .link c.frameOffset 0
  client := client
  frames := frames
  messages := messages

/-- What can happen.  Frames and messages are named by their position in the order of sending. -/
inductive Act (σ : Type) where
  /-- the daemon broadcasts a screen -/
  | broadcast (src : Screen σ) (hdr : FrameHeader)
  /-- the source broadcast is swapped for another, which is broadcast at once -/
  | swapSource (src : Screen σ) (hdr : FrameHeader)
  /-- the daemon looks whether rows entered the scrollback -/
  | scrollback (term : SessionTerm) (hdr : FrameHeader)
  /-- `n` bytes pass from the daemon to the bridge -/
  | writeDown (n : ℕ)
  /-- the bridge parses a record and forwards its frame -/
  | readDown (echoAck : ℕ)
  /-- the bridge's retransmission timer fires -/
  | resendHeld
  /-- the bridge sends an empty frame -/
  | heartbeat (echoAck : ℕ)
  /-- `n` records pass from the bridge to the daemon's socket -/
  | writeUp (n : ℕ)
  /-- the daemon reads a record; a keyframe it owes shows the screen of that moment -/
  | readUp (src : Screen σ) (hdr : FrameHeader)
  /-- the `i`-th message arrives at the bridge -/
  | deliverMessage (i : ℕ)
  /-- the client wants a keyframe (the user or a watchdog asks) -/
  | requestResync
  /-- the client sends a message, with some of its input -/
  | send (inputBase : ℕ) (input : Bytes)
  /-- the `i`-th frame arrives at the client -/
  | deliverFrame (i : ℕ)

/-- The daemon moves on; a fresh slot would be of the given kind. -/
def setDaemon (s : RelayLoop τ σ) (visible : Bool) (daemon : DaemonClient σ) : RelayLoop τ σ :=
  { s with daemon, log := DaemonClient.logAfter s.log s.daemon daemon visible }

/-- The bridge parsed the frame `f` of the daemon and has the bytes `rest` left. -/
def relay (s : RelayLoop τ σ) (echoAck : ℕ) (f : ServerFrame) (rest : List (Option ServerFrame)) :
    RelayLoop τ σ :=
  let r := ({ s.bridge with daemon := { s.bridge.daemon with read := rest } } :
    SessionBridge).forwardFrame echoAck f
  { s with bridge := r.2, frames := s.frames ++ [r.1] }

def daemonRead (D : Display τ σ) (wireLen : ServerFrame → ℕ) (s : RelayLoop τ σ) (src : Screen σ)
    (hdr : FrameHeader) : DaemonRecord → RelayLoop τ σ
  | .frameAck ack => s.setDaemon true (s.daemon.handleFrameAck D wireLen ack src hdr)
  | .input _ => s

/-- The client's message of this moment; the keyframe request rides it once. -/
def clientMessage (c : RelayConfig) (st : ClientState τ) (inputBase : ℕ) (input : Bytes) :
    ClientMessage where
  flagResync := st.resync
  capScrollback := c.scrollback
  capMorph := st.applier.advertisesMorph
  capBaseSum := c.baseSums
  ackedFrame := st.appliedNum
  inputBase := inputBase
  input := input

/-- One step of the system; `wireLen` gives the length of a record on the daemon's socket. -/
def step (D : Display τ σ) (wireLen : ServerFrame → ℕ) (c : RelayConfig) (s : RelayLoop τ σ) :
    Act σ → Option (RelayLoop τ σ)
  | .broadcast src hdr => some (s.setDaemon true (s.daemon.queueFrame D wireLen src hdr))
  | .swapSource src hdr =>
    some (s.setDaemon true (s.daemon.dropAckedBase.queueFrame D wireLen src hdr))
  | .scrollback term hdr =>
    some (s.setDaemon false (s.daemon.maybeQueueScrollback wireLen term hdr))
  | .writeDown n =>
    some { s with
      daemon := s.daemon.drain n
      bridge := { s.bridge with
        daemon := { s.bridge.daemon with
          read := s.bridge.daemon.read ++ s.daemon.writeBuf.take n } } }
  | .readDown echoAck =>
    (RecordWire.takeRecord s.bridge.daemon.read).map fun r => s.relay echoAck r.1 r.2
  | .resendHeld => some { s with frames := s.frames ++ s.bridge.daemon.held.frames }
  | .heartbeat echoAck => some { s with frames := s.frames ++ [s.bridge.heartbeat echoAck] }
  | .writeUp n =>
    some { s with
      up := s.up ++ s.bridge.daemon.write.take n
      bridge := { s.bridge with
        daemon := { s.bridge.daemon with write := s.bridge.daemon.write.drop n } } }
  | .readUp src hdr =>
    match s.up with
    | [] => none
    | r :: rest => some (({ s with up := rest } : RelayLoop τ σ).daemonRead D wireLen src hdr r)
  | .deliverMessage i =>
    s.messages[i]?.map fun m => { s with bridge := (s.bridge.clientMessage m).2 }
  | .requestResync => some { s with client := { s.client with resync := true } }
  | .send inputBase input =>
    some { s with
      client := { s.client with resync := false }
      messages := s.messages ++ [clientMessage c s.client inputBase input] }
  | .deliverFrame i =>
    s.frames[i]?.map fun f => { s with client := (s.client.applyFrame D f).1 }

/-- The frames on the daemon's socket that the bridge has not forwarded yet, in order. -/
def pending (s : RelayLoop τ σ) : List ServerFrame :=
  RecordWire.records (s.bridge.daemon.read ++ s.daemon.writeBuf)

/-- The records on their way to the daemon. -/
def upward (s : RelayLoop τ σ) : List DaemonRecord := s.up ++ s.bridge.daemon.write

/-! ### The daemon and the log -/

variable (s : RelayLoop τ σ) {daemon : DaemonClient σ} {f : ServerFrame}

theorem setDaemon_of_currentNum (daemon : DaemonClient σ)
    (hnum : daemon.producer.currentNum = s.daemon.producer.currentNum) (visible : Bool)
    (daemon' : DaemonClient σ) :
    ({ s with daemon } : RelayLoop τ σ).setDaemon visible daemon' = s.setDaemon visible daemon' := by
  rw [setDaemon, setDaemon, logAfter, logAfter, hnum]

theorem setDaemon_quiet (hnum : daemon.producer.currentNum = s.daemon.producer.currentNum) (visible : Bool) :
    s.setDaemon visible daemon = { s with daemon } := by
  rw [setDaemon, logAfter, if_pos hnum]

/-- **A screen broadcast to a lossy client** is logged, and its frame goes to the end of the
socket. -/
theorem setDaemon_queueFrame (D : Display τ σ) (wireLen : ServerFrame → ℕ) (s : RelayLoop τ σ)
    (hl : s.daemon.lossy = true) (hc : s.daemon.coalesce = false) (src : Screen σ)
    (hdr : FrameHeader) :
    s.setDaemon true (s.daemon.queueFrame D wireLen src hdr) = { s with
        daemon := ({ s.daemon with producer := s.daemon.advanceVisible src } :
          DaemonClient σ).queue wireLen (s.daemon.visibleFrame D src hdr)
        log := s.log ++ [⟨true, src.dump⟩] } := by
  have hco : s.daemon.coalescing = false := by rw [coalescing, hc, Bool.false_and]
  have hw : s.daemon.withhold = true := by rw [withhold, hl, Bool.true_or]
  have hne : (s.daemon.advanceVisible src).currentNum ≠ s.daemon.producer.currentNum := by
    show s.daemon.producer.current.num + 1 ≠ s.daemon.producer.current.num
    omega
  rw [queueFrame_uncoalesced D wireLen hco, producerAfterVisible,
    if_pos hw, setDaemon, logAfter, queue_producer, if_neg hne]
  rfl

/-- **A scrollback opportunity of a lossy client**: nothing, or a growth slot is logged and its frame
goes to the end of the socket. -/
theorem setDaemon_scrollback (wireLen : ServerFrame → ℕ) (s : RelayLoop τ σ)
    (hl : s.daemon.lossy = true) (term : SessionTerm) (hdr : FrameHeader) :
    s.setDaemon false (s.daemon.maybeQueueScrollback wireLen term hdr) = s ∨
      s.setDaemon false (s.daemon.maybeQueueScrollback wireLen term hdr) =
      { s with
          daemon := ({ s.daemon with
              producer := s.daemon.producer.advanceScrollbackAfterVisible term.sbTotal } :
            DaemonClient σ).queue wireLen (s.daemon.scrollbackFrame term hdr)
          log := s.log ++ [⟨false, s.daemon.producer.current.data⟩] } := by
  rcases s.daemon.maybeQueueScrollback_cases wireLen term hdr with heq | ⟨-, heq⟩
  · exact .inl (by rw [heq, setDaemon, logAfter, if_pos rfl])
  · have hw : ({ s.daemon with
        producer := s.daemon.producer.advanceScrollbackAfterVisible term.sbTotal } :
          DaemonClient σ).withhold = true := by
      show (s.daemon.lossy || s.daemon.coalescing) = true
      rw [hl, Bool.true_or]
    have hne : (s.daemon.producer.advanceScrollbackAfterVisible term.sbTotal).currentNum ≠
        s.daemon.producer.currentNum := by
      show s.daemon.producer.current.num + 1 ≠ s.daemon.producer.current.num
      omega
    refine .inr ?_
    rw [heq, ackScrollback, if_pos hw, setDaemon, logAfter, queue_producer, if_neg hne]
    rfl

/-- **An acknowledgement of a lossy client**: its base moves, and a keyframe that is owed is broadcast
from there. -/
theorem setDaemon_handleFrameAck (D : Display τ σ) (wireLen : ServerFrame → ℕ) (s : RelayLoop τ σ)
    (hl : s.daemon.lossy = true) (ack : FrameAck) (src : Screen σ) (hdr : FrameHeader) :
    let applied : RelayLoop τ σ := { s with daemon := (s.daemon.applyFrameAck ack).2 }
    s.setDaemon true (s.daemon.handleFrameAck D wireLen ack src hdr) =
      if ack.resync then applied.setDaemon true (applied.daemon.queueFrame D wireLen src hdr)
      else applied := by
  intro applied
  obtain ⟨hresync, hproducer, -⟩ := applyFrameAck_eq (.inl hl) ack
  have hnum : (s.daemon.applyFrameAck ack).2.producer.currentNum = s.daemon.producer.currentNum := by
    rw [hproducer]
    split <;> exact congrArg ProducedFrame.num (s.daemon.producer.ack_current ack.ackedFrame).1
  rw [handleFrameAck, hresync, s.setDaemon_of_currentNum _ hnum]
  split
  · rfl
  · exact s.setDaemon_quiet hnum true

theorem pending_queue {len : ℕ}
    (hbuf : daemon.writeBuf = s.daemon.writeBuf ++ wireOf len f) (log : List LoggedFrame) :
    ({ s with daemon, log } : RelayLoop τ σ).pending = s.pending ++ [f] := by
  rw [pending, hbuf, ← List.append_assoc, records_append, records_wireOf]
  rfl

theorem pending_writeDown (n : ℕ) : ({ s with
      daemon := s.daemon.drain n
      bridge := { s.bridge with
        daemon := { s.bridge.daemon with
          read := s.bridge.daemon.read ++ s.daemon.writeBuf.take n } } } : RelayLoop τ σ).pending =
      s.pending := by
  show records ((s.bridge.daemon.read ++ s.daemon.writeBuf.take n) ++ s.daemon.writeBuf.drop n) = _
  rw [List.append_assoc, List.take_append_drop]
  rfl

theorem pending_relay (echoAck : ℕ) {rest : List (Option ServerFrame)}
    (htake : takeRecord s.bridge.daemon.read = some (f, rest)) :
    s.pending = f :: (s.relay echoAck f rest).pending := by
  rw [pending, records_append, takeRecord_spec htake, List.cons_append, ← records_append]
  rfl

theorem log_step (D : Display τ σ) (wireLen : ServerFrame → ℕ) (c : RelayConfig)
    {s s' : RelayLoop τ σ} {a : Act σ} (hstep : step D wireLen c s a = some s') : s.log <+: s'.log := by
  have hset : ∀ (s : RelayLoop τ σ) visible daemon, s.log <+: (s.setDaemon visible daemon).log := by
    intro s visible daemon
    rw [setDaemon, logAfter]
    split
    · exact List.prefix_refl _
    · exact List.prefix_append _ _
  cases a with
  | broadcast src hdr | swapSource src hdr | scrollback term hdr =>
    rw [step, Option.some.injEq] at hstep
    subst hstep
    exact hset _ _ _
  | writeDown | resendHeld | heartbeat | writeUp | requestResync | send =>
    rw [step, Option.some.injEq] at hstep
    subst hstep
    exact List.prefix_refl _
  | readDown | deliverMessage | deliverFrame =>
    rw [step, Option.map_eq_some_iff] at hstep
    obtain ⟨x, -, rfl⟩ := hstep
    exact List.prefix_refl _
  | readUp src hdr =>
    simp only [step] at hstep
    cases hup : s.up with
    | nil =>
      rw [hup] at hstep
      cases hstep
    | cons r rest =>
      rw [hup] at hstep
      simp only [Option.some.injEq] at hstep
      subst hstep
      cases r with
      | frameAck ack => exact hset _ _ _
      | input bytes => exact List.prefix_refl _

end RelayLoop

end Posh
