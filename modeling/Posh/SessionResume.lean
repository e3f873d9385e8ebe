/-
**Resuming a session across transport rebuilds.**

A viewport types into its outbox; the local mux daemon carries its messages to the remote host, where
a bridge accepts fresh input and writes it to the session daemon, and relays the daemon's frames back
with the bridge's input offset.  When the transport is lost, the remote end is lost with it, while the
viewport, the local mux and the session daemon live on.  The mux keeps a cursor of the offsets it saw
on relayed frames (`SessionResume`), quotes it in the OPEN of the next transport, and the fresh bridge
resumes its inbox there.

The cursor is what the mux *saw acknowledged*.  The daemon has what the bridge *wrote*, and the inbox
is at what the bridge *accepted*.  When a transport is lost while these differ, the next bridge feeds
bytes twice, or skips some; and a bridge that is re-homed to another session drops the input it had
accepted and not written yet.  A run in which the cursor names what was written at each loss, and
nothing is unwritten at each re-home (`ResumeLoop.keepsCursor`), delivers the input exactly once.
-/

import Posh.SessionBridge

set_option autoImplicit false

namespace Posh

open WordBytes

/-! ### The cursor -/

/-- The offsets a session resumes at when its transport is rebuilt. -/
structure SessionResume where
  /-- the frame ceiling -/
  frame : ℕ
  /-- the offset of the input stream -/
  input : ℕ
  /-- the offset of the echo acknowledgement -/
  echo : ℕ
  deriving DecidableEq, Repr

namespace SessionResume

/-- Nothing to resume. -/
def initial : SessionResume := ⟨0, 0, 0⟩

def isInitial (r : SessionResume) : Bool := r == initial

/-- Advances the cursor from the acknowledgements of a relayed frame; no offset ever moves back. -/
def advanceFromFrame (r : SessionResume) (frameNum inputAck echoAck : ℕ) : SessionResume where
  frame := max r.frame frameNum
  input := max r.input inputAck
  echo := max r.echo echoAck

/-- The version byte of the resume block. -/
def resumeV1 : UInt8 := 1

def resumeV1Len : ℕ := 1 + 8 * 3

def resumeLegacyLen : ℕ := 8

/-- The body of an OPEN: the target, and the cursor when there is something to resume. -/
def encodeOpen (target : Bytes) (r : SessionResume) : Bytes :=
  if r.isInitial then target
  else
    target ++ 0 :: resumeV1 :: (WordBytes.le 8 r.frame ++ WordBytes.le 8 r.input ++ WordBytes.le 8 r.echo)

/-- The target and the cursor of an OPEN's body.  A block of another length belongs to the target. -/
def decodeOpen (payload : Bytes) : Bytes × SessionResume :=
  match payload.dropWhile (· != 0) with
  | [] => (payload, initial)
  | _ :: tail =>
    let target := payload.takeWhile (· != 0)
    if tail.length = resumeV1Len ∧ tail.head? = some resumeV1 then
      let word := fun lo => WordBytes.ofLe ((tail.drop lo).take 8)
      (target, ⟨word 1, word 9, word 17⟩)
    else if tail.length = resumeLegacyLen then (target, ⟨WordBytes.ofLe tail, 0, 0⟩)
    else (payload, initial)

theorem word_append (pre rest : Bytes) (n : ℕ) (hn : n < 2 ^ 64) :
    ofLe (((pre ++ (le 8 n ++ rest)).drop pre.length).take 8) = n := by
  rw [List.drop_left, List.take_append_of_le_length (by simp),
    List.take_of_length_le (by simp), ofLe_le]
  exact Nat.mod_eq_of_lt hn

/-- **The cursor survives the wire**: a target never contains a zero byte, and the offsets are
words. -/
theorem decodeOpen_encodeOpen {target : Bytes} {r : SessionResume} (htarget : 0 ∉ target)
    (hframe : r.frame < 2 ^ 64) (hinput : r.input < 2 ^ 64) (hecho : r.echo < 2 ^ 64) :
    decodeOpen (encodeOpen target r) = (target, r) := by
  have hall : ∀ b ∈ target, (b != 0) = true := by
    intro b hb
    rw [bne_iff_ne]
    rintro rfl
    exact htarget hb
  unfold encodeOpen
  split
  case isTrue h =>
    rw [isInitial, beq_iff_eq] at h
    have hdrop : target.dropWhile (· != 0) = [] := by
      rw [← List.append_nil target, List.dropWhile_append_of_pos hall]
      rfl
    rw [decodeOpen, hdrop, h]
  case isFalse =>
    generalize htail : resumeV1 :: (le 8 r.frame ++ le 8 r.input ++ le 8 r.echo) = tail
    have hdrop : (target ++ 0 :: tail).dropWhile (· != 0) = 0 :: tail := by
      rw [List.dropWhile_append_of_pos hall]
      rfl
    have htake : (target ++ 0 :: tail).takeWhile (· != 0) = target := by
      rw [List.takeWhile_append_of_pos hall]
      simp
    have hlen : tail.length = resumeV1Len := by
      rw [← htail]
      simp [resumeV1Len]
    have hhead : tail.head? = some resumeV1 := by rw [← htail]; rfl
    have h1 : ofLe ((tail.drop 1).take 8) = r.frame := by
      rw [← htail, List.append_assoc]
      exact word_append [resumeV1] _ r.frame hframe
    have h9 : ofLe ((tail.drop 9).take 8) = r.input := by
      have hw := word_append (resumeV1 :: le 8 r.frame) (le 8 r.echo) r.input hinput
      rw [← htail, List.append_assoc]
      simpa using hw
    have h17 : ofLe ((tail.drop 17).take 8) = r.echo := by
      have hw := word_append (resumeV1 :: (le 8 r.frame ++ le 8 r.input)) [] r.echo hecho
      rw [← htail]
      simpa using hw
    rw [decodeOpen, hdrop]
    simp only [hlen, hhead, and_self, if_true, htake, h1, h9, h17]

theorem decodeOpen_encodeOpen_dev :
    decodeOpen (encodeOpen [100, 101, 118] ⟨300, 7, 2⟩) = ([100, 101, 118], ⟨300, 7, 2⟩) :=
  decodeOpen_encodeOpen (by decide) (by decide) (by decide) (by decide)

end SessionResume

/-! ### Input on its way to the daemon -/

/-- The bytes of the input records among what is written to the daemon. -/
def inputOf (rs : List DaemonRecord) : Bytes :=
  rs.flatMap fun
    | .input bytes => bytes
    | .frameAck _ => []

@[simp] theorem inputOf_append (rs rs' : List DaemonRecord) : inputOf (rs ++ rs') = inputOf rs ++ inputOf rs' := by
  rw [inputOf, List.flatMap_append]
  rfl

namespace SessionBridge

/-- Input accepted that the daemon's socket has not got yet. -/
def unwritten (b : SessionBridge) : Bytes := inputOf b.daemon.write

/-- **What a message's input does to a bridge**: what was accepted stays the stream below the inbox's
offset, which never moves back. -/
theorem acceptInput_spec {pushed fed data : Bytes} {base : ℕ} (b : SessionBridge)
    (h : IsChunk pushed base data) (hn : b.inbox.next ≤ pushed.length)
    (hfed : fed ++ b.unwritten = pushed.take b.inbox.next) :
    fed ++ (b.acceptInput base data).unwritten = pushed.take (b.acceptInput base data).inbox.next ∧
      b.inbox.next ≤ (b.acceptInput base data).inbox.next ∧
      (b.acceptInput base data).inbox.next ≤ pushed.length := by
  obtain ⟨happ, hle, hlen, -⟩ := b.inbox.accept_spec h hn
  unfold acceptInput
  split
  case h_1 newInput inbox heq =>
    rw [heq] at happ hle hlen
    refine ⟨?_, hle, hlen⟩
    show fed ++ inputOf (b.daemon.write ++ [.input newInput]) = pushed.take inbox.next
    rw [inputOf_append, ← List.append_assoc, show inputOf b.daemon.write = b.unwritten from rfl, hfed, ← happ]
    simp [inputOf]
  case h_2 inbox heq =>
    rw [heq] at happ hle hlen
    refine ⟨?_, hle, hlen⟩
    show fed ++ b.unwritten = pushed.take inbox.next
    rw [hfed, ← happ]
    simp

theorem unwritten_forwardAck (leg : DaemonLeg) (ackedFrame : ℕ) (resync : Bool) :
    inputOf (leg.forwardAck ackedFrame resync).2.write = inputOf leg.write := by
  rcases leg.forwardAck_write ackedFrame resync with heq | ⟨n, heq⟩
  · rw [heq]
  · rw [heq, inputOf_append]
    simp [inputOf]

theorem clientMessage_unwritten (b : SessionBridge) (msg : ClientMessage) :
    (b.clientMessage msg).2.unwritten = (b.acceptInput msg.inputBase msg.input).unwritten :=
  unwritten_forwardAck _ _ _

end SessionBridge

/-! ### The system -/

/-- A session channel of the remote end. -/
inductive PeerChannel where
  /-- opened, and waiting for the first message -/
  | awaiting (resume : SessionResume)
  /-- bridged to a session daemon -/
  | linked (bridge : SessionBridge)

/-- The viewport, the local mux, the remote end and the daemon's socket, with everything in flight. -/
structure ResumeLoop where
  /-- the viewport's end of the input stream -/
  outbox : InputOutbox := .new
  /-- the local mux: its cursor, and whether the remote end has answered the OPEN -/
  resume : SessionResume := .initial
  confirmed : Bool := false
  /-- the remote end's channel -/
  channel : Option PeerChannel := none
  /-- every message the viewport sent -/
  messages : List ClientMessage := []
  /-- the OPENs sent on this transport -/
  opens : List SessionResume := []
  /-- the frames sent on this transport -/
  frames : List ServerFrame := []
  /-- every frame relayed to the viewport -/
  relayed : List ServerFrame := []
  /-- history: everything typed -/
  pushed : Bytes := []
  /-- history: the input written to the daemon -/
  fed : Bytes := []

namespace ResumeLoop

/-- A fresh viewport, and no channel yet. -/
def init : ResumeLoop := {}

/-- What can happen.  What is in flight is named by its position in the order of sending. -/
inductive Act where
  /-- the user types -/
  | push (bytes : Bytes)
  /-- the viewport sends the first `n` pending bytes, with its other fields -/
  | send (n ackedFrame : ℕ) (resync : Bool)
  /-- the mux sends an OPEN -/
  | sendOpen
  /-- the `i`-th OPEN arrives -/
  | deliverOpen (i : ℕ)
  /-- the `i`-th message arrives -/
  | deliverMessage (i : ℕ)
  /-- `n` records pass to the daemon's socket -/
  | flush (n : ℕ)
  /-- the bridge forwards a frame of the daemon -/
  | forward (frame : ServerFrame) (echoAck : ℕ)
  /-- the bridge sends an empty frame -/
  | heartbeat (echoAck : ℕ)
  /-- the channel moves to another session -/
  | rehome
  /-- the `i`-th frame arrives at the mux, which relays it -/
  | relayFrame (i : ℕ)
  /-- the viewport takes the `i`-th frame relayed -/
  | applyFrame (i : ℕ)
  /-- the transport is lost, and the remote end with it -/
  | lose
  deriving DecidableEq, Repr

/-- The viewport's message of this moment. -/
def clientMessage (o : InputOutbox) (n ackedFrame : ℕ) (resync : Bool) : ClientMessage where
  flagResync := resync
  ackedFrame := ackedFrame
  inputBase := o.base
  input := o.pending.take n

/-- The flags of an OPEN's confirmation: a bridge's own. -/
def confirmFlags : Option PeerChannel → UInt8
  | some (.linked b) => b.frameFlags
  | _ => 0

/-- An OPEN arrives: it opens a channel unless there is one, and is confirmed either way. -/
def open_ (s : ResumeLoop) (r : SessionResume) : ResumeLoop :=
  { s with
    channel := some (s.channel.getD (.awaiting r))
    frames := s.frames ++ [{ flags := confirmFlags s.channel, frameNum := 0, body := .empty }] }

/-- The bridge of the channel, linked now if it was only opened. -/
def bridgeFor : PeerChannel → SessionBridge
  | .awaiting r => .link r.frame r.input
  | .linked b => b

def step (s : ResumeLoop) : Act → Option ResumeLoop
  | .push bytes =>
    some { s with outbox := s.outbox.push bytes, pushed := s.pushed ++ bytes }
  | .send n ackedFrame resync =>
    some { s with messages := s.messages ++ [clientMessage s.outbox n ackedFrame resync] }
  | .sendOpen => if s.confirmed then none else some { s with opens := s.opens ++ [s.resume] }
  | .deliverOpen i => s.opens[i]?.map s.open_
  | .deliverMessage i =>
    s.messages[i]?.bind fun m => s.channel.map fun ch =>
      { s with channel := some (.linked ((bridgeFor ch).clientMessage m).2) }
  | .flush n =>
    match s.channel with
    | some (.linked b) =>
      some { s with
        channel := some (.linked
          { b with daemon := { b.daemon with write := b.daemon.write.drop n } })
        fed := s.fed ++ inputOf (b.daemon.write.take n) }
    | _ => none
  | .forward frame echoAck =>
    match s.channel with
    | some (.linked b) =>
      some { s with
        channel := some (.linked (b.forwardFrame echoAck frame).2)
        frames := s.frames ++ [(b.forwardFrame echoAck frame).1] }
    | _ => none
  | .heartbeat echoAck =>
    match s.channel with
    | some (.linked b) => some { s with frames := s.frames ++ [b.heartbeat echoAck] }
    | _ => none
  | .rehome =>
    match s.channel with
    | some (.linked b) => some { s with channel := some (.linked b.rehome) }
    | _ => none
  | .relayFrame i =>
    s.frames[i]?.map fun f =>
      { s with
        confirmed := true
        resume := s.resume.advanceFromFrame f.frameNum f.inputAck f.echoAck
        relayed := s.relayed ++ [f] }
  | .applyFrame i => s.relayed[i]?.map fun f => { s with outbox := s.outbox.ack f.inputAck }
  | .lose =>
    some { s with confirmed := false, channel := none, opens := [], frames := [] }

/-! ### The condition on the steps -/

/-- **The condition on the steps**: when the transport is lost, the mux's cursor names exactly the
input that was written to the daemon; when a channel moves to another session, nothing is
unwritten. -/
def keepsCursor (s : ResumeLoop) : Act → Bool
  | .lose =>
    match s.channel with
    | some (.linked b) => s.resume.input + b.unwritten.length == b.inbox.nextOffset
    | _ => true
  | .rehome =>
    match s.channel with
    | some (.linked b) => b.unwritten.isEmpty
    | _ => true
  | _ => true

/-! ### The invariant -/

/-- The offset the remote end expects: the inbox's, or where the next bridge will resume it. -/
def expected (s : ResumeLoop) : ℕ :=
  match s.channel with
  | some (.linked b) => b.inbox.next
  | _ => s.resume.input

/-- Input accepted that the daemon's socket has not got yet. -/
def unwritten (s : ResumeLoop) : Bytes :=
  match s.channel with
  | some (.linked b) => b.unwritten
  | _ => []

/-- What holds of every run whose steps meet the condition. -/
structure Resumes (s : ResumeLoop) : Prop where
  tracks : InputOutbox.Tracks s.pushed s.outbox
  messages : ∀ m ∈ s.messages, IsChunk s.pushed m.inputBase m.input
  /-- what was written and what will be is the stream below the expected offset -/
  fed : s.fed ++ s.unwritten = s.pushed.take s.expected
  expected_le : s.expected ≤ s.pushed.length
  /-- the cursor does not run ahead of the remote end, and neither do the frames in flight -/
  resume_le : s.resume.input ≤ s.expected
  frames : ∀ f ∈ s.frames, f.inputAck ≤ s.expected
  /-- before a bridge is linked, every OPEN and the channel quote the cursor's offset -/
  opens : (∀ b, s.channel ≠ some (.linked b)) → ∀ r ∈ s.opens, r.input = s.resume.input
  awaiting : ∀ r, s.channel = some (.awaiting r) → r.input = s.resume.input

theorem resumes_init : Resumes init where
  tracks := InputOutbox.tracks_new
  messages := by intro m hm; simp [init] at hm
  fed := rfl
  expected_le := Nat.le_refl 0
  resume_le := Nat.le_refl 0
  frames := by intro f hf; simp [init] at hf
  opens := by intro _ r hr; simp [init] at hr
  awaiting := by intro r hr; cases hr

section Invariant

variable {s : ResumeLoop} {b : SessionBridge} {ch : PeerChannel}

theorem expected_linked (h : s.channel = some (.linked b)) : s.expected = b.inbox.next := by
  rw [expected, h]

theorem unwritten_linked (h : s.channel = some (.linked b)) : s.unwritten = b.unwritten := by
  rw [unwritten, h]

theorem expected_unlinked (h : ∀ b, s.channel ≠ some (.linked b)) : s.expected = s.resume.input := by
  unfold expected
  split
  · rename_i b hb
    exact absurd hb (h b)
  · rfl

theorem unwritten_unlinked (h : ∀ b, s.channel ≠ some (.linked b)) : s.unwritten = [] := by
  unfold unwritten
  split
  · rename_i b hb
    exact absurd hb (h b)
  · rfl

theorem resumes_push (h : Resumes s) (bytes : Bytes) :
    Resumes { s with outbox := s.outbox.push bytes, pushed := s.pushed ++ bytes } :=
  { h with
    tracks := h.tracks.push bytes
    messages := fun m hm => (h.messages m hm).mono bytes
    fed := by
      show s.fed ++ s.unwritten = (s.pushed ++ bytes).take s.expected
      rw [List.take_append_of_le_length h.expected_le, h.fed]
    expected_le := by
      have hle := h.expected_le
      show s.expected ≤ (s.pushed ++ bytes).length
      rw [List.length_append]
      omega }

theorem resumes_send (h : Resumes s) (n ackedFrame : ℕ) (resync : Bool) :
    Resumes { s with messages := s.messages ++ [clientMessage s.outbox n ackedFrame resync] } := by
  refine { h with messages := ?_ }
  intro m hm
  rcases List.mem_append.1 hm with hm | hm
  · exact h.messages m hm
  · rw [List.mem_singleton.1 hm]
    exact h.tracks.isChunk n

theorem resumes_sendOpen (h : Resumes s) : Resumes { s with opens := s.opens ++ [s.resume] } := by
  refine { h with opens := ?_ }
  intro hno r hr
  rcases List.mem_append.1 hr with hr | hr
  · exact h.opens hno r hr
  · rw [List.mem_singleton.1 hr]

theorem resumes_open (h : Resumes s) {r : SessionResume} (hr : r ∈ s.opens) : Resumes (s.open_ r) := by
  have hframe : ∀ flags : UInt8, ∀ f ∈ s.frames ++ [{ flags, frameNum := 0, body := .empty }],
      f.inputAck ≤ s.expected := by
    intro flags f hf
    rcases List.mem_append.1 hf with hf | hf
    · exact h.frames f hf
    · rw [List.mem_singleton.1 hf]
      exact Nat.zero_le _
  cases hch : s.channel with
  | none =>
    have hno : ∀ b, s.channel ≠ some (.linked b) := by intro b hb; rw [hch] at hb; cases hb
    have hexp := expected_unlinked hno
    have hopen : s.open_ r = { s with
        channel := some (.awaiting r)
        frames := s.frames ++ [{ flags := 0, frameNum := 0, body := .empty }] } := by
      rw [open_, hch]
      rfl
    have hfed := h.fed
    have hle := h.expected_le
    rw [hexp] at hfed hle hframe
    rw [unwritten_unlinked hno] at hfed
    rw [hopen]
    exact
      { tracks := h.tracks
        messages := h.messages
        fed := hfed
        expected_le := hle
        resume_le := Nat.le_refl _
        frames := hframe 0
        opens := fun _ => h.opens hno
        awaiting := by
          intro r' hr'
          simp only [Option.some.injEq, PeerChannel.awaiting.injEq] at hr'
          rw [← hr']
          exact h.opens hno r hr }
  | some ch =>
    have hsame : some (s.channel.getD (.awaiting r)) = s.channel := by rw [hch, Option.getD_some]
    rw [open_, hsame]
    exact { h with frames := hframe _ }

theorem Resumes.linked (h : Resumes s) {fed : Bytes} {frames : List ServerFrame}
    (hfed : fed ++ b.unwritten = s.pushed.take b.inbox.next) (hle : s.expected ≤ b.inbox.next)
    (hlen : b.inbox.next ≤ s.pushed.length)
    (hframes : ∀ f ∈ frames, f ∈ s.frames ∨ f.inputAck ≤ b.inbox.next) :
    Resumes { s with channel := some (.linked b), frames, fed } where
  tracks := h.tracks
  messages := h.messages
  fed := hfed
  expected_le := hlen
  resume_le := Nat.le_trans h.resume_le hle
  frames := by
    intro f hf
    rcases hframes f hf with hf | hf
    · exact Nat.le_trans (h.frames f hf) hle
    · exact hf
  opens := fun hno => absurd rfl (hno b)
  awaiting := by intro r hr; cases hr

theorem bridgeFor_spec (h : Resumes s) (hch : s.channel = some ch) :
    (bridgeFor ch).inbox.next = s.expected ∧ (bridgeFor ch).unwritten = s.unwritten := by
  cases ch with
  | awaiting r =>
    have hr := h.awaiting r hch
    refine ⟨?_, ?_⟩
    · rw [expected, hch]
      exact hr
    · rw [unwritten, hch]
      rfl
  | linked b => exact ⟨(expected_linked hch).symm, (unwritten_linked hch).symm⟩

/-- **A message arrives at the remote end.** -/
theorem resumes_deliverMessage (h : Resumes s) (hch : s.channel = some ch)
    {m : ClientMessage} (hm : m ∈ s.messages) :
    Resumes { s with channel := some (.linked ((bridgeFor ch).clientMessage m).2) } := by
  obtain ⟨hnext, hun⟩ := bridgeFor_spec h hch
  have hfed : s.fed ++ (bridgeFor ch).unwritten = s.pushed.take (bridgeFor ch).inbox.next := by
    rw [hnext, hun, h.fed]
  obtain ⟨hfed', hle, hlen⟩ := (bridgeFor ch).acceptInput_spec (h.messages m hm) (hnext ▸ h.expected_le) hfed
  refine h.linked ?_ (hnext ▸ hle) hlen fun f hf => .inl hf
  rw [SessionBridge.clientMessage_unwritten]
  exact hfed'

theorem resumes_flush (h : Resumes s) (hch : s.channel = some (.linked b)) (n : ℕ) :
    Resumes { s with
      channel := some (.linked { b with daemon := { b.daemon with write := b.daemon.write.drop n } })
      fed := s.fed ++ inputOf (b.daemon.write.take n) } := by
  have hnext := expected_linked hch
  refine h.linked ?_ (Nat.le_of_eq hnext) (hnext ▸ h.expected_le) fun f hf => .inl hf
  show (s.fed ++ inputOf (b.daemon.write.take n)) ++ inputOf (b.daemon.write.drop n) =
    s.pushed.take b.inbox.next
  rw [List.append_assoc, ← inputOf_append, List.take_append_drop, ← hnext, ← h.fed, unwritten_linked hch]
  rfl

theorem resumes_frame (h : Resumes s) (hch : s.channel = some (.linked b))
    (b' : SessionBridge) (f : ServerFrame) (hinbox : b'.inbox = b.inbox)
    (hwrite : b'.daemon.write = b.daemon.write) (hf : f.inputAck = b.inbox.nextOffset) :
    Resumes { s with channel := some (.linked b'), frames := s.frames ++ [f] } := by
  have hnext := expected_linked hch
  have hun : b'.unwritten = s.unwritten := by
    rw [unwritten_linked hch, SessionBridge.unwritten, hwrite]
    rfl
  refine h.linked ?_ ?_ ?_ ?_
  · rw [hun, hinbox, ← hnext, h.fed]
  · rw [hinbox, hnext]
  · rw [hinbox, ← hnext]
    exact h.expected_le
  · intro g hg
    rcases List.mem_append.1 hg with hg | hg
    · exact .inl hg
    · rw [List.mem_singleton.1 hg, hf, hinbox]
      exact .inr (Nat.le_refl _)

theorem resumes_rehome (h : Resumes s) (hch : s.channel = some (.linked b))
    (hempty : b.unwritten = []) : Resumes { s with channel := some (.linked b.rehome) } := by
  have hnext := expected_linked hch
  refine h.linked ?_ (Nat.le_of_eq hnext) (hnext ▸ h.expected_le) fun f hf => .inl hf
  show s.fed ++ [] = s.pushed.take b.inbox.next
  rw [← hnext, ← h.fed, unwritten_linked hch, hempty]

/-- **A frame reaches the mux**: the cursor moves no further than the remote end. -/
theorem resumes_relayFrame (h : Resumes s) {f : ServerFrame} (hf : f ∈ s.frames) : Resumes { s with
      confirmed := true
      resume := s.resume.advanceFromFrame f.frameNum f.inputAck f.echoAck
      relayed := s.relayed ++ [f] } := by
  have hle := h.frames f hf
  have hmax : (s.resume.advanceFromFrame f.frameNum f.inputAck f.echoAck).input ≤ s.expected :=
    Nat.max_le.2 ⟨h.resume_le, hle⟩
  -- without a bridge the frame acknowledges nothing new
  have hsame : (∀ b, s.channel ≠ some (.linked b)) →
      (s.resume.advanceFromFrame f.frameNum f.inputAck f.echoAck).input = s.resume.input := by
    intro hno
    rw [expected_unlinked hno] at hle
    exact Nat.max_eq_left hle
  generalize s.resume.advanceFromFrame f.frameNum f.inputAck f.echoAck = resume at hmax hsame
  have hexp : ({ s with confirmed := true, resume, relayed := s.relayed ++ [f] } :
      ResumeLoop).expected = s.expected := by
    by_cases hlinked : ∃ b, s.channel = some (.linked b)
    · obtain ⟨b, hch⟩ := hlinked
      simp only [expected, hch]
    · have hno : ∀ b, s.channel ≠ some (.linked b) := fun b hb => hlinked ⟨b, hb⟩
      rw [expected_unlinked hno, ← hsame hno]
      exact expected_unlinked hno
  exact
    { tracks := h.tracks
      messages := h.messages
      fed := by rw [hexp]; exact h.fed
      expected_le := by rw [hexp]; exact h.expected_le
      resume_le := by rw [hexp]; exact hmax
      frames := by rw [hexp]; exact h.frames
      opens := fun hno r hr => (h.opens hno r hr).trans (hsame hno).symm
      awaiting := by
        intro r hr
        refine (h.awaiting r hr).trans (hsame ?_).symm
        intro b hb
        rw [hr] at hb
        cases hb }

/-- **The transport is lost** while the cursor names what was written. -/
theorem resumes_lose (h : Resumes s) (hok : keepsCursor s .lose = true) :
    Resumes { s with confirmed := false, channel := none, opens := [], frames := [] } := by
  have hle : s.resume.input ≤ s.pushed.length := Nat.le_trans h.resume_le h.expected_le
  have hfed : s.fed = s.pushed.take s.resume.input := by
    have heq := h.fed
    by_cases hlinked : ∃ b, s.channel = some (.linked b)
    · obtain ⟨b, hch⟩ := hlinked
      simp only [keepsCursor, hch, beq_iff_eq] at hok
      have hnext : s.expected = s.resume.input + s.unwritten.length := by
        rw [expected_linked hch, unwritten_linked hch, hok]
        rfl
      -- what was written ends where the unwritten input starts
      have hlen : s.fed.length = s.resume.input := by
        have hl := congrArg List.length heq
        rw [List.length_append, List.length_take, Nat.min_eq_left h.expected_le] at hl
        omega
      have hpre : s.fed <+: s.pushed :=
        (List.prefix_append _ _).trans (heq ▸ List.take_prefix _ _)
      rw [← hlen]
      exact List.prefix_iff_eq_take.1 hpre
    · have hno : ∀ b, s.channel ≠ some (.linked b) := fun b hb => hlinked ⟨b, hb⟩
      rw [unwritten_unlinked hno, List.append_nil, expected_unlinked hno] at heq
      exact heq
  exact
    { tracks := h.tracks
      messages := h.messages
      fed := by
        show s.fed ++ [] = s.pushed.take s.resume.input
        rw [List.append_nil, hfed]
      expected_le := hle
      resume_le := Nat.le_refl _
      frames := by intro f hf; cases hf
      opens := by intro _ r hr; cases hr
      awaiting := by intro r hr; cases hr }

/-- **A step that meets the condition keeps the stream.** -/
theorem resumes_step {s' : ResumeLoop} {a : Act} (h : Resumes s) (hok : keepsCursor s a = true)
    (hstep : step s a = some s') : Resumes s' := by
  cases a with
  | push bytes =>
    rw [step, Option.some.injEq] at hstep
    exact hstep ▸ resumes_push h bytes
  | send n ackedFrame resync =>
    rw [step, Option.some.injEq] at hstep
    exact hstep ▸ resumes_send h n ackedFrame resync
  | sendOpen =>
    simp only [step] at hstep
    split at hstep
    · cases hstep
    · rw [Option.some.injEq] at hstep
      exact hstep ▸ resumes_sendOpen h
  | deliverOpen i =>
    rw [step, Option.map_eq_some_iff] at hstep
    obtain ⟨r, hr, rfl⟩ := hstep
    exact resumes_open h (List.mem_of_getElem? hr)
  | deliverMessage i =>
    rw [step, Option.bind_eq_some_iff] at hstep
    obtain ⟨m, hm, hstep⟩ := hstep
    obtain ⟨ch, hch, rfl⟩ := Option.map_eq_some_iff.1 hstep
    exact resumes_deliverMessage h hch (List.mem_of_getElem? hm)
  | flush n =>
    simp only [step] at hstep
    split at hstep
    · rename_i b hch
      rw [Option.some.injEq] at hstep
      exact hstep ▸ resumes_flush h hch n
    · cases hstep
  | forward frame echoAck =>
    simp only [step] at hstep
    split at hstep
    · rename_i b hch
      rw [Option.some.injEq] at hstep
      exact hstep ▸ resumes_frame h hch (b.forwardFrame echoAck frame).2
        (b.forwardFrame echoAck frame).1 rfl rfl rfl
    · cases hstep
  | heartbeat echoAck =>
    simp only [step] at hstep
    split at hstep
    · rename_i b hch
      rw [Option.some.injEq] at hstep
      have hbeat := resumes_frame h hch b (b.heartbeat echoAck) rfl rfl rfl
      rw [← hch] at hbeat
      exact hstep ▸ hbeat
    · cases hstep
  | rehome =>
    simp only [step] at hstep
    split at hstep
    · rename_i b hch
      rw [Option.some.injEq] at hstep
      simp only [keepsCursor, hch, List.isEmpty_iff] at hok
      exact hstep ▸ resumes_rehome h hch hok
    · cases hstep
  | relayFrame i =>
    rw [step, Option.map_eq_some_iff] at hstep
    obtain ⟨f, hf, rfl⟩ := hstep
    exact resumes_relayFrame h (List.mem_of_getElem? hf)
  | applyFrame i =>
    rw [step, Option.map_eq_some_iff] at hstep
    obtain ⟨f, -, rfl⟩ := hstep
    exact { h with tracks := h.tracks.ack f.inputAck }
  | lose =>
    rw [step, Option.some.injEq] at hstep
    exact hstep ▸ resumes_lose h hok

end Invariant

/-! ### Exactly once -/

/-- **The input is delivered exactly once, in the runs whose steps meet the condition**: whatever is
lost, duplicated or reordered, and however often the transport is rebuilt, what the daemon received
is a prefix of what was typed. -/
theorem fed_exactly_once (as : List Act) {s : ResumeLoop}
    (hok : Runs.AllOk (fun s a => keepsCursor s a = true) step init as)
    (hrun : Runs.exec step init as = some s) : s.fed <+: s.pushed := by
  have h : Resumes s :=
    Runs.exec_invariant_of_allOk (fun _ _ _ h hok hstep => resumes_step h hok hstep) resumes_init
      hok hrun
  exact (List.prefix_append _ _).trans (h.fed ▸ List.take_prefix _ _)

/-- The session is opened and "hi" is accepted by the bridge. -/
def openRun : List Act :=
  [.sendOpen, .deliverOpen 0, .relayFrame 0, .push [104, 105], .send 2 0 false, .deliverMessage 0]

/-- The reconnect of a viewport that sends its whole pending tail again. -/
def reconnectRun : List Act :=
  [.lose, .sendOpen, .deliverOpen 0, .relayFrame 0, .send 2 0 false, .deliverMessage 1, .flush 2]

/-- The input was written and its acknowledgement relayed before the transport was lost. -/
theorem fed_exactly_once_reconnectRun :
    ∃ s, Runs.exec step init
        (openRun ++ [.flush 2, .heartbeat 0, .relayFrame 1] ++ reconnectRun) = some s ∧
      s.fed <+: s.pushed ∧ s.fed = [104, 105] :=
  ⟨_, rfl, fed_exactly_once (openRun ++ [.flush 2, .heartbeat 0, .relayFrame 1] ++ reconnectRun)
    (by decide) rfl, rfl⟩

/-- **Exactly once fails.**  Written and not acknowledged to the mux before the transport was lost,
the input is fed twice; accepted and not written when the channel moves to another session, it is
skipped. -/
theorem fed_exactly_once_fails :
    (∃ s, Runs.exec step init (openRun ++ [.flush 2] ++ reconnectRun) = some s ∧ ¬ s.fed <+: s.pushed) ∧
    ∃ s, Runs.exec step init (openRun ++
        [.rehome, .heartbeat 0, .relayFrame 1, .applyFrame 1, .push [33], .send 1 0 false,
          .deliverMessage 1, .flush 2]) = some s ∧ ¬ s.fed <+: s.pushed :=
  ⟨⟨_, rfl, by decide⟩, ⟨_, rfl, by decide⟩⟩

end ResumeLoop

end Posh
