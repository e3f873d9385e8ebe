/-
**The bridge between a session daemon and a roaming client.**

The remote host relays a session's frames from the daemon's socket, which is ordered and lossless, to
a client behind datagrams, and the client's acknowledgements and input back.  What belongs to the one
daemon connection is its leg: the two directions of the socket, the frames held for retransmission,
and the highest acknowledgement forwarded.  A leg numbers the daemon's frames above the client's frame
ceiling (`frameOffset`); the frame number is moved by that offset, the body is passed on as it is.

The leg holds at most one visible frame and one scrollback frame, each released by the client's
cumulative acknowledgement and both discarded on a keyframe request.
-/

import Posh.DaemonClient

set_option autoImplicit false

namespace Posh

/-! ### The retransmit buffer -/

/-- At most one unacknowledged visible frame and one unacknowledged scrollback frame, each under its
number. -/
structure HeldFrame where
  visible : Option (ℕ × ServerFrame) := none
  scrollback : Option (ℕ × ServerFrame) := none
  deriving DecidableEq, Repr

namespace HeldFrame

/-- The newest frame of its kind replaces the one held. -/
def hold (h : HeldFrame) (frameNum : ℕ) (frame : ServerFrame) (scrollback : Bool) : HeldFrame :=
  if scrollback then { h with scrollback := some (frameNum, frame) }
  else { h with visible := some (frameNum, frame) }

/-- A slot after the acknowledgement `acked`. -/
def release (slot : Option (ℕ × ServerFrame)) (acked : ℕ) : Option (ℕ × ServerFrame) :=
  slot.filter fun held => decide (acked < held.1)

/-- Releases each held frame that the cumulative acknowledgement reaches. -/
def dropIfAcked (h : HeldFrame) (acked : ℕ) : HeldFrame where
  visible := release h.visible acked
  scrollback := release h.scrollback acked

/-- Discards both. -/
def clear (_ : HeldFrame) : HeldFrame := {}

def isHeld (h : HeldFrame) : Bool := h.visible.isSome || h.scrollback.isSome

/-- What a retransmission sends, the visible frame first. -/
def frames (h : HeldFrame) : List ServerFrame :=
  (h.visible.toList ++ h.scrollback.toList).map Prod.snd

variable {h : HeldFrame} {f : ServerFrame}

theorem visible_dropIfAcked {n : ℕ} (acked : ℕ)
    (hv : h.visible = some (n, f)) : (h.dropIfAcked acked).visible = some (n, f) ∨ n ≤ acked := by
  by_cases hn : n ≤ acked
  · exact .inr hn
  · refine .inl ?_
    rw [dropIfAcked, hv]
    simp only [release, Option.filter, decide_eq_true (Nat.lt_of_not_le hn), if_true]

theorem mem_release {slot : Option (ℕ × ServerFrame)} {acked : ℕ} {x : ℕ × ServerFrame}
    (hx : release slot acked = some x) : slot = some x := by
  rw [release, Option.filter_eq_some_iff] at hx
  exact hx.1

theorem mem_frames_hold {num : ℕ} {out f : ServerFrame} {scrollback : Bool}
    (hf : f ∈ (h.hold num out scrollback).frames) : f ∈ h.frames ∨ f = out := by
  unfold hold at hf
  cases scrollback with
  | true =>
    simp only [if_true, frames, List.map_append, List.mem_append, List.mem_map,
      Option.mem_toList, Option.some.injEq] at hf ⊢
    rcases hf with hf | ⟨x, rfl, rfl⟩
    · exact .inl (.inl hf)
    · exact .inr rfl
  | false =>
    simp only [Bool.false_eq_true, if_false, frames, List.map_append, List.mem_append,
      List.mem_map, Option.mem_toList, Option.some.injEq] at hf ⊢
    rcases hf with ⟨x, rfl, rfl⟩ | hf
    · exact .inr rfl
    · exact .inl (.inr hf)

theorem mem_frames_of_slots {h h' : HeldFrame} (hv : ∀ x, h'.visible = some x → h.visible = some x)
    (hs : ∀ x, h'.scrollback = some x → h.scrollback = some x) (hf : f ∈ h'.frames) : f ∈ h.frames := by
  simp only [frames, List.map_append, List.mem_append, List.mem_map, Option.mem_toList] at hf ⊢
  rcases hf with ⟨x, hx, rfl⟩ | ⟨x, hx, rfl⟩
  · exact .inl ⟨_, hv x hx, rfl⟩
  · exact .inr ⟨_, hs x hx, rfl⟩

theorem not_isHeld (hh : h.isHeld = false) : h.visible = none := by
  rw [isHeld, Bool.or_eq_false_iff] at hh
  exact Option.isSome_eq_false_iff.1 hh.1 |> Option.isNone_iff_eq_none.1

end HeldFrame

/-! ### One daemon connection -/

/-- What a bridge writes to the daemon's socket, as far as frames and input are concerned. -/
inductive DaemonRecord where
  | frameAck (ack : FrameAck)
  | input (bytes : Bytes)
  deriving DecidableEq, Repr

/-- One daemon connection: the socket's two directions and what is rebuilt with them. -/
structure DaemonLeg where
  /-- bytes the daemon has written that the bridge has not parsed yet -/
  read : List (Option ServerFrame) := []
  /-- records that are not written to the socket yet -/
  write : List DaemonRecord := []
  /-- the client's frame ceiling when the connection was made -/
  frameOffset : ℕ
  held : HeldFrame := {}
  /-- the highest acknowledgement forwarded, in the client's numbers -/
  ackedForwarded : ℕ
  /-- an acknowledgement of input is owed that no frame has carried yet -/
  ackDue : Bool := false

namespace DaemonLeg

/-- A fresh connection, above the client's frame ceiling. -/
def link (ceiling : ℕ) : DaemonLeg where
  frameOffset := ceiling
  ackedForwarded := ceiling

/-- **Applies the client's cumulative acknowledgement**: releases what it confirms and forwards it in
the daemon's numbers; the flag tells whether a record was queued. -/
def forwardAck (leg : DaemonLeg) (ackedFrame : ℕ) (resync : Bool) : Bool × DaemonLeg :=
  let held := leg.held.dropIfAcked ackedFrame
  if ackedFrame ≤ leg.ackedForwarded ∧ resync = false then (false, { leg with held })
  else
    let ackedForwarded := max leg.ackedForwarded ackedFrame
    if leg.frameOffset ≤ ackedForwarded then
      (true,
        { leg with
          ackedForwarded
          write := leg.write ++ [.frameAck
            { ackedFrame := ackedForwarded - leg.frameOffset, resync }]
          held := if resync then held.clear else held })
    -- the leg was seeded below its own offset
    else (false, { leg with ackedForwarded, held })

end DaemonLeg

/-- The daemon's frame as the client gets it: its number above the offset, the acknowledgements the
bridge's own, the body as it is. -/
def rewrap (daemon : ServerFrame) (frameOffset inputAck echoAck : ℕ) : ServerFrame where
  flags := daemon.flags
  caps := daemon.caps
  frameNum := daemon.frameNum + frameOffset
  inputAck := inputAck
  echoAck := echoAck
  body := daemon.body

/-- Whether a frame goes to the scrollback slot of the buffer. -/
def isScrollbackFrame (frame : ServerFrame) : Bool :=
  match frame.body with
  | .scrollback _ _ | .scrollback2 _ _ _ => true
  | _ => false

/-! ### The bridge -/

def flagEcho : UInt8 := 4

def flagOverlay : UInt8 := 8

/-- A session channel of the bridge: the daemon connection, and what outlives it. -/
structure SessionBridge where
  daemon : DaemonLeg
  inbox : InputInbox := .new
  /-- the number of the newest frame forwarded: the client's frame ceiling -/
  lastFrameNum : ℕ
  /-- the sticky flags of the newest frame forwarded -/
  frameFlags : UInt8 := 0

namespace SessionBridge

/-- A channel over a fresh connection, continuing the frame numbers at `frame` and the input at
`input`. -/
def link (frame input : ℕ) : SessionBridge where
  daemon := .link frame
  inbox := .resume input
  lastFrameNum := frame

/-- **Forwards a frame of the daemon**: the frame sent, and the bridge afterwards. -/
def forwardFrame (b : SessionBridge) (echoAck : ℕ) (frame : ServerFrame) :
    ServerFrame × SessionBridge :=
  let out := rewrap frame b.daemon.frameOffset b.inbox.nextOffset echoAck
  (out,
    { b with
      frameFlags := frame.flags &&& (flagEcho ||| flagOverlay)
      lastFrameNum := out.frameNum
      daemon :=
        { b.daemon with
          ackDue := false
          held := b.daemon.held.hold out.frameNum out (isScrollbackFrame out) } })

/-- The frame sent when an acknowledgement of input is owed or the channel is idle. -/
def heartbeat (b : SessionBridge) (echoAck : ℕ) : ServerFrame where
  flags := b.frameFlags
  frameNum := b.lastFrameNum
  inputAck := b.inbox.nextOffset
  echoAck := echoAck
  body := .empty

/-- Fresh input goes to the daemon. -/
def acceptInput (b : SessionBridge) (base : ℕ) (input : Bytes) : SessionBridge :=
  match b.inbox.accept base input with
  | (some newInput, inbox) =>
    { b with
      inbox
      daemon := { b.daemon with write := b.daemon.write ++ [.input newInput], ackDue := true } }
  | (none, inbox) => { b with inbox }

/-- **A client's message**: its input, then its acknowledgement.  The flag tells whether the channel
stays. -/
def clientMessage (b : SessionBridge) (msg : ClientMessage) : Bool × SessionBridge :=
  let b := b.acceptInput msg.inputBase msg.input
  (!msg.flagShutdown, { b with daemon := (b.daemon.forwardAck msg.ackedFrame msg.flagResync).2 })

/-- The channel moves to another session: a fresh connection above the client's frame ceiling. -/
def rehome (b : SessionBridge) : SessionBridge := { b with daemon := .link b.lastFrameNum }

end SessionBridge

/-! ### What the operations do -/

namespace DaemonLeg

variable (leg : DaemonLeg)

theorem forwardAck_held (ackedFrame : ℕ) (resync : Bool) :
    (leg.forwardAck ackedFrame resync).2.held = leg.held.dropIfAcked ackedFrame ∨
      (resync = true ∧ (leg.forwardAck ackedFrame resync).2.held = {}) := by
  unfold forwardAck
  simp only
  split
  · exact .inl rfl
  · split
    · cases resync with
      | false => exact .inl rfl
      | true => exact .inr ⟨rfl, rfl⟩
    · exact .inl rfl

theorem forwardAck_write (ackedFrame : ℕ) (resync : Bool) :
    (leg.forwardAck ackedFrame resync).2.write = leg.write ∨ ∃ n, (leg.forwardAck ackedFrame resync).2.write =
        leg.write ++ [.frameAck { ackedFrame := n, resync }] := by
  unfold forwardAck
  simp only
  split
  · exact .inl rfl
  · split
    · exact .inr ⟨_, rfl⟩
    · exact .inl rfl

theorem forwardAck_slots (ackedFrame : ℕ) (resync : Bool) :
    (∀ x, (leg.forwardAck ackedFrame resync).2.held.visible = some x → leg.held.visible = some x) ∧
      ∀ x, (leg.forwardAck ackedFrame resync).2.held.scrollback = some x → leg.held.scrollback = some x := by
  rcases leg.forwardAck_held ackedFrame resync with heq | ⟨-, heq⟩
  · rw [heq]
    exact ⟨fun x hx => HeldFrame.mem_release hx, fun x hx => HeldFrame.mem_release hx⟩
  · rw [heq]
    exact ⟨fun x hx => (by cases hx), fun x hx => (by cases hx)⟩

theorem mem_forwardAck_write {leg : DaemonLeg} (hseed : leg.frameOffset ≤ leg.ackedForwarded)
    (ackedFrame : ℕ) : ∃ n, (leg.forwardAck ackedFrame true).2.write =
      leg.write ++ [.frameAck { ackedFrame := n, resync := true }] := by
  have hle : leg.frameOffset ≤ max leg.ackedForwarded ackedFrame :=
    Nat.le_trans hseed (Nat.le_max_left _ _)
  unfold forwardAck
  simp only [Bool.true_eq_false, and_false, if_false, hle, if_true]
  exact ⟨_, rfl⟩

@[simp] theorem forwardAck_read (ackedFrame : ℕ) (resync : Bool) :
    (leg.forwardAck ackedFrame resync).2.read = leg.read := by
  unfold forwardAck
  simp only
  split
  · rfl
  · split <;> rfl

@[simp] theorem forwardAck_frameOffset (ackedFrame : ℕ) (resync : Bool) :
    (leg.forwardAck ackedFrame resync).2.frameOffset = leg.frameOffset := by
  unfold forwardAck
  simp only
  split
  · rfl
  · split <;> rfl

end DaemonLeg

namespace SessionBridge

variable (b : SessionBridge)

theorem acceptInput_daemon (base : ℕ) (input : Bytes) : ∃ w due, (b.acceptInput base input).daemon =
      { b.daemon with write := b.daemon.write ++ w, ackDue := due } := by
  unfold acceptInput
  split
  · exact ⟨_, _, rfl⟩
  · exact ⟨[], b.daemon.ackDue, by rw [List.append_nil]⟩

theorem acceptInput_inbox_le (base : ℕ) (input : Bytes) :
    b.inbox.next ≤ (b.acceptInput base input).inbox.next := by
  have hle := b.inbox.accept_le base input
  unfold acceptInput
  split
  case h_1 newInput inbox heq =>
    rw [heq] at hle
    exact hle
  case h_2 inbox heq =>
    rw [heq] at hle
    exact hle

@[simp] theorem acceptInput_lastFrameNum (base : ℕ) (input : Bytes) :
    (b.acceptInput base input).lastFrameNum = b.lastFrameNum := by
  unfold acceptInput
  split <;> rfl

/-- **What a message does to the daemon's connection**: its input is appended, and its
acknowledgement forwarded from there. -/
theorem clientMessage_daemon (msg : ClientMessage) :
    ∃ leg : DaemonLeg, (b.clientMessage msg).2.daemon = (leg.forwardAck msg.ackedFrame msg.flagResync).2 ∧
      leg.read = b.daemon.read ∧ leg.frameOffset = b.daemon.frameOffset ∧
      leg.held = b.daemon.held ∧ leg.ackedForwarded = b.daemon.ackedForwarded ∧
      ∀ r ∈ b.daemon.write, r ∈ leg.write := by
  obtain ⟨w, due, hdaemon⟩ := b.acceptInput_daemon msg.inputBase msg.input
  refine ⟨_, rfl, ?_, ?_, ?_, ?_, ?_⟩
  · rw [hdaemon]
  · rw [hdaemon]
  · rw [hdaemon]
  · rw [hdaemon]
  · rw [hdaemon]
    exact fun r hr => List.mem_append_left _ hr

@[simp] theorem clientMessage_lastFrameNum (msg : ClientMessage) :
    (b.clientMessage msg).2.lastFrameNum = b.lastFrameNum := b.acceptInput_lastFrameNum _ _

end SessionBridge

end Posh
