/-
**A local viewport attached to a session daemon.**

The viewport and the daemon talk over one socket, ordered and lossless in both directions.  A viewport
that negotiated coalescing acknowledges what it applied, and the daemon's base moves on those
acknowledgements; a burst of visible frames is then several bodies on one stale base, of which the
client applies the first and answers the others with a keyframe request.  The command palette switches
coalescing off and on at run time: off, the client stops acknowledging at once, and the daemon, when
the switch reaches it, acknowledges its own frames as it queues them.

The painting, the scroll view's position and the labels of a frame's capabilities play no part in what
is applied and acknowledged.
-/

import Posh.ClientHistory
import Posh.DaemonClient

set_option autoImplicit false

namespace Posh

variable {τ σ : Type}

/-! ### The viewport -/

/-- The viewport's frame application. -/
structure FrameRenderer (τ : Type) where
  rows : ℕ
  cols : ℕ
  applier : FrameSync := .dumpDiff
  serverTerm : τ
  appliedData : Bytes := []
  appliedNum : ℕ := 0
  scrollback : ScrollbackRing

namespace FrameRenderer

/-- A viewport of the given size that has shown nothing; both dimensions are at least 1. -/
def new (D : Display τ σ) (rows cols ringDepth : ℕ) : FrameRenderer τ where
  rows := max rows 1
  cols := max cols 1
  serverTerm := D.withScrollback (max rows 1) (max cols 1) 0
  scrollback := .new ringDepth

/-- The base of a body that is applied only at its base. -/
def anchoredBase : FrameBody → Option ℕ
  | .diff base _ _ | .morph base _ _ => some base
  | _ => none

/-- Applies a body that passed its base check, unless it is the frame already shown. -/
def applyBody (D : Display τ σ) (r : FrameRenderer τ) (frame : ServerFrame) :
    FrameRenderer τ × ℕ × Bool :=
  if frame.frameNum = r.appliedNum then (r, r.appliedNum, false)
  else
    match r.applier.apply D r.rows r.cols r.appliedData r.serverTerm frame.body with
    | (.advanced dump, term) =>
      ({ r with serverTerm := term, appliedData := dump, appliedNum := frame.frameNum },
        frame.frameNum, false)
    | (.advancedNoDump, term) =>
      ({ r with serverTerm := term, appliedNum := frame.frameNum }, frame.frameNum, false)
    | (.noChange, term) => ({ r with serverTerm := term }, r.appliedNum, false)
    | (.reackAndWait, term) => ({ r with serverTerm := term }, r.appliedNum, true)

/-- **Applies a frame**; the acknowledgement is the number applied, with the keyframe flag. -/
def renderFrameAcking (D : Display τ σ) (r : FrameRenderer τ) (frame : ServerFrame) :
    FrameRenderer τ × ℕ × Bool :=
  -- stale: re-acknowledge the newer state
  if frame.frameNum < r.appliedNum then (r, r.appliedNum, false)
  else
    match frame.body with
    | .scrollback base rows =>
      if frame.frameNum = r.appliedNum then (r, r.appliedNum, false)
      else if base ≠ r.appliedNum then (r, r.appliedNum, false)
      else
        ({ r with scrollback := r.scrollback.append rows, appliedNum := frame.frameNum },
          frame.frameNum, false)
    | body =>
      match anchoredBase body with
      | some base =>
        -- a base behind us does not heal by itself
        if base ≠ r.appliedNum then (r, r.appliedNum, decide (base < r.appliedNum))
        else r.applyBody D frame
      | none => r.applyBody D frame

variable {r : FrameRenderer τ} {f : ServerFrame} (D : Display τ σ)

theorem renderFrameAcking_full (hnew : r.appliedNum < f.frameNum) {bytes : Bytes}
    (hbody : f.body = .full bytes) : ∃ term, r.renderFrameAcking D f =
      ({ r with serverTerm := term, appliedData := bytes, appliedNum := f.frameNum }, f.frameNum, false) := by
  have hstale : ¬f.frameNum < r.appliedNum := by omega
  have hdup : ¬f.frameNum = r.appliedNum := by omega
  refine ⟨DumpDiff.rebuild D r.rows r.cols bytes, ?_⟩
  unfold renderFrameAcking
  simp only [hstale, if_false, hbody, anchoredBase, applyBody, hdup, FrameSync.apply_full]

theorem renderFrameAcking_diff (happlier : r.applier = .dumpDiff)
    (hnew : r.appliedNum < f.frameNum) {base : ℕ} {sum : Option UInt32} {diff dump : Bytes}
    (hbody : f.body = .diff base sum diff)
    (happly : base = r.appliedNum → applyDiff r.appliedData diff = some dump) :
    (base = r.appliedNum ∧ ∃ term, r.renderFrameAcking D f =
        ({ r with serverTerm := term, appliedData := dump, appliedNum := f.frameNum }, f.frameNum, false)) ∨
      (base ≠ r.appliedNum ∧ r.renderFrameAcking D f = (r, r.appliedNum, decide (base < r.appliedNum))) := by
  have hstale : ¬f.frameNum < r.appliedNum := by omega
  have hdup : ¬f.frameNum = r.appliedNum := by omega
  by_cases hbase : base = r.appliedNum
  · refine .inl ⟨hbase, DumpDiff.rebuild D r.rows r.cols dump, ?_⟩
    have hne : ¬base ≠ r.appliedNum := not_not.2 hbase
    unfold renderFrameAcking
    simp only [hstale, if_false, hbody, anchoredBase, hne, applyBody, hdup, happlier,
      FrameSync.apply, DumpDiff.apply, happly hbase]
  · refine .inr ⟨hbase, ?_⟩
    unfold renderFrameAcking
    simp only [hstale, if_false, hbody, anchoredBase, ne_eq, hbase, not_false_eq_true, if_true]

theorem renderFrameAcking_scrollback (hnew : r.appliedNum < f.frameNum) {base : ℕ}
    {rows : List Bytes} (hbody : f.body = .scrollback base rows) : (base = r.appliedNum ∧ r.renderFrameAcking D f =
        ({ r with scrollback := r.scrollback.append rows, appliedNum := f.frameNum }, f.frameNum, false)) ∨
      (base ≠ r.appliedNum ∧ r.renderFrameAcking D f = (r, r.appliedNum, false)) := by
  have hstale : ¬f.frameNum < r.appliedNum := by omega
  have hdup : ¬f.frameNum = r.appliedNum := by omega
  unfold renderFrameAcking
  simp only [hstale, if_false, hbody, hdup]
  by_cases hbase : base = r.appliedNum
  · exact .inl ⟨hbase, by rw [if_neg (not_not.2 hbase)]⟩
  · exact .inr ⟨hbase, by rw [if_pos hbase]⟩

end FrameRenderer

/-! ### The system -/

structure AttachConfig where
  rows : ℕ
  cols : ℕ
  ringDepth : ℕ := 1
  /-- the viewport takes growth bodies -/
  scrollback : Bool := true
  /-- rows already in the session's scrollback -/
  sbFloor : ℕ := 0

/-- The daemon's client and the viewport, with the socket between them. -/
structure LocalAttach (τ σ : Type) where
  daemon : DaemonClient σ
  client : FrameRenderer τ
  /-- the viewport's own switch -/
  coalesceOn : Bool := true
  /-- bytes the daemon wrote that the viewport has not taken yet -/
  wire : List (Option ServerFrame) := []
  /-- acknowledgements on their way to the daemon -/
  up : List FrameAck := []
  /-- history: the kind and the dump recorded for each frame number -/
  log : List LoggedFrame := initialLog

namespace LocalAttach

/-- A fresh attachment that negotiated coalescing. -/
def init (D : Display τ σ) (c : AttachConfig) : LocalAttach τ σ where
  daemon :=
    { producer := .new D c.rows c.cols
      coalesce := true
      capScrollback := c.scrollback
      sbFloor := c.sbFloor }
  client := .new D c.rows c.cols c.ringDepth

/-- What can happen. -/
inductive Act (σ : Type) where
  /-- the daemon broadcasts a screen, and the rows that entered the scrollback behind it -/
  | broadcast (src : Screen σ) (term : SessionTerm) (hdr : FrameHeader)
  /-- the source broadcast is swapped for another, which is broadcast at once -/
  | swapSource (src : Screen σ) (term : SessionTerm) (hdr : FrameHeader)
  /-- `n` bytes pass from the daemon to the viewport -/
  | drain (n : ℕ)
  /-- the viewport takes the next frame -/
  | deliver
  /-- the palette switches coalescing -/
  | toggle (on : Bool)
  /-- the daemon reads an acknowledgement; a keyframe it owes shows the screen of that moment -/
  | daemonRead (src : Screen σ) (hdr : FrameHeader)

/-- The daemon moves on; a fresh slot would be of the given kind. -/
def setDaemon (s : LocalAttach τ σ) (visible : Bool) (daemon : DaemonClient σ) : LocalAttach τ σ :=
  { s with daemon, log := DaemonClient.logAfter s.log s.daemon daemon visible }

/-- A screen is broadcast, the growth of the scrollback right behind it. -/
def broadcast (D : Display τ σ) (wireLen : ServerFrame → ℕ) (s : LocalAttach τ σ) (src : Screen σ)
    (term : SessionTerm) (hdr : FrameHeader) : LocalAttach τ σ :=
  let s := s.setDaemon true (s.daemon.queueFrame D wireLen src hdr)
  s.setDaemon false (s.daemon.maybeQueueScrollback wireLen term hdr)

/-- The viewport takes the frame `f`, and answers it while its switch is on. -/
def take (D : Display τ σ) (s : LocalAttach τ σ) (f : ServerFrame)
    (rest : List (Option ServerFrame)) : LocalAttach τ σ :=
  let r := s.client.renderFrameAcking D f
  { s with
    client := r.1
    wire := rest
    up := if s.coalesceOn then s.up ++ [{ ackedFrame := r.2.1, resync := r.2.2 }] else s.up }

/-- One step of the attachment; `wireLen` gives the length of a record on the socket. -/
def step (D : Display τ σ) (wireLen : ServerFrame → ℕ) (s : LocalAttach τ σ) :
    Act σ → Option (LocalAttach τ σ)
  | .broadcast src term hdr => some (s.broadcast D wireLen src term hdr)
  | .swapSource src term hdr =>
    some (({ s with daemon := s.daemon.dropAckedBase } :
      LocalAttach τ σ).broadcast D wireLen src term hdr)
  | .drain n =>
    some { s with daemon := s.daemon.drain n, wire := s.wire ++ s.daemon.writeBuf.take n }
  | .deliver => (RecordWire.takeRecord s.wire).map fun r => s.take D r.1 r.2
  | .toggle on =>
    some { s with
      coalesceOn := on
      up := s.up ++ [{ ackedFrame := 0, coalesceOff := !on }] }
  | .daemonRead src hdr =>
    match s.up with
    | [] => none
    | ack :: up =>
      some (({ s with up } : LocalAttach τ σ).setDaemon true
        (s.daemon.handleFrameAck D wireLen ack src hdr))

/-- The frames queued that the viewport has not taken yet, in order. -/
def pending (s : LocalAttach τ σ) : List ServerFrame :=
  RecordWire.records (s.wire ++ s.daemon.writeBuf)

/-- Everything queued in either direction has been delivered and answered. -/
structure Settled (s : LocalAttach τ σ) : Prop where
  wire : s.wire = []
  writeBuf : s.daemon.writeBuf = []
  up : s.up = []

end LocalAttach

end Posh
