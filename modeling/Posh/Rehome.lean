/-
**A channel moved to another session.**

The bridge can swap a channel's daemon connection in place.  The new daemon numbers its frames from 0
again, so the connection is linked above the client's frame ceiling `k`: the daemon's frame `n` goes to
the client as `n + k`, and an acknowledgement of `n + k` goes back as `n`.  The base *inside* a body is
not moved along.  A diff the daemon encodes on its frame `b` therefore names the client's frame `b`,
not `b + k`: a client at `b + k` rejects it, or, if it retained a dump under the number `b`, from the
session before, applies it to that; and a growth frame can land on a state of the session before in
the same way.

What remains sound are the runs in which every visible body of the connection is a whole dump and no
growth frame meets a client at an old state of the number it names (`Rehome.keepsOffset`).
-/

import Posh.RelayLoop
import Posh.RoamingLoop

set_option autoImplicit false

namespace Posh

open DaemonClient
open RelayLoop

variable {τ σ : Type} {c : DaemonClient σ}

/-! ### Whole dumps -/

/-- The next screen would be encoded as a whole dump: no base is held, or the codec in use cannot
build on it. -/
def DaemonClient.wholeDue (c : DaemonClient σ) (src : Screen σ) : Bool :=
  match c.producer.baseline with
  | none => true
  | some base =>
    if c.usesMorph then !MorphDelta.morphExpressible base (c.advanceVisible src).currentFrame
    else
      !decide ((makeDiff base.dump.bytes src.dump.bytes).length + 8 < src.dump.bytes.length)

theorem DaemonClient.visibleFrame_whole (D : Display τ σ) {src : Screen σ}
    (h : c.wholeDue src = true) (hdr : FrameHeader) : (c.visibleFrame D src hdr).body = .full src.dump.bytes := by
  have hbase : (c.advanceVisible src).baseline = c.producer.baseline := rfl
  have hwhole : (c.advanceVisible src).encodeVisible D c.usesMorph = .full src.dump.bytes := by
    unfold FrameProducer.encodeVisible
    rw [hbase]
    unfold wholeDue at h
    cases hb : c.producer.baseline with
    | none =>
      cases c.usesMorph <;> rfl
    | some base =>
      rw [hb] at h
      cases hm : c.usesMorph with
      | true =>
        simp only [hm, if_true, Bool.not_eq_true'] at h
        rw [if_pos rfl, MorphDelta.encode]
        simp only [h, Bool.false_eq_true, if_false]
        rfl
      | false =>
        simp only [hm, Bool.false_eq_true, if_false, Bool.not_eq_true', decide_eq_false_iff_not]
          at h
        rw [if_neg Bool.false_ne_true, DumpDiff.encode]
        exact if_neg h
  show stampBaseSum _ _ _ = _
  rw [hwhole, stampBaseSum_full]

theorem DaemonClient.wholeDue_of_dropped (h : c.producer.ackedData = none)
    (src : Screen σ) : c.wholeDue src = true := by
  have hnone : c.producer.baseline = none := by
    unfold FrameProducer.baseline
    rw [h]
  rw [wholeDue, hnone]

/-- The number a body is anchored at. -/
def FrameBody.anchor : FrameBody → Option ℕ
  | .diff base _ _ | .morph base _ _ | .scrollback base _ => some base
  | _ => none

/-- Whether a body carries a screen. -/
def FrameBody.isVisible : FrameBody → Bool
  | .full _ | .diff _ _ _ | .morph _ _ _ => true
  | _ => false

/-! ### The system -/

/-- The relay loop, and what the promises are stated over. -/
structure Rehome (τ σ : Type) where
  loop : RelayLoop τ σ
  /-- history: the base held when each of the daemon's frames was made, by frame number -/
  bases : List (Option ℕ) := [none]
  /-- history: the frames that moved the client -/
  taken : List ServerFrame := []

namespace Rehome

open RelayLoop (Act)

/-- The base the daemon's newest frame was encoded on. -/
def encodedOn (p : FrameProducer σ) : Option ℕ := if p.hasAckedBase then some p.ackedNum else none

/-- The frame that moved the client from `s` to `s'`. -/
def taking (s s' : RelayLoop τ σ) : Act σ → List ServerFrame
  | .deliverFrame i =>
    if s'.client.appliedNum = s.client.appliedNum then [] else (s.frames[i]?).toList
  | _ => []

/-- The histories after a step of the loop. -/
def record (r : Rehome τ σ) (a : Act σ) (s' : RelayLoop τ σ) : Rehome τ σ where
  loop := s'
  bases :=
    if s'.log.length = r.loop.log.length then r.bases
    else r.bases ++ [encodedOn s'.daemon.producer]
  taken := r.taken ++ taking r.loop s' a

def step (D : Display τ σ) (wireLen : ServerFrame → ℕ) (c : RelayConfig) (r : Rehome τ σ)
    (a : Act σ) : Option (Rehome τ σ) :=
  (r.loop.step D wireLen c a).map (r.record a)

/-- The channel right after the move, with a client and messages and frames of the session
before. -/
def start (D : Display τ σ) (c : RelayConfig) (client : ClientState τ) (frames : List ServerFrame)
    (messages : List ClientMessage) : Rehome τ σ where
  loop := .link D c client frames messages

/-- What the session before left: nothing is numbered above the ceiling `k`. -/
structure Before (k : ℕ) (client : ClientState τ) (frames : List ServerFrame)
    (messages : List ClientMessage) : Prop where
  applied : client.appliedNum ≤ k
  history : ∀ b ∈ client.baseHistory, b.1 ≤ k
  frames : ∀ f ∈ frames, f.frameNum ≤ k
  messages : ∀ m ∈ messages, m.ackedFrame ≤ k

/-! ### The promises -/

/-- **The promises of a re-homed numbering**, above the ceiling `k`. -/
structure Sound (D : Display τ σ) (k : ℕ) (r : Rehome τ σ) : Prop where
  /-- a visible body encoded on a frame `b` that the client has applied is accepted and shows the
  screen the daemon encoded -/
  accepted : ∀ f ∈ r.loop.frames, ∀ n b, f.frameNum = n + k → f.body.isVisible = true →
    r.bases[n]? = some (some b) → 0 < b → b + k ≤ r.loop.client.appliedNum →
      r.loop.client.appliedNum < f.frameNum → (r.loop.client.applyFrame D f).1.appliedNum = f.frameNum ∧
          RoamingLoop.bytesAt r.loop.log n = some (r.loop.client.applyFrame D f).1.appliedData
  /-- no body of this connection was applied to a state or a dump of the session before -/
  anchored : ∀ f ∈ r.taken, k < f.frameNum → ∀ base, f.body.anchor = some base → k < base

/-! ### The condition on the steps -/

/-- A growth frame of this connection names the number of the old state the client is at. -/
def meetsOldState (k : ℕ) (s : RelayLoop τ σ) (f : ServerFrame) : Bool :=
  match f.body with
  | .scrollback base _ =>
    decide (k < f.frameNum) && decide (base ≤ k) && base == s.client.appliedNum
  | _ => false

/-- **The condition on the steps**: a screen that is broadcast is encoded as a whole dump, and no
growth frame arrives at a client at an old state of the number it names. -/
def keepsOffset (k : ℕ) (r : Rehome τ σ) : Act σ → Bool
  | .broadcast src _ => r.loop.daemon.wholeDue src
  | .deliverFrame i => (r.loop.frames[i]?).all fun f => !meetsOldState k r.loop f
  | _ => true

/-! ### The invariant -/

/-- A body of the daemon's frame `n` is a whole dump, or carries no screen. -/
def WholeFits (log : List LoggedFrame) (n : ℕ) : FrameBody → Prop
  | .full bytes => RoamingLoop.bytesAt log n = some bytes
  | .scrollback _ _ | .empty => True
  | _ => False

variable {log : List LoggedFrame}

theorem WholeFits.append {n : ℕ} {body : FrameBody}
    (h : WholeFits log n body) (g : LoggedFrame) : WholeFits (log ++ [g]) n body := by
  cases body with
  | full bytes => exact RoamingLoop.bytesAt_append h g
  | scrollback | empty => trivial
  | diff | morph | scrollback2 => exact h.elim

/-- What holds of the loop in every run whose steps meet the condition. -/
structure Above (k : ℕ) (s : RelayLoop τ σ) : Prop where
  tracks : FrameProducer.Tracks s.log s.daemon.producer
  lossy : s.daemon.lossy = true
  coalesce : s.daemon.coalesce = false
  offset : s.bridge.daemon.frameOffset = k
  /-- above the ceiling, every visible body in flight is the whole dump of its frame -/
  frames : ∀ f ∈ s.frames, k < f.frameNum → WholeFits s.log (f.frameNum - k) f.body
  held : ∀ f ∈ s.bridge.daemon.held.frames, f ∈ s.frames
  pending : ∀ f ∈ s.pending, WholeFits s.log f.frameNum f.body

section Invariant

variable {s : RelayLoop τ σ} {k : ℕ} (D : Display τ σ) {f : ServerFrame}

theorem above_link {c : RelayConfig} {client : ClientState τ}
    {frames : List ServerFrame} {messages : List ClientMessage}
    (h : Before c.frameOffset client frames messages) :
    Above c.frameOffset (.link D c client frames messages : RelayLoop τ σ) where
  tracks := FrameProducer.tracks_new D c.rows c.cols
  lossy := rfl
  coalesce := rfl
  offset := rfl
  frames := by
    intro f hf hlt
    have hle := h.frames f hf
    omega
  held := by
    intro f hf
    simp [link, SessionBridge.link, DaemonLeg.link, HeldFrame.frames] at hf
  pending := by
    intro f hf
    simp [pending, link, SessionBridge.link, DaemonLeg.link] at hf

theorem Above.daemon_quiet (h : Above k s) (daemon : DaemonClient σ)
    (htracks : FrameProducer.Tracks s.log daemon.producer) (hl : daemon.lossy = true)
    (hc : daemon.coalesce = false) (hbuf : daemon.writeBuf = s.daemon.writeBuf) : Above k { s with daemon } := by
  have hpending : ({ s with daemon } : RelayLoop τ σ).pending = s.pending := by
    rw [RelayLoop.pending, hbuf]
    rfl
  exact { h with
      tracks := htracks
      lossy := hl
      coalesce := hc
      pending := hpending ▸ h.pending }

theorem Above.daemon_queue (h : Above k s) {daemon : DaemonClient σ} {g : LoggedFrame}
    {len : ℕ} (htracks : FrameProducer.Tracks (s.log ++ [g]) daemon.producer)
    (hl : daemon.lossy = true) (hc : daemon.coalesce = false)
    (hbuf : daemon.writeBuf = s.daemon.writeBuf ++ RecordWire.wireOf len f)
    (hf : WholeFits (s.log ++ [g]) f.frameNum f.body) : Above k { s with daemon, log := s.log ++ [g] } := by
  have hpending := s.pending_queue hbuf (s.log ++ [g])
  refine
    { tracks := htracks
      lossy := hl
      coalesce := hc
      offset := h.offset
      frames := fun f' hf' hlt => (h.frames f' hf' hlt).append g
      held := h.held
      pending := ?_ }
  rw [hpending]
  intro f' hf'
  rcases List.mem_append.1 hf' with hf' | hf'
  · exact (h.pending f' hf').append g
  · rw [List.mem_singleton.1 hf']
    exact hf

/-- A screen that is encoded as a whole dump is broadcast. -/
theorem above_broadcast (wireLen : ServerFrame → ℕ) (h : Above k s)
    {src : Screen σ} (hwhole : s.daemon.wholeDue src = true) (hdr : FrameHeader) :
    Above k (s.setDaemon true (s.daemon.queueFrame D wireLen src hdr)) := by
  rw [s.setDaemon_queueFrame D wireLen h.lossy h.coalesce]
  have htracks : FrameProducer.Tracks (s.log ++ [⟨true, src.dump⟩]) (s.daemon.advanceVisible src) :=
    h.tracks.advanceVisible _ _ _ _ _
  refine h.daemon_queue htracks h.lossy h.coalesce rfl ?_
  rw [visibleFrame_whole D hwhole]
  exact RoamingLoop.bytesAt_of_dumpAt htracks.current_dump

theorem above_scrollback (wireLen : ServerFrame → ℕ) (h : Above k s) (term : SessionTerm)
    (hdr : FrameHeader) : Above k (s.setDaemon false (s.daemon.maybeQueueScrollback wireLen term hdr)) := by
  rcases s.setDaemon_scrollback wireLen h.lossy term hdr with heq | heq
  · rw [heq]
    exact h
  · rw [heq]
    exact h.daemon_queue (h.tracks.advanceScrollbackAfterVisible _) h.lossy h.coalesce rfl trivial

theorem above_keyframe (wireLen : ServerFrame → ℕ) (h : Above k s)
    (hnone : s.daemon.producer.ackedData = none) (src : Screen σ) (hdr : FrameHeader) :
    Above k (s.setDaemon true (s.daemon.queueFrame D wireLen src hdr)) :=
  above_broadcast D wireLen h (wholeDue_of_dropped hnone src) hdr

theorem above_swapSource (wireLen : ServerFrame → ℕ) (h : Above k s) (src : Screen σ) (hdr : FrameHeader) :
    Above k (s.setDaemon true (s.daemon.dropAckedBase.queueFrame D wireLen src hdr)) := by
  have hdropped := h.daemon_quiet s.daemon.dropAckedBase h.tracks.dropAckedBase
    h.lossy h.coalesce rfl
  rw [← s.setDaemon_of_currentNum s.daemon.dropAckedBase rfl]
  exact above_keyframe D wireLen hdropped rfl src hdr

theorem above_daemonRead (wireLen : ServerFrame → ℕ) (h : Above k s)
    (r : DaemonRecord) (src : Screen σ) (hdr : FrameHeader) : Above k (s.daemonRead D wireLen src hdr r) := by
  cases r with
  | input bytes => exact h
  | frameAck ack =>
    obtain ⟨-, hproducer, hl, hco, -, -, hbuf, -⟩ := applyFrameAck_eq (.inl h.lossy) ack
    have hack := h.tracks.ack ack.ackedFrame
    have happlied := h.daemon_quiet (s.daemon.applyFrameAck ack).2
      (by rw [hproducer]; split; exacts [hack.dropAckedBase, hack]) (hl.trans h.lossy)
      (hco.trans h.coalesce) hbuf
    rw [daemonRead, s.setDaemon_handleFrameAck D wireLen h.lossy]
    cases hr : ack.resync with
    | true =>
      refine above_keyframe D wireLen happlied ?_ src hdr
      show (s.daemon.applyFrameAck ack).2.producer.ackedData = none
      rw [hproducer, hr]
      rfl
    | false => exact happlied

/-- **The bridge forwards a frame**: above the ceiling. -/
theorem above_relay (h : Above k s) (echoAck : ℕ) {rest : List (Option ServerFrame)}
    (htake : RecordWire.takeRecord s.bridge.daemon.read = some (f, rest)) : Above k (s.relay echoAck f rest) := by
  have hpending := s.pending_relay echoAck htake
  have hfits : WholeFits s.log f.frameNum f.body :=
    h.pending f (by rw [hpending]; exact List.mem_cons_self)
  refine
    { tracks := h.tracks
      lossy := h.lossy
      coalesce := h.coalesce
      offset := h.offset
      frames := ?_
      held := ?_
      pending := fun g hg => h.pending g (by rw [hpending]; exact List.mem_cons_of_mem _ hg) }
  · intro g hg hlt
    rcases List.mem_append.1 hg with hg | hg
    · exact h.frames g hg hlt
    · rw [List.mem_singleton.1 hg]
      show WholeFits s.log (f.frameNum + s.bridge.daemon.frameOffset - k) f.body
      rw [h.offset, Nat.add_sub_cancel]
      exact hfits
  · intro g hg
    rcases HeldFrame.mem_frames_hold hg with hg | rfl
    · exact List.mem_append_left _ (h.held g hg)
    · exact List.mem_append_right _ (List.mem_singleton_self _)

theorem above_deliverMessage (h : Above k s) (m : ClientMessage) :
    Above k { s with bridge := (s.bridge.clientMessage m).2 } := by
  obtain ⟨leg, hbridge, hread, hoffset, hlegheld, -, -⟩ := s.bridge.clientMessage_daemon m
  have hpending : ({ s with bridge := (s.bridge.clientMessage m).2 } : RelayLoop τ σ).pending =
      s.pending := by
    rw [pending, pending, hbridge, DaemonLeg.forwardAck_read, hread]
  obtain ⟨hvisible, hscrollback⟩ := leg.forwardAck_slots m.ackedFrame m.flagResync
  rw [← hbridge, hlegheld] at hvisible hscrollback
  exact { h with
      offset := by
        show (s.bridge.clientMessage m).2.daemon.frameOffset = k
        rw [hbridge, DaemonLeg.forwardAck_frameOffset, hoffset, h.offset]
      held := fun f hf => h.held f (HeldFrame.mem_frames_of_slots hvisible hscrollback hf)
      pending := hpending ▸ h.pending }

theorem Above.push (h : Above k s) {fs : List ServerFrame}
    (hfs : ∀ f ∈ fs, k < f.frameNum → WholeFits s.log (f.frameNum - k) f.body) :
    Above k { s with frames := s.frames ++ fs } := by
  refine { h with frames := ?_, held := fun f hf => List.mem_append_left _ (h.held f hf) }
  intro f hf
  rcases List.mem_append.1 hf with hf | hf
  · exact h.frames f hf
  · exact hfs f hf

/-- **A step that meets the condition keeps the numbering.** -/
theorem above_step (wireLen : ServerFrame → ℕ) (c : RelayConfig) {s' : RelayLoop τ σ} {a : Act σ} (h : Above k s)
    (hok : ∀ src hdr, a = .broadcast src hdr → s.daemon.wholeDue src = true)
    (hstep : s.step D wireLen c a = some s') : Above k s' := by
  cases a with
  | broadcast src hdr =>
    rw [RelayLoop.step, Option.some.injEq] at hstep
    exact hstep ▸ above_broadcast D wireLen h (hok src hdr rfl) hdr
  | swapSource src hdr =>
    rw [RelayLoop.step, Option.some.injEq] at hstep
    exact hstep ▸ above_swapSource D wireLen h src hdr
  | scrollback term hdr =>
    rw [RelayLoop.step, Option.some.injEq] at hstep
    exact hstep ▸ above_scrollback wireLen h term hdr
  | writeDown n =>
    rw [RelayLoop.step, Option.some.injEq] at hstep
    subst hstep
    exact { h with
        tracks := h.tracks
        lossy := h.lossy
        coalesce := h.coalesce
        pending := (s.pending_writeDown n).symm ▸ h.pending }
  | readDown echoAck =>
    rw [RelayLoop.step, Option.map_eq_some_iff] at hstep
    obtain ⟨⟨f, rest⟩, htake, rfl⟩ := hstep
    exact above_relay h echoAck htake
  | resendHeld =>
    rw [RelayLoop.step, Option.some.injEq] at hstep
    exact hstep ▸ h.push fun f hf => h.frames f (h.held f hf)
  | heartbeat echoAck =>
    rw [RelayLoop.step, Option.some.injEq] at hstep
    refine hstep ▸ h.push fun f hf hlt => ?_
    rw [List.mem_singleton.1 hf]
    trivial
  | writeUp n | requestResync | send inputBase input =>
    rw [RelayLoop.step, Option.some.injEq] at hstep
    exact hstep ▸ { h with }
  | readUp src hdr =>
    simp only [RelayLoop.step] at hstep
    cases hup : s.up with
    | nil =>
      rw [hup] at hstep
      cases hstep
    | cons r rest =>
      rw [hup] at hstep
      simp only [Option.some.injEq] at hstep
      have hrest : Above k ({ s with up := rest } : RelayLoop τ σ) := { h with }
      exact hstep ▸ above_daemonRead D wireLen hrest r src hdr
  | deliverMessage i =>
    rw [RelayLoop.step, Option.map_eq_some_iff] at hstep
    obtain ⟨m, -, rfl⟩ := hstep
    exact above_deliverMessage h m
  | deliverFrame i =>
    rw [RelayLoop.step, Option.map_eq_some_iff] at hstep
    obtain ⟨f, -, rfl⟩ := hstep
    exact { h with }

end Invariant

/-! ### The promises, kept -/

theorem WholeFits.visible {n : ℕ} {body : FrameBody} (h : WholeFits log n body) (hvis : body.isVisible = true) :
    ∃ bytes, body = .full bytes ∧ RoamingLoop.bytesAt log n = some bytes := by
  cases body with
  | full bytes => exact ⟨bytes, rfl, h⟩
  | diff | morph => exact h.elim
  | empty | scrollback | scrollback2 => cases hvis

variable (D : Display τ σ) {k : ℕ} {f : ServerFrame}

theorem applyFrame_full (st : ClientState τ) {bytes : Bytes}
    (hbody : f.body = .full bytes) (hnew : st.appliedNum < f.frameNum) :
    (st.applyFrame D f).1.appliedNum = f.frameNum ∧ (st.applyFrame D f).1.appliedData = bytes := by
  have hstale : ¬f.frameNum < st.appliedNum := by omega
  have hdup : ¬f.frameNum = st.appliedNum := by omega
  unfold ClientState.applyFrame
  simp only [hbody, hstale, if_false, ClientState.checkBase, ClientState.applyVisible, hdup,
    FrameSync.apply_full, and_self]

/-- **A body of this connection that moves the client under the condition** is not anchored at an old
number. -/
theorem anchor_taken {s : RelayLoop τ σ} (h : Above k s) (hf : f ∈ s.frames) (hok : meetsOldState k s f = false)
    (hmoved : (s.client.applyFrame D f).1.appliedNum ≠ s.client.appliedNum)
    (hnum : k < f.frameNum) {base : ℕ} (hbase : f.body.anchor = some base) : k < base := by
  have hfits := h.frames f hf hnum
  have hl := s.client.applyFrame_landing D f
  generalize hv : (s.client.applyFrame D f).1.shown = v at hl
  cases hl with
  | rejected => exact absurd (congrArg Shown.num hv) hmoved
  | full dump history hbody hnew hmem =>
    rw [hbody] at hbase
    cases hbase
  | diff b sum diff held dump history hbody hnew hheld hsum happly hmem =>
    rw [hbody] at hfits
    exact hfits.elim
  | morph b sum escapes hbody hnew =>
    rw [hbody] at hfits
    exact hfits.elim
  | scrollback rows hbody hnew =>
    rw [hbody, FrameBody.anchor, Option.some.injEq] at hbase
    -- the client is at the number the growth names, so that number is not an old one
    by_contra hold
    have hclient : base = s.client.appliedNum := hbase.symm
    have hmeets : meetsOldState k s f = true := by
      unfold meetsOldState
      rw [hbody]
      simp only [Bool.and_eq_true, decide_eq_true_eq, beq_iff_eq]
      exact ⟨⟨hnum, by omega⟩, rfl⟩
    rw [hok] at hmeets
    cases hmeets

/-- What holds of every run whose steps meet the condition. -/
structure Kept (k : ℕ) (r : Rehome τ σ) : Prop where
  above : Above k r.loop
  anchored : ∀ f ∈ r.taken, k < f.frameNum → ∀ base, f.body.anchor = some base → k < base

/-- **Every step that meets the condition keeps the promises.** -/
theorem kept_step (wireLen : ServerFrame → ℕ) (c : RelayConfig)
    {r r' : Rehome τ σ} {a : Act σ} (h : Kept k r) (hok : keepsOffset k r a = true)
    (hstep : r.step D wireLen c a = some r') : Kept k r' := by
  obtain ⟨s', hs', rfl⟩ := Option.map_eq_some_iff.1 hstep
  refine ⟨above_step D wireLen c h.above ?_ hs', ?_⟩
  · intro src hdr ha
    subst ha
    exact hok
  · intro f hf hnum base hbase
    rcases List.mem_append.1 hf with hf | hf
    · exact h.anchored f hf hnum base hbase
    · cases a with
      | deliverFrame i =>
        rw [RelayLoop.step, Option.map_eq_some_iff] at hs'
        obtain ⟨g, hg, rfl⟩ := hs'
        simp only [taking, hg] at hf
        split at hf
        · cases hf
        · rename_i hmoved
          rw [List.mem_singleton.1 hf] at hnum hbase
          simp only [keepsOffset, hg, Option.all_some, Bool.not_eq_true'] at hok
          exact anchor_taken D h.above (List.mem_of_getElem? hg) hok hmoved hnum hbase
      | _ => cases hf

theorem sound_of_kept {r : Rehome τ σ} (h : Kept k r) : Sound D k r where
  accepted := by
    intro f hf n b hn hvis _ hb hle hlt
    have hfits := h.above.frames f hf (by omega)
    obtain ⟨bytes, hbody, hbytes⟩ := hfits.visible hvis
    obtain ⟨hnum, hdata⟩ := applyFrame_full D r.loop.client hbody hlt
    rw [hn, Nat.add_sub_cancel] at hbytes
    exact ⟨hnum, by rw [hbytes, hdata]⟩
  anchored := h.anchored

def sampleMove : RelayConfig where
  rows := 24
  cols := 80
  baseSums := false
  frameOffset := 1

/-- A client at frame 1 of the session before, whose dump it retains. -/
def sampleClient : ClientState Unit where
  rows := 24
  cols := 80
  applier := .dumpDiff
  appliedNum := 1
  appliedData := List.replicate 21 46
  serverTerm := ()
  baseHistory := [(1, List.replicate 21 46)]
  history := { scrollback := .new 1 }

/-- The new session's frame 1 is shown as frame 2 and acknowledged; its frame 2 is a diff on
frame 1. -/
def diffRun : List (Act Unit) :=
  [.broadcast (RoamingLoop.sampleScreen 1 65) {}, .writeDown 100, .readDown 0, .deliverFrame 0,
    .send 0 [], .deliverMessage 0, .writeUp 1, .readUp (RoamingLoop.sampleScreen 1 65) {},
    .broadcast (RoamingLoop.sampleScreen 2 66) {}, .writeDown 100, .readDown 0]

/-- A session whose screens share nothing is sound. -/
def wholeRun : List (Act Unit) :=
  [.broadcast (RoamingLoop.sampleScreen 1 65) {}, .writeDown 100, .readDown 0, .deliverFrame 0,
    .send 0 [], .deliverMessage 0, .writeUp 1, .readUp (RoamingLoop.sampleScreen 1 65) {},
    .scrollback { sbTotal := 1, ring := [[97]] } {},
    .broadcast { (RoamingLoop.sampleScreen 2 66) with dump := .empty } {}, .writeDown 200,
    .readDown 0, .readDown 0, .deliverFrame 1]

end Rehome

end Posh
