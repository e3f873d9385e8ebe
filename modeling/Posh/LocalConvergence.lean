/-
**A settled local attachment has converged**, as long as no keyframe request is suppressed.

While the viewport acknowledges, a body on another base than the frame it shows is answered with a
keyframe request, if its base is behind that frame.  A body whose base is *ahead* of it is only
re-acknowledged, and this is enough: by the invariant such a base is a frame still on the socket, or
one the viewport rejected, and then the request made at that rejection, or at one before it, is still
on its way.  Once the request arrives, the daemon's base is dropped, and whatever was queued before no
longer matters: the keyframe's number is the next epoch of the invariant.

With its switch off, the viewport rejects in the same way and does not say so.  A body behind the
viewport's frame that arrives then is the one case in which it stays behind for good.
-/

import Posh.LocalInvariant
import Posh.Quiescence

set_option autoImplicit false

namespace Posh

open DaemonClient (applyFrameAck_eq handleFrameAck logAfter)
open List (mem_cons mem_cons_of_mem mem_cons_self)
open RecordWire (takeRecord)

variable {τ σ : Type}

namespace LocalAttach

open RoamingLoop (dumpAt bytesAt dumpAt_append bytesAt_append dumpAt_of_getElem? bytesAt_of_dumpAt)

/-! ### The condition on the steps -/

/-- The viewport answers this frame with a keyframe request: its body is anchored behind the frame
shown. -/
def anchoredBehind (r : FrameRenderer τ) (f : ServerFrame) : Bool :=
  match FrameRenderer.anchoredBase f.body with
  | some base => decide (base < r.appliedNum)
  | none => false

/-- **The condition on the steps**: no frame that is answered with a keyframe request arrives while
the viewport's switch is off. -/
def requestsSent (s : LocalAttach τ σ) : Act σ → Bool
  | .deliver =>
    match RecordWire.takeRecord s.wire with
    | some (f, _) => s.coalesceOn || !anchoredBehind s.client f
    | none => true
  | _ => true

section Invariant

variable {s : LocalAttach τ σ} {e : ℕ} {rest : List (Option ServerFrame)} {up : List FrameAck} {ack : FrameAck}
variable (D : Display τ σ) (wireLen : ServerFrame → ℕ) (src : Screen σ) (hdr : FrameHeader) {f : ServerFrame}

/-! ### An acknowledgement -/

theorem Attached.readAck (h : Attached s) (hup : s.up = ack :: up) :
    Attached { s with up, daemon := (s.daemon.applyFrameAck ack).2 } := by
  obtain ⟨-, hprod, hlossy, hcoalesce, -, -, hbuf, hstart⟩ :=
    applyFrameAck_eq (.inr h.coalesce) ack
  obtain ⟨hcur, hlast⟩ := s.daemon.producer.ack_current ack.ackedFrame
  have hle : ack.ackedFrame ≤ s.client.appliedNum :=
    h.acks ack (by rw [hup]; exact mem_cons_self)
  have hcur' : (s.daemon.applyFrameAck ack).2.producer.current = s.daemon.producer.current ∧
      (s.daemon.applyFrameAck ack).2.producer.lastVisibleNum = s.daemon.producer.lastVisibleNum ∧
      (s.daemon.applyFrameAck ack).2.producer.ackedNum =
        (s.daemon.producer.ack ack.ackedFrame).2.ackedNum := by
    rw [hprod]
    split <;> exact ⟨hcur, hlast, rfl⟩
  obtain ⟨hcur', hlast', hacked⟩ := hcur'
  have hpending : ({ s with up, daemon := (s.daemon.applyFrameAck ack).2 } :
      LocalAttach τ σ).pending = s.pending := by
    unfold pending
    rw [hbuf]
  exact
    { tracks := by
        change FrameProducer.Tracks s.log (s.daemon.applyFrameAck ack).2.producer
        rw [hprod]
        split
        · exact (h.tracks.ack _).dropAckedBase
        · exact h.tracks.ack _
      reliable := hlossy.trans h.reliable
      coalesce := hcoalesce.trans h.coalesce
      codec := h.codec
      inherits := by
        intro n hge hle
        change dumpAt s.log n = some (s.daemon.applyFrameAck ack).2.producer.current.data
        change (s.daemon.applyFrameAck ack).2.producer.lastVisibleNum ≤ n at hge
        change n ≤ (s.daemon.applyFrameAck ack).2.producer.current.num at hle
        rw [hlast'] at hge
        rw [hcur'] at hle ⊢
        exact h.inherits n hge hle
      shown := h.shown
      ordered := by rw [hpending]; exact h.ordered
      acks := fun a ha => h.acks a (by rw [hup]; exact mem_cons_of_mem _ ha)
      replaceable := by
        intro start heq
        change (s.daemon.applyFrameAck ack).2.pendingFrameStart = some start at heq
        change ∃ pre len f, (s.daemon.applyFrameAck ack).2.writeBuf = _ ∧ _ ∧
          (s.daemon.applyFrameAck ack).2.producer.ackedNum < _
        rw [hacked, hbuf]
        rcases hstart with hsame | hnone
        · rw [hsame] at heq
          obtain ⟨pre, len, f, hw, hpre, hlt⟩ := h.replaceable start heq
          refine ⟨pre, len, f, hw, hpre, ?_⟩
          have hmem : f ∈ s.pending := by
            rw [pending, hw]
            simp
          rcases s.daemon.producer.ack_ackedNum ack.ackedFrame with hsame' | hn
          · rw [hsame']
            exact hlt
          · rw [hn]
            exact Nat.lt_of_le_of_lt hle (h.ordered.newer f hmem)
        · rw [hnone] at heq
          cases heq }

theorem Answered.readAck (ha : Answered s e) (h : Attached s)
    (hup : s.up = ack :: up) (hresync : ack.resync = false) :
    Answered { s with up, daemon := (s.daemon.applyFrameAck ack).2 } e := by
  obtain ⟨-, hprod, -, -, -, -, hbuf, -⟩ := applyFrameAck_eq (.inr h.coalesce) ack
  rw [if_neg (by rw [hresync]; exact Bool.false_ne_true)] at hprod
  have hle : ack.ackedFrame ≤ s.client.appliedNum :=
    h.acks ack (by rw [hup]; exact mem_cons_self)
  have hpending : ({ s with up, daemon := (s.daemon.applyFrameAck ack).2 } :
      LocalAttach τ σ).pending = s.pending := by
    unfold pending
    rw [hbuf]
  have hasked : Asked s → Asked ({ s with up, daemon := (s.daemon.applyFrameAck ack).2 } :
      LocalAttach τ σ) := by
    rintro ⟨a, hmem, hr⟩
    rw [hup] at hmem
    rcases mem_cons.1 hmem with rfl | hmem
    · rw [hresync] at hr
      cases hr
    · exact ⟨a, hmem, hr⟩
  refine ⟨ha.epoch, ?_, ?_, ?_⟩
  · intro f hf hge
    rw [hpending] at hf ⊢
    exact (ha.fine f hf hge).mono (h.ordered.fits f hf) (fun _ _ hex => hex) hasked
  · intro hheld
    rw [hpending]
    change (s.daemon.applyFrameAck ack).2.producer.hasAckedBase = true at hheld
    change Reaches _ _ _ _ (s.daemon.applyFrameAck ack).2.producer.ackedNum
    rw [hprod] at hheld ⊢
    rcases s.daemon.producer.ack_ackedNum ack.ackedFrame with hsame | hn
    · rw [hsame] at hheld ⊢
      exact (ha.base hheld).mono id hasked
    · rw [hn]
      exact .inl hle
  · rw [hpending]
    change (s.daemon.applyFrameAck ack).2.producer.lastVisibleNum ≤ _ ∨
      (∃ f ∈ s.pending, f.frameNum = (s.daemon.applyFrameAck ack).2.producer.lastVisibleNum) ∨ _
    rw [hprod, (FrameProducer.ack_current _ _).2]
    rcases ha.covered with hcov | hcov | hcov
    · exact .inl hcov
    · exact .inr (.inl hcov)
    · exact .inr (.inr (hasked hcov))

/-- **An acknowledgement keeps the invariant**; one that asks for a keyframe starts an epoch. -/
theorem Attached.daemonRead (h : Attached s) (ha : Answered s e) (hup : s.up = ack :: up) :
    ∃ e', Attached (({ s with up } : LocalAttach τ σ).setDaemon true
          (s.daemon.handleFrameAck D wireLen ack src hdr)) ∧
      Answered (({ s with up } : LocalAttach τ σ).setDaemon true
          (s.daemon.handleFrameAck D wireLen ack src hdr)) e' := by
  obtain ⟨hflag, hprod, -⟩ := applyFrameAck_eq (.inr h.coalesce) ack
  obtain ⟨hcur, -⟩ := s.daemon.producer.ack_current ack.ackedFrame
  have hs := h.readAck hup
  have hnum : (s.daemon.applyFrameAck ack).2.producer.currentNum = s.daemon.producer.currentNum := by
    unfold FrameProducer.currentNum
    rw [hprod]
    split <;> exact congrArg ProducedFrame.num hcur
  cases hresync : ack.resync with
  | false =>
    have hset : ({ s with up } : LocalAttach τ σ).setDaemon true
        (s.daemon.handleFrameAck D wireLen ack src hdr) =
        { s with up, daemon := (s.daemon.applyFrameAck ack).2 } := by
      unfold handleFrameAck setDaemon logAfter
      rw [hflag, hresync, if_neg Bool.false_ne_true, if_pos hnum]
    rw [hset]
    exact ⟨e, hs, ha.readAck h hup hresync⟩
  | true =>
    have hset : ({ s with up } : LocalAttach τ σ).setDaemon true
        (s.daemon.handleFrameAck D wireLen ack src hdr) =
        ({ s with up, daemon := (s.daemon.applyFrameAck ack).2 } :
          LocalAttach τ σ).setDaemon true
            ((s.daemon.applyFrameAck ack).2.queueFrame D wireLen src hdr) := by
      unfold handleFrameAck setDaemon logAfter
      rw [hflag, hresync, if_pos rfl, hnum]
    have hnone : (s.daemon.applyFrameAck ack).2.producer.ackedData = none := by
      rw [hprod, hresync]
      rfl
    have hq := hs.queueFrame D wireLen src hdr
    have hfull : ((s.daemon.applyFrameAck ack).2.visibleFrame D src hdr).body = .full src.dump.bytes := by
      rcases hs.visibleFrame_body D src hdr with hfull | ⟨b, hb, -⟩
      · exact hfull
      · change (s.daemon.applyFrameAck ack).2.producer.ackedData = some b at hb
        rw [hnone] at hb
        cases hb
    rw [hset]
    refine ⟨_, hq.attached, hq.answered_keyframe hfull ?_
      (setDaemon_queueFrame_last (s := { s with up, daemon := (s.daemon.applyFrameAck ack).2 })
        D wireLen src hdr).1⟩
    change (s.daemon.applyFrameAck ack).2.producer.ackedData.isSome = false
    rw [hnone]
    rfl

/-! ### The socket and the switch -/

theorem pending_drain (n : ℕ) :
    ({ s with daemon := s.daemon.drain n, wire := s.wire ++ s.daemon.writeBuf.take n } :
      LocalAttach τ σ).pending = s.pending := by
  unfold pending DaemonClient.drain
  rw [List.append_assoc, List.take_append_drop]

theorem Attached.drain (h : Attached s) (n : ℕ) :
    Attached { s with daemon := s.daemon.drain n, wire := s.wire ++ s.daemon.writeBuf.take n } := by
  have hpending := pending_drain (s := s) n
  refine
    { h with
      ordered := by rw [hpending]; exact h.ordered
      replaceable := ?_ }
  intro start hstart
  obtain ⟨start', hstart', hsub⟩ := Option.bind_eq_some_iff.1 hstart
  obtain ⟨pre, len, f, hbuf, hpre, hlt⟩ := h.replaceable start' hstart'
  split at hsub
  case isTrue hle =>
    rw [Option.some.injEq] at hsub
    refine ⟨pre.drop n, len, f, ?_, ?_, hlt⟩
    · change s.daemon.writeBuf.drop n = _
      rw [hbuf, List.drop_append_of_le_length (by omega)]
    · rw [List.length_drop, hpre, hsub]
  case isFalse => cases hsub

theorem Answered.drain (ha : Answered s e) (n : ℕ) :
    Answered { s with daemon := s.daemon.drain n, wire := s.wire ++ s.daemon.writeBuf.take n } e := by
  have hpending := pending_drain (s := s) n
  exact ⟨ha.epoch, by rw [hpending]; exact ha.fine, by rw [hpending]; exact ha.base,
    by rw [hpending]; exact ha.covered⟩

theorem Attached.toggle (h : Attached s) (on : Bool) :
    Attached { s with
      coalesceOn := on
      up := s.up ++ [{ ackedFrame := 0, coalesceOff := !on }] } := by
  refine { h with acks := ?_ }
  intro a ha
  rcases List.mem_append.1 ha with ha | ha
  · exact h.acks a ha
  · rw [List.mem_singleton.1 ha]
    exact Nat.zero_le _

theorem Answered.toggle (ha : Answered s e) (h : Attached s) (on : Bool) :
    Answered { s with
      coalesceOn := on
      up := s.up ++ [{ ackedFrame := 0, coalesceOff := !on }] } e := by
  have hasked : Asked s → Asked ({ s with
      coalesceOn := on
      up := s.up ++ [{ ackedFrame := 0, coalesceOff := !on }] } : LocalAttach τ σ) :=
    fun ⟨a, hmem, hr⟩ => ⟨a, List.mem_append_left _ hmem, hr⟩
  refine ⟨ha.epoch, ?_, ?_, ?_⟩
  · intro f hf hge
    exact (ha.fine f hf hge).mono (h.ordered.fits f hf) (fun _ _ hex => hex) hasked
  · intro hheld
    exact (ha.base hheld).mono id hasked
  · rcases ha.covered with hcov | hcov | hcov
    · exact .inl hcov
    · exact .inr (.inl hcov)
    · exact .inr (.inr (hasked hcov))

/-! ### A delivery -/

theorem pending_take (htake : takeRecord s.wire = some (f, rest)) :
    s.pending = f :: (s.take D f rest).pending := by
  unfold pending
  rw [RecordWire.records_append, RecordWire.takeRecord_spec htake]
  exact congrArg (f :: ·) (RecordWire.records_append _ _).symm

theorem Attached.render_cases (h : Attached s) (hmem : f ∈ s.pending) :
    (∃ r, s.client.renderFrameAcking D f = (r, f.frameNum, false) ∧ r.applier = .dumpDiff ∧
        r.appliedNum = f.frameNum ∧ bytesAt s.log f.frameNum = some r.appliedData) ∨
      (∃ base sum diff, f.body = .diff base sum diff ∧ base ≠ s.client.appliedNum ∧
        s.client.renderFrameAcking D f = (s.client, s.client.appliedNum, decide (base < s.client.appliedNum))) ∨
      (∃ base rows, f.body = .scrollback base rows ∧ base ≠ s.client.appliedNum ∧
        s.client.renderFrameAcking D f = (s.client, s.client.appliedNum, false)) := by
  have hnew := h.ordered.newer f hmem
  have hfits := h.ordered.fits f hmem
  have hshown := h.shown
  unfold QueuedFits at hfits
  cases hb : f.body with
  | full bytes =>
    rw [hb] at hfits
    obtain ⟨d, hd, rfl⟩ := hfits
    obtain ⟨term, heq⟩ := s.client.renderFrameAcking_full D hnew hb
    exact .inl ⟨_, heq, h.codec, rfl, bytesAt_of_dumpAt (dumpAt_of_getElem? hd)⟩
  | diff base sum diff =>
    rw [hb] at hfits
    obtain ⟨-, b, d, hbase, hd, rfl⟩ := hfits
    have happly : base = s.client.appliedNum →
        applyDiff s.client.appliedData (makeDiff b.bytes d.bytes) = some d.bytes := by
      rintro rfl
      rw [bytesAt_of_dumpAt hbase, Option.some.injEq] at hshown
      rw [← hshown]
      exact applyDiff_dump b d
    rcases s.client.renderFrameAcking_diff D h.codec hnew hb happly with
      ⟨-, term, heq⟩ | ⟨hne, heq⟩
    · exact .inl ⟨_, heq, h.codec, rfl, bytesAt_of_dumpAt (dumpAt_of_getElem? hd)⟩
    · exact .inr (.inl ⟨base, sum, _, rfl, hne, heq⟩)
  | scrollback base rows =>
    rw [hb] at hfits
    obtain ⟨-, d, hbase, hd⟩ := hfits
    rcases s.client.renderFrameAcking_scrollback D hnew hb with ⟨rfl, heq⟩ | ⟨hne, heq⟩
    · -- growth inherits the dump of its base, which is the one shown
      rw [bytesAt_of_dumpAt hbase] at hshown
      exact .inl ⟨_, heq, h.codec, rfl, (bytesAt_of_dumpAt (dumpAt_of_getElem? hd)).trans hshown⟩
    · exact .inr (.inr ⟨base, rows, rfl, hne, heq⟩)
  | empty | morph | scrollback2 =>
    rw [hb] at hfits
    exact hfits.elim

theorem take_up (f : ServerFrame) (rest : List (Option ServerFrame)) {a : FrameAck}
    (ha : a ∈ (s.take D f rest).up) : a ∈ s.up ∨ a.ackedFrame = (s.client.renderFrameAcking D f).2.1 := by
  unfold take at ha
  cases hc : s.coalesceOn with
  | true =>
    simp only [hc, if_true, List.mem_append, List.mem_singleton] at ha
    rcases ha with ha | rfl
    · exact .inl ha
    · exact .inr rfl
  | false =>
    simp only [hc, Bool.false_eq_true, if_false] at ha
    exact .inl ha

theorem Asked.take (h : Asked s) (f : ServerFrame) (rest : List (Option ServerFrame)) :
    Asked (s.take D f rest) := by
  obtain ⟨a, ha, hr⟩ := h
  refine ⟨a, ?_, hr⟩
  unfold LocalAttach.take
  cases s.coalesceOn with
  | true => exact List.mem_append_left _ ha
  | false => exact ha

theorem Attached.take (h : Attached s)
    (htake : takeRecord s.wire = some (f, rest)) : Attached (s.take D f rest) := by
  have hpending := pending_take D htake
  have hmem : f ∈ s.pending := by
    rw [hpending]
    exact mem_cons_self
  have hnew := h.ordered.newer f hmem
  have hordered := h.ordered
  rw [hpending] at hordered
  obtain ⟨hfirst, hasc⟩ := List.pairwise_cons.1 hordered.ascending
  have hfits : ∀ g ∈ (s.take D f rest).pending, QueuedFits s.log g :=
    fun g hg => hordered.fits g (mem_cons_of_mem _ hg)
  rcases h.render_cases D hmem with
    ⟨r, heq, happlier, hnum, hdata⟩ | ⟨base, sum, diff, -, -, heq⟩ | ⟨base, rows, -, -, heq⟩
  · have hclient : (s.take D f rest).client = r := by rw [LocalAttach.take, heq]
    exact
      { tracks := h.tracks
        reliable := h.reliable
        coalesce := h.coalesce
        codec := by rw [hclient]; exact happlier
        inherits := h.inherits
        shown := by rw [hclient, hnum]; exact hdata
        ordered := by
          rw [hclient, hnum]
          exact ⟨hasc, hfirst, hfits⟩
        acks := by
          intro a ha
          rw [hclient, hnum]
          rcases take_up D f rest ha with ha | ha
          · exact Nat.le_of_lt (Nat.lt_of_le_of_lt (h.acks a ha) hnew)
          · rw [ha, heq]
        replaceable := h.replaceable }
  all_goals
    have hclient : (s.take D f rest).client = s.client := by rw [LocalAttach.take, heq]
    exact
      { tracks := h.tracks
        reliable := h.reliable
        coalesce := h.coalesce
        codec := by rw [hclient]; exact h.codec
        inherits := h.inherits
        shown := by rw [hclient]; exact h.shown
        ordered := by
          rw [hclient]
          exact ⟨hasc, fun g hg => hordered.newer g (mem_cons_of_mem _ hg), hfits⟩
        acks := by
          intro a ha
          rw [hclient]
          rcases take_up D f rest ha with ha | ha
          · exact h.acks a ha
          · rw [ha, heq]
        replaceable := h.replaceable }

theorem Answered.accept (ha : Answered s e) (h : Attached s) (htake : takeRecord s.wire = some (f, rest))
    (hnum : (s.take D f rest).client.appliedNum = f.frameNum) : Answered (s.take D f rest) e := by
  have hpending := pending_take D htake
  have hordered := h.ordered
  rw [hpending] at hordered
  obtain ⟨hfirst, -⟩ := List.pairwise_cons.1 hordered.ascending
  have hnew := hordered.newer f mem_cons_self
  have hasked : Asked s → Asked (s.take D f rest) := fun hr => hr.take D f rest
  refine ⟨ha.epoch, ?_, ?_, ?_⟩
  · intro g hg hge
    have hold : g ∈ s.pending := by
      rw [hpending]
      exact mem_cons_of_mem _ hg
    have hfine := ha.fine g hold hge
    rw [hpending] at hfine
    rw [hnum]
    exact hfine.accept (h.ordered.fits g hold) hnew (hfirst g hg) hasked
  · intro hheld
    have hbase := ha.base hheld
    rw [hpending] at hbase
    rw [hnum]
    exact hbase.accept hnew hasked
  · rw [hnum]
    rcases ha.covered with hcov | ⟨g, hg, hcov⟩ | hcov
    · exact .inl (Nat.le_of_lt (Nat.lt_of_le_of_lt hcov hnew))
    · rw [hpending] at hg
      rcases mem_cons.1 hg with rfl | hg
      · exact .inl (Nat.le_of_eq hcov.symm)
      · exact .inr (.inl ⟨g, hg, hcov⟩)
    · exact .inr (.inr (hasked hcov))

theorem Answered.reject (ha : Answered s e) (h : Attached s) (htake : takeRecord s.wire = some (f, rest))
    (hnum : (s.take D f rest).client.appliedNum = s.client.appliedNum)
    (hf : e ≤ f.frameNum → Asked (s.take D f rest)) : Answered (s.take D f rest) e := by
  have hpending := pending_take D htake
  have hasked : Asked s → Asked (s.take D f rest) := fun hr => hr.take D f rest
  refine ⟨ha.epoch, ?_, ?_, ?_⟩
  · intro g hg hge
    have hold : g ∈ s.pending := by
      rw [hpending]
      exact mem_cons_of_mem _ hg
    have hfine := ha.fine g hold hge
    rw [hpending] at hfine
    rw [hnum]
    exact hfine.reject (h.ordered.fits g hold) ha.epoch hge hf hasked
  · intro hheld
    have hbase := ha.base hheld
    rw [hpending] at hbase
    rw [hnum]
    exact hbase.reject hf hasked
  · rw [hnum]
    rcases ha.covered with hcov | ⟨g, hg, hcov⟩ | hcov
    · exact .inl hcov
    · rw [hpending] at hg
      rcases mem_cons.1 hg with rfl | hg
      · obtain ⟨d, hd⟩ := ha.epoch
        refine .inr (.inr (hf ?_))
        rw [hcov]
        exact h.tracks.visible_le hd
      · exact .inr (.inl ⟨g, hg, hcov⟩)
    · exact .inr (.inr (hasked hcov))

/-- **A frame rejected leaves a request on its way**, from the epoch on: it is behind, and the request
is sent now, or the viewport was to come to its base. -/
theorem Answered.asked_of_reject (ha : Answered s e) (h : Attached s) (htake : takeRecord s.wire = some (f, rest))
    (hok : requestsSent (σ := σ) s .deliver = true) (hge : e ≤ f.frameNum)
    (hrejected : (∃ base sum diff, f.body = .diff base sum diff ∧ base ≠ s.client.appliedNum ∧
        s.client.renderFrameAcking D f =
          (s.client, s.client.appliedNum, decide (base < s.client.appliedNum))) ∨
      (∃ base rows, f.body = .scrollback base rows ∧ base ≠ s.client.appliedNum)) :
    Asked (s.take D f rest) := by
  have hpending := pending_take D htake
  have hmem : f ∈ s.pending := by
    rw [hpending]
    exact mem_cons_self
  have hfine := ha.fine f hmem hge
  have hfits := h.ordered.fits f hmem
  -- the first frame on the socket is the oldest
  have hoccurs : ∀ b, b < f.frameNum → ¬∃ g ∈ s.pending, g.frameNum = b := by
    rintro b hb ⟨g, hg, rfl⟩
    have hasc := h.ordered.ascending
    rw [hpending] at hg hasc
    rcases mem_cons.1 hg with rfl | hg
    · exact Nat.lt_irrefl _ hb
    · exact absurd ((List.pairwise_cons.1 hasc).1 g hg) (by omega)
  unfold Fine at hfine
  unfold QueuedFits at hfits
  rcases hrejected with ⟨base, sum, diff, hb, hne, heq⟩ | ⟨base, rows, hb, hne⟩
  · rw [hb] at hfine hfits
    rcases Nat.lt_or_ge base s.client.appliedNum with hlt | hgt
    · have hbehind : anchoredBehind s.client f = true := by
        unfold anchoredBehind
        rw [hb]
        exact decide_eq_true hlt
      have hon : s.coalesceOn = true := by
        simpa [requestsSent, htake, hbehind] using hok
      have hup : (s.take D f rest).up = s.up ++
          [{ ackedFrame := s.client.appliedNum,
             resync := decide (base < s.client.appliedNum) }] := by
        unfold LocalAttach.take
        simp only [heq, hon, if_true]
      refine ⟨{ ackedFrame := s.client.appliedNum, resync := decide (base < s.client.appliedNum) },
        ?_, decide_eq_true hlt⟩
      rw [hup]
      exact List.mem_append_right _ (List.mem_singleton_self _)
    · rcases hfine with hle | ⟨-, hex⟩ | hasked
      · exact absurd (Nat.le_antisymm hle hgt) hne
      · exact absurd hex (hoccurs base hfits.1)
      · exact hasked.take D f rest
  · rw [hb] at hfine hfits
    have hnum := hfits.1
    rcases hfine with heq | hex | hasked
    · exact absurd heq hne
    · exact absurd hex (hoccurs base (by omega))
    · exact hasked.take D f rest

/-- **A frame taken under the condition keeps the invariant.** -/
theorem Answered.take (ha : Answered s e) (h : Attached s) (htake : takeRecord s.wire = some (f, rest))
    (hok : requestsSent (σ := σ) s .deliver = true) : Answered (s.take D f rest) e := by
  have hmem : f ∈ s.pending := by
    rw [pending_take D htake]
    exact mem_cons_self
  rcases h.render_cases D hmem with
    ⟨r, heq, -, hnum, -⟩ | ⟨base, sum, diff, hb, hne, heq⟩ | ⟨base, rows, hb, hne, heq⟩
  · exact ha.accept D h htake (by rw [LocalAttach.take, heq]; exact hnum)
  · refine ha.reject D h htake (by rw [LocalAttach.take, heq]) fun hge => ?_
    exact ha.asked_of_reject D h htake hok hge (.inl ⟨base, sum, diff, hb, hne, heq⟩)
  · refine ha.reject D h htake (by rw [LocalAttach.take, heq]) fun hge => ?_
    exact ha.asked_of_reject D h htake hok hge (.inr ⟨base, rows, hb, hne⟩)

/-! ### Steps and runs -/

/-- **A step that meets the condition keeps the invariant.** -/
theorem attached_step (h : Attached s) (ha : Answered s e) {a : Act σ} {t : LocalAttach τ σ}
    (hok : requestsSent s a = true) (hstep : step D wireLen s a = some t) : ∃ e', Attached t ∧ Answered t e' := by
  cases a with
  | broadcast src term hdr =>
    rw [step, Option.some.injEq] at hstep
    subst hstep
    exact ⟨e, h.broadcast D wireLen src hdr ha term⟩
  | swapSource src term hdr =>
    rw [step, Option.some.injEq] at hstep
    subst hstep
    obtain ⟨h', ha'⟩ := h.dropAckedBase ha
    exact ⟨e, h'.broadcast D wireLen src hdr ha' term⟩
  | drain n =>
    rw [step, Option.some.injEq] at hstep
    subst hstep
    exact ⟨e, h.drain n, ha.drain n⟩
  | deliver =>
    rw [step, Option.map_eq_some_iff] at hstep
    obtain ⟨⟨f, rest⟩, htake, rfl⟩ := hstep
    exact ⟨e, h.take D htake, ha.take D h htake hok⟩
  | toggle on =>
    rw [step, Option.some.injEq] at hstep
    subst hstep
    exact ⟨e, h.toggle on, ha.toggle h on⟩
  | daemonRead src hdr =>
    cases hup : s.up with
    | nil =>
      rw [step, hup] at hstep
      cases hstep
    | cons ack up =>
      rw [step, hup, Option.some.injEq] at hstep
      subst hstep
      exact h.daemonRead D wireLen src hdr ha hup

end Invariant

theorem Answered.converged {s : LocalAttach τ σ} {e : ℕ} (ha : Answered s e) (h : Attached s)
    (hs : s.Settled) : (newestVisible s.log).map Dump.bytes = some s.client.appliedData := by
  have hle : s.daemon.producer.lastVisibleNum ≤ s.client.appliedNum := by
    rcases ha.covered with hcov | ⟨f, hf, -⟩ | ⟨a, hmem, -⟩
    · exact hcov
    · rw [pending, hs.wire, hs.writeBuf] at hf
      cases hf
    · rw [hs.up] at hmem
      cases hmem
  have hlen := h.tracks.length_eq
  have hlt := h.applied_lt
  obtain ⟨d, hd⟩ := h.tracks.last_visible
  have hlast := h.inherits _ (Nat.le_refl _) h.tracks.lastVisible_le
  rw [dumpAt_of_getElem? hd, Option.some.injEq] at hlast
  have hshown := h.shown
  rw [bytesAt_of_dumpAt (h.inherits _ hle (by omega)), Option.some.injEq] at hshown
  rw [newestVisible_eq hd h.tracks.after_last, Option.map_some, hlast, hshown]

/-- **A settled attachment has converged**, in the runs in which no keyframe request is suppressed:
whatever was broadcast, replaced in the buffer, delivered and switched in between, the viewport shows
the newest visible frame the daemon queued. -/
theorem settled_converged_of_requestsSent (D : Display τ σ) (wireLen : ServerFrame → ℕ)
    (c : AttachConfig) (as : List (Act σ)) {s : LocalAttach τ σ}
    (hok : Runs.AllOk (fun s a => requestsSent s a = true) (step D wireLen) (init D c) as)
    (hrun : Runs.exec (step D wireLen) (init D c) as = some s) (hs : s.Settled) :
    (newestVisible s.log).map Dump.bytes = some s.client.appliedData := by
  obtain ⟨e, h, ha⟩ :=
    Runs.exec_invariant_of_allOk (I := fun s : LocalAttach τ σ => ∃ e, Attached s ∧ Answered s e)
      (fun _ _ _ ⟨_, h, ha⟩ hok hstep => attached_step D wireLen h ha hok hstep)
      ⟨0, attached_init D c, answered_init D c⟩ hok hrun
  exact ha.converged h hs

/-! ### A request suppressed -/

/-- An attachment over an empty screen. -/
def sampleAttach : AttachConfig where
  rows := 24
  cols := 80

/-- Two frames on the first one are on their way, when the viewport is switched off. -/
def burst : List (Act Unit) :=
  [.broadcast (RoamingLoop.sampleScreen 1 65) {} {}, .drain 200, .deliver,
    .daemonRead (RoamingLoop.sampleScreen 1 65) {},
    .broadcast (RoamingLoop.sampleScreen 2 66) {} {}, .drain 200,
    .broadcast (RoamingLoop.sampleScreen 3 67) {} {}, .drain 200, .toggle false]

/-- **An attachment that does not converge**: the viewport takes the first of the two and rejects the
second without a word. -/
theorem settled_converged_fails :
    ∃ s, Runs.exec (step nullDisplay (fun _ => 3)) (init nullDisplay sampleAttach)
          (burst ++ [.deliver, .deliver, .daemonRead (RoamingLoop.sampleScreen 3 67) {}]) = some s ∧
      s.Settled ∧ (newestVisible s.log).map Dump.bytes ≠ some s.client.appliedData :=
  ⟨_, rfl, ⟨rfl, rfl, rfl⟩, by decide⟩

/-- The same burst, with the switch on again before the second is read. -/
def requestedRun : List (Act Unit) :=
  burst ++ [.deliver, .toggle true, .deliver,
    .daemonRead (RoamingLoop.sampleScreen 3 67) {}, .daemonRead (RoamingLoop.sampleScreen 3 67) {},
    .daemonRead (RoamingLoop.sampleScreen 3 67) {}, .drain 200, .deliver,
    .daemonRead (RoamingLoop.sampleScreen 3 67) {}]

theorem settled_converged_requestedRun :
    ∃ s, Runs.exec (step nullDisplay (fun _ => 3)) (init nullDisplay sampleAttach) requestedRun = some s ∧
      (newestVisible s.log).map Dump.bytes = some s.client.appliedData ∧
      s.client.appliedNum = 4 ∧ s.client.appliedData = (RoamingLoop.sampleScreen 3 67).dump.bytes :=
  ⟨_, rfl, settled_converged_of_requestsSent nullDisplay (fun _ => 3) sampleAttach requestedRun
    (by decide) rfl ⟨rfl, rfl, rfl⟩, rfl, rfl⟩

end LocalAttach

end Posh
