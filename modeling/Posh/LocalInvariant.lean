/-
**The invariant of a local attachment.**

The viewport shows what is logged for its number, and the socket brings it newer frames in the order
of their numbers.  Besides, it comes to the base of each of them, and to the daemon's: it is there, or
past it, or the base is itself a frame on the socket, or a keyframe has been asked for.  The daemon
moves its base ahead of what the viewport acknowledged only by acknowledging its own frames, and such
a frame is on the socket until it is taken.
-/

import Posh.LocalAttach
import Posh.RoamingLoop

set_option autoImplicit false

namespace Posh

open FrameProducer (ack_newest currentNum getElem?_log_append)
open RecordWire (records records_append records_wireOf)
open DaemonClient (logAfter queueFrame_eq)
open List (mem_append mem_append_left mem_cons mem_singleton)
open DaemonClient

variable {τ σ : Type}

namespace LocalAttach

open RoamingLoop (dumpAt bytesAt dumpAt_append bytesAt_append dumpAt_of_getElem? bytesAt_of_dumpAt)

/-! ### Frames on the socket -/

/-- A queued frame is what the log says; growth follows the visible frame it threads off. -/
def QueuedFits (log : List LoggedFrame) (f : ServerFrame) : Prop :=
  match f.body with
  | .full bytes => ∃ d, log[f.frameNum]? = some ⟨true, d⟩ ∧ bytes = d.bytes
  | .diff base _ diff =>
    base < f.frameNum ∧ ∃ b d : Dump, dumpAt log base = some b ∧
      log[f.frameNum]? = some ⟨true, d⟩ ∧ diff = makeDiff b.bytes d.bytes
  | .scrollback base _ =>
    base + 1 = f.frameNum ∧ ∃ d, dumpAt log base = some d ∧ log[f.frameNum]? = some ⟨false, d⟩
  | _ => False

variable {log : List LoggedFrame} {f : ServerFrame}

theorem QueuedFits.append (h : QueuedFits log f) (g : LoggedFrame) : QueuedFits (log ++ [g]) f := by
  unfold QueuedFits at h ⊢
  cases hb : f.body with
  | full bytes =>
    rw [hb] at h
    obtain ⟨d, hd, heq⟩ := h
    exact ⟨d, getElem?_log_append hd g, heq⟩
  | diff base sum diff =>
    rw [hb] at h
    obtain ⟨hlt, b, d, hbase, hd, heq⟩ := h
    exact ⟨hlt, b, d, dumpAt_append hbase g, getElem?_log_append hd g, heq⟩
  | scrollback base rows =>
    rw [hb] at h
    obtain ⟨hnum, d, hbase, hd⟩ := h
    exact ⟨hnum, d, dumpAt_append hbase g, getElem?_log_append hd g⟩
  | empty | morph | scrollback2 =>
    rw [hb] at h
    exact h

theorem QueuedFits.num_lt (h : QueuedFits log f) : f.frameNum < log.length := by
  unfold QueuedFits at h
  cases hb : f.body with
  | full bytes =>
    rw [hb] at h
    obtain ⟨d, hd, -⟩ := h
    exact (List.getElem?_eq_some_iff.1 hd).1
  | diff base sum diff =>
    rw [hb] at h
    obtain ⟨-, b, d, -, hd, -⟩ := h
    exact (List.getElem?_eq_some_iff.1 hd).1
  | scrollback base rows =>
    rw [hb] at h
    obtain ⟨-, d, -, hd⟩ := h
    exact (List.getElem?_eq_some_iff.1 hd).1
  | empty | morph | scrollback2 =>
    rw [hb] at h
    exact h.elim

/-- The socket `q` brings a viewport at `A` newer frames in the order of their numbers. -/
structure Ordered (log : List LoggedFrame) (A : ℕ) (q : List ServerFrame) : Prop where
  ascending : q.Pairwise fun f g => f.frameNum < g.frameNum
  newer : ∀ f ∈ q, A < f.frameNum
  fits : ∀ f ∈ q, QueuedFits log f

theorem Ordered.take {A : ℕ} {q ps : List ServerFrame}
    (h : Ordered log A (q ++ ps)) : Ordered log A q where
  ascending := (List.pairwise_append.1 h.ascending).1
  newer := fun f hf => h.newer f (mem_append_left _ hf)
  fits := fun f hf => h.fits f (mem_append_left _ hf)

theorem Ordered.push {A : ℕ} {q : List ServerFrame} (h : Ordered log A q)
    (hA : A < log.length) {g : LoggedFrame} (hnum : f.frameNum = log.length)
    (hf : QueuedFits (log ++ [g]) f) : Ordered (log ++ [g]) A (q ++ [f]) where
  ascending := by
    rw [List.pairwise_append]
    refine ⟨h.ascending, List.pairwise_singleton _ _, ?_⟩
    intro f' hf' f'' hf''
    rw [mem_singleton.1 hf'', hnum]
    exact (h.fits f' hf').num_lt
  newer := by
    intro f' hf'
    rcases mem_append.1 hf' with hf' | hf'
    · exact h.newer f' hf'
    · rw [mem_singleton.1 hf', hnum]
      exact hA
  fits := by
    intro f' hf'
    rcases mem_append.1 hf' with hf' | hf'
    · exact (h.fits f' hf').append g
    · rw [mem_singleton.1 hf']
      exact hf

/-! ### How the viewport comes to a base -/

/-- A viewport at `A` is at the frame `b` or past it, or gets it from the socket `q` and the epoch `e`,
or has asked for a keyframe. -/
def Reaches (A e : ℕ) (asked : Prop) (q : List ServerFrame) (b : ℕ) : Prop :=
  b ≤ A ∨ (e ≤ b ∧ ∃ g ∈ q, g.frameNum = b) ∨ asked

/-- The viewport comes to the base of `f`. -/
def Fine (A e : ℕ) (asked : Prop) (q : List ServerFrame) (f : ServerFrame) : Prop :=
  match f.body with
  | .diff base _ _ => Reaches A e asked q base
  | .scrollback base _ => base = A ∨ (∃ g ∈ q, g.frameNum = base) ∨ asked
  | _ => True

section Reaching

variable {log : List LoggedFrame} {A e : ℕ} {asked asked' : Prop} {q q' : List ServerFrame}
  {f g : ServerFrame} {b : ℕ}

theorem Reaches.mono (h : Reaches A e asked q b)
    (hq : (∃ g ∈ q, g.frameNum = b) → ∃ g ∈ q', g.frameNum = b) (hasked : asked → asked') :
    Reaches A e asked' q' b := by
  rcases h with h | ⟨he, hmem⟩ | h
  · exact .inl h
  · exact .inr (.inl ⟨he, hq hmem⟩)
  · exact .inr (.inr (hasked h))

theorem Fine.mono (h : Fine A e asked q f) (hfits : QueuedFits log f)
    (hq : ∀ b, b < f.frameNum → (∃ g ∈ q, g.frameNum = b) → ∃ g ∈ q', g.frameNum = b)
    (hasked : asked → asked') : Fine A e asked' q' f := by
  unfold Fine at h ⊢
  unfold QueuedFits at hfits
  cases hb : f.body with
  | diff base sum diff =>
    rw [hb] at h hfits
    exact h.mono (hq base hfits.1) hasked
  | scrollback base rows =>
    rw [hb] at h hfits
    have hlt : base < f.frameNum := by
      have hnum := hfits.1
      omega
    rcases h with h | h | h
    · exact .inl h
    · exact .inr (.inl (hq base hlt h))
    · exact .inr (.inr (hasked h))
  | full | empty | morph | scrollback2 => trivial

theorem Reaches.accept (h : Reaches A e asked (f :: q) b) (hnew : A < f.frameNum)
    (hasked : asked → asked') : Reaches f.frameNum e asked' q b := by
  rcases h with h | ⟨he, g, hg, rfl⟩ | h
  · exact .inl (by omega)
  · rcases mem_cons.1 hg with rfl | hg
    · exact .inl (Nat.le_refl _)
    · exact .inr (.inl ⟨he, g, hg, rfl⟩)
  · exact .inr (.inr (hasked h))

theorem Fine.accept (h : Fine A e asked (f :: q) g) (hfits : QueuedFits log g)
    (hnew : A < f.frameNum) (hlt : f.frameNum < g.frameNum) (hasked : asked → asked') :
    Fine f.frameNum e asked' q g := by
  unfold Fine at h ⊢
  unfold QueuedFits at hfits
  cases hb : g.body with
  | diff base sum diff =>
    rw [hb] at h
    exact h.accept hnew hasked
  | scrollback base rows =>
    rw [hb] at h hfits
    have hnum := hfits.1
    rcases h with h | ⟨x, hx, hbase⟩ | h
    · -- no frame stands between growth and its base
      omega
    · rcases mem_cons.1 hx with rfl | hx
      · exact .inl hbase.symm
      · exact .inr (.inl ⟨x, hx, hbase⟩)
    · exact .inr (.inr (hasked h))
  | full | empty | morph | scrollback2 => trivial

theorem Reaches.reject (h : Reaches A e asked (f :: q) b) (hf : e ≤ f.frameNum → asked')
    (hasked : asked → asked') : Reaches A e asked' q b := by
  rcases h with h | ⟨he, g, hg, rfl⟩ | h
  · exact .inl h
  · rcases mem_cons.1 hg with rfl | hg
    · exact .inr (.inr (hf he))
    · exact .inr (.inl ⟨he, g, hg, rfl⟩)
  · exact .inr (.inr (hasked h))

theorem Fine.reject (h : Fine A e asked (f :: q) g) (hfits : QueuedFits log g)
    (hepoch : ∃ d, log[e]? = some ⟨true, d⟩) (he : e ≤ g.frameNum)
    (hf : e ≤ f.frameNum → asked') (hasked : asked → asked') : Fine A e asked' q g := by
  unfold Fine at h ⊢
  unfold QueuedFits at hfits
  cases hb : g.body with
  | diff base sum diff =>
    rw [hb] at h
    exact h.reject hf hasked
  | scrollback base rows =>
    rw [hb] at h hfits
    obtain ⟨hnum, d, -, hd⟩ := hfits
    rcases h with h | ⟨x, hx, hbase⟩ | h
    · exact .inl h
    · rcases mem_cons.1 hx with rfl | hx
      · -- the epoch is a visible frame, so it is not this growth frame
        have hne : e ≠ g.frameNum := by
          rintro rfl
          obtain ⟨d', hd'⟩ := hepoch
          rw [hd] at hd'
          cases hd'
        exact .inr (.inr (hf (by omega)))
      · exact .inr (.inl ⟨x, hx, hbase⟩)
    · exact .inr (.inr (hasked h))
  | full | empty | morph | scrollback2 => trivial

end Reaching

/-! ### The invariant -/

/-- A keyframe request is on its way to the daemon. -/
def Asked (s : LocalAttach τ σ) : Prop := ∃ a ∈ s.up, a.resync = true

/-- What holds of every run. -/
structure Attached (s : LocalAttach τ σ) : Prop where
  tracks : FrameProducer.Tracks s.log s.daemon.producer
  reliable : s.daemon.lossy = false
  coalesce : s.daemon.coalesce = true
  codec : s.client.applier = .dumpDiff
  /-- the slots from the newest visible frame on have its dump -/
  inherits : ∀ n, s.daemon.producer.lastVisibleNum ≤ n → n ≤ s.daemon.producer.current.num →
    dumpAt s.log n = some s.daemon.producer.current.data
  /-- the viewport shows what is logged for its number -/
  shown : bytesAt s.log s.client.appliedNum = some s.client.appliedData
  ordered : Ordered s.log s.client.appliedNum s.pending
  /-- the viewport acknowledges what it has applied -/
  acks : ∀ a ∈ s.up, a.ackedFrame ≤ s.client.appliedNum
  /-- a frame that may be replaced is the last in the buffer, and not acknowledged -/
  replaceable : ∀ start, s.daemon.pendingFrameStart = some start →
    ∃ pre len f, s.daemon.writeBuf = pre ++ RecordWire.wireOf len f ∧ pre.length = start ∧
      s.daemon.producer.ackedNum < f.frameNum

/-- What holds besides, under the condition, for the epoch `e`: the number of a visible frame before
which nothing matters any more. -/
structure Answered (s : LocalAttach τ σ) (e : ℕ) : Prop where
  epoch : ∃ d, s.log[e]? = some ⟨true, d⟩
  /-- the viewport comes to the base of every frame on the socket -/
  fine : ∀ f ∈ s.pending, e ≤ f.frameNum → Fine s.client.appliedNum e (Asked s) s.pending f
  /-- and to the daemon's -/
  base : s.daemon.producer.hasAckedBase = true →
    Reaches s.client.appliedNum e (Asked s) s.pending s.daemon.producer.ackedNum
  /-- the newest visible frame was shown, or is on the socket, or a newer one will be -/
  covered : s.daemon.producer.lastVisibleNum ≤ s.client.appliedNum ∨
    (∃ f ∈ s.pending, f.frameNum = s.daemon.producer.lastVisibleNum) ∨ Asked s

section Invariant

variable {s : LocalAttach τ σ} {e : ℕ} {s' : LocalAttach τ σ} {f : ServerFrame}

theorem attached_init (D : Display τ σ) (c : AttachConfig) : Attached (init D c) where
  tracks := FrameProducer.tracks_new D c.rows c.cols
  reliable := rfl
  coalesce := rfl
  codec := rfl
  inherits := by
    intro n _ hle
    have hn : n = 0 := Nat.le_zero.1 hle
    rw [hn]
    rfl
  shown := rfl
  ordered := by
    have hpending : (init D c).pending = [] := rfl
    rw [hpending]
    exact ⟨List.Pairwise.nil, by simp, by simp⟩
  acks := by intro a ha; cases ha
  replaceable := by intro start hstart; cases hstart

theorem answered_init (D : Display τ σ) (c : AttachConfig) : Answered (init D c) 0 where
  epoch := ⟨.empty, rfl⟩
  fine := by intro f hf; cases hf
  base := fun _ => .inl (Nat.le_refl 0)
  covered := .inl (Nat.le_refl 0)

theorem Attached.applied_lt (h : Attached s) : s.client.appliedNum < s.log.length := by
  obtain ⟨d, hd, -⟩ := Option.map_eq_some_iff.1 h.shown
  obtain ⟨g, hg, -⟩ := Option.map_eq_some_iff.1 hd
  exact (List.getElem?_eq_some_iff.1 hg).1

/-! ### A frame is queued -/

/-- The daemon queues the frame `f` as a fresh slot, possibly in the place of the last one. -/
structure Queues (s s' : LocalAttach τ σ) (f : ServerFrame) : Prop where
  attached : Attached s'
  client : s'.client = s.client
  up : s'.up = s.up
  log : ∃ g, s'.log = s.log ++ [g]
  num : f.frameNum = s.log.length
  pending : ∃ q ps, s.pending = q ++ ps ∧ s'.pending = q ++ [f] ∧
    ∀ p ∈ ps, s.daemon.producer.ackedNum < p.frameNum
  /-- the daemon's base stays, or is the frame itself -/
  acked : (s'.daemon.producer.ackedNum = s.daemon.producer.ackedNum ∧
      (s'.daemon.producer.hasAckedBase = true → s.daemon.producer.hasAckedBase = true)) ∨
    s'.daemon.producer.ackedNum = f.frameNum

theorem Queues.mem (h : Queues s s' f) : f ∈ s'.pending := by
  obtain ⟨q, ps, -, hpending, -⟩ := h.pending
  rw [hpending]
  exact List.mem_append_right _ (List.mem_singleton_self _)

theorem Queues.reaches_acked (h : Queues s s' f)
    (hr : Reaches s.client.appliedNum e (Asked s) s.pending s.daemon.producer.ackedNum) :
    Reaches s'.client.appliedNum e (Asked s') s'.pending s.daemon.producer.ackedNum := by
  obtain ⟨q, ps, hq, hq', hps⟩ := h.pending
  rw [h.client, Asked, h.up]
  refine hr.mono ?_ id
  rintro ⟨g, hg, hnum⟩
  rw [hq] at hg
  rw [hq']
  rcases mem_append.1 hg with hg | hg
  · exact ⟨g, mem_append_left _ hg, hnum⟩
  · have hlt := hps g hg
    omega

/-- **A frame is queued**, and the viewport comes to its base. -/
theorem Queues.answered (h : Queues s s' f) (hs : Attached s) (ha : Answered s e)
    (hfine : Fine s'.client.appliedNum e (Asked s') s'.pending f)
    (hcovered : ∃ g ∈ s'.pending, g.frameNum = s'.daemon.producer.lastVisibleNum) : Answered s' e := by
  obtain ⟨d, hd⟩ := ha.epoch
  obtain ⟨g, hlog⟩ := h.log
  have hmem := h.mem
  have he : e < s.log.length := (List.getElem?_eq_some_iff.1 hd).1
  have hbase := h.reaches_acked (e := e)
  obtain ⟨q, ps, hq, hq', -⟩ := h.pending
  have hasc := hs.ordered.ascending
  rw [hq, List.pairwise_append] at hasc
  refine ⟨⟨d, by rw [hlog]; exact getElem?_log_append hd g⟩, ?_, ?_, .inr (.inl hcovered)⟩
  · intro f' hf' hle
    rw [hq'] at hf'
    rcases mem_append.1 hf' with hf' | hf'
    · have hold : f' ∈ s.pending := by rw [hq]; exact mem_append_left _ hf'
      rw [h.client, Asked, h.up]
      refine (ha.fine f' hold hle).mono (hs.ordered.fits f' hold) ?_ id
      -- a base stands before its frame, so it was not replaced
      rintro b hb ⟨x, hx, hnum⟩
      rw [hq] at hx
      rw [hq']
      rcases mem_append.1 hx with hx | hx
      · exact ⟨x, mem_append_left _ hx, hnum⟩
      · have hlt := hasc.2.2 f' hf' x hx
        omega
    · rw [mem_singleton.1 hf']
      exact hfine
  · intro hheld
    rcases h.acked with ⟨heq, hbefore⟩ | heq
    · rw [heq]
      exact hbase (ha.base (hbefore hheld))
    · rw [heq]
      exact .inr (.inl ⟨by rw [h.num]; omega, f, hmem, rfl⟩)

/-- **A keyframe is queued** while no base is held: a new epoch. -/
theorem Queues.answered_keyframe (h : Queues s s' f) {bytes : Bytes} (hfull : f.body = .full bytes)
    (hnone : s.daemon.producer.hasAckedBase = false)
    (hlast : s'.daemon.producer.lastVisibleNum = f.frameNum) : Answered s' f.frameNum := by
  have hmem := h.mem
  have hfits := h.attached.ordered.fits f hmem
  obtain ⟨q, ps, -, hq', -⟩ := h.pending
  have hasc := h.attached.ordered.ascending
  rw [hq', List.pairwise_append] at hasc
  refine ⟨?_, ?_, ?_, .inr (.inl ⟨f, hmem, hlast.symm⟩)⟩
  · unfold QueuedFits at hfits
    rw [hfull] at hfits
    obtain ⟨d, hd, -⟩ := hfits
    exact ⟨d, hd⟩
  · intro f' hf' hle
    rw [hq'] at hf'
    rcases mem_append.1 hf' with hf' | hf'
    · have hlt := hasc.2.2 f' hf' f (List.mem_singleton_self _)
      omega
    · rw [mem_singleton.1 hf', Fine, hfull]
      trivial
  · intro hheld
    rcases h.acked with ⟨-, hbefore⟩ | heq
    · rw [hbefore hheld] at hnone
      cases hnone
    · rw [heq]
      exact .inr (.inl ⟨Nat.le_refl _, f, hmem, rfl⟩)

/-! ### A visible frame -/

/-- The bytes that go to the socket after `kept` hold the frames replaced, none of which is
acknowledged. -/
theorem Attached.kept_split (h : Attached s) : ∃ ps, records s.daemon.writeBuf = records s.daemon.kept ++ ps ∧
      ∀ p ∈ ps, s.daemon.producer.ackedNum < p.frameNum := by
  unfold kept truncated
  cases s.daemon.coalescing with
  | false => exact ⟨[], (List.append_nil _).symm, by simp⟩
  | true =>
    cases hstart : s.daemon.pendingFrameStart with
    | none => exact ⟨[], (List.append_nil _).symm, by simp⟩
    | some start =>
      obtain ⟨pre, len, f, hbuf, rfl, hlt⟩ := h.replaceable start hstart
      refine ⟨[f], ?_, by simpa using hlt⟩
      have hle : pre.length ≤ s.daemon.writeBuf.length := by
        rw [hbuf, List.length_append]
        exact Nat.le_add_right _ _
      simp only [if_true, if_pos hle]
      rw [hbuf, RecordWire.take_append_wireOf, records_append, records_wireOf]

variable (D : Display τ σ) (wireLen : ServerFrame → ℕ) (src : Screen σ) (hdr : FrameHeader)

theorem setDaemon_queueFrame_log :
    (s.setDaemon true (s.daemon.queueFrame D wireLen src hdr)).log = s.log ++ [⟨true, src.dump⟩] := by
  have hcur := (s.daemon.producerAfterVisible_current src).1
  have hp : (s.daemon.queueFrame D wireLen src hdr).producer = s.daemon.producerAfterVisible src := by
    rw [queueFrame_eq]
  have hne : ¬(s.daemon.producer.current.num + 1 = s.daemon.producer.current.num) := by omega
  unfold setDaemon logAfter currentNum
  rw [hp, hcur]
  exact if_neg hne

theorem Attached.visibleFrame_body (h : Attached s) :
    (s.daemon.visibleFrame D src hdr).body = .full src.dump.bytes ∨
      ∃ b, s.daemon.producer.ackedData = some b ∧ (s.daemon.visibleFrame D src hdr).body =
          .diff s.daemon.producer.ackedNum none (makeDiff b.bytes src.dump.bytes) := by
  have hmorph : s.daemon.usesMorph = false := by
    unfold usesMorph
    rw [h.reliable]
    rfl
  have hbody : (s.daemon.visibleFrame D src hdr).body =
      (s.daemon.advanceVisible src).encodeVisible D false := by
    unfold visibleFrame
    rw [hmorph, h.reliable]
    rfl
  rw [hbody]
  rcases (s.daemon.advanceVisible src).encodeVisible_cases D with hfull | ⟨b, hb, -, hdiff⟩
  · exact .inl hfull
  · exact .inr ⟨b, hb, hdiff⟩

/-- **A visible frame is queued.** -/
theorem Attached.queueFrame (h : Attached s) :
    Queues s (s.setDaemon true (s.daemon.queueFrame D wireLen src hdr)) (s.daemon.visibleFrame D src hdr) := by
  have hlog := setDaemon_queueFrame_log (s := s) D wireLen src hdr
  obtain ⟨hcur, hlast⟩ := s.daemon.producerAfterVisible_current src
  obtain ⟨ps, hkept, hps⟩ := h.kept_split
  have hlen := h.tracks.length_eq
  have hnum : (s.daemon.visibleFrame D src hdr).frameNum = s.log.length := hlen.symm
  have htracks : FrameProducer.Tracks (s.log ++ [⟨true, src.dump⟩]) (s.daemon.advanceVisible src) :=
    h.tracks.advanceVisible _ _ _ _ _
  have hpending : (s.setDaemon true (s.daemon.queueFrame D wireLen src hdr)).pending =
      records (s.wire ++ s.daemon.kept) ++ [s.daemon.visibleFrame D src hdr] := by
    unfold pending setDaemon
    rw [queueFrame_eq, ← List.append_assoc, records_append, records_wireOf]
  have hold : s.pending = records (s.wire ++ s.daemon.kept) ++ ps := by
    rw [pending, records_append, hkept, records_append, List.append_assoc]
  have hfits : QueuedFits (s.log ++ [⟨true, src.dump⟩]) (s.daemon.visibleFrame D src hdr) := by
    have hnew : (s.log ++ [⟨true, src.dump⟩])[(s.daemon.visibleFrame D src hdr).frameNum]? =
        some ⟨true, src.dump⟩ := h.tracks.getElem?_new _
    unfold QueuedFits
    rcases h.visibleFrame_body D src hdr with hfull | ⟨b, hb, hdiff⟩
    · rw [hfull]
      exact ⟨_, hnew, rfl⟩
    · rw [hdiff]
      refine ⟨?_, b, _, dumpAt_append (h.tracks.acked_dump b hb) _, hnew, rfl⟩
      have hacked := h.tracks.acked_le
      omega
  have hordered := h.ordered
  rw [hold] at hordered
  refine
    { attached :=
        { tracks := ?_
          reliable := by rw [setDaemon, queueFrame_eq]; exact h.reliable
          coalesce := by rw [setDaemon, queueFrame_eq]; exact h.coalesce
          codec := h.codec
          inherits := ?_
          shown := by rw [hlog]; exact bytesAt_append h.shown _
          ordered := by
            rw [hlog, hpending]
            exact hordered.take.push h.applied_lt hnum hfits
          acks := h.acks
          replaceable := ?_ }
      client := rfl
      up := rfl
      log := ⟨_, hlog⟩
      num := hnum
      pending := ⟨_, ps, hold, hpending, hps⟩
      acked := ?_ }
  · rw [hlog, setDaemon, queueFrame_eq]
    rcases s.daemon.producerAfterVisible_cases src with ⟨-, heq⟩ | ⟨-, heq⟩
    · exact heq ▸ htracks
    · exact heq ▸ htracks.ack _
  · intro n hge hle
    rw [setDaemon, queueFrame_eq] at hge hle
    rw [hlog, setDaemon, queueFrame_eq]
    simp only [hcur, hlast] at hge hle ⊢
    have hn : n = s.daemon.producer.current.num + 1 := Nat.le_antisymm hle hge
    rw [hn]
    exact dumpAt_of_getElem? (h.tracks.getElem?_new _)
  · intro start hstart
    rw [setDaemon, queueFrame_eq] at hstart ⊢
    have hc : s.daemon.coalescing = true := by
      by_contra hne
      simp only [Bool.not_eq_true] at hne
      simp only [hne, Bool.false_eq_true, if_false] at hstart
      cases hstart
    simp only [hc, if_true, Option.some.injEq] at hstart
    refine ⟨_, _, _, rfl, hstart, ?_⟩
    rcases s.daemon.producerAfterVisible_cases src with ⟨-, heq⟩ | ⟨hw, -⟩
    · rw [heq, hnum, hlen]
      exact Nat.lt_succ_of_le h.tracks.acked_le
    · rw [withhold, hc, Bool.or_true] at hw
      cases hw
  · rw [setDaemon, queueFrame_eq]
    rcases s.daemon.producerAfterVisible_cases src with ⟨-, heq⟩ | ⟨-, heq⟩
    · rw [heq]
      exact .inl ⟨rfl, id⟩
    · refine .inr ?_
      rw [heq]
      exact ack_newest rfl (Nat.lt_succ_of_le h.tracks.acked_le)

theorem Attached.fine_visibleFrame (h : Attached s) {q : List ServerFrame} {A : ℕ} {asked : Prop}
    (hbase : s.daemon.producer.hasAckedBase = true → Reaches A e asked q s.daemon.producer.ackedNum) :
    Fine A e asked q (s.daemon.visibleFrame D src hdr) := by
  unfold Fine
  rcases h.visibleFrame_body D src hdr with hfull | ⟨b, hb, hdiff⟩
  · rw [hfull]
    trivial
  · rw [hdiff]
    refine hbase ?_
    unfold FrameProducer.hasAckedBase
    rw [hb]
    rfl

theorem setDaemon_queueFrame_last :
    (s.setDaemon true (s.daemon.queueFrame D wireLen src hdr)).daemon.producer.lastVisibleNum =
        (s.daemon.visibleFrame D src hdr).frameNum ∧
      (s.setDaemon true (s.daemon.queueFrame D wireLen src hdr)).daemon.producer.current.num =
        (s.daemon.visibleFrame D src hdr).frameNum := by
  obtain ⟨hcur, hlast⟩ := s.daemon.producerAfterVisible_current src
  rw [setDaemon, queueFrame_eq]
  exact ⟨hlast, by rw [hcur]; rfl⟩

/-- **A visible frame keeps the invariant.** -/
theorem Answered.queueFrame (ha : Answered s e) (h : Attached s) :
    Answered (s.setDaemon true (s.daemon.queueFrame D wireLen src hdr)) e := by
  have hq := h.queueFrame D wireLen src hdr
  refine hq.answered h ha (h.fine_visibleFrame D src hdr ?_) ⟨_, hq.mem, ?_⟩
  · intro hheld
    exact hq.reaches_acked (ha.base hheld)
  · exact (setDaemon_queueFrame_last D wireLen src hdr).1.symm

/-! ### Growth -/

/-- **Growth is queued** right behind a visible frame, or nothing happens. -/
theorem Attached.scrollback (h : Attached s)
    (hbehind : s.daemon.producer.lastVisibleNum = s.daemon.producer.current.num) (term : SessionTerm) :
    s.setDaemon false (s.daemon.maybeQueueScrollback wireLen term hdr) = s ∨
      (Queues s (s.setDaemon false (s.daemon.maybeQueueScrollback wireLen term hdr))
          (s.daemon.scrollbackFrame term hdr) ∧
        (s.setDaemon false (s.daemon.maybeQueueScrollback wireLen term hdr)).pending =
          s.pending ++ [s.daemon.scrollbackFrame term hdr] ∧ (s.setDaemon false
            (s.daemon.maybeQueueScrollback wireLen term hdr)).daemon.producer.lastVisibleNum =
          s.daemon.producer.lastVisibleNum) := by
  rcases s.daemon.maybeQueueScrollback_cases wireLen term hdr with heq | ⟨-, heq⟩
  · refine .inl ?_
    rw [heq]
    unfold setDaemon logAfter
    rw [if_pos rfl]
  · refine .inr ?_
    set c' := ({ s.daemon with
      producer := s.daemon.producer.advanceScrollbackAfterVisible term.sbTotal } :
        DaemonClient σ).ackScrollback with hc'
    obtain ⟨hprod, hlossy, hcoalesce, hbuf⟩ := ackScrollback_producer ({ s.daemon with
      producer := s.daemon.producer.advanceScrollbackAfterVisible term.sbTotal } : DaemonClient σ)
    rw [← hc'] at hprod hlossy hcoalesce hbuf
    have hcur : c'.producer.current =
        { s.daemon.producer.current with
          num := s.daemon.producer.current.num + 1, sbTotal := term.sbTotal } ∧
        c'.producer.lastVisibleNum = s.daemon.producer.lastVisibleNum := by
      rcases hprod with heq' | heq'
      · rw [heq']
        exact ⟨rfl, rfl⟩
      · rw [heq']
        exact FrameProducer.ack_current _ _
    obtain ⟨hcur, hlast⟩ := hcur
    have hlen := h.tracks.length_eq
    have hlog : (s.setDaemon false (c'.queue wireLen (s.daemon.scrollbackFrame term hdr))).log =
        s.log ++ [⟨false, s.daemon.producer.current.data⟩] := by
      have hne : ¬(s.daemon.producer.current.num + 1 = s.daemon.producer.current.num) := by omega
      unfold setDaemon logAfter currentNum
      rw [queue_producer, hcur]
      exact if_neg hne
    have hnum : (s.daemon.scrollbackFrame term hdr).frameNum = s.log.length := hlen.symm
    have hpending : (s.setDaemon false
        (c'.queue wireLen (s.daemon.scrollbackFrame term hdr))).pending =
          s.pending ++ [s.daemon.scrollbackFrame term hdr] := by
      unfold pending setDaemon queue
      rw [hbuf, ← List.append_assoc, records_append _ (RecordWire.wireOf _ _),
        records_wireOf]
    have htracks : FrameProducer.Tracks (s.log ++ [⟨false, s.daemon.producer.current.data⟩])
        (s.daemon.producer.advanceScrollbackAfterVisible term.sbTotal) :=
      h.tracks.advanceScrollbackAfterVisible _
    have hnew : (s.log ++ [⟨false, s.daemon.producer.current.data⟩])[
        s.daemon.producer.current.num + 1]? = some ⟨false, s.daemon.producer.current.data⟩ :=
      h.tracks.getElem?_new _
    have hfits : QueuedFits (s.log ++ [⟨false, s.daemon.producer.current.data⟩])
        (s.daemon.scrollbackFrame term hdr) := by
      refine ⟨?_, s.daemon.producer.current.data, ?_, hnew⟩
      · rw [hnum, hlen]
        exact congrArg (· + 1) hbehind
      · exact dumpAt_append (h.inherits _ (Nat.le_refl _) (Nat.le_of_eq hbehind)) _
    rw [heq]
    refine ⟨?_, hpending, hlast⟩
    refine
      { attached :=
          { tracks := ?_
            reliable := hlossy.trans h.reliable
            coalesce := hcoalesce.trans h.coalesce
            codec := h.codec
            inherits := ?_
            shown := by rw [hlog]; exact bytesAt_append h.shown _
            ordered := by
              rw [hlog, hpending]
              exact h.ordered.push h.applied_lt hnum hfits
            acks := h.acks
            replaceable := by intro start hstart; cases hstart }
        client := rfl
        up := rfl
        log := ⟨_, hlog⟩
        num := hnum
        pending := ⟨_, [], (List.append_nil _).symm, hpending, by simp⟩
        acked := ?_ }
    · rw [hlog]
      rcases hprod with heq' | heq'
      · exact heq' ▸ htracks
      · exact heq' ▸ htracks.ack _
    · intro n hge hle
      rw [hlog]
      change dumpAt _ n = some c'.producer.current.data
      change c'.producer.lastVisibleNum ≤ n at hge
      change n ≤ c'.producer.current.num at hle
      rw [hcur] at hle ⊢
      rw [hlast] at hge
      rcases Nat.lt_or_eq_of_le hle with hlt | rfl
      · exact dumpAt_append (h.inherits n hge (Nat.le_of_lt_succ hlt)) _
      · exact dumpAt_of_getElem? hnew
    · change (c'.producer.ackedNum = _ ∧ (c'.producer.hasAckedBase = true → _)) ∨ c'.producer.ackedNum = _
      rcases hprod with heq' | heq'
      · rw [heq']
        exact .inl ⟨rfl, id⟩
      · refine .inr ?_
        rw [heq', hnum, hlen]
        exact ack_newest rfl (Nat.lt_succ_of_le h.tracks.acked_le)

/-- **Growth keeps the invariant**, behind a visible frame that is on the socket. -/
theorem Attached.scrollback_answered (h : Attached s) (ha : Answered s e)
    (hbehind : s.daemon.producer.lastVisibleNum = s.daemon.producer.current.num)
    (hmem : ∃ f ∈ s.pending, f.frameNum = s.daemon.producer.lastVisibleNum) (term : SessionTerm) :
    Attached (s.setDaemon false (s.daemon.maybeQueueScrollback wireLen term hdr)) ∧
      Answered (s.setDaemon false (s.daemon.maybeQueueScrollback wireLen term hdr)) e := by
  rcases h.scrollback wireLen hdr hbehind term with heq | ⟨hq, hpending, hlast⟩
  · rw [heq]
    exact ⟨h, ha⟩
  · obtain ⟨f, hf, hnum⟩ := hmem
    have hf' : f ∈ (s.setDaemon false
        (s.daemon.maybeQueueScrollback wireLen term hdr)).pending := by
      rw [hpending]
      exact mem_append_left _ hf
    exact ⟨hq.attached, hq.answered h ha (.inr (.inl ⟨f, hf', hnum⟩))
      ⟨f, hf', hnum.trans hlast.symm⟩⟩

/-- **A broadcast keeps the invariant.** -/
theorem Attached.broadcast (h : Attached s) (ha : Answered s e) (term : SessionTerm) :
    Attached (s.broadcast D wireLen src term hdr) ∧ Answered (s.broadcast D wireLen src term hdr) e := by
  have hq := h.queueFrame D wireLen src hdr
  obtain ⟨hlast, hcur⟩ := setDaemon_queueFrame_last (s := s) D wireLen src hdr
  exact hq.attached.scrollback_answered wireLen hdr (ha.queueFrame D wireLen src hdr h)
    (hlast.trans hcur.symm) ⟨_, hq.mem, hlast.symm⟩ term

theorem Attached.dropAckedBase (h : Attached s) (ha : Answered s e) :
    Attached { s with daemon := s.daemon.dropAckedBase } ∧
      Answered { s with daemon := s.daemon.dropAckedBase } e :=
  ⟨{ h with tracks := h.tracks.dropAckedBase }, { ha with base := by intro hheld; cases hheld }⟩

end Invariant

end LocalAttach

end Posh
