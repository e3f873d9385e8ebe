/-
**A settled relay has converged.**

The bridge holds at most two frames, and they are enough.  The newest visible frame the daemon queued
is at every moment in one of four places: the client shows it, or it is still on the daemon's socket,
or the bridge holds it, or a keyframe request on its way to the daemon will make a newer one
(`RelayLoop.Covers`).  The bridge releases it only when the client's number has passed it, and the
number passes a visible frame only by showing it: growth threads off the newest visible frame before
it, so it cannot be taken over one.
-/

import Posh.Quiescence
import Posh.RelayLoop

set_option autoImplicit false

namespace Posh

open List (mem_append mem_append_left mem_singleton)
open HeldFrame

variable {τ σ : Type}

namespace RelayLoop

/-- The bridge holds no frame, and nothing is in flight on the daemon's socket in either
direction. -/
structure Settled (s : RelayLoop τ σ) : Prop where
  held : s.bridge.daemon.held.isHeld = false
  read : s.bridge.daemon.read = []
  writeBuf : s.daemon.writeBuf = []
  up : s.up = []
  write : s.bridge.daemon.write = []

/-! ### Frames in flight and numbers -/

/-- A frame of the daemon is what the log says, and growth threads off the newest visible frame
before it. -/
structure RelayFits (log : List LoggedFrame) (f : ServerFrame) : Prop where
  sums : RoamingLoop.SumFits log f.frameNum f.body
  threads : ∀ base rows, f.body = .scrollback base rows →
    ∀ m d, base < m → m ≤ f.frameNum → log[m]? ≠ some ⟨true, d⟩

/-- Whoever is at the number `n` has passed no visible frame beyond `k`. -/
structure Passed (log : List LoggedFrame) (k n : ℕ) : Prop where
  num_lt : n < log.length
  le : ∀ m d, m ≤ n → log[m]? = some ⟨true, d⟩ → m ≤ k

variable {log : List LoggedFrame} {f : ServerFrame}

/-- A frame that carries something is in the log, with growth in a slot of its own. -/
theorem RelayFits.logged (h : RelayFits log f) (hbody : f.body ≠ .empty) :
    ∃ d, log[f.frameNum]? = some ⟨!isScrollbackFrame f, d⟩ := by
  have hsums := h.sums
  unfold isScrollbackFrame
  cases hb : f.body with
  | full bytes =>
    rw [hb] at hsums
    obtain ⟨d, hd, -⟩ := hsums
    exact ⟨d, hd⟩
  | diff base sum diff =>
    rw [hb] at hsums
    obtain ⟨b, d, -, hd, -⟩ := hsums
    exact ⟨d, hd⟩
  | scrollback base rows =>
    rw [hb] at hsums
    exact hsums
  | empty => exact absurd hb hbody
  | morph base sum escapes =>
    rw [hb] at hsums
    exact hsums.elim
  | scrollback2 epoch rowOffset rows =>
    rw [hb] at hsums
    exact hsums.elim

theorem RelayFits.num_lt (h : RelayFits log f) (hbody : f.body ≠ .empty) : f.frameNum < log.length := by
  obtain ⟨d, hd⟩ := h.logged hbody
  exact (List.getElem?_eq_some_iff.1 hd).1

theorem RelayFits.append (h : RelayFits log f) (g : LoggedFrame) : RelayFits (log ++ [g]) f where
  sums := h.sums.append g
  threads := by
    intro base rows hbody m d hlt hle hm
    have hnum := h.num_lt (by rw [hbody]; exact FrameBody.noConfusion)
    rw [List.getElem?_append_left (Nat.lt_of_le_of_lt hle hnum)] at hm
    exact h.threads base rows hbody m d hlt hle hm

theorem relayFits_empty (h : f.body = .empty) : RelayFits log f where
  sums := by rw [h]; trivial
  threads := by
    intro base rows hbody
    rw [h] at hbody
    cases hbody

theorem RelayFits.visible (h : RelayFits log f) (hbody : f.body ≠ .empty) (hslot : isScrollbackFrame f = false) :
    ∃ d, log[f.frameNum]? = some ⟨true, d⟩ := by
  have hlogged := h.logged hbody
  rwa [hslot] at hlogged

theorem RelayFits.rewrap (h : RelayFits log f)
    (inputAck echoAck : ℕ) : RelayFits log (rewrap f 0 inputAck echoAck) := ⟨h.sums, h.threads⟩

theorem Passed.append {k n : ℕ} (h : Passed log k n) (g : LoggedFrame) :
    Passed (log ++ [g]) k n where
  num_lt := Nat.lt_of_lt_of_le h.num_lt (by rw [List.length_append]; exact Nat.le_add_right _ _)
  le := by
    intro m d hle hm
    rw [List.getElem?_append_left (Nat.lt_of_le_of_lt hle h.num_lt)] at hm
    exact h.le m d hle hm

theorem Passed.mono {k k' n : ℕ} (h : Passed log k n) (hle : k ≤ k') : Passed log k' n where
  num_lt := h.num_lt
  le := fun m d hm hget => Nat.le_trans (h.le m d hm hget) hle

/-- **A frame takes the client past visible frames only by showing them.** -/
theorem Passed.landing {k k' : ℕ} {v v' : Shown}
    (h : Passed log k v.num) (hle : k ≤ k') (hshown : RoamingLoop.ShownAt log k' v')
    (hf : RelayFits log f) (hl : Landing v f v') : Passed log k' v'.num := by
  refine ⟨hshown.num_lt, ?_⟩
  have hvisible : isScrollbackFrame f = false → f.body ≠ .empty → v'.num = f.frameNum →
      ∀ m d, m ≤ v'.num → log[m]? = some ⟨true, d⟩ → m ≤ k' := by
    intro hslot hbody hnum m d hm hget
    obtain ⟨e, he⟩ := hf.visible hbody hslot
    rw [hshown.own e (hnum ▸ he)]
    exact hm
  cases hl with
  | rejected => exact (h.mono hle).le
  | scrollback rows hbody hnew =>
    intro m d hm hget
    -- no visible frame stands between the base and the growth frame
    have hbase : m ≤ v.num := by
      by_contra hlt
      exact hf.threads _ _ hbody m d (Nat.lt_of_not_le hlt) hm hget
    exact Nat.le_trans (h.le m d hbase hget) hle
  | full dump history hbody hnew hmem =>
    exact hvisible (by simp [isScrollbackFrame, hbody]) (by simp [hbody]) rfl
  | diff base sum diff held dump history hbody hnew hheld hsum happly hmem =>
    exact hvisible (by simp [isScrollbackFrame, hbody]) (by simp [hbody]) rfl
  | morph base sum escapes hbody hnew =>
    exact hvisible (by simp [isScrollbackFrame, hbody]) (by simp [hbody]) rfl

/-! ### The daemon -/

/-- The daemon's side of a lossy client that takes diffs with checksums. -/
structure Lossy (log : List LoggedFrame) (c : DaemonClient σ) : Prop where
  tracks : FrameProducer.Tracks log c.producer
  lossy : c.lossy = true
  coalesce : c.coalesce = false
  noMorph : c.capMorph = false
  sums : c.capBaseSum = true

section Daemon

variable {log : List LoggedFrame} {c : DaemonClient σ}

theorem Lossy.advanceVisible (h : Lossy log c) (src : Screen σ) :
    FrameProducer.Tracks (log ++ [⟨true, src.dump⟩]) (c.advanceVisible src) :=
  h.tracks.advanceVisible _ _ _ _ _

theorem Lossy.relayFits_visible (D : Display τ σ) (h : Lossy log c) (src : Screen σ) (hdr : FrameHeader) :
    RelayFits (log ++ [⟨true, src.dump⟩]) (c.visibleFrame D src hdr) ∧
      isScrollbackFrame (c.visibleFrame D src hdr) = false ∧ (c.visibleFrame D src hdr).body ≠ .empty := by
  have htracks := h.advanceVisible src
  have hcur : (log ++ [⟨true, src.dump⟩])[(c.advanceVisible src).currentNum]? =
      some ⟨true, src.dump⟩ := h.tracks.getElem?_new _
  have hmorph : c.usesMorph = false := by rw [DaemonClient.usesMorph, h.noMorph, Bool.and_false]
  have hstamp : (c.lossy && c.capBaseSum) = true := by rw [h.lossy, h.sums]; rfl
  have hdata : (c.advanceVisible src).current.data = src.dump := rfl
  have hbody : (c.visibleFrame D src hdr).body = stampBaseSum true (c.advanceVisible src).ackedDump
        ((c.advanceVisible src).encodeVisible D false) := by
    rw [DaemonClient.visibleFrame, hmorph, hstamp]
  have hnum : (c.visibleFrame D src hdr).frameNum = (c.advanceVisible src).currentNum := rfl
  rcases (c.advanceVisible src).encodeVisible_cases D with henc | ⟨d, hd, -, henc⟩
  · rw [henc, stampBaseSum_full, hdata] at hbody
    refine ⟨⟨?_, ?_⟩, by simp [isScrollbackFrame, hbody], by simp [hbody]⟩
    · rw [hbody, hnum]
      exact ⟨_, hcur, rfl⟩
    · intro base rows hb
      rw [hbody] at hb
      cases hb
  · rw [henc, FrameProducer.ackedDump, hd, stampBaseSum_diff, if_pos rfl, hdata] at hbody
    refine ⟨⟨?_, ?_⟩, by simp [isScrollbackFrame, hbody], by simp [hbody]⟩
    · rw [hbody, hnum]
      have hmem : d.bytes ∈ logDumps (log ++ [⟨true, src.dump⟩]) :=
        mem_logDumps_of_dumpAt (htracks.acked_dump d hd)
      exact ⟨d, _, hmem, hcur, rfl, rfl⟩
    · intro base rows hb
      rw [hbody] at hb
      cases hb

theorem Lossy.relayFits_scrollback (h : Lossy log c) (term : SessionTerm) (hdr : FrameHeader) :
    RelayFits (log ++ [⟨false, c.producer.current.data⟩]) (c.scrollbackFrame term hdr) := by
  refine ⟨⟨_, h.tracks.getElem?_new _⟩, ?_⟩
  intro base rows hbody m d hlt hle hm
  have hbase : c.producer.lastVisibleNum = base := (FrameBody.scrollback.inj hbody).1
  rcases FrameProducer.getElem?_append_singleton_cases hm with hm | ⟨-, hm⟩
  · have hvis := h.tracks.after_last m _ (hbase ▸ hlt) hm
    cases hvis
  · cases hm

end Daemon

/-! ### The invariant -/

/-- What holds of every run, with the visible frame `k` the client shows. -/
structure Relayed (s : RelayLoop τ σ) (k : ℕ) : Prop where
  daemon : Lossy s.log s.daemon
  codec : s.client.applier = .dumpDiff
  offset : s.bridge.daemon.frameOffset = 0
  shown : RoamingLoop.ShownAt s.log k s.client.shown
  passed : Passed s.log k s.client.appliedNum
  /-- whatever is acknowledged in flight, the client has passed -/
  messages : ∀ m ∈ s.messages, Passed s.log k m.ackedFrame
  frames : ∀ f ∈ s.frames, RelayFits s.log f
  held : ∀ f ∈ s.bridge.daemon.held.frames, f ∈ s.frames
  held_le : ∀ n f, s.bridge.daemon.held.visible = some (n, f) → n ≤ s.bridge.lastFrameNum
  last_lt : s.bridge.lastFrameNum < s.log.length
  pending : ∀ f ∈ s.pending, RelayFits s.log f ∧ f.body ≠ .empty
  /-- the socket brings frames in the order of their numbers, all newer than those forwarded -/
  ascending : s.pending.Pairwise fun f g => f.frameNum < g.frameNum
  fresh : ∀ f ∈ s.pending, s.bridge.lastFrameNum < f.frameNum

/-- **Where the newest visible frame is.** -/
inductive Covers (s : RelayLoop τ σ) (k : ℕ) : Prop where
  /-- the client shows it -/
  | shown (h : s.daemon.producer.lastVisibleNum ≤ k)
  /-- it is on the daemon's socket -/
  | pending (f : ServerFrame) (hf : f ∈ s.pending)
      (hnum : f.frameNum = s.daemon.producer.lastVisibleNum) (hslot : isScrollbackFrame f = false)
  /-- the bridge holds it -/
  | held (f : ServerFrame)
      (h : s.bridge.daemon.held.visible = some (s.daemon.producer.lastVisibleNum, f))
  /-- a keyframe request is on its way to the daemon -/
  | resync (ack : FrameAck) (hmem : .frameAck ack ∈ s.upward) (h : ack.resync = true)

theorem Covers.mono {s s' : RelayLoop τ σ} {k k' : ℕ} (h : Covers s k) (hle : k ≤ k')
    (hlast : s'.daemon.producer.lastVisibleNum = s.daemon.producer.lastVisibleNum)
    (hpending : ∀ f ∈ s.pending, f ∈ s'.pending)
    (hheld : s'.bridge.daemon.held.visible = s.bridge.daemon.held.visible)
    (hup : ∀ r ∈ s.upward, r ∈ s'.upward) : Covers s' k' := by
  cases h with
  | shown h => exact .shown (hlast ▸ Nat.le_trans h hle)
  | pending f hf hnum hslot => exact .pending f (hpending f hf) (hlast ▸ hnum) hslot
  | held f h => exact .held f (by rw [hheld, hlast, h])
  | resync ack hmem h => exact .resync ack (hup _ hmem) h

section Invariant

variable {s : RelayLoop τ σ} {k : ℕ} (D : Display τ σ)

theorem relayed_link {c : RelayConfig} (hsums : c.baseSums = true)
    (hoffset : c.frameOffset = 0) : Relayed (link D c (freshClient D c) [] []) 0 where
  daemon := ⟨FrameProducer.tracks_new D c.rows c.cols, rfl, rfl, rfl, hsums⟩
  codec := rfl
  offset := hoffset
  shown :=
    { data := ⟨.empty, rfl, rfl⟩
      le_num := Nat.le_refl 0
      num_lt := Nat.one_pos
      own := fun _ _ => rfl
      history := by intro b hb; simp [link, freshClient, ClientState.shown] at hb }
  passed := ⟨Nat.one_pos, fun _ _ hm _ => hm⟩
  messages := by intro m hm; simp [link] at hm
  frames := by intro f hf; simp [link] at hf
  held := by
    intro f hf
    simp [link, SessionBridge.link, DaemonLeg.link, HeldFrame.frames] at hf
  held_le := by
    intro n f hf
    simp [link, SessionBridge.link, DaemonLeg.link] at hf
  last_lt := by
    show c.frameOffset < 1
    omega
  pending := by
    intro f hf
    simp [RelayLoop.pending, link, SessionBridge.link, DaemonLeg.link] at hf
  ascending := by
    simp [RelayLoop.pending, link, SessionBridge.link, DaemonLeg.link]
  fresh := by
    intro f hf
    simp [RelayLoop.pending, link, SessionBridge.link, DaemonLeg.link] at hf

/-! ### Steps of the daemon -/

theorem Relayed.daemon_quiet (h : Relayed s k) (daemon : DaemonClient σ)
    (hdaemon : Lossy s.log daemon) (hbuf : daemon.writeBuf = s.daemon.writeBuf) : Relayed { s with daemon } k := by
  have hpending : ({ s with daemon } : RelayLoop τ σ).pending = s.pending := by
    rw [RelayLoop.pending, hbuf]
    rfl
  exact { h with
      daemon := hdaemon
      pending := hpending ▸ h.pending
      ascending := hpending ▸ h.ascending
      fresh := hpending ▸ h.fresh }

/-- **The daemon queues a fresh slot**: it is logged and goes to the end of the socket. -/
theorem Relayed.daemon_queue (h : Relayed s k) (daemon : DaemonClient σ) {g : LoggedFrame}
    {f : ServerFrame} {len : ℕ} (hdaemon : Lossy (s.log ++ [g]) daemon)
    (hbuf : daemon.writeBuf = s.daemon.writeBuf ++ RecordWire.wireOf len f)
    (hf : RelayFits (s.log ++ [g]) f) (hbody : f.body ≠ .empty) (hnum : f.frameNum = s.log.length) :
    Relayed { s with daemon, log := s.log ++ [g] } k ∧
      ({ s with daemon, log := s.log ++ [g] } : RelayLoop τ σ).pending = s.pending ++ [f] := by
  have hpending := s.pending_queue hbuf (s.log ++ [g])
  refine ⟨?_, hpending⟩
  refine
    { daemon := hdaemon
      codec := h.codec
      offset := h.offset
      shown := h.shown.append g
      passed := h.passed.append g
      messages := fun m hm => (h.messages m hm).append g
      frames := fun f' hf' => (h.frames f' hf').append g
      held := h.held
      held_le := h.held_le
      last_lt := ?_
      pending := ?_
      ascending := ?_
      fresh := ?_ }
  · have hlt := h.last_lt
    show s.bridge.lastFrameNum < (s.log ++ [g]).length
    rw [List.length_append]
    omega
  · rw [hpending]
    intro f' hf'
    rcases mem_append.1 hf' with hf' | hf'
    · exact ⟨(h.pending f' hf').1.append g, (h.pending f' hf').2⟩
    · rw [mem_singleton.1 hf']
      exact ⟨hf, hbody⟩
  · rw [hpending, List.pairwise_append]
    refine ⟨h.ascending, List.pairwise_singleton _ _, ?_⟩
    intro f' hf' f'' hf''
    rw [mem_singleton.1 hf'', hnum]
    exact (h.pending f' hf').1.num_lt (h.pending f' hf').2
  · rw [hpending]
    intro f' hf'
    rcases mem_append.1 hf' with hf' | hf'
    · exact h.fresh f' hf'
    · rw [mem_singleton.1 hf', hnum]
      exact h.last_lt

/-- **A visible frame is queued**: whatever was, the newest visible frame is on the socket now. -/
theorem relayed_broadcast (wireLen : ServerFrame → ℕ) (h : Relayed s k) (src : Screen σ) (hdr : FrameHeader) :
    Relayed (s.setDaemon true (s.daemon.queueFrame D wireLen src hdr)) k ∧
      Covers (s.setDaemon true (s.daemon.queueFrame D wireLen src hdr)) k := by
  have hlossy := h.daemon
  obtain ⟨hfits, hslot, hbody⟩ := hlossy.relayFits_visible D src hdr
  rw [s.setDaemon_queueFrame D wireLen hlossy.lossy hlossy.coalesce]
  have hnum : (s.daemon.visibleFrame D src hdr).frameNum = s.log.length :=
    hlossy.tracks.length_eq.symm
  obtain ⟨hrelayed, hpending⟩ := h.daemon_queue
    (({ s.daemon with producer := s.daemon.advanceVisible src } : DaemonClient σ).queue
      wireLen (s.daemon.visibleFrame D src hdr))
    ⟨hlossy.advanceVisible src, hlossy.lossy, hlossy.coalesce, hlossy.noMorph, hlossy.sums⟩ rfl
    hfits hbody hnum
  refine ⟨hrelayed, .pending (s.daemon.visibleFrame D src hdr) ?_ rfl hslot⟩
  rw [hpending]
  exact List.mem_append_right _ (List.mem_singleton_self _)

/-- **A scrollback opportunity** leaves the newest visible frame where it is. -/
theorem relayed_scrollback (wireLen : ServerFrame → ℕ) (h : Relayed s k) (hc : Covers s k)
    (term : SessionTerm) (hdr : FrameHeader) :
    Relayed (s.setDaemon false (s.daemon.maybeQueueScrollback wireLen term hdr)) k ∧
      Covers (s.setDaemon false (s.daemon.maybeQueueScrollback wireLen term hdr)) k := by
  have hlossy := h.daemon
  rcases s.setDaemon_scrollback wireLen hlossy.lossy term hdr with heq | heq
  · rw [heq]
    exact ⟨h, hc⟩
  · rw [heq]
    have hnum : (s.daemon.scrollbackFrame term hdr).frameNum = s.log.length :=
      hlossy.tracks.length_eq.symm
    obtain ⟨hrelayed, hpending⟩ := h.daemon_queue (({ s.daemon with
        producer := s.daemon.producer.advanceScrollbackAfterVisible term.sbTotal } :
          DaemonClient σ).queue wireLen (s.daemon.scrollbackFrame term hdr))
      ⟨hlossy.tracks.advanceScrollbackAfterVisible _, hlossy.lossy, hlossy.coalesce,
        hlossy.noMorph, hlossy.sums⟩ rfl (hlossy.relayFits_scrollback term hdr)
      FrameBody.noConfusion hnum
    refine ⟨hrelayed, hc.mono (Nat.le_refl _) rfl ?_ rfl (fun r hr => hr)⟩
    intro f hf
    exact hpending ▸ mem_append_left _ hf

/-- A swap of the source broadcast. -/
theorem relayed_swapSource (wireLen : ServerFrame → ℕ) (h : Relayed s k) (src : Screen σ) (hdr : FrameHeader) :
    Relayed (s.setDaemon true (s.daemon.dropAckedBase.queueFrame D wireLen src hdr)) k ∧
      Covers (s.setDaemon true (s.daemon.dropAckedBase.queueFrame D wireLen src hdr)) k := by
  have hlossy := h.daemon
  have hdropped := h.daemon_quiet s.daemon.dropAckedBase
    ⟨hlossy.tracks.dropAckedBase, hlossy.lossy, hlossy.coalesce, hlossy.noMorph, hlossy.sums⟩ rfl
  rw [← s.setDaemon_of_currentNum s.daemon.dropAckedBase rfl]
  exact relayed_broadcast D wireLen hdropped src hdr

/-- **The daemon reads an acknowledgement.**  A keyframe request is answered by a newest visible
frame on the socket. -/
theorem relayed_handleFrameAck (wireLen : ServerFrame → ℕ) (h : Relayed s k)
    (ack : FrameAck) (hc : ack.resync = false → Covers s k) (src : Screen σ) (hdr : FrameHeader) :
    Relayed (s.setDaemon true (s.daemon.handleFrameAck D wireLen ack src hdr)) k ∧
      Covers (s.setDaemon true (s.daemon.handleFrameAck D wireLen ack src hdr)) k := by
  have hlossy := h.daemon
  obtain ⟨-, hproducer, hl, hco, hmorph, hsums, hbuf, -⟩ :=
    DaemonClient.applyFrameAck_eq (.inl hlossy.lossy) ack
  have hack := hlossy.tracks.ack ack.ackedFrame
  have happlied := h.daemon_quiet (s.daemon.applyFrameAck ack).2
    ⟨by rw [hproducer]; split; exacts [hack.dropAckedBase, hack],
      hl.trans hlossy.lossy, hco.trans hlossy.coalesce, hmorph.trans hlossy.noMorph, hsums.trans hlossy.sums⟩ hbuf
  rw [s.setDaemon_handleFrameAck D wireLen hlossy.lossy]
  cases hr : ack.resync with
  | true => exact relayed_broadcast D wireLen happlied src hdr
  | false =>
    refine ⟨happlied, (hc hr).mono (Nat.le_refl _) ?_ ?_ rfl (fun r hr' => hr')⟩
    · show (s.daemon.applyFrameAck ack).2.producer.lastVisibleNum = _
      rw [hproducer, hr]
      exact (s.daemon.producer.ack_current ack.ackedFrame).2
    · intro f hf
      show f ∈ RecordWire.records (s.bridge.daemon.read ++ (s.daemon.applyFrameAck ack).2.writeBuf)
      rw [hbuf]
      exact hf

/-- **The daemon reads a record.** -/
theorem relayed_readUp (wireLen : ServerFrame → ℕ) (h : Relayed s k)
    (hc : Covers s k) {r : DaemonRecord} {rest : List DaemonRecord} (hup : s.up = r :: rest)
    (src : Screen σ) (hdr : FrameHeader) :
    Relayed (({ s with up := rest } : RelayLoop τ σ).daemonRead D wireLen src hdr r) k ∧
      Covers (({ s with up := rest } : RelayLoop τ σ).daemonRead D wireLen src hdr r) k := by
  have hrest : Relayed ({ s with up := rest } : RelayLoop τ σ) k := { h with }
  -- only a request for a keyframe is needed for the coverage
  have hcover : (∀ ack, r = .frameAck ack → ack.resync = false) →
      Covers ({ s with up := rest } : RelayLoop τ σ) k := by
    intro hno
    cases hc with
    | shown h => exact .shown h
    | pending f hf hnum hslot => exact .pending f hf hnum hslot
    | held f h => exact .held f h
    | resync ack hmem hresync =>
      refine .resync ack ?_ hresync
      rw [upward, hup, List.cons_append] at hmem
      rcases List.mem_cons.1 hmem with heq | hmem
      · rw [hno ack heq.symm] at hresync
        cases hresync
      · exact hmem
  cases r with
  | frameAck ack =>
    refine relayed_handleFrameAck D wireLen hrest ack ?_ src hdr
    intro hno
    refine hcover ?_
    intro ack' heq
    rw [← DaemonRecord.frameAck.inj heq]
    exact hno
  | input bytes => exact ⟨hrest, hcover fun ack heq => by cases heq⟩

/-! ### Steps of the bridge -/

theorem relayed_writeDown (h : Relayed s k) (hc : Covers s k) (n : ℕ) :
    let s' : RelayLoop τ σ := { s with
      daemon := s.daemon.drain n
      bridge := { s.bridge with
        daemon := { s.bridge.daemon with
          read := s.bridge.daemon.read ++ s.daemon.writeBuf.take n } } }
    Relayed s' k ∧ Covers s' k := by
  intro s'
  have hpending : s'.pending = s.pending := s.pending_writeDown n
  have hlossy := h.daemon
  refine ⟨?_, hc.mono (Nat.le_refl _) rfl (fun f hf => hpending ▸ hf) rfl (fun r hr => hr)⟩
  exact { h with
      daemon := ⟨hlossy.tracks, hlossy.lossy, hlossy.coalesce, hlossy.noMorph, hlossy.sums⟩
      pending := hpending ▸ h.pending
      ascending := hpending ▸ h.ascending
      fresh := hpending ▸ h.fresh }

/-- **The bridge forwards a frame and holds it.**  What it held before in the slot is no longer
needed: a visible frame is only ever replaced by a newer one. -/
theorem relayed_relay (h : Relayed s k) (hc : Covers s k) (echoAck : ℕ) {f : ServerFrame}
    {rest : List (Option ServerFrame)} (htake : RecordWire.takeRecord s.bridge.daemon.read = some (f, rest)) :
    Relayed (s.relay echoAck f rest) k ∧ Covers (s.relay echoAck f rest) k := by
  have hpending := s.pending_relay echoAck htake
  have hmem : f ∈ s.pending := by rw [hpending]; exact List.mem_cons_self
  have hsub : ∀ g ∈ (s.relay echoAck f rest).pending, g ∈ s.pending := by
    intro g hg
    rw [hpending]
    exact List.mem_cons_of_mem _ hg
  obtain ⟨hfits, hbody⟩ := h.pending f hmem
  have hfresh := h.fresh f hmem
  have hasc := h.ascending
  rw [hpending, List.pairwise_cons] at hasc
  -- the frame sent, at the offset 0
  have hsent : (s.relay echoAck f rest).frames =
      s.frames ++ [rewrap f 0 s.bridge.inbox.nextOffset echoAck] := by
    show s.frames ++ [rewrap f s.bridge.daemon.frameOffset _ _] = _
    rw [h.offset]
  have hlast : (s.relay echoAck f rest).bridge.lastFrameNum = f.frameNum := by
    show f.frameNum + s.bridge.daemon.frameOffset = _
    rw [h.offset, Nat.add_zero]
  have hheld : (s.relay echoAck f rest).bridge.daemon.held =
      s.bridge.daemon.held.hold f.frameNum (rewrap f 0 s.bridge.inbox.nextOffset echoAck)
        (isScrollbackFrame f) := by
    show s.bridge.daemon.held.hold (f.frameNum + s.bridge.daemon.frameOffset)
      (rewrap f s.bridge.daemon.frameOffset _ _) (isScrollbackFrame f) = _
    rw [h.offset, Nat.add_zero]
  refine ⟨?_, ?_⟩
  · refine
      { daemon := h.daemon
        codec := h.codec
        offset := h.offset
        shown := h.shown
        passed := h.passed
        messages := h.messages
        frames := ?_
        held := ?_
        held_le := ?_
        last_lt := by rw [hlast]; exact hfits.num_lt hbody
        pending := fun g hg => h.pending g (hsub g hg)
        ascending := hasc.2
        fresh := fun g hg => by rw [hlast]; exact hasc.1 g hg }
    · intro g hg
      rw [hsent] at hg
      rcases mem_append.1 hg with hg | hg
      · exact h.frames g hg
      · rw [mem_singleton.1 hg]
        exact hfits.rewrap _ _
    · intro g hg
      rw [hheld] at hg
      rw [hsent]
      rcases mem_frames_hold hg with hg | rfl
      · exact mem_append_left _ (h.held g hg)
      · exact List.mem_append_right _ (List.mem_singleton_self _)
    · intro n g hg
      rw [hheld, hold] at hg
      rw [hlast]
      split at hg
      · exact Nat.le_trans (h.held_le n g hg) (Nat.le_of_lt hfresh)
      · simp only [Option.some.injEq, Prod.mk.injEq] at hg
        exact Nat.le_of_eq hg.1.symm
  · cases hc with
    | shown hle => exact .shown hle
    | resync ack hack hresync => exact .resync ack hack hresync
    | pending g hg hnum hslot =>
      rw [hpending] at hg
      rcases List.mem_cons.1 hg with rfl | hg
      · refine .held (rewrap g 0 s.bridge.inbox.nextOffset echoAck) ?_
        rw [hheld, hslot, hnum]
        rfl
      · exact .pending g hg hnum hslot
    | held g hg =>
      cases hslot : isScrollbackFrame f with
      | true =>
        refine .held g ?_
        rw [hheld, hslot]
        exact hg
      | false =>
        obtain ⟨d, hd⟩ := hfits.visible hbody hslot
        have hle := h.daemon.tracks.visible_le hd
        have hge := h.held_le _ g hg
        omega

/-- **A message arrives at the bridge.**  A held visible frame is released only when the client has
passed it, or with a keyframe request on its way. -/
theorem relayed_deliverMessage (h : Relayed s k) (hc : Covers s k) {m : ClientMessage}
    (hm : m ∈ s.messages) : Relayed ({ s with bridge := (s.bridge.clientMessage m).2 } : RelayLoop τ σ) k ∧
      Covers ({ s with bridge := (s.bridge.clientMessage m).2 } : RelayLoop τ σ) k := by
  have hpassed := h.messages m hm
  -- the connection, once the input was taken
  obtain ⟨leg, hbridge, hread, hoffset, hlegheld, -, hwrite⟩ := s.bridge.clientMessage_daemon m
  rw [h.offset] at hoffset
  have hlast := s.bridge.clientMessage_lastFrameNum m
  have hpending : ({ s with bridge := (s.bridge.clientMessage m).2 } : RelayLoop τ σ).pending =
      s.pending := by
    rw [RelayLoop.pending, RelayLoop.pending, hbridge, DaemonLeg.forwardAck_read, hread]
  obtain ⟨hvisible, hscrollback⟩ := leg.forwardAck_slots m.ackedFrame m.flagResync
  rw [← hbridge, hlegheld] at hvisible hscrollback
  refine ⟨?_, ?_⟩
  · refine { h with
        offset := by
          show (s.bridge.clientMessage m).2.daemon.frameOffset = 0
          rw [hbridge, DaemonLeg.forwardAck_frameOffset, hoffset]
        held := ?_
        held_le := ?_
        last_lt := by rw [hlast]; exact h.last_lt
        pending := hpending ▸ h.pending
        ascending := hpending ▸ h.ascending
        fresh := by rw [hlast, hpending]; exact h.fresh }
    · exact fun f hf => h.held f (mem_frames_of_slots hvisible hscrollback hf)
    · intro n f hf
      rw [hlast]
      exact h.held_le n f (hvisible _ hf)
  · -- a request on its way stays on its way
    have hforward : ∀ r ∈ leg.write, r ∈ (leg.forwardAck m.ackedFrame m.flagResync).2.write := by
      intro r hr
      rcases leg.forwardAck_write m.ackedFrame m.flagResync with heq | ⟨n, heq⟩
      · rw [heq]
        exact hr
      · rw [heq]
        exact mem_append_left _ hr
    have hup : ∀ r ∈ s.upward,
        r ∈ ({ s with bridge := (s.bridge.clientMessage m).2 } : RelayLoop τ σ).upward := by
      intro r hr
      rw [upward, hbridge]
      rcases mem_append.1 hr with hr | hr
      · exact mem_append_left _ hr
      · exact List.mem_append_right _ (hforward r (hwrite r hr))
    cases hc with
    | shown hle => exact .shown hle
    | pending g hg hnum hslot => exact .pending g (hpending ▸ hg) hnum hslot
    | resync ack hack hresync => exact .resync ack (hup _ hack) hresync
    | held g hg =>
      rcases leg.forwardAck_held m.ackedFrame m.flagResync with heq | ⟨hresync, -⟩
      · rcases visible_dropIfAcked m.ackedFrame hg with hkept | hacked
        · refine .held g ?_
          rw [hbridge, heq, hlegheld]
          exact hkept
        · obtain ⟨d, hd⟩ := h.daemon.tracks.last_visible
          exact .shown (hpassed.le _ d hacked hd)
      · have hseed : leg.frameOffset ≤ leg.ackedForwarded := by
          rw [hoffset]
          exact Nat.zero_le _
        obtain ⟨n, hn⟩ := DaemonLeg.mem_forwardAck_write hseed m.ackedFrame
        refine .resync { ackedFrame := n, resync := true } ?_ rfl
        rw [upward, hbridge, hresync, hn]
        exact List.mem_append_right _ (List.mem_append_right _ (List.mem_singleton_self _))

theorem relayed_writeUp (h : Relayed s k) (hc : Covers s k) (n : ℕ) :
    let s' : RelayLoop τ σ := { s with
      up := s.up ++ s.bridge.daemon.write.take n
      bridge := { s.bridge with
        daemon := { s.bridge.daemon with write := s.bridge.daemon.write.drop n } } }
    Relayed s' k ∧ Covers s' k := by
  intro s'
  have hup : s'.upward = s.upward := by
    show (s.up ++ s.bridge.daemon.write.take n) ++ s.bridge.daemon.write.drop n = _
    rw [List.append_assoc, List.take_append_drop]
    rfl
  exact ⟨{ h with }, hc.mono (Nat.le_refl _) rfl (fun f hf => hf) rfl (fun r hr => hup ▸ hr)⟩

theorem Relayed.push (h : Relayed s k) {fs : List ServerFrame}
    (hfs : ∀ f ∈ fs, RelayFits s.log f) : Relayed { s with frames := s.frames ++ fs } k := by
  refine { h with frames := ?_, held := fun f hf => mem_append_left _ (h.held f hf) }
  intro f hf
  rcases mem_append.1 hf with hf | hf
  · exact h.frames f hf
  · exact hfs f hf

/-! ### Every step -/

/-- **A frame arrives at the client.** -/
theorem relayed_deliverFrame (h : Relayed s k) (hc : Covers s k)
    (hnc : NoCollision (logDumps s.log)) {f : ServerFrame} (hf : f ∈ s.frames) :
    ∃ k', Relayed ({ s with client := (s.client.applyFrame D f).1 } : RelayLoop τ σ) k' ∧
      Covers ({ s with client := (s.client.applyFrame D f).1 } : RelayLoop τ σ) k' := by
  have hfits := h.frames f hf
  have hl := s.client.applyFrame_landing D f
  obtain ⟨k', hle, hshown⟩ := h.shown.landing hnc hfits.sums hl
  have hpassed := Passed.landing (v := s.client.shown) h.passed hle hshown hfits hl
  refine ⟨k', ?_, hc.mono hle rfl (fun f hf => hf) rfl (fun r hr => hr)⟩
  exact { h with
      codec := (s.client.applyFrame_applier D f).trans h.codec
      shown := hshown
      passed := hpassed
      messages := fun m hm => (h.messages m hm).mono hle }

/-- **Every step keeps the invariant**, for the visible frame shown afterwards. -/
theorem relayed_step (wireLen : ServerFrame → ℕ) (c : RelayConfig)
    {s' : RelayLoop τ σ} {a : Act σ} (h : Relayed s k) (hc : Covers s k)
    (hnc : NoCollision (logDumps s.log)) (hstep : step D wireLen c s a = some s') :
    ∃ k', Relayed s' k' ∧ Covers s' k' := by
  cases a with
  | broadcast src hdr =>
    rw [step, Option.some.injEq] at hstep
    exact ⟨k, hstep ▸ relayed_broadcast D wireLen h src hdr⟩
  | swapSource src hdr =>
    rw [step, Option.some.injEq] at hstep
    exact ⟨k, hstep ▸ relayed_swapSource D wireLen h src hdr⟩
  | scrollback term hdr =>
    rw [step, Option.some.injEq] at hstep
    exact ⟨k, hstep ▸ relayed_scrollback wireLen h hc term hdr⟩
  | writeDown n =>
    rw [step, Option.some.injEq] at hstep
    exact ⟨k, hstep ▸ relayed_writeDown h hc n⟩
  | readDown echoAck =>
    rw [step, Option.map_eq_some_iff] at hstep
    obtain ⟨⟨f, rest⟩, htake, rfl⟩ := hstep
    exact ⟨k, relayed_relay h hc echoAck htake⟩
  | resendHeld =>
    rw [step, Option.some.injEq] at hstep
    subst hstep
    refine ⟨k, h.push fun f hf => h.frames f (h.held f hf), ?_⟩
    exact hc.mono (Nat.le_refl _) rfl (fun f hf => hf) rfl (fun r hr => hr)
  | heartbeat echoAck =>
    rw [step, Option.some.injEq] at hstep
    subst hstep
    refine ⟨k, h.push fun f hf => ?_, ?_⟩
    · rw [mem_singleton.1 hf]
      exact relayFits_empty rfl
    · exact hc.mono (Nat.le_refl _) rfl (fun f hf => hf) rfl (fun r hr => hr)
  | writeUp n =>
    rw [step, Option.some.injEq] at hstep
    exact ⟨k, hstep ▸ relayed_writeUp h hc n⟩
  | readUp src hdr =>
    simp only [step] at hstep
    cases hup : s.up with
    | nil =>
      rw [hup] at hstep
      cases hstep
    | cons r rest =>
      rw [hup] at hstep
      simp only [Option.some.injEq] at hstep
      exact ⟨k, hstep ▸ relayed_readUp D wireLen h hc hup src hdr⟩
  | deliverMessage i =>
    rw [step, Option.map_eq_some_iff] at hstep
    obtain ⟨m, hm, rfl⟩ := hstep
    exact ⟨k, relayed_deliverMessage h hc (List.mem_of_getElem? hm)⟩
  | requestResync =>
    rw [step, Option.some.injEq] at hstep
    subst hstep
    exact ⟨k, { h with }, hc.mono (Nat.le_refl _) rfl (fun f hf => hf) rfl (fun r hr => hr)⟩
  | send inputBase input =>
    rw [step, Option.some.injEq] at hstep
    subst hstep
    refine ⟨k, { h with messages := ?_ }, hc.mono (Nat.le_refl _) rfl (fun f hf => hf) rfl (fun r hr => hr)⟩
    intro m hm
    rcases mem_append.1 hm with hm | hm
    · exact h.messages m hm
    · rw [mem_singleton.1 hm]
      exact h.passed
  | deliverFrame i =>
    rw [step, Option.map_eq_some_iff] at hstep
    obtain ⟨f, hf, rfl⟩ := hstep
    exact relayed_deliverFrame D h hc hnc (List.mem_of_getElem? hf)

end Invariant

theorem relayed_exec (D : Display τ σ) (wireLen : ServerFrame → ℕ) {c : RelayConfig}
    (hsums : c.baseSums = true) (hoffset : c.frameOffset = 0) {as : List (Act σ)} {s : RelayLoop τ σ}
    (hrun : Runs.exec (step D wireLen c) (link D c (freshClient D c) [] []) as = some s)
    (hnc : NoCollision (logDumps s.log)) : ∃ k, Relayed s k ∧ Covers s k := by
  refine Runs.exec_invariant
    (I := fun u => NoCollision (logDumps u.log) → ∃ k, Relayed u k ∧ Covers u k) ?_
    (fun _ => ⟨0, relayed_link D hsums hoffset, .shown (Nat.le_refl 0)⟩) hrun hnc
  intro u a v hu hstep hv
  have hnc' : NoCollision (logDumps u.log) :=
    hv.mono (logDumps_subset (log_step D wireLen c hstep))
  obtain ⟨k, hk, hc⟩ := hu hnc'
  exact relayed_step D wireLen c hk hc hnc' hstep

def sampleRelay : RelayConfig where
  rows := 24
  cols := 80
  baseSums := true

/-- A visible frame is lost and the client, asked for a keyframe, gets one; growth follows it, and
both are acknowledged. -/
def keyframeRun : List (Act Unit) :=
  [.broadcast (RoamingLoop.sampleScreen 1 65) {}, .writeDown 100, .readDown 0,
    .requestResync, .send 0 [], .deliverMessage 0, .writeUp 1,
    .readUp (RoamingLoop.sampleScreen 2 66) {}, .writeDown 100, .readDown 0, .deliverFrame 1,
    .send 0 [], .deliverMessage 1, .writeUp 1, .readUp (RoamingLoop.sampleScreen 2 66) {},
    .scrollback { sbTotal := 1, ring := [[97]] } {}, .writeDown 100, .readDown 0,
    .deliverFrame 2, .send 0 [], .deliverMessage 2, .writeUp 1, .readUp (RoamingLoop.sampleScreen 2 66) {}]

end RelayLoop

end Posh
