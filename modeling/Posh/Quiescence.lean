/-
**Quiescence of the roaming loop implies convergence.**

With base checksums that tell the dumps of the run apart, the client can only ever show the dump of
some visible frame: a diff that reaches it is applied to the dump its checksum names, or not at all.
The question is which visible frame.  The scrollback slots let the frame *number* run ahead of the
frame *shown*: a client at number 3 may have come there by growth, over a visible frame 2 it never
applied, and its acknowledgement of 3 then passes frame 2.  The server notices exactly this (the
newest visible frame was leapt) and forces a frame; so when it would send nothing more, the newest
visible frame was acknowledged by its own number, and that number the client only reaches by showing
the frame.
-/

import Posh.RoamingLoop

set_option autoImplicit false

namespace Posh

open ServerLoop
open FrameProducer

variable {τ σ : Type} {log : List LoggedFrame} {d : Dump} {n : ℕ}

/-! ### The dumps of a log -/

def logDumps (log : List LoggedFrame) : List Bytes := log.map fun g => g.dump.bytes

theorem mem_logDumps {v : Bool} (h : log[n]? = some ⟨v, d⟩) : d.bytes ∈ logDumps log :=
  List.mem_map.2 ⟨_, List.mem_of_getElem? h, rfl⟩

theorem mem_logDumps_of_dumpAt (h : RoamingLoop.dumpAt log n = some d) : d.bytes ∈ logDumps log := by
  obtain ⟨g, hg, rfl⟩ := Option.map_eq_some_iff.1 h
  exact mem_logDumps hg

theorem logDumps_subset {log log' : List LoggedFrame} (h : log <+: log') :
    logDumps log ⊆ logDumps log' := List.map_subset _ h.subset

theorem NoCollision.mono {dumps dumps' : List Bytes} (h : NoCollision dumps')
    (hsub : dumps ⊆ dumps') : NoCollision dumps :=
  fun a ha b hb => h a (hsub ha) b (hsub hb)

/-- The dump of the newest visible frame. -/
def newestVisible (log : List LoggedFrame) : Option Dump :=
  (log.reverse.find? LoggedFrame.visible).map LoggedFrame.dump

theorem newestVisible_eq (hn : log[n]? = some ⟨true, d⟩)
    (hafter : ∀ m f, n < m → log[m]? = some f → f.visible = false) : newestVisible log = some d := by
  obtain ⟨hlt, hget⟩ := List.getElem?_eq_some_iff.1 hn
  have hsplit : log = log.take n ++ ⟨true, d⟩ :: log.drop (n + 1) := by
    rw [← hget, List.getElem_cons_drop, List.take_append_drop]
  have hnone : (log.drop (n + 1)).reverse.find? LoggedFrame.visible = none := by
    rw [List.find?_eq_none]
    intro f hf
    obtain ⟨i, hi⟩ := List.mem_iff_getElem?.1 (List.mem_reverse.1 hf)
    rw [List.getElem?_drop] at hi
    rw [hafter (n + 1 + i) f (by omega) hi]
    exact Bool.false_ne_true
  rw [newestVisible, hsplit, List.reverse_append, List.reverse_cons, List.append_assoc,
    List.find?_append, hnone]
  rfl

namespace RoamingLoop

/-! ### What is in flight, and what is shown -/

/-- A body in flight is what its frame number is logged as; a diff names its base by a checksum. -/
def SumFits (log : List LoggedFrame) (num : ℕ) : FrameBody → Prop
  | .full bytes => ∃ d, log[num]? = some ⟨true, d⟩ ∧ bytes = d.bytes
  | .diff _ sum diff =>
    ∃ b d : Dump, b.bytes ∈ logDumps log ∧ log[num]? = some ⟨true, d⟩ ∧
      sum = some (baseChecksum b.bytes) ∧ diff = makeDiff b.bytes d.bytes
  | .scrollback _ _ => ∃ d, log[num]? = some ⟨false, d⟩
  | .empty => True
  | _ => False

variable {log : List LoggedFrame}

theorem SumFits.append {num : ℕ} {body : FrameBody}
    (h : SumFits log num body) (g : LoggedFrame) : SumFits (log ++ [g]) num body := by
  cases body with
  | full bytes =>
    obtain ⟨d, hd, rfl⟩ := h
    exact ⟨d, getElem?_log_append hd g, rfl⟩
  | diff base sum diff =>
    obtain ⟨b, d, hb, hd, hsum, heq⟩ := h
    exact ⟨b, d, logDumps_subset (List.prefix_append _ _) hb,
      getElem?_log_append hd g, hsum, heq⟩
  | scrollback base rows =>
    obtain ⟨d, hd⟩ := h
    exact ⟨d, getElem?_log_append hd g⟩
  | empty => trivial
  | morph | scrollback2 => exact h.elim

/-- The client shows the visible frame `k`; its number may have run ahead of `k` over scrollback
slots, but not onto a visible frame. -/
structure ShownAt (log : List LoggedFrame) (k : ℕ) (v : Shown) : Prop where
  data : ∃ d, log[k]? = some ⟨true, d⟩ ∧ v.data = d.bytes
  le_num : k ≤ v.num
  num_lt : v.num < log.length
  own : ∀ d, log[v.num]? = some ⟨true, d⟩ → k = v.num
  history : ∀ b ∈ v.history, b.2 ∈ logDumps log

variable {k : ℕ} {f : ServerFrame} (D : Display τ σ)

theorem ShownAt.data_mem {v : Shown} (h : ShownAt log k v) : v.data ∈ logDumps log := by
  obtain ⟨d, hd, heq⟩ := h.data
  exact heq ▸ mem_logDumps hd

theorem ShownAt.append {v : Shown} (h : ShownAt log k v)
    (g : LoggedFrame) : ShownAt (log ++ [g]) k v where
  data := by
    obtain ⟨d, hd, heq⟩ := h.data
    exact ⟨d, getElem?_log_append hd g, heq⟩
  le_num := h.le_num
  num_lt := Nat.lt_of_lt_of_le h.num_lt (by rw [List.length_append]; exact Nat.le_add_right _ _)
  own := by
    intro d hd
    rw [List.getElem?_append_left h.num_lt] at hd
    exact h.own d hd
  history := fun b hb => logDumps_subset (List.prefix_append _ _) (h.history b hb)

theorem shownAt_visible {num : ℕ} {d : Dump} {dump : Bytes}
    {h history : List (ℕ × Bytes)} (hd : log[num]? = some ⟨true, d⟩) (hdump : dump = d.bytes)
    (hold : ∀ b ∈ h, b.2 ∈ logDumps log) (hmem : Remembers h history num dump) :
    ShownAt log num ⟨num, dump, history⟩ where
  data := ⟨d, hd, hdump⟩
  le_num := Nat.le_refl _
  num_lt := (List.getElem?_eq_some_iff.1 hd).1
  own := fun _ _ => rfl
  history := by
    intro b hb
    rcases hmem b hb with hb | rfl
    · exact hold b hb
    · exact hdump ▸ mem_logDumps hd

/-- **A frame leaves the client showing some visible frame, never an older one.** -/
theorem ShownAt.landing {v v' : Shown}
    (h : ShownAt log k v) (hnc : NoCollision (logDumps log)) (hf : SumFits log f.frameNum f.body)
    (hl : Landing v f v') : ∃ k', k ≤ k' ∧ ShownAt log k' v' := by
  cases hl with
  | rejected => exact ⟨k, Nat.le_refl _, h⟩
  | scrollback rows hbody hnew =>
    rw [hbody] at hf
    obtain ⟨d, hd⟩ := hf
    refine ⟨k, Nat.le_refl _, h.data, ?_, (List.getElem?_eq_some_iff.1 hd).1, ?_, h.history⟩
    · exact Nat.le_trans h.le_num (Nat.le_of_lt hnew)
    · intro e he
      rw [hd] at he
      cases he
  | full dump history hbody hnew hmem =>
    rw [hbody] at hf
    obtain ⟨d, hd, heq⟩ := hf
    refine ⟨f.frameNum, Nat.le_trans h.le_num (Nat.le_of_lt hnew), ?_⟩
    exact shownAt_visible hd heq h.history hmem
  | diff base sum diff held dump history hbody hnew hheld hsum happly hmem =>
    rw [hbody] at hf
    obtain ⟨b, d, hb, hd, rfl, rfl⟩ := hf
    -- the dump the diff is applied to has the checksum of the base, so it is the base
    have hheld' : held ∈ logDumps log := by
      rcases hheld with ⟨-, rfl⟩ | hmem
      · exact h.data_mem
      · exact h.history _ hmem
    have heq : held = b.bytes := hnc held hheld' b.bytes hb (hsum _ rfl)
    rw [heq, applyDiff_dump, Option.some.injEq] at happly
    refine ⟨f.frameNum, Nat.le_trans h.le_num (Nat.le_of_lt hnew), ?_⟩
    exact shownAt_visible hd happly.symm h.history hmem
  | morph base sum escapes hbody hnew =>
    rw [hbody] at hf
    exact hf.elim

/-! ### The invariant -/

/-- Until the peer has asked for checksums, the server has only the empty base to build on. -/
def SumsDue (s : ServerLoop σ) : Prop :=
  s.peerWantsBaseSum = false → ∀ d, s.producer.ackedDump = some d → d = .empty

/-- The invariant, with the visible frame `k` the client shows. -/
structure Converges (s : RoamingLoop τ σ) (k : ℕ) : Prop where
  base : Base s.log s.server
  codec : s.client.applier = .dumpDiff
  sums : SumsDue s.server
  shown : ShownAt s.log k s.client.shown
  /-- a newest visible frame acknowledged by its own number was shown -/
  direct : s.server.producer.visibleDirectlyAcked = true → s.server.producer.lastVisibleNum ≤ k
  /-- a visible frame acknowledged by its own number was shown -/
  messages : ∀ m ∈ s.messages, m.capMorph = false ∧ m.capBaseSum = true ∧
    ∀ d, s.log[m.ackedFrame]? = some ⟨true, d⟩ → m.ackedFrame ≤ k
  /-- a frame acknowledged in flight has been logged -/
  messages_lt : ∀ m ∈ s.messages, m.ackedFrame < s.log.length
  frames : ∀ f ∈ s.frames, SumFits s.log f.frameNum f.body

theorem converges_init (c : LoopConfig σ) : Converges (init D c) 0 where
  base := base_init D c
  codec := rfl
  sums := by
    intro _ d hd
    rw [show (init D c).server.producer.ackedDump = some Dump.empty from rfl, Option.some.injEq] at hd
    exact hd.symm
  shown :=
    { data := ⟨.empty, rfl, rfl⟩
      le_num := Nat.le_refl 0
      num_lt := Nat.one_pos
      own := fun _ _ => rfl
      history := by intro b hb; simp [init, ClientState.shown] at hb }
  direct := fun _ => Nat.le_refl 0
  messages := by intro m hm; simp [init] at hm
  messages_lt := by intro m hm; simp [init] at hm
  frames := by intro f hf; simp [init] at hf

/-! ### One step -/

theorem sumFits_visible {s : ServerLoop σ} (h : Base log s) (hsums : SumsDue s) (hkind : s.currentIsSb = false) :
    SumFits log s.producer.currentNum (s.body D) := by
  have hcur := h.kind
  rw [hkind] at hcur
  rw [body, hkind, h.noMorph]
  simp only [Bool.false_eq_true, if_false]
  rcases s.producer.encodeVisible_cases D with henc | ⟨d, hd, hwin, henc⟩
  · rw [henc, stampBaseSum_full]
    exact ⟨_, hcur, rfl⟩
  · -- a diff that is a win is not against the empty base, so the peer has asked for checksums
    have hwants : s.peerWantsBaseSum = true := by
      by_contra hno
      have hempty := hsums (Bool.not_eq_true _ |>.mp hno) d hd
      have hlen := length_le_makeDiff_nil s.producer.current.data.bytes
      rw [hempty, Dump.bytes_empty] at hwin
      omega
    rw [henc, ackedDump, hd, stampBaseSum_diff, hwants, if_pos rfl]
    exact ⟨d, _, mem_logDumps_of_dumpAt (h.tracks.acked_dump d hd), hcur, rfl, rfl⟩

theorem sumFits_body {s : ServerLoop σ} (h : Base log s)
    (hsums : SumsDue s) : SumFits log s.producer.currentNum (s.body D) := by
  cases hkind : s.currentIsSb with
  | false => exact sumFits_visible D h hsums hkind
  | true =>
    have hcur := h.kind
    rw [hkind] at hcur
    rw [body, hkind, if_pos rfl]
    exact ⟨_, hcur⟩

theorem sumsDue_of_eq {s s' : ServerLoop σ} (h : SumsDue s) (hwants : s'.peerWantsBaseSum = s.peerWantsBaseSum)
    (hdump : s'.producer.ackedDump = s.producer.ackedDump) : SumsDue s' := by
  intro hno d hd
  exact h (hwants ▸ hno) d (hdump ▸ hd)

theorem SumsDue.nudge {s : ServerLoop σ} (h : SumsDue s) : SumsDue s.nudge :=
  sumsDue_of_eq h (nudge_peerWantsBaseSum s) (by rw [nudge_producer])

variable {s : RoamingLoop τ σ}

theorem Converges.extend (h : Converges s k) {server : ServerLoop σ}
    {g : LoggedFrame} (hbase : Base (s.log ++ [g]) server) (hsums : SumsDue server)
    (hdirect : server.producer.visibleDirectlyAcked = true → server.producer.lastVisibleNum ≤ k)
    (hf : SumFits (s.log ++ [g]) f.frameNum f.body) :
    Converges { s with server, frames := s.frames ++ [f], log := s.log ++ [g] } k where
  base := hbase
  codec := h.codec
  sums := hsums
  shown := h.shown.append g
  direct := hdirect
  messages := by
    intro m hm
    obtain ⟨hmorph, hsum, hvis⟩ := h.messages m hm
    refine ⟨hmorph, hsum, ?_⟩
    intro d hd
    have hd' : (s.log ++ [g])[m.ackedFrame]? = some ⟨true, d⟩ := hd
    rw [List.getElem?_append_left (h.messages_lt m hm)] at hd'
    exact hvis d hd'
  messages_lt := by
    intro m hm
    have hlt := h.messages_lt m hm
    show m.ackedFrame < (s.log ++ [g]).length
    rw [List.length_append]
    omega
  frames := by
    intro f' hf'
    rcases List.mem_append.1 hf' with hf' | hf'
    · exact (h.frames f' hf').append g
    · rw [List.mem_singleton.1 hf']
      exact hf

theorem Converges.server (h : Converges s k) {server : ServerLoop σ}
    (hbase : Base s.log server) (hsums : SumsDue server)
    (hproducer : server.producer = s.server.producer) : Converges { s with server } k :=
  { h with
    base := hbase
    sums := hsums
    direct := by
      show server.producer.visibleDirectlyAcked = true → server.producer.lastVisibleNum ≤ k
      rw [hproducer]
      exact h.direct }

theorem Converges.push (h : Converges s k)
    (hf : SumFits s.log f.frameNum f.body) : Converges { s with frames := s.frames ++ [f] } k := by
  refine { h with frames := ?_ }
  intro f' hf'
  rcases List.mem_append.1 hf' with hf' | hf'
  · exact h.frames f' hf'
  · rw [List.mem_singleton.1 hf']
    exact hf

/-- **An iteration keeps the invariant.** -/
theorem converges_serve {t : Opportunity} (h : Converges s k) : Converges (s.serve D t) k := by
  have hnudge := h.base.nudge
  have hserver : Converges { s with server := s.server.nudge } k :=
    h.server hnudge h.sums.nudge (nudge_producer s.server)
  have hserved := serve_served D s t
  generalize s.serve D t = s' at hserved
  cases hserved with
  | visible =>
    have hsums : SumsDue s.server.nudge.advanceVisible := sumsDue_of_eq h.sums.nudge rfl rfl
    refine h.extend hnudge.advanceVisible hsums ?_ (sumFits_body D hnudge.advanceVisible hsums)
    -- the new frame is not acknowledged yet
    intro hdirect
    exact absurd hdirect Bool.false_ne_true
  | scrollback hbase =>
    obtain ⟨next, heq, -⟩ := s.server.nudge.producer.advanceScrollback_eq s.server.nudge.term.sbTotal
    have hsums : SumsDue s.server.nudge.advanceScrollback := by
      refine sumsDue_of_eq h.sums.nudge rfl ?_
      show (s.server.nudge.producer.advanceScrollback _).ackedDump = _
      rw [heq]
      rfl
    refine h.extend hnudge.advanceScrollback hsums ?_
      (sumFits_body D hnudge.advanceScrollback hsums)
    show (s.server.nudge.producer.advanceScrollback _).visibleDirectlyAcked = true →
      (s.server.nudge.producer.advanceScrollback _).lastVisibleNum ≤ k
    rw [heq]
    show s.server.nudge.producer.visibleDirectlyAcked = true → s.server.nudge.producer.lastVisibleNum ≤ k
    rw [nudge_producer]
    exact h.direct
  | again hre => exact hserver.push (sumFits_body D hnudge h.sums.nudge)
  | empty => exact hserver.push trivial
  | nothing => exact hserver

/-- **A message's arrival keeps the invariant**: an acknowledgement by the newest visible frame's own
number came from a client that had shown it. -/
theorem converges_onClientMessage (h : Converges s k) {m : ClientMessage} (hm : m ∈ s.messages) :
    Converges { s with server := s.server.onClientMessage m } k := by
  obtain ⟨hmorph, hsum, hvis⟩ := h.messages m hm
  refine { h with base := h.base.onClientMessage hmorph, sums := ?_, direct := ?_ }
  · intro hno
    rw [onClientMessage_peerWantsBaseSum, hsum] at hno
    cases hno
  · have hack : (s.server.producer.ack m.ackedFrame).2.visibleDirectlyAcked = true →
        (s.server.producer.ack m.ackedFrame).2.lastVisibleNum ≤ k := by
      rcases s.server.producer.ack_cases m.ackedFrame with ⟨-, heq⟩ | ⟨-, -, heq⟩
      · rw [heq]
        exact h.direct
      · rw [heq]
        intro hdirect
        rcases Bool.or_eq_true_iff.1 hdirect with hold | hnew
        · exact h.direct hold
        · obtain ⟨d, hd⟩ := h.base.tracks.last_visible
          rw [beq_iff_eq] at hnew
          rw [← hnew] at hd
          show s.server.producer.lastVisibleNum ≤ k
          exact hnew ▸ hvis d hd
    show (s.server.onClientMessage m).producer.visibleDirectlyAcked = true →
      (s.server.onClientMessage m).producer.lastVisibleNum ≤ k
    rw [onClientMessage_producer]
    split <;> exact hack

/-- **A frame's arrival keeps the invariant**, for the visible frame shown afterwards. -/
theorem converges_receive (h : Converges s k) (hnc : NoCollision (logDumps s.log))
    (hf : SumFits s.log f.frameNum f.body) : ∃ k', Converges (s.receive D f) k' := by
  obtain ⟨k', hle, hshown⟩ := h.shown.landing hnc hf (s.client.applyFrame_landing D f)
  refine ⟨k', { h with codec := ?_, shown := hshown, direct := ?_, messages := ?_ }⟩
  · exact (s.client.applyFrame_applier D f).trans h.codec
  · exact fun hdirect => Nat.le_trans (h.direct hdirect) hle
  · intro m hm
    obtain ⟨hmorph, hsum, hvis⟩ := h.messages m hm
    exact ⟨hmorph, hsum, fun d hd => Nat.le_trans (hvis d hd) hle⟩

theorem log_step (c : LoopConfig σ) {s s' : RoamingLoop τ σ} {a : Act σ}
    (hstep : step D c s a = some s') : s.log <+: s'.log := by
  cases a with
  | serve t =>
    rw [step, Option.some.injEq] at hstep
    subst hstep
    show s.log <+: logAfter s.log s.server (s.server.produce D t).2
    unfold logAfter
    split
    · exact List.prefix_refl _
    · exact List.prefix_append _ _
  | screen | overlay | sessionEnded | requestResync | send =>
    rw [step, Option.some.injEq] at hstep
    subst hstep
    exact List.prefix_refl _
  | deliverMessage i | deliverFrame i =>
    rw [step, Option.map_eq_some_iff] at hstep
    obtain ⟨x, -, rfl⟩ := hstep
    exact List.prefix_refl _

/-- **Every step keeps the invariant**, for the visible frame shown afterwards. -/
theorem converges_step (c : LoopConfig σ) (hsums : c.baseSums = true)
    {s s' : RoamingLoop τ σ} {a : Act σ} (h : Converges s k)
    (hnc : NoCollision (logDumps s.log)) (hstep : step D c s a = some s') : ∃ k', Converges s' k' := by
  cases a with
  | screen src term | overlay up src | sessionEnded =>
    rw [step, Option.some.injEq] at hstep
    subst hstep
    exact ⟨k, h.server ⟨h.base.tracks, h.base.kind, h.base.noMorph⟩
      (sumsDue_of_eq h.sums rfl rfl) rfl⟩
  | serve t =>
    rw [step, Option.some.injEq] at hstep
    exact ⟨k, hstep ▸ converges_serve D h⟩
  | deliverMessage i =>
    rw [step, Option.map_eq_some_iff] at hstep
    obtain ⟨m, hm, rfl⟩ := hstep
    exact ⟨k, converges_onClientMessage h (List.mem_of_getElem? hm)⟩
  | requestResync =>
    rw [step, Option.some.injEq] at hstep
    subst hstep
    exact ⟨k, h.base, h.codec, h.sums, h.shown, h.direct, h.messages, h.messages_lt, h.frames⟩
  | send shutdown scrollback =>
    rw [step, Option.some.injEq] at hstep
    subst hstep
    refine ⟨k, h.base, h.codec, h.sums, h.shown, h.direct, ?_, ?_, h.frames⟩
    · intro m hm
      rcases List.mem_append.1 hm with hm | hm
      · exact h.messages m hm
      · rw [List.mem_singleton.1 hm]
        refine ⟨?_, hsums, ?_⟩
        · show s.client.applier.advertisesMorph = false
          rw [h.codec]
          rfl
        · intro d hd
          exact Nat.le_of_eq (h.shown.own d hd).symm
    · intro m hm
      rcases List.mem_append.1 hm with hm | hm
      · exact h.messages_lt m hm
      · rw [List.mem_singleton.1 hm]
        exact h.shown.num_lt
  | deliverFrame i =>
    rw [step, Option.map_eq_some_iff] at hstep
    obtain ⟨f, hf, rfl⟩ := hstep
    exact converges_receive D h hnc (h.frames f (List.mem_of_getElem? hf))

theorem converges_exec (c : LoopConfig σ) (hsums : c.baseSums = true)
    {as : List (Act σ)} (hrun : Runs.exec (step D c) (init D c) as = some s)
    (hnc : NoCollision (logDumps s.log)) : ∃ k, Converges s k := by
  refine Runs.exec_invariant (I := fun u => NoCollision (logDumps u.log) → ∃ k, Converges u k)
    ?_ (fun _ => ⟨0, converges_init D c⟩) hrun hnc
  intro u a v hu hstep hv
  have hnc' : NoCollision (logDumps u.log) := hv.mono (logDumps_subset (log_step D c hstep))
  obtain ⟨k, hk⟩ := hu hnc'
  exact converges_step D c hsums hk hnc' hstep

/-! ### Quiescence -/

/-- When the server would send nothing more, the newest visible frame was acknowledged by its own
number. -/
theorem directly_acked_of_quiescent {s : ServerLoop σ} (h : Base log s)
    (hq : s.Quiescent) : s.producer.visibleDirectlyAcked = true := by
  have hlast := h.tracks.lastVisible_le
  have hacked : s.producer.ackedNum = s.producer.current.num := hq.acked_current
  by_cases hgt : s.producer.ackedNum > s.producer.lastVisibleNum
  · have hleapt := hq.unleapt
    rw [visibleFrameLeapt, decide_eq_true hgt, Bool.true_and] at hleapt
    simpa using hleapt
  · exact h.tracks.direct (by omega)

end RoamingLoop

end Posh
