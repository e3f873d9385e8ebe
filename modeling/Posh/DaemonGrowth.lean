/-
**Scrollback growth from the session daemon.**

The daemon broadcasts a screen to a framed client and, right behind it, the rows that entered the
scrollback since the coverage the client confirmed.  The frames arrive in order and none is lost; the
client's acknowledgements come back in order, as late as they please.  The client is a roaming one behind
a relay or a local viewport, which take a growth body by the same rule.

A second broadcast before the acknowledgement of the first one's growth covers the same rows again.  Its
growth body names the screen right before it as its base, and a client that took that screen takes the
body too.  The numbers of the rows a client appended ascend exactly in the runs in which every growth
body it takes was queued with all it had appended before confirmed
(`DaemonGrowth.Confirmed`).
-/

import Posh.GrowthLedger
import Posh.RoamingLoop

set_option autoImplicit false

namespace Posh

open RecordWire (records records_append)
open DaemonClient

variable {τ σ : Type}

/-! ### The client -/

/-- A client of the daemon that applies frames: the roaming client behind a relay, or a viewport. -/
inductive FramedClient (τ : Type) where
  | roaming (st : ClientState τ)
  | viewport (r : FrameRenderer τ)

namespace FramedClient

/-- The number of the frame the client is at. -/
def appliedNum : FramedClient τ → ℕ
  | roaming st => st.appliedNum
  | viewport r => r.appliedNum

/-- The client's ring. -/
def ring : FramedClient τ → ScrollbackRing
  | roaming st => st.history.scrollback
  | viewport r => r.scrollback

/-- A frame arrives; a viewport answers it at once. -/
def receive (D : Display τ σ) (f : ServerFrame) : FramedClient τ → FramedClient τ × List FrameAck
  | roaming st => (roaming (st.applyFrame D f).1, [])
  | viewport r =>
    let a := r.renderFrameAcking D f
    (viewport a.1, [{ ackedFrame := a.2.1, resync := a.2.2 }])

/-- The acknowledgement of this moment, from a client that sends it on its own. -/
def acknowledge : FramedClient τ → Option (FramedClient τ × FrameAck)
  | roaming st =>
    some (roaming { st with resync := false }, { ackedFrame := st.appliedNum, resync := st.resync })
  | viewport _ => none

variable {client : FramedClient τ} {f : ServerFrame}

/-- **A frame's arrival keeps the ledger**, for either client. -/
theorem ledger_receive (D : Display τ σ) {start : ScrollbackRing} {primary : List Bytes}
    {took : List NatSpan} (h : GrowthLedger start client.ring primary took) {span : NatSpan}
    (hf : f.body.Covers primary span) : GrowthLedger start (client.receive D f).1.ring primary
      (took ++ (if f.growsFrom client.appliedNum then some span else none).toList) := by
  cases client with
  | roaming st =>
    exact h.receive hf (fun _ _ => ClientState.applyFrame_growth D)
      (ClientState.applyFrame_noGrowth D)
  | viewport r =>
    exact h.receive hf (fun _ _ => FrameRenderer.renderFrameAcking_growth D)
      fun _ => FrameRenderer.renderFrameAcking_noGrowth D

theorem acknowledge_ring {client' : FramedClient τ} {ack : FrameAck}
    (h : client.acknowledge = some (client', ack)) : client'.ring = client.ring := by
  cases client with
  | roaming st =>
    simp only [acknowledge, Option.some.injEq, Prod.mk.injEq] at h
    rw [← h.1]
    rfl
  | viewport r => cases h

end FramedClient

/-! ### The span of a growth frame -/

namespace DaemonClient

/-- The rows a growth frame of this moment carries: from the confirmed coverage to the end. -/
def growth (c : DaemonClient σ) (term : SessionTerm) : NatSpan :=
  ⟨max c.ackedSbTotal c.sbFloor, term.sbTotal⟩

variable {c : DaemonClient σ} {term : SessionTerm}

theorem covers_scrollbackFrame (c : DaemonClient σ) (hdr : FrameHeader) (hring : term.ring.length = term.sbTotal) :
    (c.scrollbackFrame term hdr).body.Covers term.ring (c.growth term) := by
  have hcur : (c.producer.advanceScrollbackAfterVisible term.sbTotal).currentSbTotal = term.sbTotal := rfl
  refine ⟨Nat.le_of_eq hring.symm, ?_⟩
  rw [hcur, Nat.sub_self, Nat.sub_zero, hring]
  exact (c.growth term).drop_back_eq_slice term.ring

theorem covers_visibleFrame (D : Display τ σ) (c : DaemonClient σ) (src : Screen σ)
    (hdr : FrameHeader) (primary : List Bytes) (span : NatSpan) :
    (c.visibleFrame D src hdr).body.Covers primary span := by
  refine FrameBody.Covers.of_isRowless ?_
  rw [visibleFrame, rowless_stampBaseSum]
  exact FrameProducer.rowless_encodeVisible D _ _

theorem applyFrameAck_current (c : DaemonClient σ) (ack : FrameAck) :
    (c.applyFrameAck ack).2.producer.current = c.producer.current ∧
      (c.applyFrameAck ack).2.writeBuf = c.writeBuf := by
  by_cases h : c.lossy = true ∨ c.coalesce = true
  · obtain ⟨-, hproducer, -, -, -, -, hbuf, -⟩ := applyFrameAck_eq h ack
    refine ⟨?_, hbuf⟩
    rw [hproducer]
    split <;> exact (c.producer.ack_current ack.ackedFrame).1
  · have hreliable : (!c.lossy && !c.coalesce) = true := by simpa using h
    rw [applyFrameAck, if_pos hreliable]
    exact ⟨rfl, rfl⟩

theorem records_kept_subset (c : DaemonClient σ) : records c.kept ⊆ records c.writeBuf := by
  have htake : ∀ n, records (c.writeBuf.take n) ⊆ records c.writeBuf :=
    fun n => ((List.take_sublist n _).filterMap id).subset
  unfold kept truncated
  split
  · split
    · split
      · exact htake _
      · exact List.Subset.refl _
    · exact List.Subset.refl _
  · exact List.Subset.refl _

end DaemonClient

/-! ### The system -/

/-- The daemon and its client, with the session's terminal and everything in between. -/
structure DaemonGrowth (τ σ : Type) where
  daemon : DaemonClient σ
  client : FramedClient τ
  /-- the session's terminal, as far as growth looks at it -/
  term : SessionTerm
  /-- bytes the daemon wrote that the client has not taken yet -/
  wire : List (Option ServerFrame) := []
  /-- acknowledgements on their way to the daemon -/
  up : List FrameAck := []
  /-- history: the span of each of the daemon's frames, by number -/
  spans : List NatSpan
  /-- history: the spans of the growth bodies the client appended, in order -/
  took : List NatSpan := []

namespace DaemonGrowth

/-- What can happen. -/
inductive Act (σ : Type) where
  /-- rows enter the scrollback, and the daemon broadcasts the screen, the growth right behind it -/
  | broadcast (src : Screen σ) (rows : List Bytes) (hdr hdr' : FrameHeader)
  /-- `n` bytes pass from the daemon to the client -/
  | drain (n : ℕ)
  /-- the client takes the next frame -/
  | deliver
  /-- the client acknowledges where it is -/
  | acknowledge
  /-- the daemon reads an acknowledgement; a keyframe it owes shows the screen of that moment -/
  | daemonRead (src : Screen σ) (hdr : FrameHeader)

/-- The daemon moves on; a fresh frame would have the span `span`. -/
def setDaemon (s : DaemonGrowth τ σ) (span : NatSpan) (daemon : DaemonClient σ) :
    DaemonGrowth τ σ :=
  { s with
    daemon
    spans :=
      if daemon.producer.currentNum = s.daemon.producer.currentNum then s.spans
      else s.spans ++ [span] }

/-- A visible frame is queued; it covers no rows. -/
def queueFrame (D : Display τ σ) (wireLen : ServerFrame → ℕ) (s : DaemonGrowth τ σ) (src : Screen σ)
    (hdr : FrameHeader) : DaemonGrowth τ σ :=
  s.setDaemon ⟨0, 0⟩ (s.daemon.queueFrame D wireLen src hdr)

/-- A growth frame is queued behind it, if one is due. -/
def queueGrowth (wireLen : ServerFrame → ℕ) (s : DaemonGrowth τ σ) (hdr : FrameHeader) :
    DaemonGrowth τ σ :=
  s.setDaemon (s.daemon.growth s.term) (s.daemon.maybeQueueScrollback wireLen s.term hdr)

/-- The session's terminal after `rows` entered its scrollback. -/
def print (s : DaemonGrowth τ σ) (altScreen : Bool) (rows : List Bytes) : DaemonGrowth τ σ :=
  { s with
    term :=
      { altScreen
        sbTotal := s.term.sbTotal + rows.length
        ring := s.term.ring ++ rows } }

/-- The daemon reads the acknowledgement `ack`. -/
def readAck (D : Display τ σ) (wireLen : ServerFrame → ℕ) (s : DaemonGrowth τ σ) (ack : FrameAck)
    (src : Screen σ) (hdr : FrameHeader) : DaemonGrowth τ σ :=
  s.setDaemon ⟨0, 0⟩ (s.daemon.handleFrameAck D wireLen ack src hdr)

/-- The span of the growth body of `f`, if the client takes it. -/
def takenOf (s : DaemonGrowth τ σ) (f : ServerFrame) : Option NatSpan :=
  if f.growsFrom s.client.appliedNum then some (s.spans.getD f.frameNum ⟨0, 0⟩) else none

/-- The span of the growth body that a step appends to the client's ring. -/
def taken (s : DaemonGrowth τ σ) : Act σ → Option NatSpan
  | .deliver => (RecordWire.takeRecord s.wire).bind fun r => s.takenOf r.1
  | _ => none

/-- The client takes the frame `f`. -/
def deliver (D : Display τ σ) (s : DaemonGrowth τ σ) (f : ServerFrame)
    (rest : List (Option ServerFrame)) : DaemonGrowth τ σ :=
  { s with
    client := (s.client.receive D f).1
    wire := rest
    up := s.up ++ (s.client.receive D f).2
    took := s.took ++ (s.takenOf f).toList }

/-- One step; `wireLen` gives the length of a record on the socket. -/
def step (D : Display τ σ) (wireLen : ServerFrame → ℕ) (s : DaemonGrowth τ σ) :
    Act σ → Option (DaemonGrowth τ σ)
  | .broadcast src rows hdr hdr' =>
    some (((s.print src.altScreen rows).queueFrame D wireLen src hdr).queueGrowth wireLen hdr')
  | .drain n =>
    some { s with daemon := s.daemon.drain n, wire := s.wire ++ s.daemon.writeBuf.take n }
  | .deliver => (RecordWire.takeRecord s.wire).map fun r => s.deliver D r.1 r.2
  | .acknowledge =>
    s.client.acknowledge.map fun a => { s with client := a.1, up := s.up ++ [a.2] }
  | .daemonRead src hdr =>
    match s.up with
    | [] => none
    | ack :: up => some (({ s with up } : DaemonGrowth τ σ).readAck D wireLen ack src hdr)

/-- The frames queued that the client has not taken yet, in order. -/
def pending (s : DaemonGrowth τ σ) : List ServerFrame :=
  RecordWire.records (s.wire ++ s.daemon.writeBuf)

/-- The absolute numbers of the rows the client appended, in order. -/
def numbers (s : DaemonGrowth τ σ) : List ℕ := NatSpan.numbersOf s.took

/-- A daemon and a client with nothing in between. -/
def connect (daemon : DaemonClient σ) (client : FramedClient τ) (term : SessionTerm) :
    DaemonGrowth τ σ where
  daemon := daemon
  client := client
  term := term
  spans := List.replicate (daemon.producer.currentNum + 1) ⟨0, 0⟩

/-- Where a run starts: nothing is queued, every row of the session's scrollback is in its ring, and the
client's ring has no holes. -/
structure Start (daemon : DaemonClient σ) (client : FramedClient τ) (term : SessionTerm) : Prop where
  writeBuf : daemon.writeBuf = []
  retained : term.ring.length = term.sbTotal
  holes : client.ring.holes = []

/-- **The condition on the steps**: when the client takes a growth body, the daemon had, as it queued
that body, the coverage of every growth body the client took before confirmed. -/
def Confirmed (s : DaemonGrowth τ σ) (a : Act σ) : Prop :=
  ∀ span ∈ s.taken a, ∀ t ∈ s.took, t.Before span

instance (s : DaemonGrowth τ σ) (a : Act σ) : Decidable (Confirmed s a) := by
  unfold Confirmed
  infer_instance

/-! ### The account of the rows -/

/-- A frame covers the span recorded for its number. -/
def Recorded (spans : List NatSpan) (primary : List Bytes) (f : ServerFrame) : Prop :=
  f.frameNum < spans.length ∧ f.body.Covers primary (spans.getD f.frameNum ⟨0, 0⟩)

/-- What holds in every state: the session's rows are all there, every frame queued covers its span, and
the client's ring is what the spans it took leave. -/
structure Account (start : ScrollbackRing) (s : DaemonGrowth τ σ) : Prop where
  retained : s.term.ring.length = s.term.sbTotal
  spans_length : s.spans.length = s.daemon.producer.currentNum + 1
  recorded : ∀ f ∈ s.pending, Recorded s.spans s.term.ring f
  ledger : GrowthLedger start s.client.ring s.term.ring s.took

variable {daemon : DaemonClient σ} (D : Display τ σ) {span : NatSpan}

theorem account_connect {client : FramedClient τ} {term : SessionTerm}
    (h : Start daemon client term) : Account client.ring (connect daemon client term) where
  retained := h.retained
  spans_length := List.length_replicate
  recorded := by
    intro f hf
    rw [pending, connect, h.writeBuf] at hf
    cases hf
  ledger := .nil h.holes _

variable {start : ScrollbackRing} {s : DaemonGrowth τ σ} {spans : List NatSpan}
  {primary : List Bytes} {f : ServerFrame}

theorem Recorded.concat (h : Recorded spans primary f) (span : NatSpan) :
    Recorded (spans ++ [span]) primary f := by
  obtain ⟨hlt, hcovers⟩ := h
  refine ⟨by rw [List.length_append]; exact Nat.lt_add_right _ hlt, ?_⟩
  rw [List.getD_eq_getElem?_getD, List.getElem?_append_left hlt, ← List.getD_eq_getElem?_getD]
  exact hcovers

theorem recorded_new (hnum : f.frameNum = spans.length)
    (hcovers : f.body.Covers primary span) : Recorded (spans ++ [span]) primary f := by
  refine ⟨by rw [List.length_append, hnum]; exact Nat.lt_succ_self _, ?_⟩
  rw [hnum, List.getD_eq_getElem?_getD, List.getElem?_concat_length]
  exact hcovers

theorem Account.print (h : Account start s) (altScreen : Bool) (rows : List Bytes) :
    Account start (s.print altScreen rows) where
  retained := by
    show (s.term.ring ++ rows).length = s.term.sbTotal + rows.length
    rw [List.length_append, h.retained]
  spans_length := h.spans_length
  recorded := fun f hf => ⟨(h.recorded f hf).1, (h.recorded f hf).2.append rows⟩
  ledger := h.ledger.print rows

/-- **A fresh frame is queued**: it covers its span, and what is left of the buffer was in it. -/
theorem Account.queued (h : Account start s) (hnum : daemon.producer.currentNum = s.daemon.producer.currentNum + 1)
    (hf : f.frameNum = s.daemon.producer.currentNum + 1) (hcovers : f.body.Covers s.term.ring span)
    (hbuf : ∀ g ∈ records daemon.writeBuf, g ∈ records s.daemon.writeBuf ∨ g = f) :
    Account start (s.setDaemon span daemon) := by
  have hspans : (s.setDaemon span daemon).spans = s.spans ++ [span] := if_neg (by omega)
  refine ⟨h.retained, ?_, ?_, h.ledger⟩
  · rw [hspans, List.length_append, h.spans_length]
    exact congrArg (· + 1) hnum.symm
  · intro g hg
    rw [pending, records_append, List.mem_append] at hg
    rw [hspans]
    have hold : g ∈ s.pending → Recorded (s.spans ++ [span]) s.term.ring g :=
      fun hg => (h.recorded g hg).concat span
    rw [pending, records_append, List.mem_append] at hold
    rcases hg with hg | hg
    · exact hold (.inl hg)
    · rcases hbuf g hg with hg | rfl
      · exact hold (.inr hg)
      · exact recorded_new (hf.trans h.spans_length.symm) hcovers

theorem Account.unqueued (h : Account start s) (span : NatSpan)
    (hnum : daemon.producer.currentNum = s.daemon.producer.currentNum)
    (hbuf : daemon.writeBuf = s.daemon.writeBuf) : Account start (s.setDaemon span daemon) := by
  have hspans : (s.setDaemon span daemon).spans = s.spans := if_pos hnum
  refine ⟨h.retained, ?_, ?_, h.ledger⟩
  · rw [hspans, h.spans_length]
    exact congrArg (· + 1) hnum.symm
  · intro g hg
    rw [hspans]
    refine h.recorded g ?_
    rw [pending] at hg ⊢
    exact hbuf ▸ hg

theorem Account.queueFrame (wireLen : ServerFrame → ℕ) (h : Account start s)
    (src : Screen σ) (hdr : FrameHeader) : Account start (s.queueFrame D wireLen src hdr) := by
  have hcur := (s.daemon.producerAfterVisible_current src).1
  refine h.queued (f := s.daemon.visibleFrame D src hdr) ?_ rfl
    (s.daemon.covers_visibleFrame D src hdr _ _) ?_
  · rw [queueFrame_eq, FrameProducer.currentNum, hcur]
    rfl
  · intro g hg
    rw [queueFrame_eq, records_append, RecordWire.records_wireOf,
      List.mem_append, List.mem_singleton] at hg
    exact hg.imp_left fun hg => s.daemon.records_kept_subset hg

theorem Account.queueGrowth (wireLen : ServerFrame → ℕ) (h : Account start s) (hdr : FrameHeader) :
    Account start (s.queueGrowth wireLen hdr) := by
  rw [DaemonGrowth.queueGrowth]
  rcases s.daemon.maybeQueueScrollback_cases wireLen s.term hdr with heq | ⟨-, heq⟩
  · rw [heq]
    exact h.unqueued _ rfl rfl
  · rw [heq]
    obtain ⟨hproducer, -, -, hbuf⟩ := ackScrollback_producer
      ({ s.daemon with producer := s.daemon.producer.advanceScrollbackAfterVisible s.term.sbTotal } :
        DaemonClient σ)
    refine h.queued (f := s.daemon.scrollbackFrame s.term hdr) ?_ rfl
      (s.daemon.covers_scrollbackFrame hdr h.retained) ?_
    · rw [queue_producer, FrameProducer.currentNum]
      rcases hproducer with hp | hp
      · rw [hp]
        rfl
      · rw [hp, (FrameProducer.ack_current _ _).1]
        rfl
    · intro g hg
      rw [queue, records_append, RecordWire.records_wireOf, hbuf,
        List.mem_append, List.mem_singleton] at hg
      exact hg

theorem setDaemon_of_unqueued (s : DaemonGrowth τ σ) {daemon daemon' : DaemonClient σ}
    (hnum : daemon.producer.currentNum = s.daemon.producer.currentNum) (span : NatSpan) :
    s.setDaemon span daemon' = (s.setDaemon span daemon).setDaemon span daemon' := by
  simp only [setDaemon, hnum, if_true]

/-- **An acknowledgement keeps the account**: it moves the base, and a keyframe that is owed is queued
like any visible frame. -/
theorem Account.readAck (wireLen : ServerFrame → ℕ) (h : Account start s)
    (ack : FrameAck) (src : Screen σ) (hdr : FrameHeader) : Account start (s.readAck D wireLen ack src hdr) := by
  obtain ⟨hcur, hbuf⟩ := s.daemon.applyFrameAck_current ack
  have hnum : (s.daemon.applyFrameAck ack).2.producer.currentNum = s.daemon.producer.currentNum :=
    congrArg ProducedFrame.num hcur
  have hacked := h.unqueued ⟨0, 0⟩ hnum hbuf
  rw [DaemonGrowth.readAck, handleFrameAck]
  split
  · rw [setDaemon_of_unqueued s hnum]
    exact hacked.queueFrame D wireLen src hdr
  · exact hacked

/-- **A frame's arrival keeps the account**: a growth body that is taken extends it by its span. -/
theorem Account.deliver (h : Account start s) {rest : List (Option ServerFrame)}
    (hrec : RecordWire.takeRecord s.wire = some (f, rest)) : Account start (s.deliver D f rest) := by
  have hspec := RecordWire.takeRecord_spec hrec
  have hpending : ∀ g, g = f ∨ g ∈ (s.deliver D f rest).pending → Recorded s.spans s.term.ring g := by
    intro g hg
    refine h.recorded g ?_
    rw [pending, records_append, hspec, List.cons_append, List.mem_cons, ← records_append]
    exact hg
  exact ⟨h.retained, h.spans_length, fun g hg => hpending g (.inr hg),
    FramedClient.ledger_receive D h.ledger (hpending f (.inl rfl)).2⟩

/-- **A step keeps the account of the rows.** -/
theorem account_step (wireLen : ServerFrame → ℕ) {s s' : DaemonGrowth τ σ}
    {a : Act σ} (h : Account start s) (hstep : step D wireLen s a = some s') : Account start s' := by
  cases a with
  | broadcast src rows hdr hdr' =>
    rw [step, Option.some.injEq] at hstep
    subst hstep
    exact ((h.print src.altScreen rows).queueFrame D wireLen src hdr).queueGrowth wireLen hdr'
  | drain n =>
    rw [step, Option.some.injEq] at hstep
    subst hstep
    refine ⟨h.retained, h.spans_length, ?_, h.ledger⟩
    intro f hf
    refine h.recorded f ?_
    rw [pending, drain, List.append_assoc, List.take_append_drop] at hf
    exact hf
  | deliver =>
    rw [step, Option.map_eq_some_iff] at hstep
    obtain ⟨⟨f, rest⟩, hrec, rfl⟩ := hstep
    exact h.deliver D hrec
  | acknowledge =>
    rw [step, Option.map_eq_some_iff] at hstep
    obtain ⟨⟨client, ack⟩, hack, rfl⟩ := hstep
    refine ⟨h.retained, h.spans_length, h.recorded, ?_⟩
    show GrowthLedger start client.ring _ _
    rw [FramedClient.acknowledge_ring hack]
    exact h.ledger
  | daemonRead src hdr =>
    rw [step] at hstep
    cases hup : s.up with
    | nil =>
      rw [hup] at hstep
      cases hstep
    | cons ack up =>
      rw [hup] at hstep
      simp only [Option.some.injEq] at hstep
      subst hstep
      have hrest : Account start { s with up } :=
        ⟨h.retained, h.spans_length, h.recorded, h.ledger⟩
      exact hrest.readAck D wireLen ack src hdr

/-! ### Rows appended once and in order -/

theorem took_step (wireLen : ServerFrame → ℕ) {s s' : DaemonGrowth τ σ} {a : Act σ}
    (hstep : step D wireLen s a = some s') : s'.took = s.took ++ (s.taken a).toList := by
  cases a with
  | broadcast src rows hdr hdr' | drain n =>
    rw [step, Option.some.injEq] at hstep
    subst hstep
    exact (List.append_nil _).symm
  | deliver =>
    rw [step, Option.map_eq_some_iff] at hstep
    obtain ⟨r, hrec, rfl⟩ := hstep
    rw [taken, hrec]
    rfl
  | acknowledge =>
    rw [step, Option.map_eq_some_iff] at hstep
    obtain ⟨a, -, rfl⟩ := hstep
    exact (List.append_nil _).symm
  | daemonRead src hdr =>
    rw [step] at hstep
    split at hstep
    · cases hstep
    · rw [Option.some.injEq] at hstep
      subst hstep
      exact (List.append_nil _).symm

/-- A relay's daemon and a roaming client whose ring holds eight rows. -/
def sampleDaemon : DaemonClient Unit where
  producer := .new nullDisplay 24 80
  lossy := true
  capScrollback := true

def sampleClient : FramedClient Unit :=
  .roaming
    { rows := 24
      cols := 80
      applier := .dumpDiff
      serverTerm := ()
      history := { scrollback := .new 8 } }

theorem start_sample : Start sampleDaemon sampleClient {} := ⟨rfl, rfl, rfl⟩

/-- Two rows scroll off and are broadcast, then a third. -/
def burst : List (Act Unit) :=
  [.broadcast (RoamingLoop.sampleScreen 1 65) [[97], [98]] {} {},
    .broadcast (RoamingLoop.sampleScreen 2 66) [[99]] {} {}, .drain 200,
    .deliver, .deliver, .deliver, .deliver]

/-- The same rows with the first growth acknowledged in between. -/
def ackedBroadcasts : List (Act Unit) :=
  [.broadcast (RoamingLoop.sampleScreen 1 65) [[97], [98]] {} {}, .drain 200, .deliver, .deliver,
    .acknowledge, .daemonRead (RoamingLoop.sampleScreen 1 65) {},
    .broadcast (RoamingLoop.sampleScreen 2 66) [[99]] {} {}, .drain 200, .deliver, .deliver]

end DaemonGrowth

end Posh
