/-
**Scrollback growth over the roaming wire.**

The roaming loop with a session that only prints: rows enter its scrollback and none leave.  A growth
body is encoded each time it is sent, from the coverage the server takes for confirmed at that moment up
to the coverage of its slot; the loop records that span beside every frame, and the spans of the bodies
the client appended.

The server learns of the client's coverage when the acknowledgement of a growth slot arrives.  If that
acknowledgement is lost, the one of a later visible frame does not make up for it, since a visible slot
carries the coverage confirmed when it was made; the next growth body then starts below rows the client
holds.  A run in which that never happens (`GrowthLoop.Confirmed`) appends every row at most once
and in order, and no other run does.
-/

import Posh.GrowthLedger
import Posh.RoamingLoop

set_option autoImplicit false

namespace Posh

open Option (bind_some map_eq_some_iff)
open ServerLoop
open List (append_nil replicate)

variable {τ σ : Type}

/-! ### The span of a growth body -/

namespace ServerLoop

/-- The rows a growth body of this moment carries: from the confirmed coverage to that of the current
slot. -/
def coverage (s : ServerLoop σ) : NatSpan := ⟨max s.ackedSbTotal s.sbFloor, s.producer.currentSbTotal⟩

variable {s : ServerLoop σ}

theorem scrollbackRows_eq (hring : s.term.ring.length = s.term.sbTotal)
    (hcur : s.producer.currentSbTotal ≤ s.term.sbTotal) : s.scrollbackRows = s.coverage.slice s.term.ring := by
  have hupto : s.term.ring.length - (s.term.sbTotal - s.producer.currentSbTotal) =
      s.producer.currentSbTotal := by omega
  rw [scrollbackRows]
  simp only [hupto]
  exact s.coverage.drop_back_eq_slice s.term.ring

theorem covers_body (D : Display τ σ) (hring : s.term.ring.length = s.term.sbTotal)
    (hcur : s.currentIsSb = true → s.producer.currentSbTotal ≤ s.term.sbTotal) :
    (s.body D).Covers s.term.ring s.coverage := by
  unfold body
  split
  case isTrue hsb =>
    refine ⟨?_, scrollbackRows_eq hring (hcur hsb)⟩
    rw [hring]
    exact hcur hsb
  case isFalse =>
    refine FrameBody.Covers.of_isRowless ?_
    rw [rowless_stampBaseSum]
    exact s.producer.rowless_encodeVisible D _

@[simp] theorem nudge_term (s : ServerLoop σ) : s.nudge.term = s.term := by
  unfold nudge
  split <;> rfl

theorem onShutdownFlag_term (s : ServerLoop σ) (msg : ClientMessage) : (s.onShutdownFlag msg).term = s.term := by
  unfold onShutdownFlag
  split <;> rfl

theorem onResyncFlag_term (s : ServerLoop σ) (msg : ClientMessage) : (s.onResyncFlag msg).term = s.term := by
  unfold onResyncFlag
  split <;> rfl

theorem onCaps_term (s : ServerLoop σ) (msg : ClientMessage) : (s.onCaps msg).term = s.term := by
  unfold onCaps
  split <;> rfl

theorem onClientMessage_term (s : ServerLoop σ) (msg : ClientMessage) : (s.onClientMessage msg).term = s.term := by
  rw [onClientMessage, onCaps_term, onResyncFlag_term, onAck, onShutdownFlag_term]

theorem onClientMessage_current (s : ServerLoop σ) (msg : ClientMessage) :
    (s.onClientMessage msg).producer.current = s.producer.current := by
  rw [onClientMessage_producer]
  split
  · exact (s.producer.ack_current msg.ackedFrame).1
  · exact (s.producer.ack_current msg.ackedFrame).1

end ServerLoop

theorem FrameProducer.advanceScrollback_sbTotal (p : FrameProducer σ) (t : ℕ) :
    (p.advanceScrollback t).current.sbTotal = t := by
  unfold FrameProducer.advanceScrollback
  split <;> rfl

/-! ### The system -/

/-- The loop, with the span of every frame sent and the spans of the growth bodies the client
appended. -/
structure GrowthLoop (τ σ : Type) where
  loop : RoamingLoop τ σ
  /-- history: the span at the moment each frame was encoded, in the order of sending -/
  spans : List NatSpan := []
  /-- history: the spans of the growth bodies appended, in order -/
  took : List NatSpan := []

namespace GrowthLoop

/-- What can happen: the session prints, some rows entering its scrollback; or any other step of the
loop. -/
inductive Act (σ : Type) where
  | print (src : Screen σ) (altScreen : Bool) (rows : List Bytes)
  | other (a : RoamingLoop.Act σ)

/-- The step of the loop: rows are printed, never evicted or replaced. -/
def loopAct (term : SessionTerm) : Act σ → Option (RoamingLoop.Act σ)
  | .print src altScreen rows =>
    some (.screen src
      { altScreen, sbTotal := term.sbTotal + rows.length, ring := term.ring ++ rows })
  | .other (.screen _ _) => none
  | .other a => some a

/-- The span of the growth body that a step appends to the client's ring. -/
def taken (s : GrowthLoop τ σ) : Act σ → Option NatSpan
  | .other (.deliverFrame i) =>
    match s.loop.frames[i]?, s.spans[i]? with
    | some f, some span => if f.growsFrom s.loop.client.appliedNum then some span else none
    | _, _ => none
  | _ => none

def step (D : Display τ σ) (c : LoopConfig σ) (s : GrowthLoop τ σ) (a : Act σ) :
    Option (GrowthLoop τ σ) :=
  ((loopAct s.loop.server.term a).bind fun b => RoamingLoop.step D c s.loop b).map fun loop =>
    { loop
      spans := s.spans ++ List.replicate (loop.frames.length - s.loop.frames.length) loop.server.coverage
      took := s.took ++ (s.taken a).toList }

/-- The absolute numbers of the rows the client appended, in order. -/
def numbers (s : GrowthLoop τ σ) : List ℕ := NatSpan.numbersOf s.took

/-- Where a run starts: nothing was sent, every row of the session's scrollback is in its ring, and the
client's ring has no holes. -/
structure Start (s : RoamingLoop τ σ) : Prop where
  frames : s.frames = []
  retained : s.server.term.ring.length = s.server.term.sbTotal
  visible : s.server.currentIsSb = false
  holes : s.client.history.scrollback.holes = []

variable (D : Display τ σ)

theorem start_init (c : LoopConfig σ) (h : c.term.ring.length = c.term.sbTotal) : Start (RoamingLoop.init D c) :=
  ⟨rfl, h, rfl, rfl⟩

/-- **The condition on the steps**: when the client takes a growth body, the server had, as it encoded
that body, the coverage of every growth body the client took before confirmed. -/
def Confirmed (s : GrowthLoop τ σ) (a : Act σ) : Prop :=
  ∀ span ∈ s.taken a, ∀ t ∈ s.took, t.Before span

instance (s : GrowthLoop τ σ) (a : Act σ) : Decidable (Confirmed s a) := by
  unfold Confirmed
  infer_instance

/-! ### The account of the rows -/

/-- What holds in every state: the session's rows are all there, every frame in flight covers its span,
and the client's ring is what the spans it took leave. -/
structure Inv (start : ScrollbackRing) (s : GrowthLoop τ σ) : Prop where
  retained : s.loop.server.term.ring.length = s.loop.server.term.sbTotal
  current_le : s.loop.server.currentIsSb = true →
    s.loop.server.producer.currentSbTotal ≤ s.loop.server.term.sbTotal
  spans_length : s.spans.length = s.loop.frames.length
  covers : ∀ p ∈ s.loop.frames.zip s.spans, p.1.body.Covers s.loop.server.term.ring p.2
  ledger : GrowthLedger start s.loop.client.history.scrollback s.loop.server.term.ring s.took

theorem inv_start {s : RoamingLoop τ σ} (h : Start s) :
    Inv s.client.history.scrollback ({ loop := s } : GrowthLoop τ σ) where
  retained := h.retained
  current_le := by
    intro hsb
    rw [h.visible] at hsb
    cases hsb
  spans_length := by
    rw [h.frames]
    rfl
  covers := by
    intro p hp
    rw [List.zip_nil_right] at hp
    cases hp
  ledger := .nil h.holes _

variable {start : ScrollbackRing} {s : GrowthLoop τ σ} {loop : RoamingLoop τ σ}

theorem Inv.still (h : Inv start s) (hframes : loop.frames = s.loop.frames)
    (hterm : loop.server.term = s.loop.server.term)
    (hcur : loop.server.currentIsSb = true → loop.server.producer.currentSbTotal ≤ s.loop.server.term.sbTotal)
    (hclient : loop.client.history.scrollback = s.loop.client.history.scrollback) :
    Inv start { s with loop } where
  retained := by
    rw [hterm]
    exact h.retained
  current_le := by
    rw [hterm]
    exact hcur
  spans_length := by
    rw [hframes]
    exact h.spans_length
  covers := by
    rw [hframes, hterm]
    exact h.covers
  ledger := by
    rw [hclient, hterm]
    exact h.ledger

theorem Inv.moved (h : Inv start s) (server : ServerLoop σ) (log : List LoggedFrame)
    (hterm : server.term = s.loop.server.term)
    (hcur : server.currentIsSb = true → server.producer.currentSbTotal ≤ s.loop.server.term.sbTotal) :
    Inv start { s with loop := { s.loop with server, log } } :=
  h.still rfl hterm hcur rfl

theorem Inv.sent (h : Inv start s) {f : ServerFrame} {span : NatSpan}
    (hf : f.body.Covers s.loop.server.term.ring span) :
    Inv start { s with
      loop := { s.loop with frames := s.loop.frames ++ [f] }, spans := s.spans ++ [span] } where
  retained := h.retained
  current_le := h.current_le
  spans_length := by
    rw [List.length_append, List.length_append, h.spans_length]
    rfl
  covers := by
    rw [List.zip_append h.spans_length.symm]
    intro p hp
    rcases List.mem_append.1 hp with hp | hp
    · exact h.covers p hp
    · rw [List.mem_singleton.1 hp]
      exact hf
  ledger := h.ledger

theorem Inv.print (h : Inv start s) (src : Screen σ) (altScreen : Bool) (rows : List Bytes) :
    Inv start { s with
      loop := { s.loop with
        server := { s.loop.server with
          src
          term :=
            { altScreen
              sbTotal := s.loop.server.term.sbTotal + rows.length
              ring := s.loop.server.term.ring ++ rows } } } } where
  retained := by
    show (s.loop.server.term.ring ++ rows).length = s.loop.server.term.sbTotal + rows.length
    rw [List.length_append, h.retained]
  current_le := fun hsb => Nat.le_trans (h.current_le hsb) (Nat.le_add_right _ _)
  spans_length := h.spans_length
  covers := fun p hp => (h.covers p hp).append rows
  ledger := h.ledger.print rows

/-- **A frame's arrival**: a growth body that is taken extends the account by its span. -/
theorem Inv.delivered (h : Inv start s) {i : ℕ} {f : ServerFrame}
    (hf : s.loop.frames[i]? = some f) :
    Inv start { s with
      loop := s.loop.receive D f
      took := s.took ++ (s.taken (.other (.deliverFrame i))).toList } := by
  have hi : i < s.spans.length := by
    rw [h.spans_length]
    exact (List.getElem?_eq_some_iff.1 hf).1
  have hspan : s.spans[i]? = some s.spans[i] := List.getElem?_eq_getElem hi
  have hmem : (f, s.spans[i]) ∈ s.loop.frames.zip s.spans :=
    List.mem_of_getElem? (List.getElem?_zip_eq_some.2 ⟨hf, hspan⟩)
  refine ⟨h.retained, h.current_le, h.spans_length, h.covers, ?_⟩
  show GrowthLedger start (s.loop.client.applyFrame D f).1.history.scrollback _ _
  simp only [taken, hf, hspan]
  exact h.ledger.receive (h.covers _ hmem) (fun _ _ => ClientState.applyFrame_growth D)
    (ClientState.applyFrame_noGrowth D)

theorem replicate_sent (frames : List ServerFrame) (f : ServerFrame) (span : NatSpan) :
    replicate ((frames ++ [f]).length - frames.length) span = [span] := by
  rw [List.length_append, Nat.add_sub_cancel_left]
  rfl

theorem replicate_unsent (frames : List ServerFrame) (span : NatSpan) :
    replicate (frames.length - frames.length) span = [] := by
  rw [Nat.sub_self]
  rfl

/-- **An iteration of the server**: what it sends covers its span. -/
theorem Inv.serve (h : Inv start s) (t : Opportunity) :
    Inv start { s with
      loop := s.loop.serve D t
      spans := s.spans ++ replicate
        ((s.loop.serve D t).frames.length - s.loop.frames.length)
        (s.loop.serve D t).server.coverage } := by
  have hserved := RoamingLoop.serve_served D s.loop t
  have hretained : s.loop.server.nudge.term.ring.length = s.loop.server.nudge.term.sbTotal := by
    rw [nudge_term]
    exact h.retained
  have hnudge : s.loop.server.nudge.currentIsSb = true →
      s.loop.server.nudge.producer.currentSbTotal ≤ s.loop.server.nudge.term.sbTotal := by
    rw [nudge_currentIsSb, nudge_producer, nudge_term]
    exact h.current_le
  have hterm : s.loop.server.nudge.term = s.loop.server.term := nudge_term _
  generalize s.loop.serve D t = loop at hserved
  cases hserved with
  | visible =>
    have hbody := covers_body D (s := s.loop.server.nudge.advanceVisible) hretained nofun
    rw [replicate_sent]
    exact (h.moved s.loop.server.nudge.advanceVisible _ hterm nofun).sent hbody
  | scrollback hbase =>
    have hcur : s.loop.server.nudge.advanceScrollback.producer.currentSbTotal ≤
        s.loop.server.nudge.term.sbTotal :=
      Nat.le_of_eq (FrameProducer.advanceScrollback_sbTotal _ _)
    have hbody := covers_body D (s := s.loop.server.nudge.advanceScrollback) hretained
      fun _ => hcur
    rw [replicate_sent]
    exact (h.moved s.loop.server.nudge.advanceScrollback _ hterm fun _ => hterm ▸ hcur).sent hbody
  | again hre =>
    rw [replicate_sent]
    exact (h.moved s.loop.server.nudge s.loop.log hterm (hterm ▸ hnudge)).sent
      (covers_body D hretained hnudge)
  | empty =>
    rw [replicate_sent]
    exact (h.moved s.loop.server.nudge s.loop.log hterm (hterm ▸ hnudge)).sent
      (f := s.loop.server.nudge.frame t .empty) (FrameBody.Covers.of_isRowless rfl)
  | nothing =>
    rw [replicate_unsent, append_nil]
    exact h.moved s.loop.server.nudge s.loop.log hterm (hterm ▸ hnudge)

theorem Inv.unsent (hframes : loop.frames = s.loop.frames)
    (hloop : Inv start { s with loop }) :
    Inv start
      { loop
        spans := s.spans ++ replicate (loop.frames.length - s.loop.frames.length) loop.server.coverage
        took := s.took ++ (none : Option NatSpan).toList } := by
  rw [hframes, replicate_unsent, append_nil, Option.toList_none, append_nil]
  exact hloop

/-- **A step keeps the account of the rows.** -/
theorem inv_step (c : LoopConfig σ) {s s' : GrowthLoop τ σ} {a : Act σ}
    (h : Inv start s) (hstep : step D c s a = some s') : Inv start s' := by
  rw [step, map_eq_some_iff] at hstep
  obtain ⟨loop, hloop, rfl⟩ := hstep
  cases a with
  | print src altScreen rows =>
    simp only [loopAct, bind_some, RoamingLoop.step, Option.some.injEq] at hloop
    subst hloop
    exact Inv.unsent rfl (h.print src altScreen rows)
  | other b =>
    cases b with
    | screen src term => cases hloop
    | overlay up src | sessionEnded | requestResync | send shutdown scrollback =>
      simp only [loopAct, bind_some, RoamingLoop.step, Option.some.injEq] at hloop
      subst hloop
      exact Inv.unsent rfl (h.still rfl rfl h.current_le rfl)
    | serve t =>
      simp only [loopAct, bind_some, RoamingLoop.step, Option.some.injEq] at hloop
      subst hloop
      simp only [taken, Option.toList_none, append_nil]
      exact h.serve D t
    | deliverMessage i =>
      simp only [loopAct, bind_some, RoamingLoop.step, map_eq_some_iff] at hloop
      obtain ⟨m, -, rfl⟩ := hloop
      refine Inv.unsent rfl (h.still rfl (onClientMessage_term _ m) ?_ rfl)
      show (s.loop.server.onClientMessage m).currentIsSb = true → _
      rw [onClientMessage_currentIsSb, FrameProducer.currentSbTotal,
        onClientMessage_current]
      exact h.current_le
    | deliverFrame i =>
      simp only [loopAct, bind_some, RoamingLoop.step, map_eq_some_iff] at hloop
      obtain ⟨f, hf, rfl⟩ := hloop
      show Inv start { s with loop := _, spans := s.spans ++ _, took := _ }
      rw [RoamingLoop.receive, replicate_unsent, append_nil]
      exact h.delivered D hf

/-! ### Rows appended once and in order -/

theorem ascends_step (c : LoopConfig σ) {s s' : GrowthLoop τ σ} {a : Act σ} (hstep : step D c s a = some s') :
    s'.numbers.Pairwise (· < ·) ↔ s.numbers.Pairwise (· < ·) ∧ Confirmed s a := by
  rw [step, map_eq_some_iff] at hstep
  obtain ⟨loop, -, rfl⟩ := hstep
  exact NatSpan.pairwise_numbersOf_toList s.took (s.taken a)

/-- The sample loop, with a ring that holds eight rows. -/
def sampleGrowth : LoopConfig Unit := { RoamingLoop.sampleConfig with ringCapacity := 8 }

/-- Frame 1 is shown and acknowledged, two rows are printed, and the client appends the body of slot
2. -/
def twoRows : List (Act Unit) :=
  [.other (.send false true), .other (.deliverMessage 0),
    .print (RoamingLoop.sampleScreen 1 65) false [], .other (.serve { paced := true }),
    .other (.deliverFrame 0), .other (.send false true), .other (.deliverMessage 1),
    .print (RoamingLoop.sampleScreen 1 65) false [[97], [98]], .other (.serve { paced := true }),
    .other (.deliverFrame 1), .other (.send false true)]

/-- The screen changes, the client shows frame 3 and acknowledges it, and a third row is printed. -/
def thirdRow : List (Act Unit) :=
  [.print (RoamingLoop.sampleScreen 2 66) false [], .other (.serve { paced := true }),
    .other (.deliverFrame 2), .other (.send false true), .other (.deliverMessage 3),
    .print (RoamingLoop.sampleScreen 2 66) false [[99]], .other (.serve { paced := true }),
    .other (.deliverFrame 3)]

end GrowthLoop

end Posh
