/-
**One session of a shared connection, at both of its ends.**

The local mux daemon holds a session for a viewport: it sends the OPEN until the remote peer is heard on
the session's ordinal, then passes the viewport's messages on and the peer's frames back.  A SWITCH from
the peer moves the target it keeps; a CLOSE ends the session and is told to the viewport.  When the
transport is given up, the session is kept, unconfirmed, and its OPEN is sent again once a new transport,
with a new peer at its far end, is there.

Everything sent on a transport can arrive at any later moment of that transport, in any order, or not at
all.

A CLOSE of the peer is sent once.  When it is lost, the local mux goes on sending messages on an ordinal
the peer no longer knows, and the peer answers none of them: the session ends exactly when one of the
CLOSEs of the ordinal arrives after all.
-/

import Posh.ChannelTable

set_option autoImplicit false

namespace Posh

open ChannelTable (handle)
open List (mem_cons_of_mem prefix_append prefix_rfl)
open Option (map_eq_some_iff)
open PeerLoop (typedMessage)
open Runs
open ChannelTable

/-! ### The local end -/

/-- A live session of one viewport. -/
structure IpcSession where
  /-- the session the next OPEN names -/
  target : Bytes
  /-- the peer was heard on the ordinal -/
  confirmed : Bool := false
  /-- messages of the viewport that wait for the confirmation -/
  queued : List ClientMessage := []
  openSends : ℕ := 0
  resume : SessionResume := .initial
  deriving DecidableEq, Repr

/-- What a viewport is told. -/
inductive IpcEvent where
  | frame (f : ServerFrame)
  | switched (target : Bytes)
  | closed (payload : Bytes)
  deriving DecidableEq, Repr

/-- How often an OPEN is sent before the session is given up. -/
def sessionOpenRetransmitsMax : ℕ := 60

/-- How often a CLOSE of the local end is sent. -/
def sessionCloseRetransmits : ℕ := 4

/-! ### Both ends -/

/-- Both ends of one ordinal, with everything sent on the present transport. -/
structure MuxPair where
  session : Option IpcSession := none
  /-- the ordinal was allocated; no other session ever gets it -/
  opened : Bool := false
  /-- a CLOSE is owed to the wire, and was sent so often -/
  closeOwed : Option ℕ := none
  /-- the transport was given up, and the next one is not there yet -/
  reconnecting : Bool := false
  /-- what the viewport was told -/
  told : List IpcEvent := []
  /-- the peer's table -/
  channels : ChannelTable := []
  /-- the instructions sent to the peer on this transport -/
  up : List SessionInstruction := []
  /-- the instructions the peer sent on the ordinal on this transport -/
  down : List PeerInstruction := []
  /-- history: a transport was rebuilt -/
  rebuilt : Bool := false
  /-- history: the session the bridge was last homed on -/
  homed : Option Bytes := none
  /-- history: the SWITCH of the last homing on this transport, when it was a re-home -/
  notice : Option ℕ := none
  /-- history: the SWITCH the mux handled last on this transport -/
  followed : Option ℕ := none
  /-- history: the targets of the OPENs sent on a rebuilt transport, each with `homed` at that moment -/
  redriven : List (Bytes × Option Bytes) := []

namespace MuxPair

/-- What can happen.  What is in flight is named by its position in the order of sending. -/
inductive Act where
  /-- the viewport opens a session -/
  | openSession (target : Bytes)
  /-- the viewport sends a message -/
  | viewportMessage (msg : ClientMessage)
  /-- the viewport closes the session, or is gone -/
  | viewportClose
  /-- the mux sends the OPEN -/
  | sendOpen
  /-- the mux gives up a session whose OPEN is not answered -/
  | openTimeout
  /-- the mux sends the CLOSE it owes -/
  | sendClose
  /-- the `i`-th instruction arrives at the peer -/
  | deliverUp (i : ℕ) (connect : Except Bytes Unit) (wrote : ℕ)
  /-- another event of the peer on the ordinal -/
  | peer (ev : PeerEvent)
  /-- an event of the peer on another ordinal -/
  | foreign (chan : ℕ) (ev : PeerEvent)
  /-- the `i`-th instruction of the peer arrives -/
  | deliverDown (i : ℕ)
  /-- the mux gives up the transport -/
  | verdict
  /-- a new transport is there, with a new peer -/
  | reestablish

/-- An event of the peer on the ordinal. -/
def afterPeer (s : MuxPair) (ev : PeerEvent) (o : PeerOutcome) : MuxPair :=
  { s with
    channels := o.channels
    down := s.down ++ o.sent
    homed := o.homed.or s.homed
    notice :=
      if PeerLoop.isRehome ev then some s.down.length
      else if o.homed.isSome then none else s.notice }

/-- The peer is heard on the ordinal: the session is confirmed, and what waited for that is sent. -/
def confirm (s : MuxPair) (ss : IpcSession) : MuxPair :=
  if ss.confirmed then s
  else
    { s with
      session := some { ss with confirmed := true, queued := [] }
      up := s.up ++ ss.queued.map .data }

/-- An instruction of the peer does its work on a session. -/
def apply (s : MuxPair) (i : ℕ) : PeerInstruction → MuxPair
  | .data f =>
    { s with
      session := s.session.map fun ss =>
        { ss with resume := ss.resume.advanceFromFrame f.frameNum f.inputAck f.echoAck }
      told := s.told ++ [.frame f] }
  | .switch target =>
    { s with
      session := s.session.map fun ss => { ss with target }
      told := s.told ++ [.switched target]
      followed := some i }
  | .close payload => { s with session := none, told := s.told ++ [.closed payload] }

/-- The `i`-th instruction of the peer arrives; without a session it is a straggler. -/
def receive (s : MuxPair) (i : ℕ) (p : PeerInstruction) : MuxPair :=
  match s.session with
  | none => s
  | some ss => (s.confirm ss).apply i p

/-- One step, for the session on the ordinal `c`. -/
def step (c : ℕ) (s : MuxPair) : Act → Option MuxPair
  | .openSession target =>
    if s.opened then none else some { s with opened := true, session := some { target } }
  | .viewportMessage msg =>
    match s.session with
    | none => some s
    | some ss =>
      if ss.confirmed then some { s with up := s.up ++ [.data msg] }
      else some { s with session := some { ss with queued := ss.queued ++ [msg] } }
  | .viewportClose =>
    match s.session with
    | none => some s
    | some _ => some { s with session := none, closeOwed := some 0 }
  | .sendOpen =>
    match s.session with
    | none => none
    | some ss =>
      if s.reconnecting || ss.confirmed || decide (ss.openSends ≥ sessionOpenRetransmitsMax) then
        none
      else
        some { s with
          session := some { ss with openSends := ss.openSends + 1 }
          up := s.up ++ [.open_ ss.target ss.resume]
          redriven := if s.rebuilt then s.redriven ++ [(ss.target, s.homed)] else s.redriven }
  | .openTimeout =>
    match s.session with
    | none => none
    | some ss =>
      if s.reconnecting || ss.confirmed || decide (ss.openSends < sessionOpenRetransmitsMax) then
        none
      else
        some { s with
          session := none
          closeOwed := some 0
          told := s.told ++
            [.closed "session open timed out (no answer from the remote peer)".toUTF8.toList] }
  | .sendClose =>
    match s.closeOwed with
    | none => none
    | some n =>
      if s.reconnecting then none
      else
        some { s with
          up := s.up ++ [.close]
          closeOwed := if n + 1 < sessionCloseRetransmits then some (n + 1) else none }
  | .deliverUp i connect wrote =>
    s.up[i]?.bind fun instr =>
      (s.channels.handle c (.instruction instr connect wrote)).map
        (s.afterPeer (.instruction instr connect wrote))
  | .peer ev =>
    match ev with
    | .instruction _ _ _ => none
    | ev => (s.channels.handle c ev).map (s.afterPeer ev)
  | .foreign chan ev =>
    if chan = c then none
    else (s.channels.handle chan ev).map fun o => { s with channels := o.channels }
  | .deliverDown i => s.down[i]?.map (s.receive i)
  | .verdict =>
    if s.reconnecting then none
    else
      some { s with
        session := s.session.map fun ss => { ss with confirmed := false, openSends := 0 }
        closeOwed := none
        reconnecting := true }
  | .reestablish =>
    if s.reconnecting then
      some { s with
        reconnecting := false
        channels := []
        up := []
        down := []
        rebuilt := true
        notice := none
        followed := none }
    else none

/-! ### An ordinal the peer does not know -/

/-- The local mux holds a confirmed session for an ordinal the peer does not know. -/
structure Orphaned (c : ℕ) (s : MuxPair) : Prop where
  session : ∃ ss, s.session = some ss ∧ ss.confirmed = true
  unknown : s.channels.entry c = none

/-- The steps that go on with the session and leave the peer without it: the viewport does not close
it, the transport is kept, and no OPEN that arrives late opens the ordinal again. -/
def Continues (c : ℕ) (s : MuxPair) : Act → Prop
  | .viewportClose | .verdict | .reestablish => False
  | .deliverUp i connect wrote =>
    ∀ instr, s.up[i]? = some instr → s.channels.opens c (.instruction instr connect wrote) = false
  | _ => True

/-- The session is removed, and its viewport told. -/
def Removed (s : MuxPair) : Prop := s.session = none ∧ ∃ p, IpcEvent.closed p ∈ s.told

/-- One of the CLOSEs of the ordinal arrives. -/
def DeliversClose (as : List Act) (t : MuxPair) : Prop :=
  ∃ i p, Act.deliverDown i ∈ as ∧ t.down[i]? = some (.close p)

/-- Everything sent since the state `s` arrives. -/
structure DeliversAll (s : MuxPair) (as : List Act) (t : MuxPair) : Prop where
  up : ∀ i, s.up.length ≤ i → i < t.up.length → ∃ connect wrote, Act.deliverUp i connect wrote ∈ as
  down : ∀ i, s.down.length ≤ i → i < t.down.length → Act.deliverDown i ∈ as

variable {c : ℕ} {s s' t : MuxPair} {a : Act} {as : List Act} {ss : IpcSession}

/-- **The peer answers no message on an ordinal it does not know**; an OPEN it has no room for is the
only thing it answers without opening the ordinal. -/
theorem sent_of_unknown {tbl : ChannelTable} {instr : SessionInstruction}
    {connect : Except Bytes Unit} {wrote : ℕ} (h : tbl.entry c = none)
    (hno : ∀ target resume, instr ≠ .open_ target resume) :
    (tbl.handleSessionInstruction c connect wrote instr).sent = [] := by
  cases instr with
  | open_ target resume => exact absurd rfl (hno target resume)
  | data | close => rw [handleSessionInstruction, h]
  | other => rfl

/-- The peer can send something in the step. -/
def Act.ofPeer : Act → Bool
  | .deliverUp _ _ _ | .peer _ => true
  | _ => false

/-- **What no step does**: only the viewport's first verb opens a session, nothing that was told is
taken back, and what was sent stays sent while the transport is kept. -/
structure Frame (s : MuxPair) (a : Act) (s' : MuxPair) : Prop where
  opened : s'.opened = s.opened ∨ s'.opened = true
  session : s.session = none → s'.session = none ∨ (s.opened = false ∧ s'.opened = true)
  told : s.told <+: s'.told
  up : a ≠ .reestablish → s.up <+: s'.up
  down : a ≠ .reestablish → s'.down = s.down ∨ (a.ofPeer = true ∧ s.down <+: s'.down)

theorem Frame.of_eq (ho : s'.opened = s.opened) (hs : s'.session = s.session)
    (ht : s'.told = s.told) (hup : s.up <+: s'.up)
    (hdown : s'.down = s.down ∨ (a.ofPeer = true ∧ s.down <+: s'.down)) : Frame s a s' where
  opened := .inl ho
  session := fun h => .inl (hs.trans h)
  told := ht ▸ prefix_rfl
  up := fun _ => hup
  down := fun _ => hdown

theorem Frame.of_some (h : s.session = some ss) (ho : s'.opened = s.opened)
    (ht : s.told <+: s'.told) (hup : s.up <+: s'.up) (hdown : s'.down = s.down) : Frame s a s' where
  opened := .inl ho
  session := fun hnone => by rw [h] at hnone; cases hnone
  told := ht
  up := fun _ => hup
  down := fun _ => .inl hdown

theorem Frame.isPrefix_down (h : Frame s a s') (ha : a ≠ .reestablish) : s.down <+: s'.down := by
  rcases h.down ha with heq | ⟨-, hpre⟩
  · exact heq ▸ prefix_rfl
  · exact hpre

theorem receive_channels (s : MuxPair) (i : ℕ) (d : PeerInstruction) :
    (s.receive i d).channels = s.channels ∧ (s.receive i d).down = s.down ∧
      (s.receive i d).opened = s.opened ∧ s.up <+: (s.receive i d).up ∧ s.told <+: (s.receive i d).told := by
  unfold receive
  split
  case h_1 => exact ⟨rfl, rfl, rfl, prefix_rfl, prefix_rfl⟩
  case h_2 ss h =>
    have hconf : (s.confirm ss).channels = s.channels ∧ (s.confirm ss).down = s.down ∧
        (s.confirm ss).opened = s.opened ∧ s.up <+: (s.confirm ss).up ∧ (s.confirm ss).told = s.told := by
      unfold confirm
      split
      · exact ⟨rfl, rfl, rfl, prefix_rfl, rfl⟩
      · exact ⟨rfl, rfl, rfl, prefix_append _ _, rfl⟩
    obtain ⟨hc, hd, ho, hu, ht⟩ := hconf
    cases d with
    | data | switch | close => exact ⟨hc, hd, ho, hu, ht ▸ prefix_append _ _⟩

theorem frame_step (hstep : step c s a = some s') : Frame s a s' := by
  cases a with
  | openSession target =>
    simp only [step] at hstep
    split at hstep
    · cases hstep
    · rename_i hopened
      rw [← Option.some.inj hstep]
      exact ⟨.inr rfl, fun _ => .inr ⟨Bool.eq_false_of_not_eq_true hopened, rfl⟩, prefix_rfl,
        fun _ => prefix_rfl, fun _ => .inl rfl⟩
  | viewportMessage msg =>
    simp only [step] at hstep
    split at hstep
    · rw [← Option.some.inj hstep]
      exact .of_eq rfl rfl rfl prefix_rfl (.inl rfl)
    · rename_i ss h
      split at hstep <;> rw [← Option.some.inj hstep]
      · exact .of_some h rfl prefix_rfl (prefix_append _ _) rfl
      · exact .of_some h rfl prefix_rfl prefix_rfl rfl
  | viewportClose =>
    simp only [step] at hstep
    split at hstep <;> rw [← Option.some.inj hstep]
    · exact .of_eq rfl rfl rfl prefix_rfl (.inl rfl)
    · rename_i ss h
      exact .of_some h rfl prefix_rfl prefix_rfl rfl
  | sendOpen =>
    simp only [step] at hstep
    split at hstep
    · cases hstep
    · rename_i ss h
      split at hstep
      · cases hstep
      · rw [← Option.some.inj hstep]
        exact .of_some h rfl prefix_rfl (prefix_append _ _) rfl
  | openTimeout =>
    simp only [step] at hstep
    split at hstep
    · cases hstep
    · rename_i ss h
      split at hstep
      · cases hstep
      · rw [← Option.some.inj hstep]
        exact .of_some h rfl (prefix_append _ _) prefix_rfl rfl
  | sendClose =>
    simp only [step] at hstep
    split at hstep
    · cases hstep
    · split at hstep
      · cases hstep
      · rw [← Option.some.inj hstep]
        exact .of_eq rfl rfl rfl (prefix_append _ _) (.inl rfl)
  | deliverUp i connect wrote =>
    simp only [step, Option.bind_eq_some_iff, map_eq_some_iff] at hstep
    obtain ⟨instr, -, o, -, rfl⟩ := hstep
    exact .of_eq rfl rfl rfl prefix_rfl (.inr ⟨rfl, prefix_append _ _⟩)
  | peer ev =>
    cases ev with
    | instruction => simp [step] at hstep
    | frame | exit | gone | switch | flush | resend | heartbeat =>
      simp only [step, map_eq_some_iff] at hstep
      obtain ⟨o, -, rfl⟩ := hstep
      exact .of_eq rfl rfl rfl prefix_rfl (.inr ⟨rfl, prefix_append _ _⟩)
  | foreign chan ev =>
    simp only [step] at hstep
    split at hstep
    · cases hstep
    · obtain ⟨o, -, rfl⟩ := map_eq_some_iff.1 hstep
      exact .of_eq rfl rfl rfl prefix_rfl (.inl rfl)
  | deliverDown i =>
    simp only [step, map_eq_some_iff] at hstep
    obtain ⟨d, -, rfl⟩ := hstep
    obtain ⟨-, hd, ho, hu, ht⟩ := s.receive_channels i d
    refine ⟨.inl ho, fun hnone => .inl ?_, ht, fun _ => hu, fun _ => .inl hd⟩
    rw [receive, hnone]
    exact hnone
  | verdict =>
    simp only [step] at hstep
    split at hstep
    · cases hstep
    · rw [← Option.some.inj hstep]
      exact ⟨.inl rfl, fun hnone => .inl (by rw [hnone]; rfl), prefix_rfl,
        fun _ => prefix_rfl, fun _ => .inl rfl⟩
  | reestablish =>
    simp only [step] at hstep
    split at hstep
    · rw [← Option.some.inj hstep]
      exact ⟨.inl rfl, .inl, prefix_rfl, fun h => absurd rfl h, fun h => absurd rfl h⟩
    · cases hstep

theorem opened_of_session (hrun : exec (step c) {} as = some s) (hsome : s.session ≠ none) : s.opened = true := by
  refine exec_invariant (I := fun u => u.session ≠ none → u.opened = true) ?_
    (fun h => absurd rfl h) hrun hsome
  intro u a v hu hstep hv
  have hframe := frame_step hstep
  rcases hframe.opened with ho | ho
  · rw [ho]
    refine hu fun hnone => ?_
    rcases hframe.session hnone with hv' | ⟨hno, hyes⟩
    · exact hv hv'
    · rw [ho, hno] at hyes
      cases hyes
  · exact ho

theorem removed_step (hopened : s.opened = true) (h : Removed s) (hstep : step c s a = some s') :
    s'.opened = true ∧ Removed s' := by
  obtain ⟨hnone, p, hp⟩ := h
  have hframe := frame_step hstep
  refine ⟨?_, ?_, p, hframe.told.subset hp⟩
  · rcases hframe.opened with ho | ho
    · exact ho.trans hopened
    · exact ho
  · rcases hframe.session hnone with hs | ⟨hno, -⟩
    · exact hs
    · rw [hopened] at hno
      cases hno

/-- What an instruction of the peer does to a confirmed session: a CLOSE removes it, any other leaves
it. -/
theorem receive_confirmed (hss : s.session = some ss) (hconf : ss.confirmed = true)
    (i : ℕ) (d : PeerInstruction) : (∃ p, d = .close p ∧ Removed (s.receive i d)) ∨
      ((∀ p, d ≠ .close p) ∧ ∃ ss', (s.receive i d).session = some ss' ∧ ss'.confirmed = true) := by
  have hrec : s.receive i d = s.apply i d := by
    rw [receive, hss]
    simp only [confirm, hconf, if_true]
  rw [hrec]
  cases d with
  | data f =>
    refine .inr ⟨fun p => nofun, ?_⟩
    simp [apply, hss, hconf]
  | switch target =>
    refine .inr ⟨fun p => nofun, ?_⟩
    simp [apply, hss, hconf]
  | close p => exact .inl ⟨p, rfl, rfl, p, List.mem_append_right _ (List.mem_singleton.2 rfl)⟩

theorem ne_reestablish (hok : Continues c s a) : a ≠ .reestablish := by
  rintro rfl
  exact hok

/-- **One step at a peer that does not know the ordinal**: it does not come to know it, and what it sends
answers an OPEN. -/
theorem unknown_step (h : s.channels.entry c = none) (hok : Continues c s a)
    (hstep : step c s a = some s') : s'.channels.entry c = none ∧
      (s'.down = s.down ∨ ∃ i connect wrote target resume, a = .deliverUp i connect wrote ∧
        s.up[i]? = some (.open_ target resume)) := by
  cases a with
  | deliverUp i connect wrote =>
    simp only [step, Option.bind_eq_some_iff, map_eq_some_iff] at hstep
    obtain ⟨instr, hi, o, ho, rfl⟩ := hstep
    obtain ⟨-, -, hentry⟩ := handle_unknown ho h
    refine ⟨hentry (hok instr hi), ?_⟩
    rw [handle, Option.some.injEq] at ho
    by_cases hopen : ∃ target resume, instr = .open_ target resume
    · obtain ⟨target, resume, rfl⟩ := hopen
      exact .inr ⟨i, connect, wrote, target, resume, rfl, hi⟩
    · refine .inl ?_
      show s.down ++ o.sent = s.down
      rw [← ho, sent_of_unknown h fun target resume heq => hopen ⟨target, resume, heq⟩, List.append_nil]
  | peer ev =>
    cases ev with
    | instruction => simp [step] at hstep
    | frame | exit | gone | switch | flush | resend | heartbeat =>
      simp [step, handle, h] at hstep
  | foreign chan ev =>
    simp only [step] at hstep
    split at hstep
    · cases hstep
    · rename_i hne
      obtain ⟨o, ho, rfl⟩ := map_eq_some_iff.1 hstep
      have hentry := (handle_changed ho).entry_of_ne fun heq => hne heq.symm
      exact ⟨hentry.trans h, .inl rfl⟩
  | viewportClose | verdict | reestablish => exact absurd hok id
  | deliverDown i =>
    simp only [step, map_eq_some_iff] at hstep
    obtain ⟨d, -, rfl⟩ := hstep
    obtain ⟨hc, hd, -⟩ := s.receive_channels i d
    exact ⟨hc ▸ h, .inl hd⟩
  | openSession | viewportMessage | sendOpen | openTimeout | sendClose =>
    have hsame : s'.channels = s.channels := by
      simp only [step] at hstep
      repeat' split at hstep
      all_goals cases hstep
      all_goals rfl
    refine ⟨hsame ▸ h, .inl ?_⟩
    rcases (frame_step hstep).down (by simp) with heq | ⟨hno, -⟩
    · exact heq
    · cases hno

/-- **One step with a session the peer does not know**: it is removed by a CLOSE that arrives, and by
nothing else. -/
theorem orphaned_step (hopened : s.opened = true) (h : Orphaned c s) (hok : Continues c s a)
    (hstep : step c s a = some s') : (∃ i p, a = .deliverDown i ∧ s.down[i]? = some (.close p) ∧ Removed s') ∨
      ((∀ i p, a = .deliverDown i → s.down[i]? ≠ some (.close p)) ∧ Orphaned c s') := by
  have hunknown := (unknown_step h.unknown hok hstep).1
  obtain ⟨ss, hss, hconf⟩ := h.session
  cases a with
  | openSession target => simp [step, hopened] at hstep
  | viewportMessage msg =>
    simp only [step, hss, hconf, if_true, Option.some.injEq] at hstep
    subst hstep
    exact .inr ⟨by simp, ⟨ss, rfl, hconf⟩, hunknown⟩
  | viewportClose | verdict | reestablish => exact absurd hok id
  | sendOpen | openTimeout => simp [step, hss, hconf] at hstep
  | sendClose =>
    simp only [step] at hstep
    split at hstep
    · cases hstep
    · split at hstep
      · cases hstep
      · rw [← Option.some.inj hstep] at hunknown ⊢
        exact .inr ⟨by simp, ⟨ss, hss, hconf⟩, hunknown⟩
  | deliverUp i connect wrote =>
    simp only [step, Option.bind_eq_some_iff, map_eq_some_iff] at hstep
    obtain ⟨instr, hi, o, ho, rfl⟩ := hstep
    exact .inr ⟨by simp, ⟨ss, hss, hconf⟩, hunknown⟩
  | peer ev =>
    cases ev with
    | instruction => simp [step] at hstep
    | frame | exit | gone | switch | flush | resend | heartbeat =>
      simp [step, handle, h.unknown] at hstep
  | foreign chan ev =>
    simp only [step] at hstep
    split at hstep
    · cases hstep
    · obtain ⟨o, ho, rfl⟩ := map_eq_some_iff.1 hstep
      exact .inr ⟨by simp, ⟨ss, hss, hconf⟩, hunknown⟩
  | deliverDown i =>
    simp only [step, map_eq_some_iff] at hstep
    obtain ⟨d, hi, rfl⟩ := hstep
    rcases receive_confirmed hss hconf i d with ⟨p, rfl, hremoved⟩ | ⟨hno, hsess⟩
    · exact .inl ⟨i, p, rfl, hi, hremoved⟩
    · refine .inr ⟨?_, hsess, hunknown⟩
      rintro j p hj hclose
      obtain rfl : i = j := by simpa using hj
      rw [hi, Option.some.injEq] at hclose
      exact hno p hclose

theorem removed_exec (hopened : s.opened = true) (h : Removed s)
    (hrun : exec (step c) s as = some t) : Removed t :=
  (exec_invariant (I := fun u => u.opened = true ∧ Removed u)
    (fun _ _ _ hu hstep => removed_step hu.1 hu.2 hstep) ⟨hopened, h⟩ hrun).2

/-! ### The session is removed exactly when a CLOSE arrives -/

theorem deliversClose_cons_of_ne (hno : ∀ i p, a = .deliverDown i → t.down[i]? ≠ some (.close p)) :
    DeliversClose (a :: as) t ↔ DeliversClose as t := by
  constructor
  · rintro ⟨i, p, hmem, hclose⟩
    rcases List.mem_cons.1 hmem with heq | hmem
    · exact absurd hclose (hno i p heq.symm)
    · exact ⟨i, p, hmem, hclose⟩
  · rintro ⟨i, p, hmem, hclose⟩
    exact ⟨i, p, mem_cons_of_mem _ hmem, hclose⟩

theorem sent_prefix_exec (hok : Runs.AllOk (Continues c) (step c) s as)
    (hrun : exec (step c) s as = some t) : s.up <+: t.up ∧ s.down <+: t.down :=
  exec_invariant_of_allOk (I := fun u => s.up <+: u.up ∧ s.down <+: u.down)
    (fun _ _ _ hu hok hstep =>
      ⟨hu.1.trans ((frame_step hstep).up (ne_reestablish hok)),
        hu.2.trans ((frame_step hstep).isPrefix_down (ne_reestablish hok))⟩)
    ⟨prefix_rfl, prefix_rfl⟩ hok hrun

theorem getElem?_of_isPrefix {α : Type} {l l' : List α} (h : l <+: l') {i : ℕ} {x : α}
    (hi : l[i]? = some x) : l'[i]? = some x := by
  obtain ⟨r, rfl⟩ := h
  rw [List.getElem?_append_left (List.getElem?_eq_some_iff.1 hi).1, hi]

theorem removed_iff_of_orphaned : ∀ {s : MuxPair}, s.opened = true → Orphaned c s →
    Runs.AllOk (Continues c) (step c) s as → exec (step c) s as = some t → (Removed t ↔ DeliversClose as t) := by
  induction as with
  | nil =>
    intro s _ h _ hrun
    rw [exec_nil, Option.some.injEq] at hrun
    subst hrun
    obtain ⟨ss, hss, -⟩ := h.session
    constructor
    · rintro ⟨hnone, -⟩
      rw [hss] at hnone
      cases hnone
    · rintro ⟨i, p, hmem, -⟩
      cases hmem
  | cons a as ih =>
    intro s hopened h hok hrun
    obtain ⟨m, hm, hrest⟩ := exec_cons_eq_some.1 hrun
    have hokm := hok.2 m hm
    have hdown : s.down <+: t.down :=
      ((frame_step hm).isPrefix_down (ne_reestablish hok.1)).trans (sent_prefix_exec hokm hrest).2
    have hopenedm : m.opened = true := by
      rcases (frame_step hm).opened with ho | ho
      · exact ho.trans hopened
      · exact ho
    rcases orphaned_step hopened h hok.1 hm with ⟨i, p, rfl, hi, hremoved⟩ | ⟨hno, horphaned⟩
    · constructor
      · intro _
        exact ⟨i, p, List.mem_cons_self, getElem?_of_isPrefix hdown hi⟩
      · intro _
        exact removed_exec hopenedm hremoved hrest
    · rw [ih hopenedm horphaned hokm hrest]
      refine (deliversClose_cons_of_ne ?_).symm
      rintro i p rfl hclose
      refine hno i p rfl ?_
      rw [step, map_eq_some_iff] at hm
      obtain ⟨d, hd, -⟩ := hm
      rw [getElem?_of_isPrefix hdown hd] at hclose
      rw [hd, hclose]

theorem down_of_unknown : ∀ {s : MuxPair}, s.channels.entry c = none →
    Runs.AllOk (Continues c) (step c) s as → exec (step c) s as = some t →
    (∀ i connect wrote, .deliverUp i connect wrote ∈ as →
      ∀ target resume, t.up[i]? ≠ some (.open_ target resume)) → t.down = s.down := by
  induction as with
  | nil =>
    intro s _ _ hrun _
    rw [exec_nil, Option.some.injEq] at hrun
    rw [hrun]
  | cons a as ih =>
    intro s h hok hrun hno
    obtain ⟨m, hm, hrest⟩ := exec_cons_eq_some.1 hrun
    have hokm := hok.2 m hm
    obtain ⟨hunknown, hsent⟩ := unknown_step h hok.1 hm
    rw [ih hunknown hokm hrest fun i connect wrote hmem => hno i connect wrote
      (mem_cons_of_mem _ hmem)]
    rcases hsent with hsame | ⟨i, connect, wrote, target, resume, rfl, hi⟩
    · exact hsame
    · have hup : s.up <+: t.up :=
        ((frame_step hm).up (ne_reestablish hok.1)).trans (sent_prefix_exec hokm hrest).1
      exact absurd (getElem?_of_isPrefix hup hi) (hno i connect wrote List.mem_cons_self target resume)

/-- A session on channel 2 is opened, confirmed and linked; then its daemon is gone, and the CLOSE, the
second instruction of the peer, is lost. -/
def lostCloseRun : List Act :=
  [.openSession [97], .sendOpen, .deliverUp 0 (.ok ()) 0, .deliverDown 0,
    .viewportMessage PeerLoop.typedMessage, .deliverUp 1 (.ok ()) 0, .peer (.gone [])]

/-- The viewport sends `n` more messages, each of which arrives; the first is the `k`-th sent. -/
def exchanges (k : ℕ) : ℕ → List Act
  | 0 => []
  | n + 1 => .viewportMessage PeerLoop.typedMessage :: .deliverUp k (.ok ()) 0 :: exchanges (k + 1) n

/-- Messages on an ordinal the peer does not know arrive one after another, and nothing else
happens. -/
theorem exec_exchanges (n : ℕ) : ∀ {s : MuxPair}, Orphaned c s →
    ∃ t, exec (step c) s (exchanges s.up.length n) = some t ∧ t.down = s.down ∧
      t.up.length = s.up.length + n ∧ t.session = s.session ∧ ∀ i, s.up.length ≤ i → i < t.up.length →
        Act.deliverUp i (.ok ()) 0 ∈ exchanges s.up.length n := by
  induction n with
  | zero =>
    intro s h
    refine ⟨s, rfl, rfl, rfl, rfl, ?_⟩
    intro i hle hlt
    omega
  | succ n ih =>
    intro s h
    obtain ⟨ss, hss, hconf⟩ := h.session
    obtain ⟨t, hrun, hdown, hlen, hsess, hall⟩ :=
      ih (s := { s with up := s.up ++ [.data typedMessage] }) ⟨⟨ss, hss, hconf⟩, h.unknown⟩
    have hlen' : (s.up ++ [SessionInstruction.data typedMessage]).length = s.up.length + 1 := by simp
    rw [hlen'] at hrun hlen hall
    refine ⟨t, ?_, hdown, by omega, hsess, ?_⟩
    · have hsend : step c s (.viewportMessage typedMessage) =
          some { s with up := s.up ++ [.data typedMessage] } := by
        simp only [step, hss, hconf, if_true]
      have harrive : step c { s with up := s.up ++ [.data typedMessage] }
          (.deliverUp s.up.length (.ok ()) 0) =
          some { s with up := s.up ++ [.data typedMessage] } := by
        simp [step, handle, handleSessionInstruction, h.unknown, afterPeer,
          PeerLoop.isRehome]
      rw [exchanges, exec_cons, hsend, Option.bind_some, exec_cons, harrive, Option.bind_some]
      exact hrun
    · intro i hle hlt
      rw [exchanges]
      by_cases hi : i = s.up.length
      · rw [hi]
        exact mem_cons_of_mem _ List.mem_cons_self
      · exact mem_cons_of_mem _ (mem_cons_of_mem _ (hall i (by omega) hlt))

/-- The lost CLOSE arrives after all. -/
def lateClose : List Act := [.viewportMessage PeerLoop.typedMessage, .deliverDown 1]

end MuxPair

end Posh
