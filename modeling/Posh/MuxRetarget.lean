/-
**Where a reconnect lands.**

The session a viewport is in can change under it: the daemon moves the viewport, the bridge at the remote
end is homed on the new session, and the local mux is told by a SWITCH, so that the OPEN of a later
transport names the new session.  The SWITCH is sent once.  When it is lost, or overtaken by an earlier
one, the OPEN names a session the viewport is not in any more; the same happens when an OPEN that arrives
late opens the ordinal again on its old target.

`MuxPair.keepsTarget` says, of the moment a new transport is there, that the SWITCH the mux handled last on
the old one belongs to the last homing of the bridge there.  In the runs that meet it, every OPEN sent on a
rebuilt transport names the session the bridge was last homed on.
-/

import Posh.MuxPair

set_option autoImplicit false

namespace Posh

open PeerLoop (isRehome)
open Option (bind_some map_eq_some_iff)
open ChannelTable (handle_changed)
open ChannelTable

/-! ### How a bridge comes to be homed -/

namespace ChannelTable

variable {t : ChannelTable} {chan : ℕ} {ev : PeerEvent} {o : PeerOutcome} {e : TableEntry}

/-- The target the ordinal is linked to by its first message. -/
def linksTo (t : ChannelTable) (chan : ℕ) : Option Bytes := (t.entry chan).bind TableEntry.linksTo

/-- The ordinal is bridged to a daemon. -/
def isLinked (t : ChannelTable) (chan : ℕ) : Prop := ∃ b, t.entry chan = some (.linked chan b)

/-- An event is a message of the client. -/
def isData : PeerEvent → Bool
  | .instruction (.data _) _ _ => true
  | _ => false

/-- What an event does to an ordinal, as far as its sessions are concerned. -/
structure Homes (t : ChannelTable) (chan : ℕ) (ev : PeerEvent) (o : PeerOutcome) : Prop where
  /-- an ordinal waits for the target it waited for, or for that of an OPEN -/
  awaits : ∀ target, o.channels.linksTo chan = some target → t.linksTo chan = some target ∨
    ∃ resume connect wrote, ev = .instruction (.open_ target resume) connect wrote
  /-- only a message bridges an ordinal -/
  linked : o.channels.isLinked chan → t.isLinked chan ∨ isData ev = true
  /-- a message homes the bridge on the target waited for, and a re-home on another, which is told -/
  homed : ∀ target, o.homed = some target →
    (isData ev = true ∧ PeerLoop.isRehome ev = false ∧ t.linksTo chan = some target) ∨
      (PeerLoop.isRehome ev = true ∧ o.sent = [.switch target])
  rehomed : PeerLoop.isRehome ev = true → o.homed.isSome = true

theorem linksTo_of_entry_none (h : t.entry chan = none) : t.linksTo chan = none := by
  rw [linksTo, h]
  rfl

theorem linksTo_set_linked (h : t.entry chan = some e) (b : SessionBridge) :
    linksTo (t.set chan (.linked chan b)) chan = none := by
  have hchan : (TableEntry.linked chan b).chan = chan := rfl
  rw [linksTo, entry_set_self hchan h]
  rfl

theorem entry_append_self (h : t.entry chan = none) (he : e.chan = chan) : entry (t ++ [e]) chan = some e := by
  rw [entry] at h
  simp [entry, List.find?_append, h, he]

theorem not_isLinked_of_entry_none (h : t.entry chan = none) : ¬ t.isLinked chan := by
  rintro ⟨b, hb⟩
  rw [h] at hb
  cases hb

theorem Homes.removed (hnodup : (t.map TableEntry.chan).Nodup) (hch : o.channels = t.remove chan)
    (hhomed : o.homed = none) (hno : isRehome ev = false) : Homes t chan ev o := by
  have hentry : o.channels.entry chan = none := hch ▸ entry_remove_self hnodup
  refine ⟨fun target h => ?_, fun h => ?_, fun target h => ?_, fun h => ?_⟩
  · rw [linksTo_of_entry_none hentry] at h
    cases h
  · exact absurd h (not_isLinked_of_entry_none hentry)
  · rw [hhomed] at h
    cases h
  · rw [hno] at h
    cases h

theorem Homes.same (hch : o.channels = t) (hhomed : o.homed = none)
    (hno : isRehome ev = false) : Homes t chan ev o := by
  refine ⟨fun target h => .inl (hch ▸ h), fun h => .inl (hch ▸ h), fun target h => ?_, fun h => ?_⟩
  · rw [hhomed] at h
    cases h
  · rw [hno] at h
    cases h

theorem Homes.kept {b b' : SessionBridge} (h : t.entry chan = some (.linked chan b))
    (hch : o.channels = t.set chan (.linked chan b')) (hhomed : o.homed = none)
    (hno : isRehome ev = false) : Homes t chan ev o := by
  refine ⟨fun target hl => ?_, fun _ => .inl ⟨b, h⟩, fun target hh => ?_, fun hr => ?_⟩
  · rw [hch, linksTo_set_linked h] at hl
    cases hl
  · rw [hhomed] at hh
    cases hh
  · rw [hno] at hr
    cases hr

theorem homes_bridgeMessage (hnodup : (t.map TableEntry.chan).Nodup)
    (h : t.entry chan = some e) (b : SessionBridge) (msg : ClientMessage) (connect : Except Bytes Unit)
    (wrote : ℕ) (homed : Option Bytes) (hhomed : ∀ target, homed = some target →
      t.linksTo chan = some target) : Homes t chan (.instruction (.data msg) connect wrote)
      { t.bridgeMessage chan b msg wrote with homed } := by
  refine ⟨fun target hl => ?_, fun _ => .inr rfl, fun target hh => .inl ⟨rfl, rfl, hhomed target hh⟩,
    fun hr => (by cases hr)⟩
  unfold bridgeMessage at hl
  simp only at hl
  split at hl
  · rw [linksTo_set_linked h] at hl
    cases hl
  · rw [linksTo_of_entry_none (entry_remove_self hnodup)] at hl
    cases hl

theorem homes_handleSessionInstruction (hnodup : (t.map TableEntry.chan).Nodup)
    (connect : Except Bytes Unit) (wrote : ℕ) (i : SessionInstruction) :
    Homes t chan (.instruction i connect wrote) (t.handleSessionInstruction chan connect wrote i) := by
  cases i with
  | open_ target resume =>
    rw [handleSessionInstruction]
    cases h : t.entry chan with
    | some e => exact .same rfl rfl rfl
    | none =>
      simp only
      split
      · exact .same rfl rfl rfl
      · have hentry := entry_append_self h (e := .awaiting chan target resume) rfl
        refine ⟨fun target' hl => .inr ?_, fun hl => ?_, by simp, fun hrehome => by cases hrehome⟩
        · rw [linksTo, hentry] at hl
          obtain rfl : target = target' := by simpa [TableEntry.linksTo] using hl
          exact ⟨resume, connect, wrote, rfl⟩
        · obtain ⟨b, hb⟩ := hl
          rw [hentry] at hb
          cases hb
  | data msg =>
    rw [handleSessionInstruction]
    cases h : t.entry chan with
    | none => exact .same rfl rfl rfl
    | some e =>
      cases e with
      | awaiting chan' target resume =>
        cases connect with
        | ok =>
          refine homes_bridgeMessage hnodup h _ msg _ wrote (some target) fun target' ht => ?_
          rw [linksTo, h]
          exact ht
        | error => exact .removed hnodup rfl rfl rfl
      | linked chan' b =>
        have hb := homes_bridgeMessage hnodup h b msg connect wrote none (by simp)
        have hnone : (t.bridgeMessage chan b msg wrote).homed = none := by
          unfold bridgeMessage
          simp only
          split <;> rfl
        rw [← hnone] at hb
        exact hb
  | close =>
    rw [handleSessionInstruction]
    cases h : t.entry chan with
    | none => exact .same rfl rfl rfl
    | some e => cases e <;> exact .removed hnodup rfl rfl rfl
  | other => exact .same rfl rfl rfl

theorem homes_handleLinked (hnodup : (t.map TableEntry.chan).Nodup) {b : SessionBridge}
    (ev : PeerEvent) (h : t.entry chan = some (.linked chan b)) : Homes t chan ev (t.handleLinked chan b ev) := by
  cases ev with
  | instruction i connect wrote => exact homes_handleSessionInstruction hnodup connect wrote i
  | frame | flush | heartbeat => exact .kept h rfl rfl rfl
  | exit | gone => exact .removed hnodup rfl rfl rfl
  | resend => exact .same rfl rfl rfl
  | switch target connect =>
    cases connect with
    | error => exact .removed hnodup rfl rfl rfl
    | ok =>
      have hch : (t.handleLinked chan b (.switch target (.ok ()))).channels =
          t.set chan (.linked chan b.rehome) := rfl
      refine ⟨fun target' hl => ?_, fun _ => .inl ⟨b, h⟩, fun target' hh => .inr ⟨rfl, ?_⟩, fun _ => rfl⟩
      · rw [hch, linksTo_set_linked h] at hl
        cases hl
      · rw [← Option.some.inj hh]
        rfl

/-- **How a bridge comes to be homed**: a message homes it on the target the ordinal waits for, the daemon
on another, and that one is told. -/
theorem handle_homed (hnodup : (t.map TableEntry.chan).Nodup) (ho : t.handle chan ev = some o) :
    Homes t chan ev o := by
  unfold handle at ho
  split at ho
  · rw [← Option.some.inj ho]
    exact homes_handleSessionInstruction hnodup _ _ _
  · rename_i chan' b _ h
    have hchan : chan' = chan := chan_of_entry h
    subst hchan
    rw [← Option.some.inj ho]
    exact homes_handleLinked hnodup _ h
  · cases ho

theorem isLinked_of_isRehome (ho : t.handle chan ev = some o) (hr : isRehome ev = true) : t.isLinked chan := by
  unfold handle at ho
  split at ho
  · cases hr
  · rename_i chan' b _ h
    have hchan : chan' = chan := chan_of_entry h
    subst hchan
    exact ⟨b, h⟩
  · cases ho

end ChannelTable

namespace MuxPair

/-! ### The condition on the steps -/

/-- **A reconnect lands in the session the viewport is in**: an OPEN sent on a rebuilt transport names the
session the bridge was last homed on, if it ever was. -/
def Lands (s : MuxPair) : Prop := ∀ p ∈ s.redriven, ∀ h, p.2 = some h → p.1 = h

/-- **The condition on the steps**: when a new transport is there, the SWITCH the mux handled last on the
old one is the one the last homing of the bridge there was told by; none, when a message homed it. -/
def keepsTarget (s : MuxPair) : Act → Bool
  | .reestablish =>
    s.session.isNone || decide (s.followed.bind (s.down[·]?) = s.notice.bind (s.down[·]?))
  | _ => true

/-! ### The invariant -/

/-- Nothing homed the bridge yet on this transport, and nothing on its way will but an OPEN. -/
structure Quiet (c : ℕ) (s : MuxPair) : Prop where
  data : ∀ msg, .data msg ∉ s.up
  unlinked : ¬ s.channels.isLinked c
  notice : s.notice = none
  followed : s.followed = none

/-- A session on a transport whose OPENs name the target `first`. -/
structure Wire (c : ℕ) (s : MuxPair) (first : Bytes) (ss : IpcSession) : Prop where
  opens : ∀ target resume, .open_ target resume ∈ s.up → target = first
  awaits : ∀ target, s.channels.linksTo c = some target → target = first
  /-- until a SWITCH is handled, the target is that of the OPENs -/
  here : s.followed = none → ss.target = first
  told : ∀ i, s.followed = some i → s.down[i]? = some (.switch ss.target)
  /-- until a re-home, the bridge is homed on the target of the OPENs, or not at all -/
  there : s.notice = none → s.homed = none ∨ s.homed = some first
  moved : ∀ i, s.notice = some i → ∃ target, s.down[i]? = some (.switch target) ∧ s.homed = some target
  quiet : ss.confirmed = false → s.reconnecting = false → Quiet c s

/-- The ordinal was never opened. -/
structure Unopened (c : ℕ) (s : MuxPair) : Prop where
  session : s.session = none
  closeOwed : s.closeOwed = none
  up : s.up = []
  down : s.down = []
  unknown : s.channels.entry c = none
  homed : s.homed = none
  notice : s.notice = none
  followed : s.followed = none

/-- What holds of every run whose steps meet the condition. -/
structure Homing (c : ℕ) (s : MuxPair) : Prop where
  nodup : (s.channels.map TableEntry.chan).Nodup
  lands : Lands s
  unopened : s.opened = false → Unopened c s
  wire : ∀ ss, s.session = some ss → ∃ first, Wire c s first ss

theorem homing_init (c : ℕ) : Homing c {} where
  nodup := List.nodup_nil
  lands := fun p hp => by cases hp
  unopened := fun _ => ⟨rfl, rfl, rfl, rfl, rfl, rfl, rfl, rfl⟩
  wire := fun ss h => by cases h

section Step

variable {c : ℕ} {s s' : MuxPair} {a : Act} {ss ss' : IpcSession} {first : Bytes}

/-- The target the local end would re-open is that of the SWITCH it handled last, and the bridge was last
homed on that of the SWITCH it told last. -/
theorem Wire.homed_of_followed (h : Wire c s first ss)
    (heq : s.followed.bind (s.down[·]?) = s.notice.bind (s.down[·]?)) :
    s.homed = none ∨ s.homed = some ss.target := by
  cases hf : s.followed with
  | none =>
    rw [h.here hf]
    cases hn : s.notice with
    | none => exact h.there hn
    | some j =>
      obtain ⟨target, hj, -⟩ := h.moved j hn
      rw [hf, hn, Option.bind_none, bind_some, hj] at heq
      cases heq
  | some i =>
    have hi := h.told i hf
    cases hn : s.notice with
    | none =>
      rw [hf, hn, Option.bind_none, bind_some, hi] at heq
      cases heq
    | some j =>
      obtain ⟨target, hj, hhomed⟩ := h.moved j hn
      rw [hf, hn, bind_some, bind_some, hi, hj] at heq
      obtain rfl : ss.target = target := by simpa using heq
      exact .inr hhomed

theorem Wire.homed_of_quiet (h : Wire c s first ss) (hquiet : Quiet c s) :
    ss.target = first ∧ (s.homed = none ∨ s.homed = some first) :=
  ⟨h.here hquiet.followed, h.there hquiet.notice⟩

theorem Wire.session (h : Wire c s first ss) (ss' : IpcSession) (msgs : List ClientMessage) (session : Option IpcSession)
    (told : List IpcEvent) (htarget : ss'.target = ss.target)
    (hconf : ss'.confirmed = false → ss.confirmed = false ∧ msgs = []) :
    Wire c { s with session, told, up := s.up ++ msgs.map .data } first ss' where
  opens := fun target resume hmem => by
    rcases List.mem_append.1 hmem with hmem | hmem
    · exact h.opens target resume hmem
    · simp at hmem
  awaits := h.awaits
  here := fun hf => htarget ▸ h.here hf
  told := fun i hf => htarget ▸ h.told i hf
  there := h.there
  moved := h.moved
  quiet := fun hc hr => by
    obtain ⟨hc, rfl⟩ := hconf hc
    have hquiet := h.quiet hc hr
    refine ⟨fun msg hmem => ?_, hquiet.unlinked, hquiet.notice, hquiet.followed⟩
    rw [List.map_nil, List.append_nil] at hmem
    exact hquiet.data msg hmem

theorem Wire.afterPeer (h : Wire c s first ss) (hnodup : (s.channels.map TableEntry.chan).Nodup)
    {ev : PeerEvent} {o : PeerOutcome} (ho : s.channels.handle c ev = some o)
    (hup : ∀ i connect wrote, ev = .instruction i connect wrote → i ∈ s.up) :
    Wire c (s.afterPeer ev o) first ss := by
  have hhomes := handle_homed hnodup ho
  have hdown : ∀ {i : ℕ} {p : PeerInstruction}, s.down[i]? = some p → (s.down ++ o.sent)[i]? = some p :=
    fun hi => getElem?_of_isPrefix (List.prefix_append _ _) hi
  refine
    { opens := h.opens
      awaits := ?_
      here := h.here
      told := fun i hf => hdown (h.told i hf)
      there := ?_
      moved := ?_
      quiet := ?_ }
  · intro target hl
    rcases hhomes.awaits target hl with hl | ⟨resume, connect, wrote, rfl⟩
    · exact h.awaits target hl
    · exact h.opens target resume (hup _ connect wrote rfl)
  · intro hn
    have hno : isRehome ev = false := by
      by_contra hr
      rw [MuxPair.afterPeer, if_pos (Bool.eq_true_of_not_eq_false hr)] at hn
      cases hn
    cases hh : o.homed with
    | none =>
      simp only [MuxPair.afterPeer, hno, hh, Bool.false_eq_true, if_false, Option.isSome_none,
        Option.none_or] at hn ⊢
      exact h.there hn
    | some target =>
      rcases hhomes.homed target hh with ⟨-, -, hl⟩ | ⟨hr, -⟩
      · rw [← h.awaits target hl]
        exact .inr (by rw [MuxPair.afterPeer, hh, Option.some_or])
      · rw [hno] at hr
        cases hr
  · intro i hn
    simp only [MuxPair.afterPeer] at hn ⊢
    cases hr : isRehome ev with
    | true =>
      rw [if_pos hr, Option.some.injEq] at hn
      obtain ⟨target, hh⟩ := Option.isSome_iff_exists.1 (hhomes.rehomed hr)
      rcases hhomes.homed target hh with ⟨-, hno, -⟩ | ⟨-, hsent⟩
      · rw [hr] at hno
        cases hno
      · refine ⟨target, ?_, by rw [hh, Option.some_or]⟩
        rw [hsent, ← hn]
        simp
    | false =>
      rw [if_neg (by rw [hr]; exact Bool.false_ne_true)] at hn
      cases hh : o.homed with
      | some target =>
        rw [hh, Option.isSome_some, if_pos rfl] at hn
        cases hn
      | none =>
        rw [hh, Option.isSome_none, if_neg Bool.false_ne_true] at hn
        obtain ⟨target, hi, hhomed⟩ := h.moved i hn
        exact ⟨target, hdown hi, hhomed⟩
  · intro hc hr
    have hquiet := h.quiet hc hr
    have hno : isRehome ev = false := by
      by_contra hrehome
      exact hquiet.unlinked (isLinked_of_isRehome ho (Bool.eq_true_of_not_eq_false hrehome))
    refine ⟨hquiet.data, fun hl => ?_, ?_, hquiet.followed⟩
    · rcases hhomes.linked hl with hl | hdata
      · exact hquiet.unlinked hl
      · unfold isData at hdata
        split at hdata
        · exact hquiet.data _ (hup _ _ _ rfl)
        · cases hdata
    · simp only [MuxPair.afterPeer, hno, Bool.false_eq_true, if_false, hquiet.notice, ite_self]

theorem confirm_eq (hss : s.session = some ss) :
    ∃ (ss₁ : IpcSession) (msgs : List ClientMessage), ss₁.target = ss.target ∧ ss₁.confirmed = true ∧
      s.confirm ss = { s with session := some ss₁, up := s.up ++ msgs.map .data } := by
  unfold confirm
  split
  case isTrue hc => exact ⟨ss, [], rfl, hc, by rw [List.map_nil, List.append_nil, ← hss]⟩
  case isFalse => exact ⟨{ ss with confirmed := true, queued := [] }, ss.queued, rfl, rfl, rfl⟩

theorem Wire.receive (h : Wire c s first ss) (hss : s.session = some ss) {i : ℕ}
    {d : PeerInstruction} (hi : s.down[i]? = some d) (hss' : (s.receive i d).session = some ss') :
    Wire c (s.receive i d) first ss' := by
  obtain ⟨ss₁, msgs, htarget, hconf, heq⟩ := confirm_eq hss
  have hrec : s.receive i d = (s.confirm ss).apply i d := by rw [MuxPair.receive, hss]
  rw [hrec, heq] at hss' ⊢
  cases d with
  | data f =>
    simp only [apply, Option.map_some, Option.some.injEq] at hss'
    rw [← hss']
    exact h.session _ msgs _ _ htarget fun hno => by rw [hconf] at hno; cases hno
  | close p => cases hss'
  | switch target =>
    simp only [apply, Option.map_some, Option.some.injEq] at hss'
    have hw := h.session ss₁ msgs (some ss') (s.told ++ [.switched target]) htarget
      fun hno => by rw [hconf] at hno; cases hno
    rw [← hss'] at hw ⊢
    refine
      { opens := hw.opens
        awaits := hw.awaits
        here := fun hnone => by cases hnone
        told := fun j hj => ?_
        there := hw.there
        moved := hw.moved
        quiet := fun hno => by rw [hconf] at hno; cases hno }
    obtain rfl : i = j := Option.some.inj hj
    exact hi

theorem Wire.start {target : Bytes} (htarget : ss.target = target)
    (hhomed : s.homed = none ∨ s.homed = some target) (hunknown : s.channels.entry c = none)
    (hup : s.up = []) (hn : s.notice = none) (hf : s.followed = none) : Wire c s target ss := by
  refine
    { opens := fun target resume hmem => ?_
      awaits := fun target hl => ?_
      here := fun _ => htarget
      told := fun i hi => ?_
      there := fun _ => hhomed
      moved := fun i hi => ?_
      quiet := fun _ _ =>
        ⟨fun msg hmem => ?_, not_isLinked_of_entry_none hunknown, hn, hf⟩ }
  · rw [hup] at hmem
    cases hmem
  · rw [linksTo_of_entry_none hunknown] at hl
    cases hl
  · rw [hf] at hi
    cases hi
  · rw [hn] at hi
    cases hi
  · rw [hup] at hmem
    cases hmem

theorem Unopened.step (h : Unopened c s) (hstep : MuxPair.step c s a = some s') :
    Unopened c s' ∨ ∃ target, a = .openSession target := by
  obtain ⟨hsess, hclose, hup, hdown, hunknown, hhomed, hn, hf⟩ := h
  cases a with
  | openSession target => exact .inr ⟨target, rfl⟩
  | viewportMessage | viewportClose =>
    simp only [MuxPair.step, hsess, Option.some.injEq] at hstep
    subst hstep
    exact .inl ⟨hsess, hclose, hup, hdown, hunknown, hhomed, hn, hf⟩
  | sendOpen | openTimeout => simp [MuxPair.step, hsess] at hstep
  | sendClose => simp [MuxPair.step, hclose] at hstep
  | deliverUp => simp [MuxPair.step, hup] at hstep
  | deliverDown => simp [MuxPair.step, hdown] at hstep
  | peer ev =>
    cases ev with
    | instruction => simp [MuxPair.step] at hstep
    | frame | exit | gone | switch | flush | resend | heartbeat =>
      simp [MuxPair.step, handle, hunknown] at hstep
  | foreign chan ev =>
    simp only [MuxPair.step] at hstep
    split at hstep
    · cases hstep
    · rename_i hne
      obtain ⟨o, ho, rfl⟩ := map_eq_some_iff.1 hstep
      have hentry := (handle_changed ho).entry_of_ne fun heq => hne heq.symm
      exact .inl ⟨hsess, hclose, hup, hdown, hentry.trans hunknown, hhomed, hn, hf⟩
  | verdict =>
    simp only [MuxPair.step] at hstep
    split at hstep
    · cases hstep
    · rw [← Option.some.inj hstep]
      exact .inl ⟨by rw [hsess]; rfl, rfl, hup, hdown, hunknown, hhomed, hn, hf⟩
  | reestablish =>
    simp only [MuxPair.step] at hstep
    split at hstep
    · rw [← Option.some.inj hstep]
      exact .inl ⟨hsess, hclose, rfl, rfl, rfl, hhomed, rfl, rfl⟩
    · cases hstep

theorem nodup_step (h : (s.channels.map TableEntry.chan).Nodup) (hstep : step c s a = some s') :
    (s'.channels.map TableEntry.chan).Nodup := by
  cases a with
  | deliverUp i connect wrote =>
    simp only [step, Option.bind_eq_some_iff, map_eq_some_iff] at hstep
    obtain ⟨instr, -, o, ho, rfl⟩ := hstep
    exact (handle_changed ho).nodup h
  | peer ev =>
    cases ev with
    | instruction => simp [step] at hstep
    | frame | exit | gone | switch | flush | resend | heartbeat =>
      simp only [step, map_eq_some_iff] at hstep
      obtain ⟨o, ho, rfl⟩ := hstep
      exact (handle_changed ho).nodup h
  | foreign chan ev =>
    simp only [step] at hstep
    split at hstep
    · cases hstep
    · obtain ⟨o, ho, rfl⟩ := map_eq_some_iff.1 hstep
      exact (handle_changed ho).nodup h
  | deliverDown i =>
    simp only [step, map_eq_some_iff] at hstep
    obtain ⟨d, -, rfl⟩ := hstep
    rw [(s.receive_channels i d).1]
    exact h
  | reestablish =>
    simp only [step] at hstep
    split at hstep
    · rw [← Option.some.inj hstep]
      exact List.nodup_nil
    · cases hstep
  | openSession | viewportMessage | viewportClose | sendOpen | openTimeout | sendClose | verdict =>
    simp only [step] at hstep
    repeat' split at hstep
    all_goals cases hstep
    all_goals exact h

theorem redriven_step (hstep : step c s a = some s') : s'.redriven = s.redriven ∨
    ∃ ss, s.session = some ss ∧ ss.confirmed = false ∧ s.reconnecting = false ∧
      s'.redriven = s.redriven ++ [(ss.target, s.homed)] := by
  cases a with
  | sendOpen =>
    simp only [step] at hstep
    split at hstep
    · cases hstep
    · rename_i ss hss
      split at hstep
      · cases hstep
      · rename_i hno
        rw [Bool.or_eq_true, Bool.or_eq_true, not_or, not_or] at hno
        obtain ⟨⟨hrec, hconf⟩, -⟩ := hno
        rw [← Option.some.inj hstep]
        simp only
        split
        · exact .inr ⟨ss, hss, Bool.eq_false_of_not_eq_true hconf, Bool.eq_false_of_not_eq_true hrec, rfl⟩
        · exact .inl rfl
  | deliverUp i connect wrote =>
    simp only [step, Option.bind_eq_some_iff, map_eq_some_iff] at hstep
    obtain ⟨instr, -, o, -, rfl⟩ := hstep
    exact .inl rfl
  | deliverDown i =>
    simp only [step, map_eq_some_iff] at hstep
    obtain ⟨d, -, rfl⟩ := hstep
    refine .inl ?_
    cases hss : s.session with
    | none => rw [MuxPair.receive, hss]
    | some ss =>
      obtain ⟨ss₁, msgs, -, -, heq⟩ := confirm_eq hss
      rw [MuxPair.receive, hss]
      simp only [heq]
      cases d <;> rfl
  | peer ev =>
    cases ev with
    | instruction => simp [step] at hstep
    | frame | exit | gone | switch | flush | resend | heartbeat =>
      simp only [step, map_eq_some_iff] at hstep
      obtain ⟨o, -, rfl⟩ := hstep
      exact .inl rfl
  | foreign chan ev =>
    simp only [step] at hstep
    split at hstep
    · cases hstep
    · obtain ⟨o, -, rfl⟩ := map_eq_some_iff.1 hstep
      exact .inl rfl
  | openSession | viewportMessage | viewportClose | openTimeout | sendClose | verdict | reestablish =>
    simp only [step] at hstep
    repeat' split at hstep
    all_goals cases hstep
    all_goals exact .inl rfl

theorem lands_step (h : Homing c s) (hstep : step c s a = some s') : Lands s' := by
  intro p hp target hhomed
  rcases redriven_step hstep with heq | ⟨ss, hss, hconf, hrec, heq⟩
  · exact h.lands p (heq ▸ hp) target hhomed
  · rw [heq] at hp
    rcases List.mem_append.1 hp with hp | hp
    · exact h.lands p hp target hhomed
    · obtain rfl := List.mem_singleton.1 hp
      obtain ⟨first, hw⟩ := h.wire ss hss
      obtain ⟨htarget, hfirst⟩ := hw.homed_of_quiet (hw.quiet hconf hrec)
      have hhomed' : s.homed = some target := hhomed
      rcases hfirst with hnone | hfirst
      · rw [hnone] at hhomed'
        cases hhomed'
      · rw [hhomed', Option.some.injEq] at hfirst
        exact htarget.trans hfirst.symm

/-- **A step keeps the session on its transport.** -/
theorem wire_step (h : Homing c s) (hok : keepsTarget s a = true) (hstep : step c s a = some s')
    (hss' : s'.session = some ss') : ∃ first, Wire c s' first ss' := by
  -- opening and re-establishing begin the wire anew, every other act carries on what it was
  cases a with
  | openSession target =>
    simp only [step] at hstep
    split at hstep
    · cases hstep
    · rename_i hno
      have hun := h.unopened (Bool.eq_false_of_not_eq_true hno)
      rw [← Option.some.inj hstep] at hss' ⊢
      obtain rfl := Option.some.inj hss'
      exact ⟨target, .start rfl (.inl hun.homed) hun.unknown hun.up hun.notice hun.followed⟩
  | viewportMessage msg =>
    simp only [step] at hstep
    cases hss : s.session with
    | none =>
      rw [hss] at hstep
      rw [← Option.some.inj hstep, hss] at hss'
      cases hss'
    | some ss =>
      obtain ⟨first, hw⟩ := h.wire ss hss
      rw [hss] at hstep
      simp only at hstep
      split at hstep <;> rw [← Option.some.inj hstep] at hss' ⊢
      · rename_i hconf
        obtain rfl : ss = ss' := Option.some.inj hss'
        exact ⟨first, hw.session ss [msg] (some ss) s.told rfl fun hno => by
          rw [hconf] at hno
          cases hno⟩
      · rw [← Option.some.inj hss']
        have hw' := hw.session { ss with queued := ss.queued ++ [msg] } []
          (some { ss with queued := ss.queued ++ [msg] }) s.told rfl fun hno => ⟨hno, rfl⟩
        rw [List.map_nil, List.append_nil] at hw'
        exact ⟨first, hw'⟩
  | viewportClose =>
    simp only [step] at hstep
    cases hss : s.session with
    | none =>
      rw [hss] at hstep
      rw [← Option.some.inj hstep, hss] at hss'
      cases hss'
    | some ss =>
      rw [hss] at hstep
      rw [← Option.some.inj hstep] at hss'
      cases hss'
  | sendOpen =>
    simp only [step] at hstep
    split at hstep
    · cases hstep
    · rename_i ss hss
      obtain ⟨first, hw⟩ := h.wire ss hss
      split at hstep
      · cases hstep
      · rename_i hno
        rw [Bool.or_eq_true, Bool.or_eq_true, not_or, not_or] at hno
        obtain ⟨⟨hrec, hconf⟩, -⟩ := hno
        have hquiet := hw.quiet (Bool.eq_false_of_not_eq_true hconf) (Bool.eq_false_of_not_eq_true hrec)
        rw [← Option.some.inj hstep] at hss' ⊢
        obtain rfl := Option.some.inj hss'
        refine ⟨first, { hw with opens := ?_, quiet := ?_ }⟩
        · intro target resume hmem
          rcases List.mem_append.1 hmem with hmem | hmem
          · exact hw.opens target resume hmem
          · obtain ⟨rfl, -⟩ : target = ss.target ∧ resume = ss.resume := by simpa using hmem
            exact (hw.homed_of_quiet hquiet).1
        · intro _ _
          refine ⟨fun msg hmem => ?_, hquiet.unlinked, hquiet.notice, hquiet.followed⟩
          rcases List.mem_append.1 hmem with hmem | hmem
          · exact hquiet.data msg hmem
          · simp at hmem
  | openTimeout =>
    simp only [step] at hstep
    repeat' split at hstep
    all_goals cases hstep
    all_goals cases hss'
  | sendClose =>
    simp only [step] at hstep
    split at hstep
    · cases hstep
    · split at hstep
      · cases hstep
      · rw [← Option.some.inj hstep] at hss' ⊢
        obtain ⟨first, hw⟩ := h.wire ss' hss'
        refine ⟨first, { hw with opens := ?_, quiet := ?_ }⟩
        · intro target resume hmem
          rcases List.mem_append.1 hmem with hmem | hmem
          · exact hw.opens target resume hmem
          · simp at hmem
        · intro hconf hrec
          have hquiet := hw.quiet hconf hrec
          refine ⟨fun msg hmem => ?_, hquiet.unlinked, hquiet.notice, hquiet.followed⟩
          rcases List.mem_append.1 hmem with hmem | hmem
          · exact hquiet.data msg hmem
          · simp at hmem
  | deliverUp i connect wrote =>
    simp only [step, Option.bind_eq_some_iff, map_eq_some_iff] at hstep
    obtain ⟨instr, hi, o, ho, rfl⟩ := hstep
    obtain ⟨first, hw⟩ := h.wire ss' hss'
    refine ⟨first, hw.afterPeer h.nodup ho ?_⟩
    rintro instr' connect' wrote' heq
    obtain ⟨rfl, -, -⟩ : instr = instr' ∧ connect = connect' ∧ wrote = wrote' := by
      simpa using heq
    exact List.mem_of_getElem? hi
  | peer ev =>
    cases ev with
    | instruction => simp [step] at hstep
    | frame | exit | gone | switch | flush | resend | heartbeat =>
      simp only [step, map_eq_some_iff] at hstep
      obtain ⟨o, ho, rfl⟩ := hstep
      obtain ⟨first, hw⟩ := h.wire ss' hss'
      exact ⟨first, hw.afterPeer h.nodup ho (by simp)⟩
  | foreign chan ev =>
    simp only [step] at hstep
    split at hstep
    · cases hstep
    · rename_i hne
      obtain ⟨o, ho, rfl⟩ := map_eq_some_iff.1 hstep
      have hentry := (handle_changed ho).entry_of_ne fun heq => hne heq.symm
      obtain ⟨first, hw⟩ := h.wire ss' hss'
      refine ⟨first, { hw with awaits := ?_, quiet := ?_ }⟩
      · intro target hl
        rw [linksTo, hentry] at hl
        exact hw.awaits target hl
      · intro hconf hrec
        have hquiet := hw.quiet hconf hrec
        refine ⟨hquiet.data, fun hl => hquiet.unlinked ?_, hquiet.notice, hquiet.followed⟩
        rw [isLinked, hentry] at hl
        exact hl
  | deliverDown i =>
    simp only [step, map_eq_some_iff] at hstep
    obtain ⟨d, hi, rfl⟩ := hstep
    cases hss : s.session with
    | none =>
      rw [MuxPair.receive, hss] at hss'
      simp only [hss] at hss'
      cases hss'
    | some ss =>
      obtain ⟨first, hw⟩ := h.wire ss hss
      exact ⟨first, hw.receive hss hi hss'⟩
  | verdict =>
    simp only [step] at hstep
    split at hstep
    · cases hstep
    · rw [← Option.some.inj hstep] at hss' ⊢
      obtain ⟨ss, hss, rfl⟩ := map_eq_some_iff.1 hss'
      obtain ⟨first, hw⟩ := h.wire ss hss
      exact ⟨first, { hw with quiet := by simp }⟩
  | reestablish =>
    simp only [step] at hstep
    split at hstep
    · rw [← Option.some.inj hstep] at hss' ⊢
      have hss : s.session = some ss' := hss'
      obtain ⟨first, hw⟩ := h.wire ss' hss
      have heq : s.followed.bind (s.down[·]?) = s.notice.bind (s.down[·]?) := by
        simpa [keepsTarget, hss] using hok
      exact ⟨ss'.target, .start rfl (hw.homed_of_followed heq) rfl rfl rfl rfl⟩
    · cases hstep

/-- **A step that meets the condition keeps the target.** -/
theorem homing_step (h : Homing c s) (hok : keepsTarget s a = true) (hstep : step c s a = some s') :
    Homing c s' where
  nodup := nodup_step h.nodup hstep
  lands := lands_step h hstep
  unopened := by
    intro hno
    have hopened : s.opened = false := by
      rcases (frame_step hstep).opened with heq | heq
      · exact heq ▸ hno
      · rw [heq] at hno
        cases hno
    rcases (h.unopened hopened).step hstep with hun | ⟨target, rfl⟩
    · exact hun
    · simp only [step, hopened, Bool.false_eq_true, if_false, Option.some.injEq] at hstep
      rw [← hstep] at hno
      cases hno
  wire := fun _ hss' => wire_step h hok hstep hss'

end Step

/-! ### A reconnect lands in the session the viewport is in -/

/-- **A reconnect lands in the session the viewport is in, for the runs whose steps meet the condition**:
in every order in which the messages of both ends arrive, with any of them lost, duplicated or late, and
the transport rebuilt at any moment. -/
theorem lands_of_keepsTarget (c : ℕ) (as : List Act) {s : MuxPair}
    (hok : Runs.AllOk (fun s a => keepsTarget s a = true) (step c) {} as)
    (hrun : Runs.exec (step c) {} as = some s) : Lands s :=
  (Runs.exec_invariant_of_allOk (fun _ _ _ h hok hstep => homing_step h hok hstep) (homing_init c) hok
    hrun).lands

/-! ### A reconnect that lands elsewhere -/

/-- A session on channel 2 is opened on one target, confirmed and linked; the daemon moves the viewport
to another. -/
def switchRun : List Act :=
  [.openSession [97], .sendOpen, .deliverUp 0 (.ok ()) 0, .deliverDown 0,
    .viewportMessage PeerLoop.typedMessage, .deliverUp 1 (.ok ()) 0, .peer (.switch [98] (.ok ()))]

/-- The transport is given up, and the OPEN is sent on the next. -/
def redriveRun : List Act := [.verdict, .reestablish, .sendOpen]

/-- **When the SWITCH is lost, the OPEN names the session the viewport was moved out of.** -/
theorem lands_fails : ∃ s, Runs.exec (step 2) {} (switchRun ++ redriveRun) = some s ∧
    s.redriven = [([97], some [98])] ∧ ¬ Lands s := by
  refine ⟨_, rfl, rfl, ?_⟩
  intro h
  have hlands := h ([97], some [98]) List.mem_cons_self [98] rfl
  cases hlands

/-- When it arrives, the OPEN names the session the viewport was moved to. -/
theorem lands_switchRun : ∃ s, Runs.exec (step 2) {} (switchRun ++ .deliverDown 1 :: redriveRun) = some s ∧
      s.redriven = [([98], some [98])] ∧ Lands s :=
  ⟨_, rfl, rfl, lands_of_keepsTarget 2 (switchRun ++ .deliverDown 1 :: redriveRun) (by decide) rfl⟩

end MuxPair

end Posh
