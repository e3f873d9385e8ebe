/-
**The channel table of the remote mux peer.**

The remote end of a shared connection carries one session for each channel ordinal.  Its table has an
entry for every ordinal it knows: opened and waiting for the first message, or bridged to a session
daemon.  An instruction on an ordinal opens, feeds or closes; a message of the daemon goes out on the
ordinal, and the end of the daemon takes the entry out of the table.

The table remembers nothing of an ordinal it has dropped.  An OPEN that was sent again before the first
one was confirmed, and arrives after the ordinal was closed, therefore opens it a second time, and the
messages sent again after it feed their input to a second daemon connection, from the offset the OPEN
quotes.  As long as no OPEN finds room for an ordinal that was dropped (`PeerLoop.reopens`), a closed
ordinal stays closed and no byte is written twice.
-/

import Mathlib.Data.List.Nodup
import Posh.SessionResume

set_option autoImplicit false

namespace Posh

open List (find?_cons map_cons)

/-! ### Instructions and entries -/

/-- An instruction of the client on a session channel; one that does not decode is `other`. -/
inductive SessionInstruction where
  /-- opens the channel, on a target, at the cursor of a reconnect -/
  | open_ (target : Bytes) (resume : SessionResume)
  | data (msg : ClientMessage)
  | close
  | other
  deriving DecidableEq, Repr

/-- An instruction of the peer on a session channel. -/
inductive PeerInstruction where
  | data (frame : ServerFrame)
  /-- the channel moved to another session -/
  | switch (target : Bytes)
  | close (payload : Bytes)
  deriving DecidableEq, Repr

/-- A session channel of the table. -/
inductive TableEntry where
  /-- opened, and waiting for the first message -/
  | awaiting (chan : ℕ) (target : Bytes) (resume : SessionResume)
  /-- bridged to a session daemon -/
  | linked (chan : ℕ) (bridge : SessionBridge)

namespace TableEntry

/-- The ordinal of an entry. -/
def chan : TableEntry → ℕ
  | awaiting chan _ _ => chan
  | linked chan _ => chan

/-- The flags of a confirmation: a bridge's own. -/
def confirmFlags : TableEntry → UInt8
  | awaiting _ _ _ => 0
  | linked _ b => b.frameFlags

/-- The bridge an entry's messages go to: its own, or the one it is linked to now. -/
def bridge : TableEntry → SessionBridge
  | awaiting _ _ resume => .link resume.frame resume.input
  | linked _ b => b

/-- The offset of the input an entry expects: its bridge's, or where its bridge will resume it. -/
def expected (e : TableEntry) : ℕ := e.bridge.inbox.next

/-- The target an entry is linked to by its first message. -/
def linksTo : TableEntry → Option Bytes
  | awaiting _ target _ => some target
  | linked _ _ => none

end TableEntry

/-! ### The table -/

/-- The peer's session channels, in the order they were opened. -/
abbrev ChannelTable := List TableEntry

/-- How many session channels a connection carries at most. -/
def maxSessionChannels : ℕ := 16

/-- What an event does: the table afterwards, the instructions sent on the event's ordinal, the
records written to its daemon's socket, and, for the history, the offsets of the input it accepted and
the target its bridge was homed on. -/
structure PeerOutcome where
  channels : ChannelTable
  sent : List PeerInstruction := []
  written : List DaemonRecord := []
  accepted : List ℕ := []
  homed : Option Bytes := none

namespace ChannelTable

def entry (t : ChannelTable) (chan : ℕ) : Option TableEntry := t.find? fun e => e.chan == chan

/-- The table without the entry of an ordinal. -/
def remove (t : ChannelTable) (chan : ℕ) : ChannelTable := t.eraseP fun e => e.chan == chan

/-- The entry of an ordinal is replaced. -/
def set (t : ChannelTable) (chan : ℕ) (e : TableEntry) : ChannelTable :=
  match t with
  | [] => []
  | x :: t => if x.chan = chan then e :: t else x :: set t chan e

/-- The answer to an OPEN: an empty frame. -/
def confirmation (e : Option TableEntry) : PeerInstruction :=
  .data { flags := (e.map TableEntry.confirmFlags).getD 0, frameNum := 0, body := .empty }

/-- A message goes to a bridge; `wrote` records reach the socket when it is the last one. -/
def bridgeMessage (t : ChannelTable) (chan : ℕ) (b : SessionBridge) (msg : ClientMessage)
    (wrote : ℕ) : PeerOutcome :=
  let r := b.clientMessage msg
  let accepted := List.range' b.inbox.next (r.2.inbox.next - b.inbox.next)
  if r.1 then { channels := t.set chan (.linked chan r.2), accepted }
  else
    { channels := t.remove chan
      sent := [.close []]
      written := r.2.daemon.write.take wrote
      accepted }

/-- **An instruction of the client**: OPEN admits, within the bound, or is confirmed again; DATA goes to
the bridge, which is linked by the first one (`connect` is how the daemon answers); CLOSE drops the
channel.  What is still unwritten then is offered to the daemon's socket once, which takes `wrote`
records. -/
def handleSessionInstruction (t : ChannelTable) (chan : ℕ) (connect : Except Bytes Unit)
    (wrote : ℕ) : SessionInstruction → PeerOutcome
  | .open_ target resume =>
    match t.entry chan with
    | none =>
      if t.length ≥ maxSessionChannels then
        { channels := t, sent := [.close "session channel table full".toUTF8.toList] }
      else
        { channels := t ++ [.awaiting chan target resume], sent := [confirmation none] }
    | some e => { channels := t, sent := [confirmation (some e)] }
  | .data msg =>
    match t.entry chan with
    -- a straggler on a closed or unknown channel
    | none => { channels := t }
    | some (.awaiting _ target resume) =>
      match connect with
      | .ok () =>
        { t.bridgeMessage chan (.link resume.frame resume.input) msg wrote with
          homed := some target }
      | .error e =>
        { channels := t.remove chan, sent := [.close ("open failed: ".toUTF8.toList ++ e)] }
    | some (.linked _ b) => t.bridgeMessage chan b msg wrote
  | .close =>
    match t.entry chan with
    | none => { channels := t }
    | some (.awaiting _ _ _) => { channels := t.remove chan }
    | some (.linked _ b) =>
      { channels := t.remove chan, written := b.daemon.write.take wrote }
  | .other => { channels := t }

end ChannelTable

open ChannelTable

/-! ### Everything that can happen to the table -/

/-- An event of the peer's loop; the clocks and the sockets decide which comes when. -/
inductive PeerEvent where
  /-- an instruction of the client arrives -/
  | instruction (i : SessionInstruction) (connect : Except Bytes Unit) (wrote : ℕ)
  /-- the daemon sends a frame -/
  | frame (f : ServerFrame) (echoAck : ℕ)
  /-- the session ends: the last frame goes out ahead of the close -/
  | exit (echoAck : ℕ) (caps : List Cap) (payload : Bytes)
  /-- the daemon's socket is closed, or fails, or the daemon does not frame -/
  | gone (payload : Bytes)
  /-- the daemon moves the viewport to another session -/
  | switch (target : Bytes) (connect : Except Bytes Unit)
  /-- `n` records pass to the daemon's socket -/
  | flush (n : ℕ)
  /-- the frames held are sent again -/
  | resend
  /-- an empty frame is sent -/
  | heartbeat (echoAck : ℕ)

def flagShutdown : UInt8 := 1

namespace ChannelTable

/-- What an event does to a linked channel; `none` when it cannot happen. -/
def handleLinked (t : ChannelTable) (chan : ℕ) (b : SessionBridge) : PeerEvent → PeerOutcome
  | .instruction i connect wrote => t.handleSessionInstruction chan connect wrote i
  | .frame f echoAck =>
    let r := b.forwardFrame echoAck f
    { channels := t.set chan (.linked chan r.2), sent := [.data r.1] }
  | .exit echoAck caps payload =>
    { channels := t.remove chan
      sent := [.data { (b.heartbeat echoAck) with flags := flagShutdown, caps }, .close payload] }
  | .gone payload => { channels := t.remove chan, sent := [.close payload] }
  | .switch target connect =>
    match connect with
    | .ok () =>
      { channels := t.set chan (.linked chan b.rehome)
        sent := [.switch target]
        homed := some target }
    | .error e =>
      { channels := t.remove chan
        sent := [.close ("switch target unreachable: ".toUTF8.toList ++ e)] }
  | .flush n =>
    { channels := t.set chan (.linked chan
        { b with daemon := { b.daemon with write := b.daemon.write.drop n } })
      written := b.daemon.write.take n }
  | .resend => { channels := t, sent := b.daemon.held.frames.map .data }
  | .heartbeat echoAck =>
    { channels := t.set chan (.linked chan { b with daemon := { b.daemon with ackDue := false } })
      sent := [.data (b.heartbeat echoAck)] }

/-- **An event on a channel**: an instruction can come on any channel, the others only on a linked
one. -/
def handle (t : ChannelTable) (chan : ℕ) (ev : PeerEvent) : Option PeerOutcome :=
  match ev, t.entry chan with
  | .instruction i connect wrote, _ => some (t.handleSessionInstruction chan connect wrote i)
  | ev, some (.linked _ b) => some (t.handleLinked chan b ev)
  | _, _ => none

/-! ### The entry of an ordinal -/

variable {t : ChannelTable} {chan c : ℕ} {e : TableEntry} {o : PeerOutcome} {ev : PeerEvent} {t' : ChannelTable}

theorem chan_of_entry (h : t.entry c = some e) : e.chan = c := by
  simpa using List.find?_some h

theorem entry_eq_none : t.entry c = none ↔ c ∉ t.map TableEntry.chan := by
  simp [entry, List.find?_eq_none]

theorem entry_remove_of_ne (hne : c ≠ chan) : (t.remove chan).entry c = t.entry c := by
  induction t with
  | nil => rfl
  | cons x t ih =>
    unfold remove entry at ih ⊢
    by_cases hx : x.chan = chan
    · have hc : (x.chan == c) = false := by simpa [hx] using fun h => hne h.symm
      rw [List.eraseP_cons_of_pos (by simpa using hx), find?_cons, hc]
    · rw [List.eraseP_cons_of_neg (by simpa using hx), find?_cons, find?_cons, ih]

theorem entry_remove_self (hnodup : (t.map TableEntry.chan).Nodup) : (t.remove chan).entry chan = none := by
  rw [entry_eq_none]
  induction t with
  | nil => simp [remove]
  | cons x t ih =>
    rw [map_cons, List.nodup_cons] at hnodup
    unfold remove at ih ⊢
    by_cases hx : x.chan = chan
    · rw [List.eraseP_cons_of_pos (by simpa using hx), ← hx]
      exact hnodup.1
    · rw [List.eraseP_cons_of_neg (by simpa using hx), map_cons, List.mem_cons, not_or]
      exact ⟨fun h => hx h.symm, ih hnodup.2⟩

theorem nodup_remove (hnodup : (t.map TableEntry.chan).Nodup) : ((t.remove chan).map TableEntry.chan).Nodup :=
  hnodup.sublist (List.eraseP_sublist.map _)

theorem map_chan_set (he : e.chan = chan) : (t.set chan e).map TableEntry.chan = t.map TableEntry.chan := by
  induction t with
  | nil => rfl
  | cons x t ih =>
    unfold set
    split
    case isTrue h => rw [map_cons, map_cons, he, h]
    case isFalse => rw [map_cons, map_cons, ih]

theorem entry_set_of_ne (hne : c ≠ chan) (he : e.chan = chan) : (t.set chan e).entry c = t.entry c := by
  induction t with
  | nil => rfl
  | cons x t ih =>
    have hc : ∀ y : TableEntry, y.chan = chan → (y.chan == c) = false := by
      intro y hy
      simpa [hy] using fun h => hne h.symm
    unfold set
    split
    case isTrue h => simp only [entry, find?_cons, hc e he, hc x h]
    case isFalse =>
        unfold entry at ih ⊢
        rw [find?_cons, find?_cons, ih]

theorem entry_set_self (he : e.chan = chan) {e₀ : TableEntry} (h : t.entry chan = some e₀) :
    (t.set chan e).entry chan = some e := by
  induction t with
  | nil => cases h
  | cons x t ih =>
    unfold set
    split
    case isTrue => simp [entry, he]
    case isFalse hx =>
        have hx' : (x.chan == chan) = false := by simpa using hx
        unfold entry at ih h ⊢
        rw [find?_cons, hx'] at h ⊢
        exact ih h

theorem entry_append_of_ne (hne : c ≠ chan) (he : e.chan = chan) : entry (t ++ [e]) c = t.entry c := by
  have hc : (e.chan == c) = false := by simpa [he] using fun h => hne h.symm
  simp [entry, List.find?_append, hc]

/-! ### What an event does to the table -/

/-- The table after an event: as it was, or the entry replaced, taken out or added. -/
inductive Changed (t : ChannelTable) (chan : ℕ) : ChannelTable → Prop where
  | same : Changed t chan t
  | set {e : TableEntry} (he : e.chan = chan) : Changed t chan (t.set chan e)
  | removed : Changed t chan (t.remove chan)
  | opened {e : TableEntry} (he : e.chan = chan) (hnew : t.entry chan = none) :
      Changed t chan (t ++ [e])

theorem Changed.entry_of_ne (h : Changed t chan t') (hne : c ≠ chan) : t'.entry c = t.entry c := by
  cases h with
  | same => rfl
  | set he => exact entry_set_of_ne hne he
  | removed => exact entry_remove_of_ne hne
  | opened he _ => exact entry_append_of_ne hne he

theorem Changed.nodup (h : Changed t chan t')
    (hnodup : (t.map TableEntry.chan).Nodup) : (t'.map TableEntry.chan).Nodup := by
  cases h with
  | same => exact hnodup
  | set he =>
    rw [map_chan_set he]
    exact hnodup
  | removed => exact nodup_remove hnodup
  | opened he hnew =>
    rw [List.map_append, List.nodup_append]
    refine ⟨hnodup, List.nodup_singleton _, ?_⟩
    rintro a ha b hb rfl
    rw [List.map_singleton, List.mem_singleton, he] at hb
    exact entry_eq_none.1 hnew (hb ▸ ha)

theorem bridgeMessage_changed (b : SessionBridge) (msg : ClientMessage) (wrote : ℕ) :
    Changed t chan (t.bridgeMessage chan b msg wrote).channels := by
  unfold bridgeMessage
  simp only
  split
  · exact .set rfl
  · exact .removed

theorem handleSessionInstruction_changed (connect : Except Bytes Unit) (wrote : ℕ) (i : SessionInstruction) :
    Changed t chan (t.handleSessionInstruction chan connect wrote i).channels := by
  cases i with
  | open_ target resume =>
    rw [handleSessionInstruction]
    cases h : t.entry chan with
    | none =>
      simp only
      split
      · exact .same
      · exact .opened rfl h
    | some e => exact .same
  | data msg =>
    rw [handleSessionInstruction]
    cases t.entry chan with
    | none => exact .same
    | some e =>
      cases e with
      | awaiting _ target resume =>
        cases connect with
        | ok => exact bridgeMessage_changed _ _ _
        | error e => exact .removed
      | linked _ b => exact bridgeMessage_changed _ _ _
  | close =>
    rw [handleSessionInstruction]
    cases t.entry chan with
    | none => exact .same
    | some e => cases e <;> exact .removed
  | other => exact .same

theorem handleLinked_changed (b : SessionBridge) (ev : PeerEvent) :
    Changed t chan (t.handleLinked chan b ev).channels := by
  cases ev with
  | instruction i connect wrote => exact handleSessionInstruction_changed connect wrote i
  | frame | flush | heartbeat => exact .set rfl
  | exit | gone => exact .removed
  | resend => exact .same
  | switch target connect =>
    cases connect with
    | ok => exact .set rfl
    | error e => exact .removed

theorem handle_changed (h : t.handle chan ev = some o) : Changed t chan o.channels := by
  unfold handle at h
  split at h
  · rw [← Option.some.inj h]
    exact handleSessionInstruction_changed _ _ _
  · rw [← Option.some.inj h]
    exact handleLinked_changed _ _
  · cases h

/-! ### What an event does to the input -/

/-- An event puts an entry for its ordinal into the table. -/
def opens (t : ChannelTable) (chan : ℕ) : PeerEvent → Bool
  | .instruction (.open_ _ _) _ _ => (t.entry chan).isNone && decide (t.length < maxSessionChannels)
  | _ => false

/-- What an event does to the input of a channel whose entry expects the offset `n`: the input it
accepts starts there, and a channel that stays expects the offset after it. -/
def Feeds (chan n : ℕ) (o : PeerOutcome) : Prop :=
  ∃ k, o.accepted = List.range' n k ∧ (o.channels.entry chan = none ∨
      ∃ e, o.channels.entry chan = some e ∧ e.expected = n + k)

theorem Feeds.dropped {n : ℕ} (hacc : o.accepted = []) (h : o.channels.entry chan = none) : Feeds chan n o :=
  ⟨0, hacc, .inl h⟩

theorem Feeds.kept {n : ℕ} (hacc : o.accepted = [])
    (h : o.channels.entry chan = some e) (he : e.expected = n) : Feeds chan n o :=
  ⟨0, hacc, .inr ⟨e, h, he⟩⟩

theorem bridgeMessage_feeds (hnodup : (t.map TableEntry.chan).Nodup) (b : SessionBridge)
    (msg : ClientMessage) (wrote : ℕ) (h : t.entry chan = some e) : Feeds chan b.inbox.next (t.bridgeMessage chan b msg wrote) := by
  have hle : b.inbox.next ≤ (b.clientMessage msg).2.inbox.next := b.acceptInput_inbox_le _ _
  refine ⟨(b.clientMessage msg).2.inbox.next - b.inbox.next, ?_, ?_⟩
  · unfold bridgeMessage
    simp only
    split <;> rfl
  · unfold bridgeMessage
    simp only
    split
    · refine .inr ⟨_, entry_set_self rfl h, ?_⟩
      show (b.clientMessage msg).2.inbox.next = _
      omega
    · exact .inl (entry_remove_self hnodup)

theorem handleSessionInstruction_feeds (hnodup : (t.map TableEntry.chan).Nodup)
    (connect : Except Bytes Unit) (wrote : ℕ) (i : SessionInstruction) (h : t.entry chan = some e) :
    Feeds chan e.expected (t.handleSessionInstruction chan connect wrote i) := by
  cases i with
  | open_ target resume =>
    rw [handleSessionInstruction, h]
    exact .kept rfl h rfl
  | data msg =>
    rw [handleSessionInstruction, h]
    cases e with
    | awaiting chan' target resume =>
      cases connect with
      | ok =>
        obtain ⟨k, hacc, hentry⟩ := bridgeMessage_feeds hnodup
          (.link resume.frame resume.input) msg wrote h
        exact ⟨k, hacc, hentry⟩
      | error => exact .dropped rfl (entry_remove_self hnodup)
    | linked chan' b => exact bridgeMessage_feeds hnodup b msg wrote h
  | close =>
    rw [handleSessionInstruction, h]
    cases e <;> exact .dropped rfl (entry_remove_self hnodup)
  | other => exact .kept rfl h rfl

theorem handleLinked_feeds (hnodup : (t.map TableEntry.chan).Nodup) {b : SessionBridge}
    (ev : PeerEvent) (h : t.entry chan = some (.linked chan b)) : Feeds chan b.inbox.next (t.handleLinked chan b ev) := by
  cases ev with
  | instruction i connect wrote => exact handleSessionInstruction_feeds hnodup connect wrote i h
  | frame | flush | heartbeat => exact .kept rfl (entry_set_self rfl h) rfl
  | exit | gone => exact .dropped rfl (entry_remove_self hnodup)
  | resend => exact .kept rfl h rfl
  | switch target connect =>
    cases connect with
    | ok => exact .kept rfl (entry_set_self rfl h) rfl
    | error => exact .dropped rfl (entry_remove_self hnodup)

/-- **What an event does to the input of a channel that is open.** -/
theorem handle_feeds (hnodup : (t.map TableEntry.chan).Nodup)
    (ho : t.handle chan ev = some o) (h : t.entry chan = some e) : Feeds chan e.expected o := by
  unfold handle at ho
  split at ho
  · rw [← Option.some.inj ho]
    exact handleSessionInstruction_feeds hnodup _ _ _ h
  · rename_i chan' b _ hb
    rw [h, Option.some.injEq] at hb
    subst hb
    have hchan : chan' = chan := chan_of_entry h
    subst hchan
    rw [← Option.some.inj ho]
    exact handleLinked_feeds hnodup _ h
  · cases ho

/-- **What an event does on an ordinal the table does not know**: nothing is accepted or written, and
only an OPEN that finds room makes it known. -/
theorem handle_unknown (ho : t.handle chan ev = some o)
    (h : t.entry chan = none) : o.accepted = [] ∧ o.written = [] ∧
      (t.opens chan ev = false → o.channels.entry chan = none) := by
  unfold handle at ho
  split at ho
  · rename_i i connect wrote
    rw [← Option.some.inj ho]
    cases i with
    | open_ target resume =>
      rw [handleSessionInstruction, h]
      simp only
      split
      · exact ⟨rfl, rfl, fun _ => h⟩
      · rename_i hroom
        refine ⟨rfl, rfl, fun hno => ?_⟩
        simp [opens, h] at hno
        omega
    | data | close =>
      rw [handleSessionInstruction, h]
      exact ⟨rfl, rfl, fun _ => h⟩
    | other => exact ⟨rfl, rfl, fun _ => h⟩
  · rename_i hb
    rw [h] at hb
    cases hb
  · cases ho

end ChannelTable

/-! ### The history of one ordinal -/

/-- The table, with the history of one ordinal. -/
structure PeerLoop where
  channels : ChannelTable := []
  /-- a CLOSE of the ordinal was processed -/
  closed : Bool := false
  /-- the ordinal was closed, or its entry left the table -/
  dropped : Bool := false
  /-- the offsets of the input accepted and not written yet -/
  pending : List ℕ := []
  /-- the offsets of the input written to a daemon, in the order of writing -/
  fed : List ℕ := []

namespace PeerLoop

/-- The arrival of a CLOSE. -/
def isClose : PeerEvent → Bool
  | .instruction .close _ _ => true
  | _ => false

/-- A fresh daemon connection, which starts with nothing unwritten. -/
def isRehome : PeerEvent → Bool
  | .switch _ (.ok ()) => true
  | _ => false

/-- What an event does to the history of its ordinal. -/
def record (c : ℕ) (s : PeerLoop) (ev : PeerEvent) (o : PeerOutcome) : PeerLoop :=
  let pending := s.pending ++ o.accepted
  let n := (inputOf o.written).length
  let left := (s.channels.entry c).isSome && (o.channels.entry c).isNone
  { channels := o.channels
    closed := s.closed || isClose ev
    dropped := s.dropped || isClose ev || left
    pending := if left || isRehome ev then [] else pending.drop n
    fed := s.fed ++ pending.take n }

/-- One event, on the ordinal `c` whose history is kept or on another. -/
def step (c : ℕ) (s : PeerLoop) (a : ℕ × PeerEvent) : Option PeerLoop :=
  (s.channels.handle a.1 a.2).map fun o =>
    if a.1 = c then s.record c a.2 o else { s with channels := o.channels }

/-- **The condition on the steps**: no OPEN of the ordinal finds room in the table after the ordinal was
closed or its entry left the table. -/
def reopens (c : ℕ) (s : PeerLoop) (a : ℕ × PeerEvent) : Bool :=
  decide (a.1 = c) && s.dropped && s.channels.opens c a.2

/-- **A closed channel stays closed**, and no input byte was written twice. -/
structure ClosedStaysClosed (c : ℕ) (s : PeerLoop) : Prop where
  absent : s.closed = true → s.channels.entry c = none
  once : s.fed.Nodup

/-! ### The invariant -/

/-- What holds of every run whose steps meet the condition. -/
structure Inv (c : ℕ) (s : PeerLoop) : Prop where
  nodup : (s.channels.map TableEntry.chan).Nodup
  absent : s.dropped = true → s.channels.entry c = none
  closed : s.closed = true → s.dropped = true
  /-- before the ordinal is opened nothing is fed -/
  fresh : s.channels.entry c = none → s.pending = []
  sorted : (s.fed ++ s.pending).Pairwise (· < ·)
  /-- what was accepted is below the offset expected -/
  below : ∀ e, s.channels.entry c = some e → ∀ n ∈ s.fed ++ s.pending, n < e.expected
  unfed : s.channels.entry c = none → s.dropped = false → s.fed = []

theorem inv_init (c : ℕ) : Inv c {} where
  nodup := List.nodup_nil
  absent := fun h => by cases h
  closed := fun h => by cases h
  fresh := fun _ => rfl
  sorted := List.Pairwise.nil
  below := fun e h => by cases h
  unfed := fun _ _ => rfl

theorem entry_of_isClose {t : ChannelTable} {chan : ℕ} {ev : PeerEvent} {o : PeerOutcome}
    (hnodup : (t.map TableEntry.chan).Nodup) (ho : t.handle chan ev = some o)
    (hclose : isClose ev = true) : o.channels.entry chan = none := by
  unfold isClose at hclose
  split at hclose
  · rw [handle, Option.some.injEq] at ho
    rw [← ho, handleSessionInstruction]
    cases hentry : t.entry chan with
    | none => exact hentry
    | some e => cases e <;> exact entry_remove_self hnodup
  · cases hclose

theorem opens_of_isClose {t : ChannelTable} {chan : ℕ} {ev : PeerEvent} (h : isClose ev = true) :
    t.opens chan ev = false := by
  unfold isClose at h
  split at h
  · rfl
  · cases h

section Step

variable {c : ℕ} {s : PeerLoop} {ev : PeerEvent} {o : PeerOutcome}

theorem inv_foreign (h : Inv c s) {chan : ℕ} (hne : c ≠ chan) (ho : s.channels.handle chan ev = some o) :
    Inv c { s with channels := o.channels } := by
  have hchanged := handle_changed ho
  have hentry := hchanged.entry_of_ne hne
  exact
    { nodup := hchanged.nodup h.nodup
      absent := fun hd => hentry.trans (h.absent hd)
      closed := h.closed
      fresh := fun hno => h.fresh (hentry ▸ hno)
      sorted := h.sorted
      below := fun e he => h.below e (hentry ▸ he)
      unfed := fun hno => h.unfed (hentry ▸ hno) }

theorem inv_unknown (h : Inv c s) (ho : s.channels.handle c ev = some o)
    (hnone : s.channels.entry c = none) (hok : s.dropped = true → s.channels.opens c ev = false) :
    Inv c (s.record c ev o) := by
  obtain ⟨hacc, hwritten, hopens⟩ := handle_unknown ho hnone
  have hpending := h.fresh hnone
  have hfed : (s.record c ev o).fed = s.fed := by simp [record, hacc, hwritten, hpending]
  have hpending' : (s.record c ev o).pending = [] := by simp [record, hacc, hpending]
  have hdropped : (s.record c ev o).dropped = (s.dropped || isClose ev) := by
    simp [record, hnone]
  have hsome : ∀ e, o.channels.entry c = some e → s.dropped = false := by
    intro e he
    by_contra hd
    rw [hopens (hok (Bool.eq_true_of_not_eq_false hd))] at he
    cases he
  refine
    { nodup := (handle_changed ho).nodup h.nodup
      absent := ?_
      closed := ?_
      fresh := fun _ => hpending'
      sorted := ?_
      below := ?_
      unfed := ?_ }
  · intro hd
    rw [hdropped, Bool.or_eq_true] at hd
    rcases hd with hd | hd
    · exact hopens (hok hd)
    · exact hopens (opens_of_isClose hd)
  · intro hc
    have hc' : s.closed = true ∨ isClose ev = true := by simpa [record] using hc
    rw [hdropped]
    rcases hc' with hc' | hc'
    · rw [h.closed hc', Bool.true_or]
    · rw [hc', Bool.or_true]
  · rw [hfed, hpending', ← hpending]
    exact h.sorted
  · intro e he n hn
    rw [hfed, hpending', h.unfed hnone (hsome e he)] at hn
    cases hn
  · intro _ hd
    rw [hdropped, Bool.or_eq_false_iff] at hd
    rw [hfed]
    exact h.unfed hnone hd.1

/-- What is accepted after a sorted history below the offset expected keeps it sorted, below the offset
expected then. -/
theorem sorted_append_range' {l : List ℕ} {n : ℕ} (hsorted : l.Pairwise (· < ·))
    (hbelow : ∀ x ∈ l, x < n) (k : ℕ) : (l ++ List.range' n k).Pairwise (· < ·) ∧
      ∀ x ∈ l ++ List.range' n k, x < n + k := by
  constructor
  · refine List.pairwise_append.2 ⟨hsorted, List.pairwise_lt_range', ?_⟩
    intro x hx y hy
    have hxn := hbelow x hx
    have hyn := List.mem_range'_1.1 hy
    omega
  · intro x hx
    rcases List.mem_append.1 hx with hx | hx
    · have hxn := hbelow x hx
      omega
    · exact (List.mem_range'_1.1 hx).2

theorem inv_open (h : Inv c s) (ho : s.channels.handle c ev = some o) {e : TableEntry}
    (he : s.channels.entry c = some e) : Inv c (s.record c ev o) := by
  obtain ⟨k, hacc, hentry⟩ := handle_feeds h.nodup ho he
  have hlive : s.dropped = false := by
    by_contra hd
    rw [h.absent (Bool.eq_true_of_not_eq_false hd)] at he
    cases he
  obtain ⟨hsorted, hbelow⟩ := sorted_append_range' h.sorted (h.below e he) k
  rw [List.append_assoc, ← hacc] at hsorted hbelow
  -- what is fed and pending afterwards is what was, with the input accepted, or a part of it
  have hsub : ((s.record c ev o).fed ++ (s.record c ev o).pending).Sublist
      (s.fed ++ (s.pending ++ o.accepted)) := by
    simp only [record, List.append_assoc]
    refine List.Sublist.append (List.Sublist.refl _) ?_
    split
    · rw [List.append_nil]
      exact List.take_sublist _ _
    · rw [List.take_append_drop]
  have hdropped : (s.record c ev o).dropped = (isClose ev || (o.channels.entry c).isNone) := by
    simp [record, he, hlive]
  refine
    { nodup := (handle_changed ho).nodup h.nodup
      absent := ?_
      closed := ?_
      fresh := ?_
      sorted := hsorted.sublist hsub
      below := ?_
      unfed := ?_ }
  · intro hd
    rw [hdropped, Bool.or_eq_true, Option.isNone_iff_eq_none] at hd
    rcases hd with hd | hd
    · exact entry_of_isClose h.nodup ho hd
    · exact hd
  · intro hc
    have hc' : s.closed = true ∨ isClose ev = true := by simpa [record] using hc
    rw [hdropped]
    rcases hc' with hc' | hc'
    · rw [h.closed hc'] at hlive
      cases hlive
    · rw [hc', Bool.true_or]
  · intro hnone
    have hnone' : o.channels.entry c = none := hnone
    simp [record, he, hnone']
  · intro e' he' n hn
    have hn' := hbelow n (hsub.subset hn)
    rcases hentry with hnone | ⟨e₁, he₁, hexp⟩
    · rw [show (s.record c ev o).channels = o.channels from rfl, hnone] at he'
      cases he'
    · rw [show (s.record c ev o).channels = o.channels from rfl, he₁, Option.some.injEq] at he'
      rw [← he', hexp]
      exact hn'
  · intro hnone hd
    have hnone' : o.channels.entry c = none := hnone
    rw [hdropped, hnone'] at hd
    simp at hd

/-- **A step that meets the condition keeps the invariant.** -/
theorem inv_step {s' : PeerLoop} {a : ℕ × PeerEvent} (h : Inv c s) (hok : reopens c s a = false)
    (hstep : step c s a = some s') : Inv c s' := by
  obtain ⟨chan, ev⟩ := a
  rw [step, Option.map_eq_some_iff] at hstep
  obtain ⟨o, ho, rfl⟩ := hstep
  simp only at ho ⊢
  split
  case isTrue hchan =>
    subst hchan
    cases he : s.channels.entry chan with
    | none =>
      refine inv_unknown h ho he fun hd => ?_
      simpa [reopens, hd] using hok
    | some e => exact inv_open h ho he
  case isFalse hchan => exact inv_foreign h (fun heq => hchan heq.symm) ho

end Step

/-! ### A closed channel stays closed -/

/-- **A closed channel stays closed, for the runs whose steps meet the condition**: in every order in
which the instructions of any channel arrive and the daemons answer. -/
theorem closedStaysClosed_of_not_reopens (c : ℕ) (as : List (ℕ × PeerEvent)) {s : PeerLoop}
    (hok : Runs.AllOk (fun s a => reopens c s a = false) (step c) {} as)
    (hrun : Runs.exec (step c) {} as = some s) : ClosedStaysClosed c s := by
  have hinv : Inv c s :=
    Runs.exec_invariant_of_allOk (fun _ _ _ h hok hstep => inv_step h hok hstep) (inv_init c) hok hrun
  refine ⟨fun hclosed => hinv.absent (hinv.closed hclosed), ?_⟩
  exact (List.pairwise_append.1 hinv.sorted).1.imp fun hlt => Nat.ne_of_lt hlt

/-! ### A channel opened a second time -/

/-- The message in which a viewport has typed two letters, none of them acknowledged. -/
def typedMessage : ClientMessage where
  ackedFrame := 0
  inputBase := 0
  input := [104, 105]

/-- The OPEN of channel 2, its first message and its CLOSE, each arriving once; and between them what
the daemon's socket takes. -/
def closeRun : List (ℕ × PeerEvent) :=
  [(2, .instruction (.open_ [97] .initial) (.ok ()) 0), (2, .instruction (.data typedMessage) (.ok ()) 0),
    (2, .flush 1), (2, .instruction .close (.ok ()) 0)]

/-- The same, and then the second transmissions of the OPEN and of the message. -/
def reopenRun : List (ℕ × PeerEvent) :=
  closeRun ++ [(2, .instruction (.open_ [97] .initial) (.ok ()) 0),
    (2, .instruction (.data typedMessage) (.ok ()) 0), (2, .flush 1)]

/-- **In that run the channel is open after its CLOSE, and its input is written twice.** -/
theorem closedStaysClosed_fails :
    ∃ s, Runs.exec (step 2) {} reopenRun = some s ∧ s.closed = true ∧
      (s.channels.entry 2).isSome = true ∧ s.fed = [0, 1, 0, 1] ∧ ¬ ClosedStaysClosed 2 s := by
  refine ⟨_, rfl, rfl, rfl, rfl, ?_⟩
  intro h
  have honce := h.once
  revert honce
  decide

theorem closedStaysClosed_closeRun :
    ∃ s, Runs.exec (step 2) {} closeRun = some s ∧ s.closed = true ∧ s.fed = [0, 1] ∧ ClosedStaysClosed 2 s :=
  ⟨_, rfl, rfl, rfl, closedStaysClosed_of_not_reopens 2 closeRun (by decide) rfl⟩

end PeerLoop

end Posh
