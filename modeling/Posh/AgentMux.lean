/-
**The agent channel multiplexer.**

The multiplexer carries any number of agent channels over one connection.  Records of the local machinery
are queued on the channel they name; instructions of the peer come out as records; and from time to time
everything due is drained: an instruction for every channel with something new, for every channel whose
bytes, opening or ending was not answered within the interval it has backed off to, and for every tombstone
that owes an answer.  The bytes of one interval are bounded by a window, which is halved when bytes have to
be sent again and grows when they are acknowledged.

What a multiplexer has of one channel is the end of a `ChannelPair`; `Posh/AgentMuxPair.lean` shows that
whatever the multiplexer does is a few steps of that.
-/

import Posh.AgentChannel
import Posh.Lib.Keyed

set_option autoImplicit false

namespace Posh

open Keyed (lookup_append lookup_cons lookup_eq_none lookup_eq_some updateFirst)
open Keyed
open List (mem_append)

/-! ### The names of channels -/

/-- The name of a channel: who opened it, its kind and its ordinal. -/
structure ChannelId where
  raw : ℕ
  deriving DecidableEq, Repr

namespace ChannelId

def new (serverInitiated : Bool) (kind ordinal : ℕ) : ChannelId :=
  ⟨serverInitiated.toNat ||| ((kind &&& 0x7f) <<< 1) ||| (ordinal <<< 8)⟩

def ordinal (c : ChannelId) : ℕ := c.raw >>> 8

theorem ordinal_new (serverInitiated : Bool) (kind ordinal : ℕ) :
    (new serverInitiated kind ordinal).ordinal = ordinal := by
  have hkind : kind &&& 0x7f < 128 := Nat.lt_of_le_of_lt Nat.and_le_right (by omega)
  have hbit : serverInitiated.toNat >>> 8 = 0 := by cases serverInitiated <;> rfl
  have hshift : ((kind &&& 0x7f) <<< 1) >>> 8 = 0 := by
    rw [Nat.shiftLeft_eq, Nat.shiftRight_eq_div_pow]
    omega
  rw [ChannelId.ordinal, new, Nat.shiftRight_or_distrib, Nat.shiftRight_or_distrib, hbit, hshift,
    Nat.shiftLeft_shiftRight]
  simp

end ChannelId

def kindAgent : ℕ := 1

/-- The ordinals given out so far, for each kind. -/
structure ChannelAllocator where
  role : Role
  nextOrdinal : ℕ → ℕ := fun _ => 1

def ChannelAllocator.next (a : ChannelAllocator) (kind : ℕ) : ChannelId × ChannelAllocator :=
  let slot := kind &&& 0x7f
  (ChannelId.new (a.role = .server) kind (a.nextOrdinal slot),
    { a with nextOrdinal := Function.update a.nextOrdinal slot (a.nextOrdinal slot + 1) })

theorem ChannelAllocator.next_ordinal (a : ChannelAllocator) (kind : ℕ) :
    (a.next kind).1.ordinal = a.nextOrdinal (kind &&& 0x7f) ∧
      (a.next kind).2.nextOrdinal (kind &&& 0x7f) = a.nextOrdinal (kind &&& 0x7f) + 1 := by
  refine ⟨ChannelId.ordinal_new _ _ _, ?_⟩
  show Function.update a.nextOrdinal (kind &&& 0x7f) _ (kind &&& 0x7f) = _
  rw [Function.update_self]

/-! ### The multiplexer -/

def maxAgentChannels : ℕ := 8

/-- How often the flag that ends a channel is sent before the channel retires. -/
def termRetransmits : ℕ := 4

/-- How many closed channels are remembered. -/
def closedChannelMemory : ℕ := 256

def agentInstructionDataMax : ℕ := 32 * 1024

def backoffShiftMax : ℕ := 3

/-- The interval after `streak` retransmissions without an answer. -/
def backedOff (rto streak : ℕ) : ℕ := rto * 2 ^ min (min streak backoffShiftMax) 63

def cwndMax : ℕ := maxAgentChannels * agentInstructionDataMax

def cwndFloor : ℕ := agentInstructionDataMax

def cwndIncrement : ℕ := agentInstructionDataMax

/-- A live channel of the multiplexer. -/
structure MuxChannel extends ChannelCore where
  id : ChannelId
  /-- how often the flag that ends the channel was sent -/
  termSends : ℕ := 0
  sendDue : Bool := true
  lastSend : ℕ := 0
  retxStreak : ℕ := 0
  budgetStarved : Bool := false

def MuxChannel.new (id : ChannelId) (recId : UInt32) (opener : Bool) : MuxChannel :=
  { id, recId, openUnconfirmed := opener }

/-- A closed channel of the multiplexer. -/
structure Tombstone extends ClosedCore where
  id : ChannelId
  echoDue : Bool

structure AgentChannelMux where
  role : Role
  alloc : ChannelAllocator
  nextRecId : UInt32 := 1
  channels : List MuxChannel := []
  closed : List Tombstone := []
  cwnd : ℕ := cwndMax
  windowStart : ℕ := 0
  windowUsed : ℕ := 0
  windowCut : Bool := false
  windowProgress : Bool := false
  cuts : ℕ := 0
  streakHwm : ℕ := 0
  congestion : Bool

namespace AgentChannelMux

def new (role : Role) (congestion : Bool) : AgentChannelMux :=
  { role, alloc := { role }, congestion }

/-- The channel the local machinery has a name for. -/
def byRec (m : AgentChannelMux) (recId : UInt32) : Option MuxChannel :=
  m.channels.find? fun ch => ch.recId == recId

/-- A closed channel is remembered; the oldest is forgotten when there are too many. -/
def tombstone (m : AgentChannelMux) (t : Tombstone) : AgentChannelMux :=
  { m with
    closed := (if m.closed.length ≥ closedChannelMemory then m.closed.tail else m.closed) ++ [t] }

/-- A record of the local machinery is queued on its channel. -/
def queueRecord (m : AgentChannelMux) (rec : AgentRecord) : AgentChannelMux :=
  match rec.kind with
  | .open =>
    if m.role ≠ .server ∨ (m.byRec rec.channel).isSome then m
    else
      let (id, alloc) := m.alloc.next kindAgent
      { m with
        alloc
        channels := m.channels ++ [.new id rec.channel true] }
  | .data =>
    { m with
      channels := Keyed.updateFirst (fun ch => ch.recId == rec.channel)
        (fun ch => { ch with outbox := ch.outbox.push rec.payload, sendDue := true }) m.channels }
  | .close | .fail =>
    { m with
      channels := Keyed.updateFirst (fun ch => ch.recId == rec.channel)
        (fun ch =>
          if ch.termFlag.isNone then
            { ch with
              termFlag := some (if rec.kind = .fail then .fail else .close)
              sendDue := true }
          else ch) m.channels }

def queueRecords (m : AgentChannelMux) (records : List AgentRecord) : AgentChannelMux :=
  records.foldl queueRecord m

/-- An instruction acknowledges bytes of the channel. -/
def progress (ch : MuxChannel) (p : AgentPayload) : Bool :=
  decide ((ch.outbox.ack p.recvAck).base > ch.outbox.base)

/-- A live channel after an instruction: what it acknowledges ends the backing off, as the first answer
does. -/
def hearing (ch : MuxChannel) (p : AgentPayload) : MuxChannel :=
  let outbox := ch.outbox.ack p.recvAck
  let r := ch.inbox.accept p.sendBase p.data
  { ch with
    retxStreak := if ch.openUnconfirmed || progress ch p then 0 else ch.retxStreak
    openUnconfirmed := false
    outbox
    inbox := r.2
    sendDue := ch.sendDue || !outbox.isEmpty || r.1.isSome }

/-- An instruction arrives on a live channel; `out` was surfaced before. -/
def hear (m : AgentChannelMux) (ch : MuxChannel) (p : AgentPayload) (out : List AgentRecord) :
    AgentChannelMux × List AgentRecord :=
  let m' := { m with windowProgress := m.windowProgress || progress ch p }
  let ch' := hearing ch p
  let out := out ++ (ch.inbox.accept p.sendBase p.data).1.toList.map fun fresh =>
    { channel := ch.recId, kind := .data, payload := fresh }
  if p.ends then
    (({ m' with channels := m'.channels.eraseP fun x => x.id == ch.id }).tombstone
      { id := ch.id
        flag := ch.termFlag.getD .close
        finalBase := ch'.outbox.endOffset
        finalAck := ch'.inbox.nextOffset
        echoDue := true },
      out ++ [{ channel := ch.recId, kind := if p.fails then .fail else .close, payload := [] }])
  else
    ({ m' with channels := Keyed.updateFirst (fun x => x.id == ch.id) (fun _ => ch') m'.channels }, out)

/-- An instruction opens a channel, when there is room. -/
def adopt (m : AgentChannelMux) (id : ChannelId) (p : AgentPayload) :
    AgentChannelMux × List AgentRecord :=
  if m.channels.length ≥ maxAgentChannels then
    (m.tombstone { id, flag := .fail, finalBase := 0, finalAck := 0, echoDue := true }, [])
  else
    let ch := MuxChannel.new id m.nextRecId false
    ({ m with nextRecId := m.nextRecId + 1, channels := m.channels ++ [ch] }).hear ch p
      [{ channel := m.nextRecId, kind := .open, payload := [] }]

/-- The peer is still sending on a closed channel, and is told again. -/
def reanswer (m : AgentChannelMux) (id : ChannelId) : AgentChannelMux :=
  { m with
    closed :=
      Keyed.updateFirst (fun t => t.id == id) (fun t => { t with echoDue := true }) m.closed }

/-- An instruction of the peer; the records for the local machinery. -/
def receive (m : AgentChannelMux) (id : ChannelId) (p : AgentPayload) :
    AgentChannelMux × List AgentRecord :=
  if p.hasUnknownFlags then (m, [])
  else if (Keyed.lookup Tombstone.id m.closed id).isSome then
    (if p.ends then m else m.reanswer id, [])
  else
    match Keyed.lookup MuxChannel.id m.channels id with
    | some ch => m.hear ch p []
    | none => if m.role ≠ .client ∨ p.opens = false then (m, []) else m.adopt id p

/-- The bytes of an instruction of the peer; one that does not decode is discarded. -/
def onInstruction (m : AgentChannelMux) (id : ChannelId) (payload : Bytes) :
    AgentChannelMux × List AgentRecord :=
  match AgentPayload.decode payload with
  | .error _ => (m, [])
  | .ok p => m.receive id p

/-- The window of the last interval is settled, and the budget refilled. -/
def rollWindow (m : AgentChannelMux) (now rto : ℕ) : AgentChannelMux :=
  if now - m.windowStart ≥ rto then
    { m with
      cwnd := if !m.windowCut && m.windowProgress then min (m.cwnd + cwndIncrement) cwndMax
        else m.cwnd
      windowCut := false
      windowProgress := false
      windowUsed := 0
      windowStart := now
      channels := m.channels.map fun ch =>
        if ch.budgetStarved then { ch with budgetStarved := false, sendDue := true } else ch }
  else m

/-- A retransmission without an answer: the interval backs off, and the window is halved, once in an
interval, when bytes are sent again. -/
def backOff (m : AgentChannelMux) (ch : MuxChannel) (unacked : Bool) : AgentChannelMux × MuxChannel :=
  let ch' := { ch with retxStreak := ch.retxStreak + 1 }
  let m' := { m with streakHwm := max m.streakHwm ch'.retxStreak }
  if unacked && !m'.windowCut then
    ({ m' with windowCut := true, cwnd := max (m'.cwnd / 2) cwndFloor, cuts := m'.cuts + 1 }, ch')
  else (m', ch')

/-- A channel sends what it has, within the budget. -/
def emit (m : AgentChannelMux) (now : ℕ) (ch : MuxChannel) :
    AgentChannelMux × MuxChannel × AgentPayload :=
  let pending := ch.outbox.pending
  let desired := min pending.length agentInstructionDataMax
  let take := if m.cwnd < cwndMax then min desired (m.cwnd - m.windowUsed) else desired
  let rides := decide (take = pending.length) && ch.termFlag.isSome
  ({ m with windowUsed := m.windowUsed + take },
  { ch with
      budgetStarved := ch.budgetStarved || (decide (m.cwnd < cwndMax) && decide (take < desired))
      termSends := if rides then ch.termSends + 1 else ch.termSends
      sendDue := false
      lastSend := now },
    { flags := agentFlags ch.openUnconfirmed (if take = pending.length then ch.termFlag else none)
      sendBase := ch.outbox.base
      recvAck := ch.inbox.nextOffset
      data := pending.take take })

/-- A channel sends when it is due. -/
def service (m : AgentChannelMux) (now rto : ℕ) (ch : MuxChannel) :
    AgentChannelMux × MuxChannel × Option AgentPayload :=
  let unacked := !ch.outbox.isEmpty
  let termUnsettled := ch.termFlag.isSome && decide (ch.termSends < termRetransmits)
  let wantsRetx := unacked || ch.openUnconfirmed || termUnsettled
  let retxFires := wantsRetx && decide (now - ch.lastSend ≥ backedOff rto ch.retxStreak)
  let r := if retxFires && !ch.sendDue && m.congestion then m.backOff ch unacked else (m, ch)
  if ch.sendDue || retxFires then
    let e := r.1.emit now r.2
    (e.1, e.2.1, some e.2.2)
  else (r.1, r.2, none)

/-- What a channel retires with: its flag, once everything was acknowledged and the flag was sent often
enough. -/
def retires (ch : MuxChannel) : Option AgentTerm :=
  ch.termFlag.filter fun _ => ch.outbox.isEmpty && decide (ch.termSends ≥ termRetransmits)

/-- The channels are served one after another. -/
def drain (now rto : ℕ) : AgentChannelMux → List MuxChannel →
    AgentChannelMux × List (ChannelId × AgentPayload)
  | m, [] => (m, [])
  | m, ch :: rest =>
    let r := m.service now rto ch
    let m' := match retires r.2.1 with
      | some flag =>
        r.1.tombstone
          { id := ch.id
            flag
            finalBase := r.2.1.outbox.endOffset
            finalAck := r.2.1.inbox.nextOffset
            echoDue := false }
      | none => { r.1 with channels := r.1.channels ++ [r.2.1] }
    let d := drain now rto m' rest
    (d.1, r.2.2.toList.map (Prod.mk ch.id) ++ d.2)

/-- The answers the tombstones owe. -/
def echoes (m : AgentChannelMux) : List (ChannelId × AgentPayload) :=
  (m.closed.filter (·.echoDue)).map fun t => (t.id, t.toClosedCore.payload)

def echoed (m : AgentChannelMux) : AgentChannelMux :=
  { m with closed := m.closed.map fun t => { t with echoDue := false } }

theorem perm_rotateLeft (l : List MuxChannel) : (l.rotateLeft 1).Perm l := by
  unfold List.rotateLeft
  simp only
  split
  · exact .refl _
  · exact List.perm_append_comm.trans (by rw [List.take_append_drop])

/-- **Everything due is drained.**  The channels are served in turn, from the second on. -/
def outgoing (m : AgentChannelMux) (now rto : ℕ) :
    AgentChannelMux × List (ChannelId × AgentPayload) :=
  let m := m.rollWindow now rto
  let d := drain now rto { m.echoed with channels := [] } (m.channels.rotateLeft 1)
  (d.1, m.echoes ++ d.2)

/-! ### A channel of the multiplexer -/

/-- What the multiplexer has of a channel. -/
def lifeOf (m : AgentChannelMux) (c : ChannelId) : ChannelLife :=
  match (Keyed.lookup Tombstone.id m.closed c).map (·.toClosedCore) with
  | some t => .closed t
  | none =>
    match (Keyed.lookup MuxChannel.id m.channels c).map (·.toChannelCore) with
    | some ch => .live ch
    | none => .unopened

/-- The channels the multiplexer knows. -/
def names (m : AgentChannelMux) : List ChannelId := m.channels.map (·.id) ++ m.closed.map (·.id)

/-- No channel is known twice, and one that is opened has a name not given before. -/
structure WellFormed (m : AgentChannelMux) : Prop where
  nodup : m.names.Nodup
  fresh : m.role = .server → ∀ c ∈ m.names, c.ordinal < m.alloc.nextOrdinal (kindAgent &&& 0x7f)

section Life

variable {m m' : AgentChannelMux} {c : ChannelId} {ch : MuxChannel} {l : List MuxChannel} {t : Tombstone}

theorem WellFormed.channels (h : m.WellFormed) : (m.channels.map (·.id)).Nodup :=
  (List.nodup_append.1 h.nodup).1

theorem WellFormed.closed (h : m.WellFormed) : (m.closed.map (·.id)).Nodup :=
  (List.nodup_append.1 h.nodup).2.1

theorem WellFormed.lookup_closed (h : m.WellFormed) (hch : ch ∈ m.channels) :
    lookup Tombstone.id m.closed ch.id = none := by
  rw [lookup_eq_none]
  exact fun hmem => (List.nodup_append.1 h.nodup).2.2 ch.id (List.mem_map_of_mem hch) ch.id hmem rfl

theorem lifeOf_live (h : m.WellFormed) (hch : ch ∈ m.channels) : m.lifeOf ch.id = .live ch.toChannelCore := by
  have hfound : lookup MuxChannel.id m.channels ch.id = some ch :=
    (lookup_eq_some h.channels).2 ⟨hch, rfl⟩
  rw [lifeOf, h.lookup_closed hch, hfound]
  rfl

theorem lifeOf_closed (h : m.WellFormed) (ht : t ∈ m.closed) : m.lifeOf t.id = .closed t.toClosedCore := by
  have hfound : lookup Tombstone.id m.closed t.id = some t :=
    (lookup_eq_some h.closed).2 ⟨ht, rfl⟩
  rw [lifeOf, hfound]
  rfl

theorem lifeOf_unopened (h : c ∉ m.names) : m.lifeOf c = .unopened := by
  rw [names, mem_append, not_or] at h
  rw [lifeOf, lookup_eq_none.2 h.2, lookup_eq_none.2 h.1]
  rfl

theorem lifeOf_congr (hch : (lookup MuxChannel.id m'.channels c).map (·.toChannelCore) =
      (lookup MuxChannel.id m.channels c).map (·.toChannelCore))
    (hcl : (lookup Tombstone.id m'.closed c).map (·.toClosedCore) =
      (lookup Tombstone.id m.closed c).map (·.toClosedCore)) : m'.lifeOf c = m.lifeOf c := by
  rw [lifeOf, lifeOf, hch, hcl]

theorem WellFormed.of_perm (h : m.WellFormed) (hnames : m'.names.Perm m.names) (hrole : m'.role = m.role)
    (halloc : m'.alloc = m.alloc) : m'.WellFormed where
  nodup := hnames.nodup_iff.2 h.nodup
  fresh := fun hserver c hc => halloc ▸ h.fresh (hrole ▸ hserver) c (hnames.mem_iff.1 hc)

theorem lifeOf_fields (m' : AgentChannelMux) (h : m.WellFormed) (hch : m'.channels = m.channels) (hcl : m'.closed = m.closed)
    (hrole : m'.role = m.role) (halloc : m'.alloc = m.alloc) : m'.WellFormed ∧ ∀ c, m'.lifeOf c = m.lifeOf c := by
  refine ⟨h.of_perm ?_ hrole halloc, fun c => lifeOf_congr (by rw [hch]) (by rw [hcl])⟩
  rw [names, names, hch, hcl]

theorem lifeOf_perm (h : m.WellFormed) (hl : l.Perm m.channels) :
    { m with channels := l }.WellFormed ∧ ∀ c, { m with channels := l }.lifeOf c = m.lifeOf c := by
  refine ⟨h.of_perm ((hl.map _).append_right _) rfl rfl, fun c => lifeOf_congr ?_ rfl⟩
  rw [lookup_perm hl.symm h.channels]

/-- Nothing but what is not part of the channels changes in a list of them. -/
def SameCores (l l' : List MuxChannel) : Prop :=
  l'.map (·.id) = l.map (·.id) ∧ l'.map (·.toChannelCore) = l.map (·.toChannelCore)

theorem SameCores.lookup : ∀ {l l' : List MuxChannel}, SameCores l l' → ∀ c,
    (lookup MuxChannel.id l' c).map (·.toChannelCore) =
      (lookup MuxChannel.id l c).map (·.toChannelCore)
  | [], [], _, _ => rfl
  | [], _ :: _, h, _ => absurd h.1 nofun
  | _ :: _, [], h, _ => absurd h.1 nofun
  | x :: l, x' :: l', h, c => by
      obtain ⟨hid, hcore⟩ := h
      rw [List.map_cons, List.map_cons, List.cons.injEq] at hid hcore
      rw [lookup_cons, lookup_cons, hid.1]
      split
      · rw [Option.map_some, Option.map_some, hcore.1]
      · exact SameCores.lookup ⟨hid.2, hcore.2⟩ c

theorem lifeOf_sameCores (h : m.WellFormed) (hl : SameCores m.channels l) :
    { m with channels := l }.WellFormed ∧ ∀ c, { m with channels := l }.lifeOf c = m.lifeOf c := by
  refine ⟨h.of_perm ?_ rfl rfl, fun c => lifeOf_congr (hl.lookup c) rfl⟩
  rw [names, names, hl.1]

theorem lifeOf_closed_map (h : m.WellFormed) {l : List Tombstone}
    (hid : l.map (·.id) = m.closed.map (·.id)) (hcl : ∀ c, (lookup Tombstone.id l c).map (·.toClosedCore) =
        (lookup Tombstone.id m.closed c).map (·.toClosedCore)) :
    { m with closed := l }.WellFormed ∧ ∀ c, { m with closed := l }.lifeOf c = m.lifeOf c := by
  refine ⟨h.of_perm ?_ rfl rfl, fun c => lifeOf_congr rfl (hcl c)⟩
  rw [names, names, hid]

theorem lifeOf_reanswer (h : m.WellFormed) (id : ChannelId) :
    (m.reanswer id).WellFormed ∧ ∀ c, (m.reanswer id).lifeOf c = m.lifeOf c := by
  refine lifeOf_closed_map h (map_updateFirst fun _ _ => rfl) fun c => ?_
  have hfound := lookup_updateFirst Tombstone.id (p := fun t => t.id == id)
    (f := fun t => { t with echoDue := true }) (k := c) (fun _ _ => rfl) h.closed
  rw [hfound]
  split
  case h_2 => rfl
  case h_1 t ht =>
    split
    case isFalse => rfl
    case isTrue hc =>
      rw [(lookup_eq_some h.closed).2 ⟨List.mem_of_find?_eq_some ht, hc⟩]
      rfl

theorem lifeOf_echoed (h : m.WellFormed) : m.echoed.WellFormed ∧ ∀ c, m.echoed.lifeOf c = m.lifeOf c := by
  have hid : (m.closed.map fun t => { t with echoDue := false }).map (·.id) = m.closed.map (·.id) := by
    rw [List.map_map]
    rfl
  refine lifeOf_closed_map h hid fun c => ?_
  have hfound := lookup_map Tombstone.id (f := fun t => { t with echoDue := false })
    (l := m.closed) (k := c) fun _ => rfl
  rw [hfound]
  cases lookup Tombstone.id m.closed c <;> rfl

theorem lifeOf_updateFirst (h : m.WellFormed) {p : MuxChannel → Bool} {f : MuxChannel → MuxChannel}
    (hf : ∀ x, p x = true → (f x).id = x.id) :
    { m with channels := updateFirst p f m.channels }.WellFormed ∧ (∀ y, m.channels.find? p = some y →
        { m with channels := updateFirst p f m.channels }.lifeOf y.id = .live (f y).toChannelCore) ∧
      ∀ c, (∀ y, m.channels.find? p = some y → y.id ≠ c) →
        { m with channels := updateFirst p f m.channels }.lifeOf c = m.lifeOf c := by
  have hnames : (updateFirst p f m.channels).map (·.id) = m.channels.map (·.id) :=
    map_updateFirst hf
  have hfound := fun c =>
    lookup_updateFirst MuxChannel.id (p := p) (k := c) hf h.channels
  refine ⟨h.of_perm ?_ rfl rfl, fun y hy => ?_, fun c hc => lifeOf_congr ?_ rfl⟩
  · rw [names, names, hnames]
  · rw [lifeOf, h.lookup_closed (List.mem_of_find?_eq_some hy), hfound, hy]
    simp only [if_true]
    rfl
  · rw [hfound]
    cases hy : m.channels.find? p with
    | none => rfl
    | some y => simp only [hc y hy, if_false]

theorem lifeOf_append (ch : MuxChannel) (hnew : ch.id ∉ m.names) :
    { m with channels := m.channels ++ [ch] }.names.Perm (ch.id :: m.names) ∧
      { m with channels := m.channels ++ [ch] }.lifeOf ch.id = .live ch.toChannelCore ∧
        ∀ c, c ≠ ch.id → { m with channels := m.channels ++ [ch] }.lifeOf c = m.lifeOf c := by
  refine ⟨?_, ?_, fun c hc => lifeOf_congr ?_ rfl⟩
  · rw [names, names, List.map_append, List.append_assoc]
    exact List.perm_middle
  · rw [names, mem_append, not_or] at hnew
    rw [lifeOf, lookup_append, lookup_eq_none.2 hnew.1, lookup_eq_none.2 hnew.2,
      Option.none_or, lookup_cons, if_pos rfl]
    rfl
  · rw [lookup_append, lookup_cons, if_neg fun heq => hc heq.symm]
    simp [lookup]

theorem lifeOf_remove (h : m.WellFormed) (hl : m.channels.Perm (ch :: l)) :
    { m with channels := l }.WellFormed ∧ ch.id ∉ { m with channels := l }.names ∧
      ∀ c, c ≠ ch.id → { m with channels := l }.lifeOf c = m.lifeOf c := by
  have hperm : m.names.Perm (ch.id :: ({ m with channels := l } : AgentChannelMux).names) :=
    (hl.map _).append_right _
  have hnodup := hperm.nodup_iff.1 h.nodup
  rw [List.nodup_cons] at hnodup
  refine ⟨⟨hnodup.2, fun hserver c hc => h.fresh hserver c (hperm.mem_iff.2 (.tail _ hc))⟩,
    hnodup.1, fun c hc => lifeOf_congr ?_ rfl⟩
  rw [lookup_perm hl h.channels, lookup_cons, if_neg fun heq => hc heq.symm]

theorem length_tombstone_le (m : AgentChannelMux) (t : Tombstone) :
    m.closed.length ≤ (m.tombstone t).closed.length := by
  unfold tombstone
  simp only [List.length_append, List.length_singleton]
  split
  · rw [List.length_tail]
    omega
  · omega

/-- Between `m` and `m'` the channel `c` is not forgotten: there is room for more tombstones, or it is
still known. -/
def Keeps (c : ChannelId) (m m' : AgentChannelMux) : Prop :=
  m'.closed.length < closedChannelMemory ∨ (c ∈ m.names → c ∈ m'.names)

theorem Keeps.mono {m₁ m₂ : AgentChannelMux} (h : Keeps c m m') (hleft : c ∈ m₁.names → c ∈ m.names)
    (hle : m₂.closed.length ≤ m'.closed.length) (hright : c ∈ m'.names → c ∈ m₂.names) : Keeps c m₁ m₂ :=
  h.imp (Nat.lt_of_le_of_lt hle) fun hkeeps hc => hright (hkeeps (hleft hc))

/-- What is remembered besides the new tombstone was remembered, and is everything as long as there is
room. -/
theorem tombstone_closed (m : AgentChannelMux) (t : Tombstone) : ∃ kept, kept.Sublist m.closed ∧
    (m.tombstone t).closed = kept ++ [t] ∧
      ((m.tombstone t).closed.length < closedChannelMemory → kept = m.closed) := by
  refine ⟨_, ?_, rfl, fun hroom => ?_⟩
  · split
    · exact List.tail_sublist _
    · exact .refl _
  · have hle := m.length_tombstone_le t
    rw [if_neg (by omega)]

theorem mem_names_tombstone (hc : c ∈ (m.tombstone t).names) : c = t.id ∨ c ∈ m.names := by
  obtain ⟨kept, hkept, hclosed, -⟩ := m.tombstone_closed t
  rw [names, hclosed, List.map_append, ← List.append_assoc, mem_append, mem_append] at hc
  rcases hc with (hc | hc) | hc
  · exact .inr (List.mem_append_left _ hc)
  · exact .inr (List.mem_append_right _ ((hkept.map _).subset hc))
  · exact .inl (List.mem_singleton.1 hc)

/-- **A channel is closed.**  The others are what they were, but for one that is forgotten. -/
theorem lifeOf_tombstone (h : m.WellFormed) (hnew : t.id ∉ m.names)
    (hfresh : m.role = .server → t.id.ordinal < m.alloc.nextOrdinal (kindAgent &&& 0x7f)) :
    (m.tombstone t).WellFormed ∧ (m.tombstone t).lifeOf t.id = .closed t.toClosedCore ∧
      ∀ c, c ≠ t.id → Keeps c m (m.tombstone t) → (m.tombstone t).lifeOf c = m.lifeOf c := by
  obtain ⟨kept, hkept, hclosed, hroom⟩ := m.tombstone_closed t
  have hnames : (m.tombstone t).names = m.channels.map (·.id) ++ kept.map (·.id) ++ [t.id] := by
    rw [names, hclosed, List.map_append, ← List.append_assoc]
    rfl
  have hsub : (m.channels.map (·.id) ++ kept.map (·.id)).Sublist m.names :=
    (hkept.map _).append_left _
  refine ⟨⟨?_, fun hserver c hc => ?_⟩, ?_, fun c hc hkeeps => lifeOf_congr rfl ?_⟩
  · rw [hnames, (List.perm_append_singleton _ _).nodup_iff]
    exact List.nodup_cons.2 ⟨fun hmem => hnew (hsub.subset hmem), h.nodup.sublist hsub⟩
  · rcases mem_names_tombstone hc with rfl | hc
    · exact hfresh hserver
    · exact h.fresh hserver c hc
  · rw [names, mem_append, not_or] at hnew
    rw [lifeOf, hclosed, lookup_append,
      lookup_eq_none.2 fun hmem => hnew.2 ((hkept.map _).subset hmem), Option.none_or,
      lookup_cons, if_pos rfl]
    rfl
  · have hsame : lookup Tombstone.id kept c = lookup Tombstone.id m.closed c := by
      rcases hkeeps with hlt | hkeeps
      · rw [hroom hlt]
      · cases hold : lookup Tombstone.id m.closed c with
        | none =>
          rw [lookup_eq_none] at hold ⊢
          exact fun hmem => hold ((hkept.map _).subset hmem)
        | some x =>
          have hx := mem_of_lookup hold
          obtain rfl : x.id = c := key_of_lookup hold
          have hmem := hkeeps (List.mem_append_right _ (List.mem_map_of_mem hx))
          rw [hnames, mem_append, mem_append] at hmem
          rcases hmem with (hmem | hmem) | hmem
          · exact absurd rfl ((List.nodup_append.1 h.nodup).2.2 _ hmem _ (List.mem_map_of_mem hx))
          · obtain ⟨y, hy, hid⟩ := List.mem_map.1 hmem
            have hsome := (lookup_eq_some h.closed).2 ⟨hkept.subset hy, hid⟩
            rw [hold] at hsome
            rw [Option.some.inj hsome]
            exact (lookup_eq_some (h.closed.sublist (hkept.map _))).2 ⟨hy, rfl⟩
          · exact absurd (List.mem_singleton.1 hmem) hc
    rw [hclosed, lookup_append, lookup_cons, if_neg fun heq => hc heq.symm, hsame]
    simp [lookup]

end Life

/-! ### Serving a channel -/

/-- **What serving a channel does**: the tables stay, the channel is the same but for what paces it, and it
sends at most its first bytes. -/
structure Serves (m m' : AgentChannelMux) (ch ch' : MuxChannel) (sent : Option AgentPayload) : Prop where
  channels : m'.channels = m.channels
  closed : m'.closed = m.closed
  role : m'.role = m.role
  alloc : m'.alloc = m.alloc
  id : ch'.id = ch.id
  core : ch'.toChannelCore = ch.toChannelCore
  sent : ∀ q, sent = some q → ∃ take, take ≤ ch.outbox.pending.length ∧ q = ch.toChannelCore.payload take

section Serve

variable (m : AgentChannelMux) (now rto : ℕ) (ch : MuxChannel)

theorem backOff_serves (unacked : Bool) : Serves m (m.backOff ch unacked).1 ch (m.backOff ch unacked).2 none := by
  unfold backOff
  simp only
  split <;> exact ⟨rfl, rfl, rfl, rfl, rfl, rfl, nofun⟩

theorem emit_serves : Serves m (m.emit now ch).1 ch (m.emit now ch).2.1 (some (m.emit now ch).2.2) := by
  refine ⟨rfl, rfl, rfl, rfl, rfl, rfl, fun q hq => ?_⟩
  rw [← Option.some.inj hq]
  refine ⟨_, ?_, rfl⟩
  split
  · exact le_trans (Nat.min_le_left _ _) (Nat.min_le_left _ _)
  · exact Nat.min_le_left _ _

theorem service_serves :
    Serves m (m.service now rto ch).1 ch (m.service now rto ch).2.1 (m.service now rto ch).2.2 := by
  have hback : ∀ (b unacked : Bool), Serves m (if b then m.backOff ch unacked else (m, ch)).1 ch
        (if b then m.backOff ch unacked else (m, ch)).2 none := by
    intro b unacked
    split
    · exact m.backOff_serves ch unacked
    · exact ⟨rfl, rfl, rfl, rfl, rfl, rfl, nofun⟩
  unfold service
  simp only
  generalize hb : (_ && m.congestion) = b
  have hr := hback b (!ch.outbox.isEmpty)
  split
  · have he := emit_serves (if b then m.backOff ch (!ch.outbox.isEmpty) else (m, ch)).1 now
      (if b then m.backOff ch (!ch.outbox.isEmpty) else (m, ch)).2
    refine ⟨he.channels.trans hr.channels, he.closed.trans hr.closed, he.role.trans hr.role,
      he.alloc.trans hr.alloc, he.id.trans hr.id, he.core.trans hr.core, fun q hq => ?_⟩
    obtain ⟨take, hle, hq⟩ := he.sent q hq
    have hout := congrArg ChannelCore.outbox hr.core
    rw [hout] at hle
    exact ⟨take, hle, by rw [hq, hr.core]⟩
  · exact hr

end Serve

end AgentChannelMux

end Posh
