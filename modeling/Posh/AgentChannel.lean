/-
**One agent channel, at both of its ends.**

A channel of the agent multiplexer carries a byte stream in each direction.  An instruction on it quotes
the offset of its bytes, acknowledges the bytes of the other end, and may carry the flag that opens the
channel or one that ends it.  The server's end opens the channel and sends the opening flag until it is
answered; the client's end comes to be when an instruction with that flag arrives.  An end that is closed
keeps a tombstone, from which it answers with its last instruction, and surfaces nothing more.

`ChannelPair` is the channel alone: its two ends, and every instruction ever sent on it, each of which can
arrive at any later moment, any number of times or never.  When an end sends, how many of its bytes, when
it retires, and whether there is room for a channel are left open here; the multiplexer decides them.
-/

import Posh.AgentStream

set_option autoImplicit false

namespace Posh

open List (mem_append prefix_rfl)
open WordBytes

/-! ### Instructions -/

def agentFlagOpen : UInt8 := 1

def agentFlagClose : UInt8 := 2

def agentFlagFail : UInt8 := 4

def agentFlagsKnown : UInt8 := agentFlagOpen ||| agentFlagClose ||| agentFlagFail

def agentPayloadHeaderLen : ℕ := 17

structure AgentPayload where
  flags : UInt8
  /-- the offset of the first byte of `data` in the sender's stream -/
  sendBase : ℕ
  /-- how much of the receiver's stream has arrived -/
  recvAck : ℕ
  data : Bytes
  deriving DecidableEq, Repr

namespace AgentPayload

def encode (p : AgentPayload) : Bytes :=
  p.flags :: (WordBytes.le 8 p.sendBase ++ (WordBytes.le 8 p.recvAck ++ p.data))

def decode (input : Bytes) : Except String AgentPayload :=
  match input with
  | [] => .error "truncated agent-channel payload"
  | flags :: rest =>
    if rest.length + 1 < agentPayloadHeaderLen then .error "truncated agent-channel payload"
    else
      .ok
        { flags
          sendBase := WordBytes.ofLe (rest.take 8)
          recvAck := WordBytes.ofLe ((rest.drop 8).take 8)
          data := rest.drop 16 }

theorem decode_encode {p : AgentPayload} (hbase : p.sendBase < 256 ^ 8) (hack : p.recvAck < 256 ^ 8) :
    decode p.encode = .ok p := by
  have hl := length_le 8
  have hshort : ¬ (le 8 p.sendBase ++ (le 8 p.recvAck ++ p.data)).length + 1 <
      agentPayloadHeaderLen := by
    simp [agentPayloadHeaderLen]
    omega
  have htake : (le 8 p.sendBase ++ (le 8 p.recvAck ++ p.data)).take 8 = le 8 p.sendBase := by
    rw [List.take_append_of_le_length (by rw [hl]), List.take_of_length_le (by rw [hl])]
  have hdrop : (le 8 p.sendBase ++ (le 8 p.recvAck ++ p.data)).drop 8 =
      le 8 p.recvAck ++ p.data := List.drop_left' (hl _)
  have htake' : (le 8 p.recvAck ++ p.data).take 8 = le 8 p.recvAck := by
    rw [List.take_append_of_le_length (by rw [hl]), List.take_of_length_le (by rw [hl])]
  have hdrop' : (le 8 p.sendBase ++ (le 8 p.recvAck ++ p.data)).drop 16 = p.data := by
    rw [← List.drop_drop (i := 8) (j := 8), hdrop]
    exact List.drop_left' (hl _)
  rw [encode, decode]
  simp only [hshort, if_false, htake, hdrop, htake', hdrop', ofLe_le,
    Nat.mod_eq_of_lt hbase, Nat.mod_eq_of_lt hack]

/-- **What is accepted is an instruction, and its only encoding.** -/
theorem decode_eq_ok_iff {input : Bytes} {p : AgentPayload} :
    decode input = .ok p ↔ p.encode = input ∧ p.sendBase < 256 ^ 8 ∧ p.recvAck < 256 ^ 8 := by
  refine ⟨fun h => ?_, fun h => h.1 ▸ decode_encode h.2.1 h.2.2⟩
  rw [decode.eq_def] at h
  split at h
  · cases h
  · next flags rest =>
    split at h
    · cases h
    · next hlong =>
      obtain rfl := Except.ok.inj h
      have hlen : (rest.take 8).length = 8 ∧ ((rest.drop 8).take 8).length = 8 := by
        simp [agentPayloadHeaderLen] at hlong ⊢
        omega
      have hbase := ofLe_lt (rest.take 8)
      have hack := ofLe_lt ((rest.drop 8).take 8)
      have hle := le_ofLe (rest.take 8)
      have hle' := le_ofLe ((rest.drop 8).take 8)
      rw [hlen.1] at hbase hle
      rw [hlen.2] at hack hle'
      refine ⟨?_, hbase, hack⟩
      rw [encode, hle, hle', ← List.drop_drop (i := 8) (j := 8), List.take_append_drop, List.take_append_drop]

def hasUnknownFlags (p : AgentPayload) : Bool := p.flags &&& ~~~agentFlagsKnown != 0

/-- The instruction opens the channel. -/
def opens (p : AgentPayload) : Bool := p.flags &&& agentFlagOpen != 0

/-- The instruction ends the channel. -/
def ends (p : AgentPayload) : Bool := p.flags &&& (agentFlagClose ||| agentFlagFail) != 0

/-- The instruction ends the channel with a failure. -/
def fails (p : AgentPayload) : Bool := p.flags &&& agentFlagFail != 0

end AgentPayload

/-- How an end ends the channel. -/
inductive AgentTerm where
  | close
  | fail
  deriving DecidableEq, Repr

namespace AgentTerm

def flag : AgentTerm → UInt8
  | close => agentFlagClose
  | fail => agentFlagFail

/-- The kind of the record that surfaces it. -/
def kind : AgentTerm → RecordKind
  | close => .close
  | fail => .fail

end AgentTerm

/-- What an instruction that ends the channel ends it with. -/
def AgentPayload.term (p : AgentPayload) : AgentTerm := if p.fails then .fail else .close

def agentFlags (unconfirmed : Bool) (term : Option AgentTerm) : UInt8 :=
  (if unconfirmed then agentFlagOpen else 0) ||| term.elim 0 AgentTerm.flag

section Flags

variable {p : AgentPayload} {unconfirmed : Bool} {term : Option AgentTerm}

theorem ends_of_flags (h : p.flags = agentFlags unconfirmed term) : p.ends = term.isSome := by
  rw [AgentPayload.ends, h]
  cases unconfirmed <;> rcases term with _ | (_ | _) <;> rfl

theorem term_of_flags {k : AgentTerm} (h : p.flags = agentFlags unconfirmed (some k)) : p.term = k := by
  rw [AgentPayload.term, AgentPayload.fails, h]
  cases unconfirmed <;> cases k <;> rfl

end Flags

/-! ### An end of the channel -/

/-- An end of a live channel. -/
structure ChannelCore where
  /-- the name the local machinery has for the channel -/
  recId : UInt32
  outbox : InputOutbox := .new
  inbox : InputInbox := .new
  /-- the end opened the channel and was not answered yet -/
  openUnconfirmed : Bool
  /-- how the end ends the channel -/
  termFlag : Option AgentTerm := none
  deriving DecidableEq, Repr

/-- An end of a closed channel. -/
structure ClosedCore where
  flag : AgentTerm
  finalBase : ℕ
  finalAck : ℕ
  deriving DecidableEq, Repr

inductive ChannelLife where
  | unopened
  | live (ch : ChannelCore)
  | closed (t : ClosedCore)
  deriving DecidableEq, Repr

namespace ChannelCore

/-- The instruction that carries the first `take` pending bytes; the flag that ends the channel rides
on one that carries them all. -/
def payload (ch : ChannelCore) (take : ℕ) : AgentPayload where
  flags := agentFlags ch.openUnconfirmed
    (if take = ch.outbox.pending.length then ch.termFlag else none)
  sendBase := ch.outbox.base
  recvAck := ch.inbox.nextOffset
  data := ch.outbox.pending.take take

/-- The end after an instruction that does not end the channel. -/
def hear (ch : ChannelCore) (p : AgentPayload) : ChannelCore :=
  { ch with
    openUnconfirmed := false
    outbox := ch.outbox.ack p.recvAck
    inbox := (ch.inbox.accept p.sendBase p.data).2 }

def surfaces (ch : ChannelCore) (p : AgentPayload) : List AgentRecord :=
  (ch.inbox.accept p.sendBase p.data).1.toList.map fun fresh =>
    { channel := ch.recId, kind := .data, payload := fresh }

/-- The record that ends the channel. -/
def termRecord (ch : ChannelCore) (k : AgentTerm) : AgentRecord :=
  { channel := ch.recId, kind := k.kind, payload := [] }

/-- The tombstone of a channel. -/
def entomb (ch : ChannelCore) (flag : AgentTerm) : ClosedCore where
  flag
  finalBase := ch.outbox.endOffset
  finalAck := ch.inbox.nextOffset

end ChannelCore

/-- The instruction a tombstone answers with. -/
def ClosedCore.payload (t : ClosedCore) : AgentPayload where
  flags := t.flag.flag
  sendBase := t.finalBase
  recvAck := t.finalAck
  data := []

/-- An end of the channel, with its history. -/
structure AgentEnd where
  life : ChannelLife := .unopened
  /-- history: the bytes queued -/
  queued : Bytes := []
  /-- history: the records surfaced -/
  surfaced : List AgentRecord := []
  /-- history: how the end was told to end the channel, and how much was queued then -/
  ended : Option (AgentTerm × ℕ) := none

namespace AgentEnd

/-- The bytes of the data records among some. -/
def dataOf (l : List AgentRecord) : Bytes := (l.filter fun r => r.kind == .data).flatMap (·.payload)

/-- The bytes surfaced. -/
def data (e : AgentEnd) : Bytes := dataOf e.surfaced

/-- The channel is opened at the end. -/
def opened (e : AgentEnd) (recId : UInt32) (opener : Bool) : AgentEnd :=
  { e with
    life := .live { recId, openUnconfirmed := opener }
    surfaced := if opener then e.surfaced
      else e.surfaced ++ [{ channel := recId, kind := .open, payload := [] }] }

/-- An instruction arrives at a live end. -/
def heard (e : AgentEnd) (ch : ChannelCore) (p : AgentPayload) : AgentEnd :=
  if p.ends then
    { e with
      life := .closed ((ch.hear p).entomb (ch.termFlag.getD .close))
      surfaced := e.surfaced ++ ch.surfaces p ++ [ch.termRecord p.term] }
  else { e with life := .live (ch.hear p), surfaced := e.surfaced ++ ch.surfaces p }

end AgentEnd

open AgentEnd

/-- The two ends of a connection. -/
inductive Role where
  | client
  | server
  deriving DecidableEq, Repr

def Role.other : Role → Role
  | client => server
  | server => client

theorem Role.other_other (r : Role) : r.other.other = r := by
  cases r <;> rfl

theorem Role.other_ne (r : Role) : r.other ≠ r := by
  cases r <;> exact nofun

theorem Role.eq_or_eq_other (r r' : Role) : r' = r ∨ r' = r.other := by
  cases r <;> cases r' <;> simp [Role.other]

/-- An instruction arrives at an end of the channel; only the client's end comes to be by it. -/
def AgentEnd.deliver (role : Role) (recId : UInt32) (room : Bool) (e : AgentEnd) (p : AgentPayload) :
    AgentEnd :=
  match e.life with
  | .closed _ => e
  | .live ch => e.heard ch p
  | .unopened =>
    if role = .server ∨ p.opens = false then e
    else if room then
      (e.opened recId false).heard { recId, openUnconfirmed := false } p
    else { e with life := .closed { flag := .fail, finalBase := 0, finalAck := 0 } }

/-! ### Both ends -/

/-- Both ends of a channel, and every instruction sent on it. -/
structure ChannelPair where
  ends : Role → AgentEnd := fun _ => {}
  sent : Role → List AgentPayload := fun _ => []

namespace ChannelPair

/-- What can happen to a channel.  An instruction in flight is named by its position in the order of
sending. -/
inductive Act where
  | open_ (recId : UInt32)
  | push (r : Role) (bytes : Bytes)
  | finish (r : Role) (k : AgentTerm)
  | send (r : Role) (take : ℕ)
  | echo (r : Role)
  | retire (r : Role)
  | deliver (r : Role) (i : ℕ) (recId : UInt32) (room : Bool)

/-- The end `r` is now `e`. -/
def setEnd (s : ChannelPair) (r : Role) (e : AgentEnd) : ChannelPair :=
  { s with ends := Function.update s.ends r e }

@[simp] theorem setEnd_ends_self (s : ChannelPair) (r : Role) (e : AgentEnd) : (s.setEnd r e).ends r = e := by
  show Function.update s.ends r e r = e
  exact Function.update_self r e s.ends

@[simp] theorem setEnd_ends_other (s : ChannelPair) (r : Role) (e : AgentEnd) :
    (s.setEnd r e).ends r.other = s.ends r.other := by
  show Function.update s.ends r e r.other = s.ends r.other
  exact Function.update_of_ne r.other_ne e s.ends

theorem setEnd_setEnd (s : ChannelPair) (r : Role) (e e' : AgentEnd) :
    (s.setEnd r e).setEnd r e' = s.setEnd r e' := by
  rw [setEnd, setEnd, setEnd, Function.update_idem]

/-- The end `r` sends. -/
def emit (s : ChannelPair) (r : Role) (p : AgentPayload) : ChannelPair :=
  { s with sent := Function.update s.sent r (s.sent r ++ [p]) }

def step (s : ChannelPair) : Act → Option ChannelPair
  | .open_ recId =>
    match (s.ends .server).life with
    | .unopened => some (s.setEnd .server ((s.ends .server).opened recId true))
    | _ => none
  | .push r bytes =>
    match (s.ends r).life with
    | .live ch =>
      some (s.setEnd r { s.ends r with
        life := .live { ch with outbox := ch.outbox.push bytes }
        queued := (s.ends r).queued ++ bytes })
    | _ => none
  | .finish r k =>
    match (s.ends r).life with
    | .live ch =>
      if ch.termFlag.isSome then none
      else
        some (s.setEnd r { s.ends r with
          life := .live { ch with termFlag := some k }
          ended := some (k, (s.ends r).queued.length) })
    | _ => none
  | .send r take =>
    match (s.ends r).life with
    | .live ch => if take ≤ ch.outbox.pending.length then some (s.emit r (ch.payload take)) else none
    | _ => none
  | .echo r =>
    match (s.ends r).life with
    | .closed t => some (s.emit r t.payload)
    | _ => none
  | .retire r =>
    match (s.ends r).life with
    | .live ch =>
      match ch.termFlag with
      | some flag =>
        if ch.outbox.isEmpty then
          some (s.setEnd r { s.ends r with life := .closed (ch.entomb flag) })
        else none
      | none => none
    | _ => none
  | .deliver r i recId room =>
    (s.sent r.other)[i]?.map fun p => s.setEnd r ((s.ends r).deliver r recId room p)

end ChannelPair

/-! ### The records surfaced -/

/-- A record that ends the channel. -/
def RecordKind.ends : RecordKind → Bool
  | .close | .fail => true
  | .open | .data => false

namespace AgentEnd

theorem dataOf_append (l l' : List AgentRecord) : dataOf (l ++ l') = dataOf l ++ dataOf l' := by
  rw [dataOf, List.filter_append, List.flatMap_append]
  rfl

theorem dataOf_of_ne {r : AgentRecord} (h : r.kind ≠ .data) : dataOf [r] = [] := by
  simp [dataOf, h]

theorem dataOf_surfaces (ch : ChannelCore) (p : AgentPayload) :
    dataOf (ch.surfaces p) = (ch.inbox.accept p.sendBase p.data).1.getD [] := by
  rw [ChannelCore.surfaces]
  cases (ch.inbox.accept p.sendBase p.data).1 with
  | none => rfl
  | some fresh => simp [dataOf]

theorem kind_of_mem_surfaces {ch : ChannelCore} {p : AgentPayload} {r : AgentRecord}
    (h : r ∈ ch.surfaces p) : r.kind = .data := by
  obtain ⟨fresh, -, rfl⟩ := List.mem_map.1 h
  rfl

/-- **The records surfaced at an end**: only the first opens the channel, only the last ends it. -/
structure Shape (role : Role) (e : AgentEnd) : Prop where
  first : ∀ r ∈ e.surfaced.tail, r.kind ≠ .open
  head : role = .client → ∀ r, e.surfaced.head? = some r → r.kind = .open
  last : ∀ r ∈ e.surfaced.dropLast, r.kind.ends = false
  live : ∀ ch, e.life = .live ch → (∀ r ∈ e.surfaced, r.kind.ends = false) ∧
    (role = .client → e.surfaced ≠ [])
  unopened : e.life = .unopened → e.surfaced = []

variable {role : Role} {e : AgentEnd} {ch : ChannelCore} {recId : UInt32} {p : AgentPayload}

theorem Shape.append (h : Shape role e) (hlive : e.life = .live ch) {l : List AgentRecord}
    {life : ChannelLife} (hopen : ∀ r ∈ l, r.kind ≠ .open) (hlast : ∀ r ∈ l.dropLast, r.kind.ends = false)
    (hlife : ∀ ch', life = .live ch' → ∀ r ∈ l, r.kind.ends = false) (hne : life ≠ .unopened) :
    Shape role { e with life, surfaced := e.surfaced ++ l } := by
  obtain ⟨hends, hnonempty⟩ := h.live ch hlive
  refine
    { first := fun r hr => ?_
      head := fun hrole r hr => ?_
      last := fun r hr => ?_
      live := fun ch' hch' => ⟨fun r hr => ?_, fun hrole => ?_⟩
      unopened := fun hno => absurd hno hne }
  · have hr' : r ∈ (e.surfaced ++ l).tail := hr
    cases hs : e.surfaced with
    | nil =>
      rw [hs, List.nil_append] at hr'
      exact hopen r (List.mem_of_mem_tail hr')
    | cons x xs =>
      rw [hs, List.cons_append, List.tail_cons] at hr'
      rcases mem_append.1 hr' with hr' | hr'
      · exact h.first r (by rw [hs]; exact hr')
      · exact hopen r hr'
  · refine h.head hrole r ?_
    have hr' : (e.surfaced ++ l).head? = some r := hr
    rwa [List.head?_append_of_ne_nil _ (hnonempty hrole)] at hr'
  · have hr' : r ∈ (e.surfaced ++ l).dropLast := hr
    by_cases hl : l = []
    · rw [hl, List.append_nil] at hr'
      exact h.last r hr'
    · rw [List.dropLast_append_of_ne_nil hl] at hr'
      rcases mem_append.1 hr' with hr' | hr'
      · exact hends r hr'
      · exact hlast r hr'
  · rcases mem_append.1 hr with hr | hr
    · exact hends r hr
    · exact hlife ch' hch' r hr
  · intro hnil
    exact hnonempty hrole (List.append_eq_nil_iff.1 hnil).1

theorem Shape.same (h : Shape role e) (hlive : e.life = .live ch) {life : ChannelLife}
    {queued : Bytes} {ended : Option (AgentTerm × ℕ)} (hne : life ≠ .unopened) :
    Shape role { e with life, queued, ended } :=
  { first := h.first
    head := h.head
    last := h.last
    live := fun _ _ => h.live ch hlive
    unopened := fun hno => absurd hno hne }

theorem Shape.opened {opener : Bool} (hnone : e.surfaced = [])
    (hrole : role = .client → opener = false) : Shape role (e.opened recId opener) := by
  have hs : (e.opened recId opener).surfaced =
      if opener then [] else [{ channel := recId, kind := .open, payload := [] }] := by
    rw [AgentEnd.opened, hnone, List.nil_append]
  cases opener with
  | true =>
    rw [if_pos rfl] at hs
    refine ⟨?_, ?_, ?_, fun ch _ => ⟨?_, ?_⟩, fun _ => hs⟩ <;> rw [hs]
    · simp
    · simp
    · simp
    · simp
    · exact fun h => absurd (hrole h) nofun
  | false =>
    rw [if_neg Bool.false_ne_true] at hs
    refine ⟨?_, ?_, ?_, fun ch _ => ⟨?_, ?_⟩, nofun⟩ <;> rw [hs]
    · simp
    · simp
    · simp
    · simp [RecordKind.ends]
    · simp

theorem Shape.heard (h : Shape role e) (hlive : e.life = .live ch) : Shape role (e.heard ch p) := by
  unfold AgentEnd.heard
  split
  · rw [List.append_assoc]
    refine h.append hlive (fun r hr => ?_) (fun r hr => ?_) nofun nofun
    · rcases mem_append.1 hr with hr | hr
      · rw [kind_of_mem_surfaces hr]
        exact nofun
      · rw [List.mem_singleton.1 hr]
        cases hk : p.term <;> simp [ChannelCore.termRecord, AgentTerm.kind]
    · rw [List.dropLast_concat] at hr
      rw [kind_of_mem_surfaces hr]
      rfl
  · refine h.append hlive (fun r hr => ?_) (fun r hr => ?_) (fun _ _ r hr => ?_) nofun
    · rw [kind_of_mem_surfaces hr]
      exact nofun
    · rw [kind_of_mem_surfaces (List.mem_of_mem_dropLast hr)]
      rfl
    · rw [kind_of_mem_surfaces hr]
      rfl

/-! ### What an end can only add to -/

/-- The end has ended the channel, or has dropped it. -/
def Over (e : AgentEnd) : Prop := e.ended.isSome = true ∨ ∃ t, e.life = .closed t

/-- What the history of an end can only grow to. -/
structure Grows (e e' : AgentEnd) : Prop where
  queued : e.queued <+: e'.queued
  data : e.data <+: e'.data
  ended : ∀ x, e.ended = some x → e'.ended = some x
  isOver : e.Over → e'.Over

theorem Grows.refl (e : AgentEnd) : Grows e e :=
  ⟨prefix_rfl, prefix_rfl, fun _ h => h, id⟩

theorem Over.of_live (h : e.Over) (hlive : e.life = .live ch) : e.ended.isSome = true := by
  rcases h with h | ⟨t, ht⟩
  · exact h
  · rw [hlive] at ht
    cases ht

theorem Grows.of_live {e' : AgentEnd} (hlive : e.life = .live ch) (hqueued : e.queued <+: e'.queued)
    (hsurfaced : e.surfaced <+: e'.surfaced) (hended : ∀ x, e.ended = some x → e'.ended = some x) :
    Grows e e' where
  queued := hqueued
  data := by
    obtain ⟨l, hl⟩ := hsurfaced
    show dataOf e.surfaced <+: dataOf e'.surfaced
    rw [← hl, dataOf_append]
    exact List.prefix_append _ _
  ended := hended
  isOver := fun hover => by
    obtain ⟨x, hx⟩ := Option.isSome_iff_exists.1 (hover.of_live hlive)
    exact .inl (by rw [hended x hx, Option.isSome_some])

theorem opened_data (e : AgentEnd) (recId : UInt32) (opener : Bool) : (e.opened recId opener).data = e.data := by
  unfold opened data
  split
  · rfl
  · rw [dataOf_append, dataOf_of_ne (by simp), List.append_nil]

theorem Grows.heard (hlive : e.life = .live ch) : Grows e (e.heard ch p) := by
  unfold AgentEnd.heard
  split
  · exact .of_live hlive prefix_rfl (by simp [List.append_assoc]) fun _ hx => hx
  · exact .of_live hlive prefix_rfl (List.prefix_append _ _) fun _ hx => hx

end AgentEnd

/-! ### The invariant -/

namespace ChannelPair

/-- The receiver `b`, once told by an instruction of `a` that the channel is closed, has everything
queued before: `len` bytes from the offset `base` on are at hand with it.  Or `b` ended the channel
itself. -/
def Told (a b : AgentEnd) (base len : ℕ) : Prop :=
  b.Over ∨ ∃ n, a.ended = some (.close, n) ∧ n ≤ base + len ∧ base ≤ b.data.length

/-- An instruction that `a` sent to `b`. -/
structure Sent (a b : AgentEnd) (p : AgentPayload) : Prop where
  chunk : IsChunk a.queued p.sendBase p.data
  acked : p.recvAck ≤ a.data.length
  isOver : p.ends = true → a.Over
  told : p.ends = true → p.term = .close → Told a b p.sendBase p.data.length

/-- **The stream from `a` to `b`**, with everything `a` sent. -/
structure Half (a b : AgentEnd) (msgs : List AgentPayload) : Prop where
  unopened : a.life = .unopened → a.queued = [] ∧ a.ended = none ∧ msgs = []
  tracks : ∀ ch, a.life = .live ch → ch.outbox.Tracks a.queued ∧
    ch.outbox.base ≤ b.data.length ∧ ch.termFlag = a.ended.map Prod.fst
  ended_le : ∀ k n, a.ended = some (k, n) → n ≤ a.queued.length
  closed : ∀ t, a.life = .closed t → Sent a b t.payload
  sent : ∀ p ∈ msgs, Sent a b p
  inbox : ∀ ch, b.life = .live ch → ch.inbox.next = b.data.length
  received : b.data <+: a.queued
  seen : ∀ r ∈ b.surfaced, r.kind = .close → b.ended.isSome = true ∨
    ∃ n, a.ended = some (.close, n) ∧ n ≤ b.data.length

/-- What holds of every reachable channel. -/
structure Inv (s : ChannelPair) : Prop where
  shape : ∀ r, (s.ends r).Shape r
  half : ∀ r, Half (s.ends r) (s.ends r.other) (s.sent r)

section Half

variable {a a' b b' : AgentEnd} {msgs msgs' : List AgentPayload} {p : AgentPayload} {ch : ChannelCore}

theorem Told.mono {base len : ℕ} (h : Told a b base len) (ha : a.Grows a') (hb : b.Grows b') :
    Told a' b' base len := by
  rcases h with h | ⟨n, hn, hle, hbase⟩
  · exact .inl (hb.isOver h)
  · exact .inr ⟨n, ha.ended _ hn, hle, le_trans hbase hb.data.length_le⟩

theorem IsChunk.of_prefix {pushed pushed' data : Bytes} {base : ℕ} (h : IsChunk pushed base data)
    (hp : pushed <+: pushed') : IsChunk pushed' base data := by
  obtain ⟨l, rfl⟩ := hp
  exact h.mono l

theorem Sent.mono (h : Sent a b p) (ha : a.Grows a') (hb : b.Grows b') : Sent a' b' p where
  chunk := IsChunk.of_prefix h.chunk ha.queued
  acked := le_trans h.acked ha.data.length_le
  isOver := fun he => ha.isOver (h.isOver he)
  told := fun he hk => (h.told he hk).mono ha hb

theorem Half.receiver (h : Half a b msgs) (hb : b.Grows b')
    (hinbox : ∀ ch, b'.life = .live ch → ch.inbox.next = b'.data.length)
    (hreceived : b'.data <+: a.queued)
    (hseen : ∀ r ∈ b'.surfaced, r.kind = .close → r ∉ b.surfaced → b'.ended.isSome = true ∨
      ∃ n, a.ended = some (.close, n) ∧ n ≤ b'.data.length) : Half a b' msgs where
  unopened := h.unopened
  tracks := fun ch hch =>
    ⟨(h.tracks ch hch).1, le_trans (h.tracks ch hch).2.1 hb.data.length_le, (h.tracks ch hch).2.2⟩
  ended_le := h.ended_le
  closed := fun t ht => (h.closed t ht).mono (.refl a) hb
  sent := fun p hp => (h.sent p hp).mono (.refl a) hb
  inbox := hinbox
  received := hreceived
  seen := by
    intro r hr hk
    by_cases hold : r ∈ b.surfaced
    · rcases h.seen r hold hk with he | ⟨n, hn, hle⟩
      · obtain ⟨x, hx⟩ := Option.isSome_iff_exists.1 he
        exact .inl (by rw [hb.ended x hx, Option.isSome_some])
      · exact .inr ⟨n, hn, le_trans hle hb.data.length_le⟩
    · exact hseen r hr hk hold

theorem Half.receiver_quiet (h : Half a b msgs) (hb : b.Grows b') (hsurfaced : b'.surfaced = b.surfaced)
    (hinbox : ∀ ch', b'.life = .live ch' → ∃ ch, b.life = .live ch ∧ ch'.inbox = ch.inbox) : Half a b' msgs := by
  have hdata : b'.data = b.data := by rw [data, hsurfaced, data]
  refine h.receiver hb (fun ch' hch' => ?_) (hdata ▸ h.received) fun r hr _ hno => ?_
  · obtain ⟨ch, hch, heq⟩ := hinbox ch' hch'
    rw [heq, hdata]
    exact h.inbox ch hch
  · exact absurd (hsurfaced ▸ hr) hno

theorem Half.sender (h : Half a b msgs) (ha : a.Grows a') (hne : a'.life ≠ .unopened)
    (htracks : ∀ ch, a'.life = .live ch → ch.outbox.Tracks a'.queued ∧
      ch.outbox.base ≤ b.data.length ∧ ch.termFlag = a'.ended.map Prod.fst)
    (hended : ∀ k n, a'.ended = some (k, n) → n ≤ a'.queued.length)
    (hclosed : ∀ t, a'.life = .closed t → Sent a' b t.payload) : Half a' b msgs where
  unopened := fun hno => absurd hno hne
  tracks := htracks
  ended_le := hended
  closed := hclosed
  sent := fun p hp => (h.sent p hp).mono ha (.refl b)
  inbox := h.inbox
  received := h.received.trans ha.queued
  seen := by
    intro r hr hk
    rcases h.seen r hr hk with he | ⟨n, hn, hle⟩
    · exact .inl he
    · exact .inr ⟨n, ha.ended _ hn, hle⟩

theorem Half.emit (h : Half a b msgs) (hne : a.life ≠ .unopened) (hp : Sent a b p) : Half a b (msgs ++ [p]) :=
  { h with
    unopened := fun hno => absurd hno hne
    sent := fun q hq => by
      rcases mem_append.1 hq with hq | hq
      · exact h.sent q hq
      · exact List.mem_singleton.1 hq ▸ hp }

theorem term_of_ends_payload {take : ℕ} (h : (ch.payload take).ends = true) :
    ∃ k, ch.termFlag = some k ∧ take = ch.outbox.pending.length ∧ (ch.payload take).term = k := by
  have hflags : (ch.payload take).flags = agentFlags ch.openUnconfirmed
    (if take = ch.outbox.pending.length then ch.termFlag else none) := rfl
  rw [ends_of_flags hflags] at h
  split at h
  case isTrue htake =>
    obtain ⟨k, hk⟩ := Option.isSome_iff_exists.1 h
    rw [if_pos htake, hk] at hflags
    exact ⟨k, hk, htake, term_of_flags hflags⟩
  case isFalse => cases h

theorem Half.sent_payload (h : Half a b msgs) (h' : Half b a msgs') (hlive : a.life = .live ch)
    (take : ℕ) : Sent a b (ch.payload take) := by
  obtain ⟨htracks, hbase, hterm⟩ := h.tracks ch hlive
  refine
    { chunk := htracks.isChunk take
      acked := Nat.le_of_eq (h'.inbox ch hlive)
      isOver := fun hends => ?_
      told := fun hends hclose => .inr ?_ }
  · obtain ⟨k, hk, -, -⟩ := term_of_ends_payload hends
    refine .inl ?_
    rw [hterm, Option.map_eq_some_iff] at hk
    obtain ⟨x, hx, -⟩ := hk
    rw [hx, Option.isSome_some]
  · obtain ⟨k, hk, htake, hkterm⟩ := term_of_ends_payload hends
    rw [hkterm] at hclose
    subst hclose
    rw [hterm, Option.map_eq_some_iff] at hk
    obtain ⟨⟨k, n⟩, hx, hkx⟩ := hk
    simp only at hkx
    subst hkx
    refine ⟨n, hx, ?_, hbase⟩
    have hlen : ((ch.outbox.pending).take take).length = ch.outbox.pending.length := by
      rw [htake, List.take_length]
    have hend : ch.outbox.base + ch.outbox.pending.length = a.queued.length := htracks.endOffset_eq
    show n ≤ ch.outbox.base + ((ch.outbox.pending).take take).length
    rw [hlen, hend]
    exact h.ended_le _ n hx

theorem sent_entomb (htracks : ch.outbox.Tracks a.queued) (hack : ch.inbox.next ≤ a.data.length)
    (hover : a.Over) {flag : AgentTerm} (htold : flag = .close → Told a b a.queued.length 0) :
    Sent a b (ch.entomb flag).payload := by
  have hbase : (ch.entomb flag).payload.sendBase = a.queued.length := htracks.endOffset_eq
  have hflags : (ch.entomb flag).payload.flags = agentFlags false (some flag) := by
    cases flag <;> rfl
  refine
    { chunk := ?_
      acked := hack
      isOver := fun _ => hover
      told := fun _ hclose => ?_ }
  · rw [hbase]
    exact ⟨Nat.le_refl _, List.nil_prefix⟩
  · rw [term_of_flags hflags] at hclose
    rw [hbase]
    exact htold hclose

/-! ### One step of an end -/

theorem grows_opened (hun : a.life = .unopened) (recId : UInt32) (opener : Bool) :
    a.Grows (a.opened recId opener) where
  queued := prefix_rfl
  data := by rw [opened_data]
  ended := fun _ h => h
  isOver := fun hover => by
    rcases hover with hover | ⟨t, ht⟩
    · exact .inl hover
    · rw [hun] at ht
      cases ht

theorem Half.opened_sender (h : Half a b msgs) (hun : a.life = .unopened) (recId : UInt32)
    (opener : Bool) : Half (a.opened recId opener) b msgs := by
  obtain ⟨hqueued, hended, -⟩ := h.unopened hun
  refine h.sender (grows_opened hun recId opener) nofun (fun ch hch => ?_) h.ended_le nofun
  obtain rfl := ChannelLife.live.inj hch
  refine ⟨?_, Nat.zero_le _, ?_⟩
  · show InputOutbox.Tracks a.queued .new
    rw [hqueued]
    exact InputOutbox.tracks_new
  · show none = a.ended.map Prod.fst
    rw [hended, Option.map_none]

theorem Half.opened_receiver (h : Half a b msgs) (hun : b.life = .unopened) (hnone : b.surfaced = [])
    (recId : UInt32) (opener : Bool) : Half a (b.opened recId opener) msgs := by
  have hdata : b.data = [] := by rw [data, hnone]; rfl
  refine h.receiver (grows_opened hun recId opener) (fun ch hch => ?_) ?_ fun r hr hk _ => ?_
  · obtain rfl := ChannelLife.live.inj hch
    rw [opened_data, hdata]
    rfl
  · rw [opened_data]
    exact h.received
  · have hr' : r ∈ if opener then b.surfaced
        else b.surfaced ++ [{ channel := recId, kind := .open, payload := [] }] := hr
    rw [hnone] at hr'
    split at hr'
    · cases hr'
    · rw [List.nil_append, List.mem_singleton] at hr'
      rw [hr'] at hk
      cases hk

/-- **What a live end has surfaced after an instruction**: the other end's stream up to the offset it
expects then, and at least to the end of the instruction, when that does not start past the offset it
expected before. -/
theorem Half.heard_data (h : Half a b msgs) (hlive : b.life = .live ch) (hp : Sent a b p) :
    (b.heard ch p).data = a.queued.take (ch.hear p).inbox.next ∧
      (b.heard ch p).data.length = (ch.hear p).inbox.next ∧
      (p.sendBase ≤ b.data.length → p.sendBase + p.data.length ≤ (ch.hear p).inbox.next) := by
  have hinbox := h.inbox ch hlive
  have hold : b.data = a.queued.take ch.inbox.next := by
    rw [hinbox]
    exact List.prefix_iff_eq_take.1 h.received
  have hle : ch.inbox.next ≤ a.queued.length := by
    rw [hinbox]
    exact h.received.length_le
  obtain ⟨hdata, -, hnext, hend⟩ := ch.inbox.accept_spec hp.chunk hle
  have hnew : (b.heard ch p).data = b.data ++ dataOf (ch.surfaces p) := by
    unfold heard
    split
    · show dataOf (b.surfaced ++ ch.surfaces p ++ [ch.termRecord p.term]) = _
      rw [dataOf_append, dataOf_append, dataOf_of_ne, List.append_nil]
      · rfl
      · cases hk : p.term <;> simp [ChannelCore.termRecord, AgentTerm.kind]
    · exact dataOf_append _ _
  have heq : (b.heard ch p).data = a.queued.take (ch.hear p).inbox.next := by
    rw [hnew, hold, dataOf_surfaces, hdata]
    rfl
  refine ⟨heq, ?_, fun hbase => hend (hinbox ▸ hbase)⟩
  rw [heq, List.length_take]
  exact Nat.min_eq_left hnext

theorem heard_queued (b : AgentEnd) (ch : ChannelCore) (p : AgentPayload) :
    (b.heard ch p).queued = b.queued ∧ (b.heard ch p).ended = b.ended := by
  unfold heard
  split <;> exact ⟨rfl, rfl⟩

theorem Half.heard_sender (h : Half b a msgs) (h' : Half a b msgs') (hlive : b.life = .live ch)
    (hp : Sent a b p) : Half (b.heard ch p) a msgs := by
  obtain ⟨htracks, hbase, hterm⟩ := h.tracks ch hlive
  obtain ⟨hqueued, hended⟩ := heard_queued b ch p
  have htracks' : (ch.hear p).outbox.Tracks b.queued := htracks.ack p.recvAck
  have hbase' : (ch.hear p).outbox.base ≤ a.data.length := by
    have hacked := hp.acked
    show (ch.outbox.ack p.recvAck).base ≤ a.data.length
    rw [htracks.base_ack]
    omega
  refine h.sender (.heard hlive) ?_ (fun ch' hch' => ?_) ?_ (fun t ht => ?_)
  · unfold heard
    split <;> exact nofun
  · rw [hqueued, hended]
    unfold heard at hch'
    split at hch'
    · cases hch'
    · obtain rfl := ChannelLife.live.inj hch'
      exact ⟨htracks', hbase', hterm⟩
  · rw [hqueued, hended]
    exact h.ended_le
  · have hclosed : p.ends = true ∧ t = (ch.hear p).entomb (ch.termFlag.getD .close) := by
      unfold heard at ht
      split at ht
      case isTrue hends => exact ⟨hends, (ChannelLife.closed.inj ht).symm⟩
      case isFalse => cases ht
    obtain ⟨hends, rfl⟩ := hclosed
    obtain ⟨-, hlen, -⟩ := h'.heard_data hlive hp
    exact sent_entomb (hqueued ▸ htracks') (Nat.le_of_eq hlen.symm) (.inr ⟨_, ht⟩)
      fun _ => .inl (hp.isOver hends)

theorem Half.heard_receiver (h : Half a b msgs) (hlive : b.life = .live ch) (hp : Sent a b p) :
    Half a (b.heard ch p) msgs := by
  obtain ⟨hdata, hlen, hend⟩ := h.heard_data hlive hp
  refine h.receiver (.heard hlive) (fun ch' hch' => ?_) ?_ fun r hr hk hno => ?_
  · have hch : ch' = ch.hear p := by
      unfold heard at hch'
      split at hch'
      · cases hch'
      · exact (ChannelLife.live.inj hch').symm
    rw [hch, hlen]
  · rw [hdata]
    exact List.take_prefix _ _
  · -- a record that is new and closes is the one that ends the channel
    have hclosed : p.ends = true ∧ p.term = .close := by
      have hdatarec : r ∉ ch.surfaces p := fun hmem => by
        rw [kind_of_mem_surfaces hmem] at hk
        cases hk
      unfold heard at hr
      split at hr
      case isTrue hends =>
        rcases mem_append.1 hr with hr | hr
        · rcases mem_append.1 hr with hr | hr
          · exact absurd hr hno
          · exact absurd hr hdatarec
        · rw [List.mem_singleton] at hr
          subst hr
          refine ⟨hends, ?_⟩
          cases hterm : p.term with
          | close => rfl
          | fail =>
            rw [hterm] at hk
            cases hk
      case isFalse =>
        rcases mem_append.1 hr with hr | hr
        · exact absurd hr hno
        · exact absurd hr hdatarec
    rw [(heard_queued b ch p).2]
    rcases hp.told hclosed.1 hclosed.2 with hover | ⟨n, hn, hle, hbase⟩
    · exact .inl (hover.of_live hlive)
    · exact .inr ⟨n, hn, by rw [hlen]; exact le_trans hle (hend hbase)⟩

end Half

/-! ### One step of the channel -/

section Step

variable {s s' : ChannelPair} {r : Role} {e : AgentEnd} {p : AgentPayload} {ch : ChannelCore}

theorem Inv.setEnd (h : Inv s) (hshape : e.Shape r) (hsender : Half e (s.ends r.other) (s.sent r))
    (hreceiver : Half (s.ends r.other) e (s.sent r.other)) : Inv (s.setEnd r e) := by
  have hr := s.setEnd_ends_self r e
  have hother := s.setEnd_ends_other r e
  constructor
  · intro r'
    rcases Role.eq_or_eq_other r r' with rfl | rfl
    · rw [hr]
      exact hshape
    · rw [hother]
      exact h.shape _
  · intro r'
    rcases Role.eq_or_eq_other r r' with rfl | rfl
    · rw [hr, hother]
      exact hsender
    · rw [Role.other_other, hr, hother]
      exact hreceiver

theorem Inv.emit (h : Inv s) (hne : (s.ends r).life ≠ .unopened)
    (hp : Sent (s.ends r) (s.ends r.other) p) : Inv (s.emit r p) := by
  refine ⟨h.shape, fun r' => ?_⟩
  have hhalf := h.half r'
  rcases Role.eq_or_eq_other r r' with rfl | rfl
  · have hsent : (s.emit r' p).sent r' = s.sent r' ++ [p] := Function.update_self _ _ _
    rw [hsent]
    exact hhalf.emit hne hp
  · have hsent : (s.emit r p).sent r.other = s.sent r.other := Function.update_of_ne r.other_ne _ _
    rw [hsent]
    exact hhalf

theorem Inv.half_other (h : Inv s) (r : Role) : Half (s.ends r.other) (s.ends r) (s.sent r.other) := by
  have hhalf := h.half r.other
  rwa [Role.other_other] at hhalf

theorem Inv.heard (h : Inv s) (hlive : (s.ends r).life = .live ch)
    (hp : Sent (s.ends r.other) (s.ends r) p) : Inv (s.setEnd r ((s.ends r).heard ch p)) :=
  h.setEnd ((h.shape r).heard hlive) ((h.half r).heard_sender (h.half_other r) hlive hp)
    ((h.half_other r).heard_receiver hlive hp)

theorem Inv.opened (h : Inv s) (hun : (s.ends r).life = .unopened) (recId : UInt32) (opener : Bool)
    (hrole : r = .client → opener = false) : Inv (s.setEnd r ((s.ends r).opened recId opener)) :=
  h.setEnd (.opened ((h.shape r).unopened hun) hrole) ((h.half r).opened_sender hun recId opener)
    ((h.half_other r).opened_receiver hun ((h.shape r).unopened hun) recId opener)

theorem Inv.quiet (h : Inv s) (hlive : (s.ends r).life = .live ch) {life : ChannelLife}
    {queued : Bytes} {ended : Option (AgentTerm × ℕ)} (hne : life ≠ .unopened)
    (hgrows : (s.ends r).Grows { s.ends r with life, queued, ended })
    (hinbox : ∀ ch', life = .live ch' → ch'.inbox = ch.inbox)
    (hsender : Half { s.ends r with life, queued, ended } (s.ends r.other) (s.sent r)) :
    Inv (s.setEnd r { s.ends r with life, queued, ended }) :=
  h.setEnd ((h.shape r).same hlive hne) hsender
    ((h.half_other r).receiver_quiet hgrows rfl fun ch' hch' => ⟨ch, hlive, hinbox ch' hch'⟩)

theorem Inv.deliver (h : Inv s) (hp : Sent (s.ends r.other) (s.ends r) p) (recId : UInt32)
    (room : Bool) : Inv (s.setEnd r ((s.ends r).deliver r recId room p)) := by
  have hsame : Inv (s.setEnd r (s.ends r)) := h.setEnd (h.shape r) (h.half r) (h.half_other r)
  unfold AgentEnd.deliver
  split
  case h_1 => exact hsame
  case h_2 ch hlive => exact h.heard hlive hp
  case h_3 hun =>
    split
    case isTrue => exact hsame
    case isFalse hopen =>
      rw [not_or] at hopen
      split
      case isTrue =>
        -- the channel is opened, and then the instruction is heard
        have hopened := h.opened hun recId false fun _ => rfl
        have hself := s.setEnd_ends_self r ((s.ends r).opened recId false)
        have hother := s.setEnd_ends_other r ((s.ends r).opened recId false)
        have hlive : ((s.setEnd r ((s.ends r).opened recId false)).ends r).life =
            .live { recId, openUnconfirmed := false } := by
          rw [hself]
          rfl
        have hp' : Sent ((s.setEnd r ((s.ends r).opened recId false)).ends r.other)
            ((s.setEnd r ((s.ends r).opened recId false)).ends r) p := by
          rw [hself, hother]
          exact hp.mono (.refl _) (grows_opened hun recId false)
        have hheard := hopened.heard hlive hp'
        rw [hself, setEnd_setEnd] at hheard
        exact hheard
      case isFalse =>
        have hnone := (h.shape r).unopened hun
        obtain ⟨hqueued, hended, -⟩ := (h.half r).unopened hun
        have hgrows : (s.ends r).Grows { s.ends r with
            life := .closed { flag := .fail, finalBase := 0, finalAck := 0 } } :=
          ⟨prefix_rfl, prefix_rfl, fun _ hx => hx, fun _ => .inr ⟨_, rfl⟩⟩
        refine h.setEnd ⟨?_, ?_, ?_, nofun, nofun⟩
          ((h.half r).sender hgrows nofun nofun (h.half r).ended_le fun t ht => ?_)
          ((h.half_other r).receiver_quiet hgrows rfl nofun)
        · exact (h.shape r).first
        · exact (h.shape r).head
        · exact (h.shape r).last
        · obtain rfl := (ChannelLife.closed.inj ht).symm
          refine ⟨⟨Nat.zero_le _, List.nil_prefix⟩, Nat.zero_le _, fun _ => .inr ⟨_, rfl⟩, ?_⟩
          intro _ hclose
          cases hclose

/-- **Every step keeps the invariant.** -/
theorem inv_step {act : Act} (h : Inv s) (hstep : step s act = some s') : Inv s' := by
  cases act with
  | open_ recId =>
    simp only [step] at hstep
    split at hstep
    case h_1 hun =>
      rw [← Option.some.inj hstep]
      exact h.opened hun recId _ nofun
    case h_2 => cases hstep
  | push r bytes =>
    simp only [step] at hstep
    split at hstep
    case h_2 => cases hstep
    case h_1 ch hlive =>
      rw [← Option.some.inj hstep]
      obtain ⟨htracks, hbase, hterm⟩ := (h.half r).tracks ch hlive
      have hgrows : (s.ends r).Grows { s.ends r with
          life := .live { ch with outbox := ch.outbox.push bytes }
          queued := (s.ends r).queued ++ bytes } :=
        .of_live hlive (List.prefix_append _ _) prefix_rfl fun _ hx => hx
      refine h.quiet hlive nofun hgrows (fun ch' hch' => ?_)
        ((h.half r).sender hgrows nofun (fun ch' hch' => ?_) (fun k n hn => ?_) nofun)
      · rw [← ChannelLife.live.inj hch']
      · obtain rfl := ChannelLife.live.inj hch'
        refine ⟨htracks.push bytes, ?_, hterm⟩
        exact hbase
      · have hle := (h.half r).ended_le k n hn
        show n ≤ ((s.ends r).queued ++ bytes).length
        rw [List.length_append]
        omega
  | finish r k =>
    simp only [step] at hstep
    split at hstep
    case h_2 => cases hstep
    case h_1 ch hlive =>
      split at hstep
      case isTrue => cases hstep
      case isFalse hnone =>
        rw [← Option.some.inj hstep]
        obtain ⟨htracks, hbase, hterm⟩ := (h.half r).tracks ch hlive
        have hended : (s.ends r).ended = none := by
          rw [hterm] at hnone
          simpa using hnone
        have hgrows : (s.ends r).Grows { s.ends r with
            life := .live { ch with termFlag := some k }
            ended := some (k, (s.ends r).queued.length) } :=
          .of_live hlive prefix_rfl prefix_rfl fun x hx => by
            rw [hended] at hx
            cases hx
        refine h.quiet hlive nofun hgrows (fun ch' hch' => ?_)
          ((h.half r).sender hgrows nofun (fun ch' hch' => ?_) (fun k' n hn => ?_) nofun)
        · rw [← ChannelLife.live.inj hch']
        · obtain rfl := ChannelLife.live.inj hch'
          exact ⟨htracks, hbase, rfl⟩
        · obtain ⟨-, rfl⟩ := Prod.mk.inj (Option.some.inj hn)
          exact Nat.le_refl _
  | send r take =>
    simp only [step] at hstep
    split at hstep
    case h_2 => cases hstep
    case h_1 ch hlive =>
      split at hstep
      case isFalse => cases hstep
      case isTrue =>
        rw [← Option.some.inj hstep]
        exact h.emit (by rw [hlive]; exact nofun)
          ((h.half r).sent_payload (h.half_other r) hlive take)
  | echo r =>
    simp only [step] at hstep
    split at hstep
    case h_2 => cases hstep
    case h_1 t hclosed =>
      rw [← Option.some.inj hstep]
      exact h.emit (by rw [hclosed]; exact nofun) ((h.half r).closed t hclosed)
  | retire r =>
    simp only [step] at hstep
    split at hstep
    case h_2 => cases hstep
    case h_1 ch hlive =>
      split at hstep
      case h_2 => cases hstep
      case h_1 flag hflag =>
        split at hstep
        case isFalse => cases hstep
        case isTrue hempty =>
          rw [← Option.some.inj hstep]
          obtain ⟨htracks, hbase, hterm⟩ := (h.half r).tracks ch hlive
          have hgrows : (s.ends r).Grows { s.ends r with life := .closed (ch.entomb flag) } :=
            .of_live hlive prefix_rfl prefix_rfl fun _ hx => hx
          refine h.quiet hlive nofun hgrows nofun
            ((h.half r).sender hgrows nofun nofun (h.half r).ended_le fun t ht => ?_)
          obtain rfl := (ChannelLife.closed.inj ht).symm
          have hover : AgentEnd.Over { s.ends r with life := .closed (ch.entomb flag) } :=
            .inr ⟨_, rfl⟩
          refine sent_entomb (a := { s.ends r with life := .closed (ch.entomb flag) }) htracks ?_
            hover fun hclose => .inr ?_
          · exact Nat.le_of_eq ((h.half_other r).inbox ch hlive)
          · rw [hterm, Option.map_eq_some_iff] at hflag
            obtain ⟨⟨k, n⟩, hx, hk⟩ := hflag
            simp only at hk
            rw [hk, hclose] at hx
            have hall : ch.outbox.base = (s.ends r).queued.length := by
              have hend := htracks.endOffset_eq
              rw [InputOutbox.endOffset, List.isEmpty_iff.1 hempty] at hend
              exact hend
            refine ⟨n, hx, ?_, hall ▸ hbase⟩
            exact (h.half r).ended_le _ n hx
  | deliver r i recId room =>
    simp only [step, Option.map_eq_some_iff] at hstep
    obtain ⟨p, hi, rfl⟩ := hstep
    exact h.deliver ((h.half_other r).sent p (List.mem_of_getElem? hi)) recId room

end Step

theorem inv_init : Inv {} where
  shape := fun r =>
    { first := by simp
      head := fun _ x hx => by cases hx
      last := by simp
      live := fun ch hch => by cases hch
      unopened := fun _ => rfl }
  half := fun r =>
    { unopened := fun _ => ⟨rfl, rfl, rfl⟩
      tracks := fun ch hch => by cases hch
      ended_le := fun k n hn => by cases hn
      closed := fun t ht => by cases ht
      sent := fun p hp => by cases hp
      inbox := fun ch hch => by cases hch
      received := prefix_rfl
      seen := fun r hr => by cases hr }

/-- **The invariant holds in every run.** -/
theorem inv_of_exec {as : List Act} {s : ChannelPair} (hrun : Runs.exec step {} as = some s) : Inv s :=
  Runs.exec_invariant (fun _ _ _ => inv_step) inv_init hrun

end ChannelPair

end Posh
