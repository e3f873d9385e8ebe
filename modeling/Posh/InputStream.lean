/-
**The reliable input stream.**

Keystrokes travel from the viewport to the host as a byte stream over datagrams that may be lost,
duplicated and reordered.  The client keeps the unacknowledged tail in an `InputOutbox` and puts it,
with its base offset, in every message; the server's `InputInbox` knows only the next offset it
expects and extracts the suffix it has not applied yet.

`Link` is the two of them with everything ever sent between them: a message or an acknowledgement,
once sent, can be delivered at any later moment and any number of times, which covers loss,
duplication and reordering.  The link implements the lossless `Pipe`.
-/

import Mathlib.Data.List.Infix
import Posh.Lib.Pipe

set_option autoImplicit false

namespace Posh

open List (prefix_append prefix_refl)
open Runs

/-- A byte string. -/
abbrev Bytes := List UInt8

/-! ### The client's end -/

/-- Client side of the reliable input stream: the bytes not yet acknowledged, and the offset of the
first of them. -/
structure InputOutbox where
  /-- the offset of the first pending byte -/
  base : ℕ := 0
  /-- the pending bytes -/
  buf : Bytes := []
  deriving DecidableEq, Repr

namespace InputOutbox

def new : InputOutbox := {}

/-- New keystrokes go to the end of the pending tail. -/
def push (o : InputOutbox) (bytes : Bytes) : InputOutbox :=
  { o with buf := o.buf ++ bytes }

/-- Drops everything below the acknowledged offset. -/
def ack (o : InputOutbox) (upto : ℕ) : InputOutbox :=
  if upto > o.base then
    let n := min (upto - o.base) o.buf.length
    { base := o.base + n, buf := o.buf.drop n }
  else o

/-- One past the newest byte pushed. -/
def endOffset (o : InputOutbox) : ℕ := o.base + o.buf.length

def pending (o : InputOutbox) : Bytes := o.buf

def isEmpty (o : InputOutbox) : Bool := o.buf.isEmpty

/-- The outbox holds exactly the bytes of `pushed` from its base on. -/
structure Tracks (pushed : Bytes) (o : InputOutbox) : Prop where
  base_le : o.base ≤ pushed.length
  buf_eq : o.buf = pushed.drop o.base

variable {pushed : Bytes} {o : InputOutbox}

theorem tracks_new : Tracks [] new := ⟨Nat.le_refl 0, rfl⟩

theorem Tracks.endOffset_eq (h : Tracks pushed o) : o.endOffset = pushed.length := by
  have hb := h.base_le
  rw [endOffset, h.buf_eq, List.length_drop]
  omega

theorem Tracks.push (h : Tracks pushed o) (bytes : Bytes) : Tracks (pushed ++ bytes) (o.push bytes) := by
  refine ⟨?_, ?_⟩
  · rw [List.length_append]
    exact Nat.le_add_right_of_le h.base_le
  · show o.buf ++ bytes = (pushed ++ bytes).drop o.base
    rw [List.drop_append_of_le_length h.base_le, h.buf_eq]

theorem Tracks.base_ack (h : Tracks pushed o) (upto : ℕ) :
    (o.ack upto).base = max o.base (min upto pushed.length) := by
  have hb := h.base_le
  have hl : o.buf.length = pushed.length - o.base := by rw [h.buf_eq, List.length_drop]
  unfold ack
  split
  · simp only [hl]
    omega
  · omega

theorem Tracks.ack (h : Tracks pushed o) (upto : ℕ) : Tracks pushed (o.ack upto) := by
  refine ⟨?_, ?_⟩
  · have hb := h.base_le
    rw [h.base_ack upto]
    omega
  · unfold InputOutbox.ack
    split
    · simp only [h.buf_eq, List.drop_drop]
    · exact h.buf_eq

end InputOutbox

/-! ### The server's end -/

/-- Server side: the next input offset it expects. -/
structure InputInbox where
  /-- the next expected offset -/
  next : ℕ := 0
  deriving DecidableEq, Repr

namespace InputInbox

def new : InputInbox := {}

/-- Resume the stream at `next`. -/
def resume (next : ℕ) : InputInbox := { next := next }

def nextOffset (i : InputInbox) : ℕ := i.next

/-- The fresh suffix of a delivered message, and the inbox afterwards.  A message that starts past
the expected offset, or that brings nothing new, is dropped. -/
def accept (i : InputInbox) (base : ℕ) (data : Bytes) : Option Bytes × InputInbox :=
  if base > i.next then (none, i)
  else
    let skip := i.next - base
    if skip ≥ data.length then (none, i)
    else (some (data.drop skip), { next := base + data.length })

theorem accept_le (i : InputInbox) (base : ℕ) (data : Bytes) : i.next ≤ (i.accept base data).2.next := by
  unfold accept
  split
  case isTrue => exact Nat.le_refl _
  case isFalse hgap =>
    simp only
    split
    case isTrue => exact Nat.le_refl _
    case isFalse hold =>
      show i.next ≤ base + data.length
      omega

end InputInbox

/-- `IsChunk pushed base data`: the bytes `data` stand at the offset `base` of the stream. -/
structure IsChunk (pushed : Bytes) (base : ℕ) (data : Bytes) : Prop where
  base_le : base ≤ pushed.length
  prefix_drop : data <+: pushed.drop base

variable {pushed data : Bytes} {base : ℕ}

theorem IsChunk.end_le (h : IsChunk pushed base data) : base + data.length ≤ pushed.length := by
  have hl := h.prefix_drop.length_le
  have hb := h.base_le
  rw [List.length_drop] at hl
  omega

theorem IsChunk.mono (h : IsChunk pushed base data) (bytes : Bytes) : IsChunk (pushed ++ bytes) base data := by
  refine ⟨?_, ?_⟩
  · rw [List.length_append]
    exact Nat.le_add_right_of_le h.base_le
  · rw [List.drop_append_of_le_length h.base_le]
    exact h.prefix_drop.trans (prefix_append _ _)

theorem InputOutbox.Tracks.isChunk {pushed : Bytes} {o : InputOutbox} (h : Tracks pushed o)
    (n : ℕ) : IsChunk pushed o.base (o.pending.take n) := by
  refine ⟨h.base_le, ?_⟩
  rw [← h.buf_eq]
  exact List.take_prefix _ _

theorem IsChunk.drop_eq {base next : ℕ} (h : IsChunk pushed base data)
    (hn : base ≤ next) : data.drop (next - base) = (pushed.drop next).take (base + data.length - next) := by
  have hd : data = (pushed.drop base).take data.length :=
    List.prefix_iff_eq_take.1 h.prefix_drop
  have e1 : base + (next - base) = next := by omega
  have e2 : data.length - (next - base) = base + data.length - next := by omega
  calc data.drop (next - base)
      = ((pushed.drop base).take data.length).drop (next - base) := by rw [← hd]
    _ = (pushed.drop next).take (base + data.length - next) := by
        rw [List.drop_take, List.drop_drop, e1, e2]

/-- **What one delivery does.**  Whatever the base and the length of the chunk delivered, what has
been handed over stays the prefix of the stream below the expected offset, which never moves back;
and when the chunk does not start past the expected offset, everything up to its end is handed
over. -/
theorem InputInbox.accept_spec (i : InputInbox) (h : IsChunk pushed base data) (hn : i.next ≤ pushed.length) :
    pushed.take i.next ++ (i.accept base data).1.getD [] = pushed.take (i.accept base data).2.next
      ∧ i.next ≤ (i.accept base data).2.next ∧ (i.accept base data).2.next ≤ pushed.length
      ∧ (base ≤ i.next → base + data.length ≤ (i.accept base data).2.next) := by
  have hend := h.end_le
  unfold InputInbox.accept
  by_cases hgap : base > i.next
  · simp only [hgap, if_true, Option.getD_none, List.append_nil, le_refl, hn, true_and]
    omega
  · rw [if_neg hgap]
    simp only
    by_cases hold : i.next - base ≥ data.length
    · simp only [hold, if_true, Option.getD_none, List.append_nil, le_refl, hn, true_and]
      omega
    · rw [if_neg hold]
      refine ⟨?_, ?_, hend, fun _ => Nat.le_refl _⟩
      · have hsum : i.next + (base + data.length - i.next) = base + data.length := by omega
        simp only [Option.getD_some]
        rw [h.drop_eq (by omega), ← List.take_add, hsum]
      · simp only
        omega

/-! ### The two ends and everything in flight -/

/-- The two ends of the stream, everything sent in either direction, and the history the claims
about it are stated over: what was pushed, and what `accept` returned. -/
structure Link where
  outbox : InputOutbox := .new
  inbox : InputInbox := .new
  /-- every message sent: its base and its bytes -/
  msgs : List (ℕ × Bytes) := []
  /-- every acknowledgement sent -/
  acks : List ℕ := []
  /-- history: everything pushed -/
  pushed : Bytes := []
  /-- history: the concatenation of everything `accept` returned -/
  applied : Bytes := []
  deriving DecidableEq, Repr

namespace Link

/-- Both ends fresh, nothing sent. -/
def init : Link := {}

/-- What can happen on the link.  Messages and acknowledgements are named by their position in the
order of sending. -/
inductive Act where
  /-- the user types -/
  | push (bytes : Bytes)
  /-- the client sends the first `n` pending bytes, with their base -/
  | send (n : ℕ)
  /-- the `i`-th message arrives -/
  | deliver (i : ℕ)
  /-- the server sends its expected offset -/
  | sendAck
  /-- the `i`-th acknowledgement arrives -/
  | deliverAck (i : ℕ)
  deriving DecidableEq, Repr

/-- A message arrives at the server's end. -/
def receive (s : Link) (base : ℕ) (data : Bytes) : Link :=
  { s with
    inbox := (s.inbox.accept base data).2
    applied := s.applied ++ (s.inbox.accept base data).1.getD [] }

/-- One step of the link.  What was sent stays deliverable for ever. -/
def step (s : Link) : Act → Option Link
  | .push bytes =>
    some { s with outbox := s.outbox.push bytes, pushed := s.pushed ++ bytes }
  | .send n => some { s with msgs := s.msgs ++ [(s.outbox.base, s.outbox.pending.take n)] }
  | .deliver i => s.msgs[i]?.map fun m => s.receive m.1 m.2
  | .sendAck => some { s with acks := s.acks ++ [s.inbox.nextOffset] }
  | .deliverAck i => s.acks[i]?.map fun n => { s with outbox := s.outbox.ack n }

/-- The invariant of the link. -/
structure Inv (s : Link) : Prop where
  /-- the outbox holds the tail of what was pushed -/
  tracks : InputOutbox.Tracks s.pushed s.outbox
  /-- only applied bytes were dropped -/
  base_le : s.outbox.base ≤ s.inbox.next
  /-- only pushed bytes are expected to have been applied -/
  next_le : s.inbox.next ≤ s.pushed.length
  /-- what was applied is the stream below the expected offset -/
  applied_eq : s.applied = s.pushed.take s.inbox.next
  /-- every message in flight is a chunk of the stream, and starts at a byte already expected -/
  msgs_ok : ∀ m ∈ s.msgs, IsChunk s.pushed m.1 m.2 ∧ m.1 ≤ s.inbox.next
  /-- every acknowledgement in flight covers applied bytes only -/
  acks_ok : ∀ n ∈ s.acks, n ≤ s.inbox.next

theorem inv_init : Inv init where
  tracks := InputOutbox.tracks_new
  base_le := Nat.le_refl 0
  next_le := Nat.le_refl 0
  applied_eq := rfl
  msgs_ok := by intro m hm; simp [init] at hm
  acks_ok := by intro n hn; simp [init] at hn

/-! ### One step -/

variable {s : Link} {as : List Act}

theorem inv_push (h : Inv s) (bytes : Bytes) :
    Inv { s with outbox := s.outbox.push bytes, pushed := s.pushed ++ bytes } where
  tracks := h.tracks.push bytes
  base_le := h.base_le
  next_le := by
    have hn := h.next_le
    show s.inbox.next ≤ (s.pushed ++ bytes).length
    rw [List.length_append]
    omega
  applied_eq := by
    show s.applied = (s.pushed ++ bytes).take s.inbox.next
    rw [List.take_append_of_le_length h.next_le, h.applied_eq]
  msgs_ok := fun m hm => ⟨(h.msgs_ok m hm).1.mono bytes, (h.msgs_ok m hm).2⟩
  acks_ok := h.acks_ok

theorem inv_send (h : Inv s) (n : ℕ) :
    Inv { s with msgs := s.msgs ++ [(s.outbox.base, s.outbox.pending.take n)] } := by
  refine { h with msgs_ok := ?_ }
  intro m hm
  rcases List.mem_append.1 hm with hm | hm
  · exact h.msgs_ok m hm
  · rw [List.mem_singleton.1 hm]
    exact ⟨h.tracks.isChunk n, h.base_le⟩

theorem inv_receive (h : Inv s) {base : ℕ} {data : Bytes}
    (hc : IsChunk s.pushed base data) : Inv (s.receive base data) := by
  obtain ⟨happ, hle, hlen, -⟩ := s.inbox.accept_spec hc h.next_le
  exact
    { tracks := h.tracks
      base_le := le_trans h.base_le hle
      next_le := hlen
      applied_eq := by
        show s.applied ++ _ = _
        rw [h.applied_eq, happ]
        rfl
      msgs_ok := fun m hm => ⟨(h.msgs_ok m hm).1, le_trans (h.msgs_ok m hm).2 hle⟩
      acks_ok := fun n hn => le_trans (h.acks_ok n hn) hle }

theorem inv_sendAck (h : Inv s) : Inv { s with acks := s.acks ++ [s.inbox.nextOffset] } := by
  refine { h with acks_ok := ?_ }
  intro n hn
  rcases List.mem_append.1 hn with hn | hn
  · exact h.acks_ok n hn
  · rw [List.mem_singleton.1 hn]
    exact Nat.le_refl _

theorem inv_deliverAck (h : Inv s) {n : ℕ} (hn : n ≤ s.inbox.next) : Inv { s with outbox := s.outbox.ack n } := by
  refine { h with tracks := h.tracks.ack n, base_le := ?_ }
  have hb := h.base_le
  show (s.outbox.ack n).base ≤ s.inbox.next
  rw [h.tracks.base_ack n]
  omega

/-- **Every step keeps the invariant.** -/
theorem inv_step {s t : Link} {a : Act} (h : Inv s) (hstep : step s a = some t) : Inv t := by
  cases a with
  | push bytes =>
    rw [step, Option.some.injEq] at hstep
    exact hstep ▸ inv_push h bytes
  | send n =>
    rw [step, Option.some.injEq] at hstep
    exact hstep ▸ inv_send h n
  | deliver i =>
    rw [step, Option.map_eq_some_iff] at hstep
    obtain ⟨m, hm, rfl⟩ := hstep
    exact inv_receive h (h.msgs_ok m (List.mem_of_getElem? hm)).1
  | sendAck =>
    rw [step, Option.some.injEq] at hstep
    exact hstep ▸ inv_sendAck h
  | deliverAck i =>
    rw [step, Option.map_eq_some_iff] at hstep
    obtain ⟨n, hn, rfl⟩ := hstep
    exact inv_deliverAck h (h.acks_ok n (List.mem_of_getElem? hn))

/-- **The invariant holds in every run.** -/
theorem inv_exec {s t : Link} (h : Inv s) (hrun : exec step s as = some t) : Inv t :=
  exec_invariant (fun _ _ _ => inv_step) h hrun

theorem inv_of_exec_init (hrun : exec step init as = some s) : Inv s :=
  inv_exec inv_init hrun

/-! ### The history grows -/

/-- What was pushed stays pushed, what was sent stays in flight, and what was applied stays
applied. -/
structure Extends (s t : Link) : Prop where
  pushed : s.pushed <+: t.pushed
  msgs : s.msgs <+: t.msgs
  applied : s.applied <+: t.applied

theorem Extends.refl (s : Link) : Extends s s :=
  ⟨prefix_refl _, prefix_refl _, prefix_refl _⟩

theorem Extends.trans {s t u : Link} (h : Extends s t) (h' : Extends t u) : Extends s u :=
  ⟨h.pushed.trans h'.pushed, h.msgs.trans h'.msgs, h.applied.trans h'.applied⟩

theorem extends_step {s t : Link} {a : Act} (hstep : step s a = some t) : Extends s t := by
  cases a with
  | push bytes =>
    rw [step, Option.some.injEq] at hstep
    subst hstep
    exact ⟨prefix_append _ _, prefix_refl _, prefix_refl _⟩
  | send n =>
    rw [step, Option.some.injEq] at hstep
    subst hstep
    exact ⟨prefix_refl _, prefix_append _ _, prefix_refl _⟩
  | deliver i =>
    rw [step, Option.map_eq_some_iff] at hstep
    obtain ⟨m, hm, rfl⟩ := hstep
    exact ⟨prefix_refl _, prefix_refl _, prefix_append _ _⟩
  | sendAck =>
    rw [step, Option.some.injEq] at hstep
    subst hstep
    exact ⟨prefix_refl _, prefix_refl _, prefix_refl _⟩
  | deliverAck i =>
    rw [step, Option.map_eq_some_iff] at hstep
    obtain ⟨n, hn, rfl⟩ := hstep
    exact ⟨prefix_refl _, prefix_refl _, prefix_refl _⟩

theorem extends_exec {s t : Link} (hrun : exec step s as = some t) : Extends s t :=
  exec_invariant (I := Extends s) (fun _ _ _ hu hstep => hu.trans (extends_step hstep))
    (.refl s) hrun

/-- **The link implements a lossless pipe**: every run of it is matched by a run of the pipe in
which the same bytes were written and the same bytes read. -/
theorem exec_refines_pipe (hrun : exec step init as = some s) :
    ∃ bs p, exec Pipe.step Pipe.empty bs = some p ∧ p.written = s.pushed ∧ p.read = s.applied := by
  refine Pipe.simulates Link.pushed Link.applied (fun _ _ _ => inv_step)
    (fun _ _ _ _ hstep => ⟨(extends_step hstep).pushed, (extends_step hstep).applied⟩)
    (fun u hu => ?_) inv_init rfl rfl hrun
  rw [hu.applied_eq]
  exact List.take_prefix _ _

theorem exec_refines_pipe_twice : ∃ s, exec step init [.push [7, 8], .send 2, .deliver 0, .deliver 0] = some s ∧
      ∃ bs p, exec Pipe.step Pipe.empty bs = some p ∧ p.written = s.pushed ∧ p.read = s.applied :=
  ⟨_, rfl, exec_refines_pipe (show exec step init [.push [7, 8], .send 2, .deliver 0, .deliver 0] = _ from rfl)⟩

/-! ### The whole tail -/

/-- When a message that carried the whole pending tail of `s` is delivered, everything pushed
before it was sent has been applied. -/
theorem applied_of_whole_tail {s t : Link} (hs : Inv s) (ht : Inv t)
    (hp : s.pushed <+: t.pushed) (hm : (s.outbox.base, s.outbox.pending) ∈ t.msgs) :
    s.pushed <+: (t.receive s.outbox.base s.outbox.pending).applied := by
  obtain ⟨hc, hb⟩ := ht.msgs_ok _ hm
  obtain ⟨-, -, -, hend⟩ := t.inbox.accept_spec hc ht.next_le
  have hinv := inv_receive ht hc
  have htail : s.outbox.base + s.outbox.pending.length = s.pushed.length := hs.tracks.endOffset_eq
  have hlen : s.pushed.length ≤ (t.receive s.outbox.base s.outbox.pending).inbox.next := by
    rw [← htail]
    exact hend hb
  rw [hinv.applied_eq]
  obtain ⟨rest, hrest⟩ := hp
  show s.pushed <+: t.pushed.take _
  rw [← hrest, List.take_append, List.take_of_length_le hlen]
  exact prefix_append _ _

/-- **The input stream is delivered exactly once, in order.**  In every interleaving of typing,
sending, acknowledging and deliveries in any order and number: what the inbox returned is exactly
the first `nextOffset` bytes pushed, the expected offset lies between the ends of the pending tail,
and once a message sent with the whole pending tail has been delivered (at any later moment),
everything pushed before it was sent has been applied. -/
theorem input_stream_exactly_once (as : List Act) {s : Link}
    (hrun : Runs.exec step init as = some s) :
    s.applied = s.pushed.take s.inbox.nextOffset
      ∧ s.inbox.nextOffset = s.applied.length
      ∧ s.outbox.base ≤ s.inbox.nextOffset ∧ s.inbox.nextOffset ≤ s.outbox.endOffset
      ∧ ∀ (n : ℕ) (bs cs : List Act) (t : Link), s.outbox.pending.length ≤ n →
          Runs.exec step s (.send n :: bs ++ .deliver s.msgs.length :: cs) = some t →
          s.pushed <+: t.applied := by
  have hs := inv_of_exec_init hrun
  refine ⟨hs.applied_eq, ?_, hs.base_le, ?_, ?_⟩
  · rw [hs.applied_eq, List.length_take, Nat.min_eq_left hs.next_le]
    rfl
  · rw [hs.tracks.endOffset_eq]
    exact hs.next_le
  · intro n bs cs t hn hrun'
    rw [List.cons_append] at hrun'
    obtain ⟨s₁, h₁, hrun'⟩ := Runs.exec_cons_eq_some.1 hrun'
    obtain ⟨s₂, h₂, hrun'⟩ := Runs.exec_append_eq_some.1 hrun'
    obtain ⟨s₃, h₃, h₄⟩ := Runs.exec_cons_eq_some.1 hrun'
    have hs₁ := inv_step hs h₁
    have hs₂ := inv_exec hs₁ h₂
    -- the message sent is the whole tail, and it is the one delivered
    have hsent : s₁.msgs = s.msgs ++ [(s.outbox.base, s.outbox.pending)] := by
      rw [step, Option.some.injEq] at h₁
      rw [← h₁, List.take_of_length_le hn]
    have hat : s₂.msgs[s.msgs.length]? = some (s.outbox.base, s.outbox.pending) := by
      obtain ⟨rest, hrest⟩ := (extends_exec h₂).msgs
      rw [← hrest, hsent, List.append_assoc, List.getElem?_append_right (Nat.le_refl _)]
      simp
    rw [step, hat, Option.map_some, Option.some.injEq] at h₃
    have hpre : s.pushed <+: s₂.pushed := (extends_step h₁).pushed.trans (extends_exec h₂).pushed
    have happ : s.pushed <+: s₃.applied :=
      h₃ ▸ applied_of_whole_tail hs hs₂ hpre (List.mem_of_getElem? hat)
    exact happ.trans (extends_exec h₄).applied

/-- A run in which a retransmission overlaps what was applied before it. -/
theorem input_stream_exactly_once_overlap :
    ∃ s, Runs.exec step init
        [.push [104, 105], .send 1, .deliver 0, .push [33], .send 3, .deliver 1, .deliver 0,
          .sendAck, .deliverAck 0] = some s ∧
      s.applied = s.pushed.take s.inbox.nextOffset ∧ s.applied = [104, 105, 33] := by
  refine ⟨_, rfl, (input_stream_exactly_once
    [.push [104, 105], .send 1, .deliver 0, .push [33], .send 3, .deliver 1, .deliver 0,
      .sendAck, .deliverAck 0] rfl).1, rfl⟩

end Link

end Posh
