/-
**Coalescing keeps the wire intact, and loses announcements.**

A run of a connection interleaves visible frames, growth, other records, acknowledgements, tables of the
client, and the socket taking bytes.  The history logs every record that was queued, and marks the frames that
were replaced before the socket had taken any of them.

The records that were not replaced are what the socket takes, in order.  A frame that replaces another shows
all of its screen, but not its announcements: those were recorded as sent with the first one.  They are lost
exactly when a frame that carries some is replaced by one that does not.
-/

import Posh.ClientConn

set_option autoImplicit false

namespace Posh

open ClientConn (isAnnouncement label_mem_announcements mem_announcements written)
open List (append_nil length_append mem_append mem_singleton)
open ClientConn
open Framing

variable {τ σ : Type}

/-! ### The history -/

structure LoggedRecord where
  record : IpcRecord
  /-- the visible frame it carries, if it carries one -/
  visible : Option ServerFrame := none
  /-- it was cut off the buffer for another frame -/
  truncated : Bool := false
  deriving DecidableEq

/-- The records that were not cut off, in the order in which they were queued. -/
def surviving (log : List LoggedRecord) : List IpcRecord :=
  (log.filter fun e => !e.truncated).map LoggedRecord.record

/-- The newest record is cut off. -/
def truncateLast : List LoggedRecord → List LoggedRecord
  | [] => []
  | [e] => [{ e with truncated := true }]
  | e :: e' :: log => e :: truncateLast (e' :: log)

/-- A frame that was not cut off carries an entry. -/
def LoggedRecord.Delivers (e : LoggedRecord) (id : UInt8) : Prop :=
  e.truncated = false ∧ ∃ f ∈ e.visible, ∃ cap ∈ f.caps, cap.id = id

@[simp] theorem surviving_append (log log' : List LoggedRecord) :
    surviving (log ++ log') = surviving log ++ surviving log' := by
  rw [surviving, List.filter_append, List.map_append]
  rfl

theorem surviving_singleton {e : LoggedRecord} (h : e.truncated = false) : surviving [e] = [e.record] := by
  simp [surviving, h]

@[simp] theorem truncateLast_append (log : List LoggedRecord) (e : LoggedRecord) :
    truncateLast (log ++ [e]) = log ++ [{ e with truncated := true }] := by
  induction log with
  | nil => rfl
  | cons d log ih =>
    cases log with
    | nil => rfl
    | cons d' log => exact congrArg (d :: ·) ih

/-! ### The connection, its socket and its history -/

/-- A connection and what became of its bytes. -/
structure FrameDelivery (σ : Type) where
  conn : ClientConn σ
  /-- the bytes the socket took -/
  taken : Bytes := []
  /-- history: the records, in the order in which they were queued -/
  log : List LoggedRecord := []
  /-- history: the entries recorded as sent, and where in the log the frame with them would be -/
  recorded : List (UInt8 × ℕ) := []

namespace FrameDelivery

/-- A connection that owes nothing. -/
def start (conn : ClientConn σ) : FrameDelivery σ where
  conn := { conn with writeBuf := [], pendingFrameStart := none }

/-- What can happen to a connection. -/
inductive Act (σ : Type) where
  /-- a visible frame is queued -/
  | queueFrame (dump : Bytes) (snapshot : σ) (alt : Bool) (dims : ℕ × ℕ)
  /-- growth is queued, if it is due -/
  | maybeQueueScrollback (term : SessionTerm)
  /-- another record is queued: raw output, a history body, an answer, the end -/
  | queue (tag : IpcTag) (payload : Bytes)
  /-- the socket takes `n` bytes -/
  | write (n : ℕ)
  /-- an acknowledgement arrives, and with it perhaps the switch of coalescing -/
  | frameAck (payload : Bytes)
  /-- a table of the client arrives -/
  | clientCaps (table : List Cap)
  /-- an attachment arrives -/
  | init (table : List Cap) (rows cols : ℕ)
  /-- the daemon refreshes the label -/
  | activity (a : SessionActivity)
  /-- the daemon refreshes the flags of the frames -/
  | flags (echo overlay : UInt8)
  /-- the pacing and the history move on -/
  | pacing (p : Option Pacing)
  /-- the broadcast source is swapped -/
  | dropAckedBase
  /-- the client is owed a keyframe for its new geometry -/
  | oweKeyframe

def Act.queuesFrame : Act σ → Bool
  | .queueFrame _ _ _ _ => true
  | _ => false

/-- The connection changes otherwise than by queueing. -/
def setConn (s : FrameDelivery σ) (conn : ClientConn σ) : FrameDelivery σ := { s with conn }

/-- A record that is no visible frame was queued. -/
def logOther (s : FrameDelivery σ) (conn : ClientConn σ) (record : IpcRecord) : FrameDelivery σ :=
  { s with conn, log := s.log ++ [{ record }] }

/-- The entry of a visible frame, of a producer that has moved on. -/
def loggedFrame (D : Display τ σ) (conn : ClientConn σ) (producer : FrameProducer σ Bytes) : LoggedRecord where
  record := ⟨.frame, (conn.visibleFrame D producer).bytes⟩
  visible := some (conn.visibleFrame D producer)

/-- A visible frame is queued; what it announces is recorded as sent. -/
def queueFrame (D : Display τ σ) (s : FrameDelivery σ) (dump : Bytes) (snapshot : σ) (alt : Bool)
    (dims : ℕ × ℕ) : FrameDelivery σ :=
  let conn := (s.conn.queueFrame D dump snapshot alt dims).2
  let recorded := s.recorded ++ s.conn.announcements.map fun cap => (cap.id, s.log.length)
  match s.conn.producer with
  | none => { s with conn, recorded }
  | some p =>
    let log := if s.conn.replaces then truncateLast s.log else s.log
    { s with
      conn
      recorded
      log := log ++ [loggedFrame D s.conn (p.advanceVisible dump snapshot alt dims 0)] }

/-- Growth is queued, if it is due. -/
def maybeQueueScrollback (s : FrameDelivery σ) (term : SessionTerm) : FrameDelivery σ :=
  let r := s.conn.maybeQueueScrollback term
  match r.1, s.conn.producer with
  | true, some p =>
    s.logOther r.2
      ⟨.frame, (s.conn.scrollbackFrame (p.advanceScrollbackAfterVisible term.sbTotal) term).bytes⟩
  | _, _ => s.setConn r.2

/-- One step.  The socket takes no more bytes than there are. -/
def step (D : Display τ σ) (s : FrameDelivery σ) : Act σ → Option (FrameDelivery σ)
  | .queueFrame dump snapshot alt dims => some (s.queueFrame D dump snapshot alt dims)
  | .maybeQueueScrollback term => some (s.maybeQueueScrollback term)
  | .queue tag payload => some (s.logOther (s.conn.queue tag payload) { tag, payload })
  | .write n =>
    if n ≤ s.conn.writeBuf.length then
      some { s with conn := s.conn.written n, taken := s.taken ++ s.conn.writeBuf.take n }
    else none
  | .frameAck payload => some (s.setConn (s.conn.applyFrameAck payload).2)
  | .clientCaps table => some (s.setConn (s.conn.absorbClientCaps table))
  | .init table rows cols => some (s.setConn (s.conn.applyInit D table rows cols))
  | .activity a => some (s.setConn (s.conn.refreshActivity a))
  | .flags echoFlag overlayFlag => some (s.setConn { s.conn with echoFlag, overlayFlag })
  | .pacing pacing => some (s.setConn { s.conn with pacing })
  | .dropAckedBase =>
    some (s.setConn { s.conn with producer := s.conn.producer.map FrameProducer.dropAckedBase })
  | .oweKeyframe =>
    some (s.setConn { s.conn with
      producer := s.conn.producer.map FrameProducer.dropAckedBase
      regeometryKeyframe := some .owed })

variable {s s' : FrameDelivery σ} {conn : ClientConn σ} {act : Act σ} (D : Display τ σ)

theorem maybeQueueScrollback_cases (s : FrameDelivery σ) (term : SessionTerm) :
    s.maybeQueueScrollback term = s ∨ ∃ conn payload, s.conn.Leaves conn ∧
      s.maybeQueueScrollback term = s.logOther (conn.queue .frame payload) { tag := .frame, payload } := by
  rw [FrameDelivery.maybeQueueScrollback]
  rcases s.conn.maybeQueueScrollback_cases term with hnone | ⟨p, hp, htrue, conn, hleaves, hqueue⟩
  · rw [hnone]
    exact .inl rfl
  · rw [htrue, hqueue, hp]
    exact .inr ⟨conn, _, hleaves, rfl⟩

/-- **What a step does**: it queues a visible frame, or changes the connection without queueing, or queues
another record, or lets the socket take bytes. -/
theorem step_cases {D : Display τ σ} (hstep : s.step D act = some s') :
    (∃ dump snapshot alt dims, act = .queueFrame dump snapshot alt dims ∧
      s' = s.queueFrame D dump snapshot alt dims) ∨ act.queuesFrame = false ∧
      ((∃ conn, s.conn.Leaves conn ∧ s' = s.setConn conn) ∨ (∃ conn tag payload, s.conn.Leaves conn ∧
          s' = s.logOther (conn.queue tag payload) { tag, payload }) ∨ ∃ n, n ≤ s.conn.writeBuf.length ∧
          s' = { s with conn := s.conn.written n, taken := s.taken ++ s.conn.writeBuf.take n }) := by
  cases act with
  | queueFrame dump snapshot alt dims =>
    cases hstep
    exact .inl ⟨dump, snapshot, alt, dims, rfl, rfl⟩
  | maybeQueueScrollback term =>
    cases hstep
    refine .inr ⟨rfl, ?_⟩
    rcases s.maybeQueueScrollback_cases term with heq | ⟨conn, payload, hleaves, heq⟩
    · exact .inl ⟨s.conn, .refl _, heq⟩
    · exact .inr (.inl ⟨conn, .frame, payload, hleaves, heq⟩)
  | queue tag payload =>
    cases hstep
    exact .inr ⟨rfl, .inr (.inl ⟨s.conn, tag, payload, .refl _, rfl⟩)⟩
  | write n =>
    rw [FrameDelivery.step] at hstep
    split at hstep
    case isFalse => cases hstep
    case isTrue hn =>
      cases hstep
      exact .inr ⟨rfl, .inr (.inr ⟨n, hn, rfl⟩)⟩
  | frameAck payload =>
    cases hstep
    exact .inr ⟨rfl, .inl ⟨_, leaves_applyFrameAck _ payload, rfl⟩⟩
  | init table rows cols =>
    cases hstep
    exact .inr ⟨rfl, .inl ⟨_, leaves_applyInit D _ table rows cols, rfl⟩⟩
  | activity a =>
    cases hstep
    exact .inr ⟨rfl, .inl ⟨_, leaves_refreshActivity _ a, rfl⟩⟩
  | clientCaps table | flags echo overlay | pacing p | dropAckedBase | oweKeyframe =>
    cases hstep
    refine .inr ⟨rfl, .inl ⟨_, ?_, rfl⟩⟩
    exact ⟨rfl, .inl rfl, rfl, rfl⟩

/-! ### The buffer -/

/-- **The invariant of the buffer**: what the socket took and the buffer are the surviving records, and the
anchor is where the newest of them starts, which is a visible frame of which nothing was taken. -/
structure Intact (s : FrameDelivery σ) : Prop where
  bytes : s.taken ++ s.conn.writeBuf = ipcFraming.encodeAll (surviving s.log)
  anchor : ∀ start, s.conn.pendingFrameStart = some start → ∃ before e, s.log = before ++ [e] ∧
    e.visible.isSome = true ∧ e.truncated = false ∧ start ≤ s.conn.writeBuf.length ∧
    s.taken.length + start = (ipcFraming.encodeAll (surviving before)).length
  others : ∀ e ∈ s.log, e.visible = none → e.truncated = false

theorem intact_start (conn : ClientConn σ) : Intact (start conn) where
  bytes := rfl
  anchor := fun _ h => by cases h
  others := fun _ h => by cases h

theorem Intact.setConn (h : Intact s) (hc : s.conn.Leaves conn) : Intact (s.setConn conn) where
  bytes := by
    rw [FrameDelivery.setConn, hc.writeBuf]
    exact h.bytes
  anchor := by
    intro start hstart
    rw [FrameDelivery.setConn] at hstart ⊢
    dsimp only at hstart ⊢
    rw [hc.writeBuf]
    rcases hc.anchor with heq | heq
    · exact h.anchor start (heq ▸ hstart)
    · rw [heq] at hstart
      cases hstart
  others := h.others

theorem Intact.logOther (h : Intact s) (hc : s.conn.Leaves conn) (tag : IpcTag)
    (payload : Bytes) : Intact (s.logOther (conn.queue tag payload) { tag, payload }) where
  bytes := by
    show s.taken ++ appendFrame conn.writeBuf tag payload = _
    rw [FrameDelivery.logOther, appendFrame, hc.writeBuf, ← List.append_assoc, h.bytes, surviving_append,
      encodeAll_append, surviving_singleton rfl, encodeAll_cons, encodeAll_nil,
      append_nil]
    rfl
  anchor := fun _ hstart => by cases hstart
  others := by
    intro e he hvisible
    rcases mem_append.1 he with he | he
    · exact h.others e he hvisible
    · rw [mem_singleton.1 he]

theorem Intact.write (h : Intact s) {n : ℕ} (hn : n ≤ s.conn.writeBuf.length) :
    Intact { s with conn := s.conn.written n, taken := s.taken ++ s.conn.writeBuf.take n } where
  bytes := by
    rw [written, List.append_assoc, List.take_append_drop]
    exact h.bytes
  anchor := by
    intro start hstart
    obtain ⟨start', hstart', hle⟩ := Option.bind_eq_some_iff.1 hstart
    split at hle
    case isFalse => cases hle
    case isTrue hn' =>
      injection hle with hle
      obtain ⟨before, e, hlog, hvisible, hkept, hlen, hplace⟩ := h.anchor start' hstart'
      refine ⟨before, e, hlog, hvisible, hkept, ?_, ?_⟩
      · rw [written, List.length_drop]
        omega
      · rw [length_append, List.length_take, ← hplace]
        omega
  others := h.others

theorem Intact.cut (h : Intact s) (hreplaces : s.conn.replaces = true) :
    ∃ before e, s.log = before ++ [e] ∧ e.visible.isSome = true ∧ e.truncated = false ∧
      s.taken ++ s.conn.kept = ipcFraming.encodeAll (surviving before) := by
  obtain ⟨start, hstart, hle, hkept⟩ := kept_of_replaces hreplaces
  obtain ⟨before, e, hlog, hvisible, hwhole, -, hplace⟩ := h.anchor start hstart
  refine ⟨before, e, hlog, hvisible, hwhole, ?_⟩
  have hbytes := h.bytes
  rw [hlog, surviving_append, encodeAll_append] at hbytes
  have htake := congrArg (List.take (s.taken.length + start)) hbytes
  rw [List.take_length_add_append, hplace, List.take_left' rfl] at htake
  rw [hkept]
  exact htake

theorem queueFrame_log {p : FrameProducer σ Bytes} (hp : s.conn.producer = some p)
    (dump : Bytes) (snapshot : σ) (alt : Bool) (dims : ℕ × ℕ) :
    (s.queueFrame D dump snapshot alt dims).log = (if s.conn.replaces then truncateLast s.log else s.log) ++
        [loggedFrame D s.conn (p.advanceVisible dump snapshot alt dims 0)] := by
  rw [FrameDelivery.queueFrame]
  dsimp only
  rw [hp]

theorem Intact.kept (h : Intact s) : s.taken ++ s.conn.kept =
      ipcFraming.encodeAll (surviving (if s.conn.replaces then truncateLast s.log else s.log)) := by
  cases hreplaces : s.conn.replaces with
  | false =>
    rw [if_neg Bool.false_ne_true, kept_of_not_replaces hreplaces]
    exact h.bytes
  | true =>
    obtain ⟨before, e, hlog, -, -, hcut⟩ := h.cut hreplaces
    rw [if_pos rfl, hlog, truncateLast_append, surviving_append, hcut]
    exact congrArg _ (append_nil _).symm

/-- **A visible frame** goes behind what is kept. -/
theorem Intact.queueFrame (h : Intact s) (dump : Bytes) (snapshot : σ) (alt : Bool)
    (dims : ℕ × ℕ) : Intact (s.queueFrame D dump snapshot alt dims) := by
  cases hp : s.conn.producer with
  | none =>
    have hstep : s.queueFrame D dump snapshot alt dims = { s with
          conn := s.conn.recordAnnouncements
          recorded := s.recorded ++ s.conn.announcements.map fun cap => (cap.id, s.log.length) } := by
      rw [FrameDelivery.queueFrame, queueFrame_none D hp]
      dsimp only
      rw [hp]
    rw [hstep, recordAnnouncements_eq]
    exact ⟨h.bytes, h.anchor, h.others⟩
  | some p =>
    obtain ⟨hbuf, hanchor, -, -⟩ := queueFrame_some D hp dump snapshot alt dims
    have hconn : (s.queueFrame D dump snapshot alt dims).conn =
        (s.conn.queueFrame D dump snapshot alt dims).2 := by
      rw [FrameDelivery.queueFrame]
      dsimp only
      rw [hp]
    have htaken : (s.queueFrame D dump snapshot alt dims).taken = s.taken := by
      rw [FrameDelivery.queueFrame]
      dsimp only
      rw [hp]
    have hlog := queueFrame_log D hp dump snapshot alt dims
    refine ⟨?_, ?_, ?_⟩
    · rw [hconn, htaken, hlog, hbuf, appendFrame, ← List.append_assoc, h.kept, surviving_append,
        encodeAll_append, surviving_singleton rfl, encodeAll_cons, encodeAll_nil,
        append_nil]
      rfl
    · intro start hstart
      rw [hconn, hanchor] at hstart
      split at hstart
      case isFalse => cases hstart
      case isTrue =>
        injection hstart with hstart
        refine ⟨_, _, hlog, rfl, rfl, ?_, ?_⟩
        · rw [hconn, hbuf, appendFrame, length_append]
          omega
        · rw [htaken, ← hstart, ← length_append, h.kept]
    · intro e he hvisible
      rw [hlog] at he
      rcases mem_append.1 he with he | he
      · cases hreplaces : s.conn.replaces with
        | false =>
          rw [hreplaces] at he
          exact h.others e he hvisible
        | true =>
          obtain ⟨before, e', hbefore, hvisible', -, -⟩ := h.cut hreplaces
          rw [hreplaces, if_pos rfl, hbefore, truncateLast_append] at he
          rcases mem_append.1 he with he | he
          · exact h.others e (hbefore ▸ List.mem_append_left _ he) hvisible
          · rw [mem_singleton.1 he] at hvisible
            rw [hvisible] at hvisible'
            cases hvisible'
      · rw [mem_singleton.1 he]
        rfl

/-- **A step keeps the buffer intact.** -/
theorem Intact.step (h : Intact s) (hstep : s.step D act = some s') : Intact s' := by
  rcases step_cases hstep with ⟨dump, snapshot, alt, dims, -, rfl⟩ | ⟨-, hother⟩
  · exact h.queueFrame D dump snapshot alt dims
  · rcases hother with ⟨conn, hc, rfl⟩ | ⟨conn, tag, payload, hc, rfl⟩ | ⟨n, hn, rfl⟩
    · exact h.setConn hc
    · exact h.logOther hc tag payload
    · exact h.write hn

/-- **Every run keeps the buffer intact.** -/
theorem Intact.run {acts : List (Act σ)}
    (hrun : Runs.exec (FrameDelivery.step D) (start conn) acts = some s) : Intact s :=
  Runs.exec_invariant (fun _ _ _ h hstep => Intact.step D h hstep) (intact_start conn) hrun

/-! ### What reaches the socket -/

/-- A step queues a record behind the others, or in the place of the newest of them, a visible frame of which
nothing was taken; or it queues none. -/
theorem surviving_step (h : Intact s) (hstep : s.step D act = some s') :
    surviving s'.log = surviving s.log ∨ (∃ new, surviving s'.log = surviving s.log ++ [new]) ∨
      ∃ before old new, s.log = before ++ [old] ∧ old.visible.isSome = true ∧
        surviving s.log = surviving before ++ [old.record] ∧
        s.taken <+: ipcFraming.encodeAll (surviving before) ∧ surviving s'.log = surviving before ++ [new] := by
  rcases step_cases hstep with ⟨dump, snapshot, alt, dims, -, rfl⟩ | ⟨-, hother⟩
  · cases hp : s.conn.producer with
    | none =>
      refine .inl ?_
      rw [FrameDelivery.queueFrame]
      dsimp only
      rw [hp]
    | some p =>
      rw [queueFrame_log D hp, surviving_append, surviving_singleton rfl]
      cases hreplaces : s.conn.replaces with
      | false =>
        rw [if_neg Bool.false_ne_true]
        exact .inr (.inl ⟨_, rfl⟩)
      | true =>
        obtain ⟨before, old, hlog, hvisible, hwhole, hcut⟩ := h.cut hreplaces
        have hkeep : surviving (truncateLast s.log) = surviving before := by
          rw [hlog, truncateLast_append, surviving_append]
          exact append_nil _
        refine .inr (.inr ⟨before, old, _, hlog, hvisible, ?_, ⟨_, hcut⟩, by rw [if_pos rfl, hkeep]⟩)
        rw [hlog, surviving_append, surviving_singleton hwhole]
  · rcases hother with ⟨conn, -, rfl⟩ | ⟨conn, tag, payload, -, rfl⟩ | ⟨n, -, rfl⟩
    · exact .inl rfl
    · rw [FrameDelivery.logOther, surviving_append, surviving_singleton rfl]
      exact .inr (.inl ⟨_, rfl⟩)
    · exact .inl rfl

/-- The records that are no visible frames. -/
def others (log : List LoggedRecord) : List LoggedRecord := log.filter fun e => e.visible.isNone

/-- **Coalescing keeps the wire intact.**  In every run from an empty buffer:

* the bytes the socket took are whole records and at most a beginning of the next, of those that were not
  cut off, in the order in which they were queued; the rest of these is what the buffer holds;
* a reader that accepts their lengths reads just the whole ones;
* a record that is no visible frame is never cut off;
* a step cuts off no record but the newest, which is then a visible frame of which the socket took nothing. -/
theorem coalescing_keeps_records (D : Display τ σ) {conn : ClientConn σ} {acts : List (Act σ)}
    (hrun : Runs.exec (FrameDelivery.step D) (start conn) acts = some s) :
    s.taken ++ s.conn.writeBuf = ipcFraming.encodeAll (surviving s.log) ∧
    (∃ out rest, s.taken = ipcFraming.encodeAll out ++ rest ∧ out <+: surviving s.log ∧
      (rest = [] ∨ ∃ r, out ++ [r] <+: surviving s.log ∧ rest <+: r.toBytes ∧ rest ≠ r.toBytes)) ∧
    ((∀ r ∈ surviving s.log, r.Fits) → ∃ out rest, ipcFraming.drain s.taken = (.ok out, rest) ∧
      out <+: surviving s.log ∧ s.taken = ipcFraming.encodeAll out ++ rest) ∧
    (others s.log).filter (fun e => !e.truncated) = others s.log ∧ ∀ act s', s.step D act = some s' →
      surviving s'.log = surviving s.log ∨ (∃ new, surviving s'.log = surviving s.log ++ [new]) ∨
        ∃ before old new, s.log = before ++ [old] ∧ old.visible.isSome = true ∧
          surviving s.log = surviving before ++ [old.record] ∧
          s.taken <+: ipcFraming.encodeAll (surviving before) ∧
          surviving s'.log = surviving before ++ [new] := by
  have h := Intact.run D hrun
  have htaken : s.taken <+: ipcFraming.encodeAll (surviving s.log) := ⟨_, h.bytes⟩
  refine ⟨h.bytes, Framing.prefix_encodeAll _ htaken, ?_, ?_, fun act s' hstep => surviving_step D h hstep⟩
  · intro hfits
    obtain ⟨out, rest, hdrain, hout, hsplit, -⟩ :=
      Framing.drain_spec ipcFraming_lawful parseIpcRecord_nil _ s.taken hfits htaken
    exact ⟨out, rest, hdrain, hout, hsplit⟩
  · refine List.filter_eq_self.2 fun e he => ?_
    rw [others, List.mem_filter, Option.isNone_iff_eq_none] at he
    rw [h.others e he.1 he.2]
    rfl

/-- A coalescing client that asked for the label and for the push command. -/
def coalescingClient : ClientConn Unit where
  producer := some (.new nullDisplay 1 1)
  coalesce := true
  wantsActivity := true
  wantsPushCmd := true
  activityNow := some { process := [0x73, 0x68], title := [] }

/-- A frame is replaced, the next one is begun, so that the one after it is appended; output comes last. -/
def begunRun : List (Act Unit) :=
  [.queueFrame [0x61] () false (1, 1), .queueFrame [0x62] () false (1, 1), .write 3,
    .queueFrame [0x63] () false (1, 1), .queue .output [0x21], .write 7]

theorem coalescing_keeps_records_begun :
    ∃ s, Runs.exec (FrameDelivery.step nullDisplay) (start coalescingClient) begunRun = some s ∧
      s.taken ++ s.conn.writeBuf = ipcFraming.encodeAll (surviving s.log) ∧
      (s.taken.length, (surviving s.log).length) = (10, 3) := by
  have hlengths : (Runs.exec (FrameDelivery.step nullDisplay) (start coalescingClient) begunRun).map
      (fun s => (s.taken.length, (surviving s.log).length)) = some (10, 3) := by
    decide +kernel
  obtain ⟨s, hs, hs'⟩ := Option.map_eq_some_iff.1 hlengths
  exact ⟨s, hs, (coalescing_keeps_records nullDisplay hs).1, hs'⟩

/-! ### The announcements -/

/-- **Every announcement recorded as sent is carried by a frame that was not cut off**: the one it was recorded
with, or a later one. -/
def Announced (s : FrameDelivery σ) : Prop := ∀ r ∈ s.recorded, ∃ e ∈ s.log.drop r.2, e.Delivers r.1

/-- **The condition on a step.**  A visible frame is not made for a client that takes no frames while a label
is due; and it does not take the place of one that carries the kind or the offer, nor of one that carries a
label unless a label is due. -/
def KeepsAnnouncements (s : FrameDelivery σ) : Act σ → Prop
  | .queueFrame _ _ _ _ =>
    (s.conn.producer = none → s.conn.answerDue = false) ∧
    (s.conn.producer.isSome = true → s.conn.replaces = true → ∀ e ∈ s.log.getLast?,
      ¬e.Delivers capSessionKind ∧ ¬e.Delivers capPushCmd ∧
        (e.Delivers capSessionActivity → s.conn.answerDue = true))
  | _ => True

/-- The invariant of the announcements: what is recorded is flagged, and what frames carry is recorded. -/
structure Recorded (s : FrameDelivery σ) : Prop where
  announcement : ∀ r ∈ s.recorded, ClientConn.isAnnouncement r.1 = true
  kind : ∀ r ∈ s.recorded, r.1 = capSessionKind → s.conn.kindSent = true
  offer : ∀ r ∈ s.recorded, r.1 = capPushCmd → s.conn.pushOffered = true
  place : ∀ r ∈ s.recorded, r.2 ≤ s.log.length
  carried : ∀ i e, s.log[i]? = some e → ∀ id, ClientConn.isAnnouncement id = true → e.Delivers id → (id, i) ∈ s.recorded

theorem recorded_start (conn : ClientConn σ) : Recorded (start conn) where
  announcement := fun _ h => by cases h
  kind := fun _ h => by cases h
  offer := fun _ h => by cases h
  place := fun _ h => by cases h
  carried := fun _ _ h => by cases h

theorem delivers_loggedFrame (c : ClientConn σ) (p : FrameProducer σ Bytes) {id : UInt8}
    (hid : isAnnouncement id = true) : (loggedFrame D c p).Delivers id ↔ ∃ cap ∈ c.announcements, cap.id = id := by
  rw [← announces_visibleFrame D c p hid, LoggedRecord.Delivers]
  constructor
  · rintro ⟨-, f, hf, hcap⟩
    exact Option.some.inj hf ▸ hcap
  · intro hcap
    exact ⟨rfl, _, rfl, hcap⟩

theorem not_delivers_other (record : IpcRecord) (id : UInt8) : ¬({ record } : LoggedRecord).Delivers id := by
  rintro ⟨-, f, hf, -⟩
  cases hf

theorem not_delivers_truncated (e : LoggedRecord) (id : UInt8) :
    ¬({ e with truncated := true } : LoggedRecord).Delivers id := by
  rintro ⟨h, -⟩
  cases h

theorem length_kept (log : List LoggedRecord) (b : Bool) :
    (if b then truncateLast log else log).length = log.length := by
  cases b with
  | false => rfl
  | true =>
    rcases List.eq_nil_or_concat log with rfl | ⟨before, e, rfl⟩
    · rfl
    · rw [if_pos rfl, List.concat_eq_append, truncateLast_append, length_append, length_append]
      rfl

theorem delivers_of_kept {log : List LoggedRecord} {b : Bool} {i : ℕ} {e : LoggedRecord} {id : UInt8}
    (he : (if b then truncateLast log else log)[i]? = some e) (hd : e.Delivers id) : log[i]? = some e := by
  cases b with
  | false => exact he
  | true =>
    rcases List.eq_nil_or_concat log with rfl | ⟨before, old, rfl⟩
    · exact he
    · rw [if_pos rfl, List.concat_eq_append, truncateLast_append] at he
      rw [List.concat_eq_append]
      rcases Nat.lt_or_ge i before.length with hi | hi
      · rw [List.getElem?_append_left hi] at he ⊢
        exact he
      · rw [List.getElem?_append_right hi] at he
        rcases List.mem_of_getElem? he with _ | ⟨_, he⟩
        · exact (not_delivers_truncated old id hd).elim
        · cases he

theorem Recorded.setConn (h : Recorded s) (hc : s.conn.Leaves conn) :
    Recorded (s.setConn conn) where
  announcement := h.announcement
  kind := fun r hr hid => hc.kindSent.trans (h.kind r hr hid)
  offer := fun r hr hid => hc.pushOffered.trans (h.offer r hr hid)
  place := h.place
  carried := h.carried

theorem Recorded.logOther (h : Recorded s) (hc : s.conn.Leaves conn) (tag : IpcTag)
    (payload : Bytes) : Recorded (s.logOther (conn.queue tag payload) { tag, payload }) where
  announcement := h.announcement
  kind := fun r hr hid => hc.kindSent.trans (h.kind r hr hid)
  offer := fun r hr hid => hc.pushOffered.trans (h.offer r hr hid)
  place := fun r hr => (h.place r hr).trans (by rw [FrameDelivery.logOther, length_append]; omega)
  carried := by
    intro i e he id hid hd
    rw [FrameDelivery.logOther] at he
    rcases Nat.lt_or_ge i s.log.length with hi | hi
    · rw [List.getElem?_append_left hi] at he
      exact h.carried i e he id hid hd
    · rw [List.getElem?_append_right hi] at he
      rcases List.mem_of_getElem? he with _ | ⟨_, he⟩
      · exact (not_delivers_other _ id hd).elim
      · cases he

theorem queueFrame_recorded (s : FrameDelivery σ) (dump : Bytes) (snapshot : σ) (alt : Bool)
    (dims : ℕ × ℕ) :
    (s.queueFrame D dump snapshot alt dims).recorded =
        s.recorded ++ s.conn.announcements.map (fun cap => (cap.id, s.log.length)) ∧
      (s.queueFrame D dump snapshot alt dims).conn.kindSent = (s.conn.kindSent || s.conn.answerDue) ∧
      (s.queueFrame D dump snapshot alt dims).conn.pushOffered =
        (s.conn.pushOffered || (s.conn.answerDue && s.conn.wantsPushCmd)) := by
  rw [FrameDelivery.queueFrame]
  dsimp only
  cases hp : s.conn.producer with
  | none =>
    rw [queueFrame_none D hp, recordAnnouncements_eq]
    exact ⟨rfl, rfl, rfl⟩
  | some p =>
    obtain ⟨-, -, hkind, hoffer⟩ := queueFrame_some D hp dump snapshot alt dims
    exact ⟨rfl, hkind, hoffer⟩

theorem mem_recorded_queueFrame {D : Display τ σ} {dump : Bytes} {snapshot : σ} {alt : Bool} {dims : ℕ × ℕ}
    {r : UInt8 × ℕ} : r ∈ (s.queueFrame D dump snapshot alt dims).recorded ↔
      r ∈ s.recorded ∨ r.2 = s.log.length ∧ ∃ cap ∈ s.conn.announcements, cap.id = r.1 := by
  rw [(queueFrame_recorded D s dump snapshot alt dims).1, mem_append, List.mem_map]
  refine or_congr_right ⟨?_, ?_⟩
  · rintro ⟨cap, hcap, rfl⟩
    exact ⟨rfl, cap, hcap, rfl⟩
  · rintro ⟨hplace, cap, hcap, hid⟩
    exact ⟨cap, hcap, Prod.ext hid hplace.symm⟩

theorem Recorded.queueFrame (h : Recorded s) (dump : Bytes) (snapshot : σ) (alt : Bool)
    (dims : ℕ × ℕ) : Recorded (s.queueFrame D dump snapshot alt dims) := by
  obtain ⟨-, hkind, hoffer⟩ := queueFrame_recorded D s dump snapshot alt dims
  have hlength : s.log.length ≤ (s.queueFrame D dump snapshot alt dims).log.length := by
    cases hp : s.conn.producer with
    | none =>
      rw [FrameDelivery.queueFrame]
      dsimp only
      rw [hp]
    | some p =>
      rw [queueFrame_log D hp, length_append, length_kept]
      omega
  refine ⟨?_, ?_, ?_, ?_, ?_⟩
  · intro r hr
    rcases mem_recorded_queueFrame.1 hr with hr | ⟨-, cap, hcap, hid⟩
    · exact h.announcement r hr
    · exact hid ▸ isAnnouncement_of_mem hcap
  · intro r hr hid
    rw [hkind]
    rcases mem_recorded_queueFrame.1 hr with hr | ⟨-, cap, hcap, -⟩
    · rw [h.kind r hr hid, Bool.true_or]
    · rw [(mem_announcements.1 hcap).1, Bool.or_true]
  · intro r hr hid
    rw [hoffer]
    rcases mem_recorded_queueFrame.1 hr with hr | ⟨-, cap, hcap, hcapid⟩
    · rw [h.offer r hr hid, Bool.true_or]
    · rw [(mem_announcements.1 hcap).1,
        (pushOffered_of_mem_announcements hcap (hcapid.trans hid)).1, Bool.true_and, Bool.or_true]
  · intro r hr
    rcases mem_recorded_queueFrame.1 hr with hr | ⟨hplace, -⟩
    · exact (h.place r hr).trans hlength
    · exact hplace ▸ hlength
  · intro i e he id hid hd
    rw [mem_recorded_queueFrame]
    cases hp : s.conn.producer with
    | none =>
      rw [FrameDelivery.queueFrame] at he
      dsimp only at he
      rw [hp] at he
      exact .inl (h.carried i e he id hid hd)
    | some p =>
      rw [queueFrame_log D hp] at he
      rcases Nat.lt_or_ge i s.log.length with hi | hi
      · rw [List.getElem?_append_left (by rw [length_kept]; exact hi)] at he
        exact .inl (h.carried i e (delivers_of_kept he hd) id hid hd)
      · rw [List.getElem?_append_right (by rw [length_kept]; exact hi), length_kept] at he
        refine .inr ?_
        rcases Nat.eq_zero_or_pos (i - s.log.length) with hz | hpos
        · rw [hz] at he
          cases he
          exact ⟨by dsimp only; omega, (delivers_loggedFrame D s.conn _ hid).1 hd⟩
        · rw [List.getElem?_eq_none (by simp only [List.length_singleton]; omega)] at he
          cases he

theorem Recorded.step (h : Recorded s) (hstep : s.step D act = some s') : Recorded s' := by
  rcases step_cases hstep with ⟨dump, snapshot, alt, dims, -, rfl⟩ | ⟨-, hother⟩
  · exact h.queueFrame D dump snapshot alt dims
  · rcases hother with ⟨conn, hc, rfl⟩ | ⟨conn, tag, payload, hc, rfl⟩ | ⟨n, -, rfl⟩
    · exact h.setConn hc
    · exact h.logOther hc tag payload
    · exact ⟨h.announcement, h.kind, h.offer, h.place, h.carried⟩

section VisibleFrame

variable (D : Display τ σ) (dump : Bytes) (snapshot : σ) (alt : Bool) (dims : ℕ × ℕ)

theorem announced_unframed (hp : s.conn.producer = none) (hA : Announced s) :
    Announced (s.queueFrame D dump snapshot alt dims) ↔ s.conn.answerDue = false := by
  have hlog : (s.queueFrame D dump snapshot alt dims).log = s.log := by
    rw [FrameDelivery.queueFrame]
    dsimp only
    rw [hp]
  constructor
  · intro hA'
    by_contra hdue
    rw [Bool.not_eq_false] at hdue
    obtain ⟨cap, hcap, -⟩ := (label_mem_announcements s.conn).2 hdue
    obtain ⟨e, he, -⟩ := hA' (cap.id, s.log.length) (mem_recorded_queueFrame.2 (.inr ⟨rfl, cap, hcap, rfl⟩))
    rw [hlog, List.drop_length] at he
    cases he
  · intro hdue r hr
    rcases mem_recorded_queueFrame.1 hr with hr | ⟨-, cap, hcap, -⟩
    · rw [hlog]
      exact hA r hr
    · rw [(mem_announcements.1 hcap).1] at hdue
      cases hdue

variable {p : FrameProducer σ Bytes}

theorem mem_drop_queueFrame (hp : s.conn.producer = some p) {i : ℕ} {id : UInt8} (hi : i ≤ s.log.length)
    (hcap : ∃ cap ∈ s.conn.announcements, cap.id = id) :
    ∃ e ∈ (s.queueFrame D dump snapshot alt dims).log.drop i, e.Delivers id := by
  have hid : isAnnouncement id = true := by
    obtain ⟨cap, hcap, rfl⟩ := hcap
    exact isAnnouncement_of_mem hcap
  refine ⟨loggedFrame D s.conn (p.advanceVisible dump snapshot alt dims 0), ?_,
    (delivers_loggedFrame D s.conn _ hid).2 hcap⟩
  rw [queueFrame_log D hp, List.drop_append_of_le_length (by rw [length_kept]; exact hi)]
  exact List.mem_append_right _ (List.mem_singleton_self _)

theorem announced_appended (hp : s.conn.producer = some p) (hreplaces : s.conn.replaces = false)
    (hA : Announced s) : Announced (s.queueFrame D dump snapshot alt dims) := by
  intro r hr
  rcases mem_recorded_queueFrame.1 hr with hr | ⟨hplace, hcap⟩
  · obtain ⟨e, he, hd⟩ := hA r hr
    refine ⟨e, ?_, hd⟩
    rw [queueFrame_log D hp, hreplaces, if_neg Bool.false_ne_true, List.drop_append]
    exact List.mem_append_left _ he
  · exact mem_drop_queueFrame D dump snapshot alt dims hp hplace.le hcap

variable {before : List LoggedRecord} {old : LoggedRecord}

theorem queueFrame_log_replaced (hp : s.conn.producer = some p) (hreplaces : s.conn.replaces = true)
    (hbefore : s.log = before ++ [old]) :
    (s.queueFrame D dump snapshot alt dims).log = before ++ [{ old with truncated := true },
        loggedFrame D s.conn (p.advanceVisible dump snapshot alt dims 0)] := by
  rw [queueFrame_log D hp, hreplaces, if_pos rfl, hbefore, truncateLast_append, List.append_assoc]
  rfl

theorem announced_again (hp : s.conn.producer = some p) (hreplaces : s.conn.replaces = true)
    (hbefore : s.log = before ++ [old]) (hR : Recorded s)
    (hA' : Announced (s.queueFrame D dump snapshot alt dims)) {id : UInt8}
    (hid : isAnnouncement id = true) (hd : old.Delivers id) :
    (id, before.length) ∈ s.recorded ∧ ∃ cap ∈ s.conn.announcements, cap.id = id := by
  have hrec : (id, before.length) ∈ s.recorded :=
    hR.carried before.length old (by rw [hbefore, List.getElem?_concat_length]) id hid hd
  refine ⟨hrec, ?_⟩
  obtain ⟨e, he, hde⟩ := hA' _ (mem_recorded_queueFrame.2 (.inl hrec))
  rw [queueFrame_log_replaced D dump snapshot alt dims hp hreplaces hbefore, List.drop_left' rfl] at he
  rcases List.mem_cons.1 he with rfl | he
  · exact (not_delivers_truncated old id hde).elim
  · rw [mem_singleton.1 he] at hde
    exact (delivers_loggedFrame D s.conn _ hid).1 hde

theorem announced_replaced (hp : s.conn.producer = some p) (hreplaces : s.conn.replaces = true)
    (hbefore : s.log = before ++ [old]) (hR : Recorded s) (hA : Announced s) :
    Announced (s.queueFrame D dump snapshot alt dims) ↔ ¬old.Delivers capSessionKind ∧ ¬old.Delivers capPushCmd ∧
        (old.Delivers capSessionActivity → s.conn.answerDue = true) := by
  constructor
  · intro hA'
    have hagain : ∀ id : UInt8, isAnnouncement id = true → old.Delivers id →
        (id, before.length) ∈ s.recorded ∧ ∃ cap ∈ s.conn.announcements, cap.id = id :=
      fun _ => announced_again D dump snapshot alt dims hp hreplaces hbefore hR hA'
    refine ⟨fun hd => ?_, fun hd => ?_, fun hd => ?_⟩
    · obtain ⟨hrec, cap, hcap, hid⟩ := hagain _ rfl hd
      have hsent := hR.kind _ hrec rfl
      rw [kindSent_of_mem_announcements hcap hid] at hsent
      cases hsent
    · obtain ⟨hrec, cap, hcap, hid⟩ := hagain _ rfl hd
      have hsent := hR.offer _ hrec rfl
      rw [(pushOffered_of_mem_announcements hcap hid).2] at hsent
      cases hsent
    · exact (label_mem_announcements s.conn).1 (hagain _ rfl hd).2
  · rintro ⟨hkind, hoffer, hlabel⟩ r hr
    rcases mem_recorded_queueFrame.1 hr with hr | ⟨hplace, hcap⟩
    case inr => exact mem_drop_queueFrame D dump snapshot alt dims hp hplace.le hcap
    obtain ⟨e, he, hd⟩ := hA r hr
    rw [hbefore] at he
    rcases Nat.lt_or_ge before.length r.2 with hlt | hle
    · rw [List.drop_of_length_le (by rw [length_append]; exact hlt)] at he
      cases he
    · rw [List.drop_append_of_le_length hle] at he
      rcases mem_append.1 he with he | he
      · refine ⟨e, ?_, hd⟩
        rw [queueFrame_log_replaced D dump snapshot alt dims hp hreplaces hbefore,
          List.drop_append_of_le_length hle]
        exact List.mem_append_left _ he
      · -- the frame that carried it is cut off: it was a label, and the new frame carries one
        rw [mem_singleton.1 he] at hd
        refine mem_drop_queueFrame D dump snapshot alt dims hp (hR.place r hr) ?_
        rcases isAnnouncement_cases (hR.announcement r hr) with hid | hid | hid
        · rw [hid] at hd ⊢
          exact (label_mem_announcements s.conn).2 (hlabel hd)
        · exact (hkind (hid ▸ hd)).elim
        · exact (hoffer (hid ▸ hd)).elim

/-- **A visible frame** keeps the announcements exactly when it meets the condition. -/
theorem announced_queueFrame (hI : Intact s) (hR : Recorded s) (hA : Announced s) :
    Announced (s.queueFrame D dump snapshot alt dims) ↔
      s.KeepsAnnouncements (.queueFrame dump snapshot alt dims) := by
  cases hp : s.conn.producer with
  | none =>
    rw [announced_unframed D dump snapshot alt dims hp hA, KeepsAnnouncements, hp]
    exact ⟨fun hdue => ⟨fun _ => hdue, fun h => (by cases h)⟩, fun h => h.1 rfl⟩
  | some p =>
    rw [KeepsAnnouncements, hp]
    cases hreplaces : s.conn.replaces with
    | false =>
      exact iff_of_true (announced_appended D dump snapshot alt dims hp hreplaces hA)
        ⟨fun h => (by cases h), fun _ h => (by cases h)⟩
    | true =>
      obtain ⟨before, old, hbefore, -, -, -⟩ := hI.cut hreplaces
      rw [announced_replaced D dump snapshot alt dims hp hreplaces hbefore hR hA, hbefore,
        List.getLast?_concat]
      constructor
      · rintro h
        exact ⟨fun h => (by cases h), fun _ _ e he => Option.some.inj he ▸ h⟩
      · intro h
        exact h.2 rfl rfl old rfl

end VisibleFrame

theorem announced_step (hI : Intact s) (hR : Recorded s) (hA : Announced s)
    (hstep : s.step D act = some s') : Announced s' ↔ s.KeepsAnnouncements act := by
  rcases step_cases hstep with ⟨dump, snapshot, alt, dims, rfl, rfl⟩ | ⟨hact, hother⟩
  · exact announced_queueFrame D dump snapshot alt dims hI hR hA
  · have hkeeps : s.KeepsAnnouncements act := by
      cases act <;> trivial
    refine iff_of_true ?_ hkeeps
    rcases hother with ⟨conn, -, rfl⟩ | ⟨conn, tag, payload, -, rfl⟩ | ⟨n, -, rfl⟩
    · exact hA
    · intro r hr
      obtain ⟨e, he, hd⟩ := hA r hr
      refine ⟨e, ?_, hd⟩
      rw [FrameDelivery.logOther, List.drop_append]
      exact List.mem_append_left _ he
    · exact hA

/-- **The announcements reach the client exactly in the runs that meet the condition.**  In every state of a run
each announcement recorded as sent is carried by a frame that was not cut off exactly when no step takes a
frame that carries some out of the buffer for one that does not, nor records some without a frame. -/
theorem announced_iff (D : Display τ σ) {conn : ClientConn σ} {acts : List (Act σ)}
    (hrun : Runs.exec (FrameDelivery.step D) (start conn) acts = some s) :
    (∀ acts', acts' <+: acts → ∀ m, Runs.exec (FrameDelivery.step D) (start conn) acts' = some m → Announced m) ↔
      Runs.AllOk KeepsAnnouncements (FrameDelivery.step D) (start conn) acts := by
  refine Runs.always_iff_allOk (I := fun m => Intact m ∧ Recorded m) ?_ ?_
    ⟨intact_start conn, recorded_start conn⟩ (fun r hr => by cases hr) hrun
  · rintro m act m' ⟨hI, hR⟩ hstep
    exact ⟨hI.step D hstep, hR.step D hstep⟩
  · rintro m act m' ⟨hI, hR⟩ hA hstep
    exact announced_step D hI hR hA hstep

theorem announced_iff_first_frame :
    Runs.AllOk KeepsAnnouncements (FrameDelivery.step nullDisplay) (start coalescingClient)
        [.queueFrame [0x61] () false (1, 1)] ∧
      ∀ m, Runs.exec (FrameDelivery.step nullDisplay) (start coalescingClient)
        [.queueFrame [0x61] () false (1, 1)] = some m → Announced m := by
  have hok : Runs.AllOk KeepsAnnouncements (FrameDelivery.step nullDisplay) (start coalescingClient)
      [.queueFrame [0x61] () false (1, 1)] :=
    ⟨⟨fun h => (by cases h), fun _ h => (by cases h)⟩, fun _ _ => trivial⟩
  exact ⟨hok, fun m hm => (announced_iff nullDisplay rfl).2 hok _ (List.prefix_refl _) m hm⟩

/-- What is flagged, and what the frames carry: the label, the kind and the offer are ids 15, 20 and 21. -/
def outline (s : FrameDelivery σ) : List (UInt8 × ℕ) × List (Bool × List UInt8) :=
  (s.recorded, s.log.map fun e => (e.truncated, (e.visible.map fun f => f.caps.map Cap.id).getD []))

/-- Two frames, and nothing taken in between: the second replaces the first, and with it the label, the kind
and the offer, which are recorded as sent. -/
theorem announced_fails :
    ∃ s, Runs.exec (FrameDelivery.step nullDisplay) (start coalescingClient)
        [.queueFrame [0x61] () false (1, 1), .queueFrame [0x62] () false (1, 1)] = some s ∧
      s.outline = ([(15, 0), (20, 0), (21, 0)], [(true, [0, 15, 20, 21]), (false, [0])]) ∧ ¬Announced s := by
  have houtline : (Runs.exec (FrameDelivery.step nullDisplay) (start coalescingClient)
      [.queueFrame [0x61] () false (1, 1), .queueFrame [0x62] () false (1, 1)]).map outline =
        some ([(15, 0), (20, 0), (21, 0)], [(true, [0, 15, 20, 21]), (false, [0])]) := by
    decide +kernel
  obtain ⟨s, hs, hs'⟩ := Option.map_eq_some_iff.1 houtline
  refine ⟨s, hs, hs', fun hA => ?_⟩
  obtain ⟨hrecorded, hlog⟩ := Prod.mk.inj hs'
  obtain ⟨e, he, hwhole, f, hf, cap, hcap, hid⟩ := hA (20, 0) (by rw [hrecorded]; decide)
  have hmem := List.mem_map_of_mem (f := fun e : LoggedRecord =>
    (e.truncated, (e.visible.map fun f => f.caps.map Cap.id).getD [])) (List.mem_of_mem_drop he)
  rw [hlog, hwhole, Option.mem_def.1 hf] at hmem
  have hids : f.caps.map Cap.id = [0] := by simpa using hmem
  have hkind : (20 : UInt8) ∈ f.caps.map Cap.id := List.mem_map.2 ⟨cap, hcap, hid⟩
  rw [hids] at hkind
  cases List.mem_singleton.1 hkind

end FrameDelivery

end Posh
