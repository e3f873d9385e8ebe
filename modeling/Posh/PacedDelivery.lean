/-
**Paced delivery neither spins nor forgets.**

A paced viewport is marked when a frame is owed to it, and is sent the frame when there is an opportunity: nothing
is waiting in its buffer, and the frame before was acknowledged, or waited for long enough.  The rows of its history
have opportunities of their own.  The same two times decide when the daemon wakes up and what it sends then.

A run is any sequence of what happens to one viewport's connection, on a clock that moves forward.  It logs the
terminals there were to broadcast, the marks, the paced frames and the round trips that were sampled.
-/

import Posh.Broadcast

set_option autoImplicit false

namespace Posh

open Term (Terminal GraphicsStore MirrorDump)
open Term.Render (Snapshot)
open FrameProducer (ack_current ackedNum currentNum)
open List (append_nil mem_append mem_singleton)
open ClientConn
open Bool (and_eq_true or_eq_true)
open Option (isSome_map)

variable {τ σ γ : Type}

/-! ### The times -/

def pacedFrameFloorMs : ℕ := 20

def pacedAckWaitMs : ℕ := 250

def historyWindowRows : ℕ := 2 * sb2RowsPerBody

def historyResendInitialMs : ℕ := 4 * pacedAckWaitMs

def historyResendMaxDoublings : ℕ := 3

def sentFrameLogCap : ℕ := 16

/-- A time doubled for each step, but not more often than `maxDoublings`. -/
def backoff (base streak maxDoublings : ℕ) : ℕ :=
  min (base * 2 ^ min (min streak maxDoublings) 63) (2 ^ 64 - 1)

namespace ViewConn

/-- A paced viewport is owed a visible frame. -/
def owesPacedFrame (c : ViewConn σ) : Bool := c.pacing.isSome && c.paced.dirty

/-- **When the next visible frame may be sent**: never, while none is owed or bytes are waiting. -/
def pacedSendAt (c : ViewConn σ) : Option ℕ :=
  if !c.owesPacedFrame || !c.writeBuf.isEmpty then none
  else
    c.producer.map fun p =>
      match c.pacing.bind Pacing.lastFresh with
      | none => 0
      | some at' => if p.ackedNum ≥ p.lastVisibleNum then at' + pacedFrameFloorMs else at' + pacedAckWaitMs

/-- How long the rows in flight wait for their acknowledgement. -/
def historyResendAfter (c : ViewConn σ) : ℕ :=
  if c.pacing.isNone then historyResendInitialMs
  else
    let base := c.paced.acks.srttMs.elim historyResendInitialMs fun s => max (2 * s) pacedAckWaitMs
    backoff base (c.history.elim 0 HistoryCursor.resends) historyResendMaxDoublings

/-- **When the next rows of the history may be sent.** -/
def historySendAt (c : ViewConn σ) (ring : PrimaryRing) : Option ℕ :=
  c.history.bind fun h =>
    if !c.writeBuf.isEmpty || c.producer.isNone then none
    else h.nextDue ring.total c.historyResendAfter historyWindowRows

/-! ### The pass -/

/-- A frame enters the log of the frames that were not acknowledged yet; the oldest leaves it when it is full. -/
def logSent (frames : List (ℕ × ℕ)) (num now : ℕ) : List (ℕ × ℕ) :=
  (if frames.length = sentFrameLogCap then frames.drop 1 else frames) ++ [(num, now)]

/-- The visible frame counts as sent. -/
def noteSent (c : ViewConn σ) (now : ℕ) : ViewConn σ :=
  { c with
    pacing := c.pacing.map fun p =>
      { p with
        lastFresh := some now
        sentFrames := (c.producer.map FrameProducer.lastVisibleNum).elim p.sentFrames fun num =>
          logSent p.sentFrames num now }
    paced := if c.pacing.isSome then { c.paced with dirty := false, lastWasScreen := true } else c.paced }

/-- **The visible frame that is owed**, and the growth of the scrollback after it, unless the viewport keeps a
history. -/
def sendPacedFrame [GraphicsStore γ] (D : Display τ Snapshot) (c : ViewConn Snapshot) (src : Terminal γ) (now : ℕ) :
    ViewConn Snapshot :=
  let built := c.buildFrameFrom D src
  if !built.1 then built.2
  else (if built.2.history.isSome then built.2 else built.2.maybeQueueScrollback src).noteSent now

def historyFrame (c : ViewConn σ) (num : ℕ) (epoch : UInt8) (rowOffset : ℕ) (rows : List Bytes) : ServerFrame where
  flags := c.flags
  caps := ownTable (encodeScrollback2Ack epoch ::
    ((c.pacing.bind Pacing.extent).map encodeScrollback2Extent).toList)
  frameNum := num
  body := .scrollback2 epoch rowOffset rows

/-- **Rows of the history**, from the cursor or, when they are overdue, again. -/
def sendHistoryBody (c : ViewConn σ) (ring : PrimaryRing) (now : ℕ) : ViewConn σ :=
  match c.producer, c.history with
  | some p, some h =>
    let (next, epoch, rowOffset, rows) := h.nextBody ring now c.historyResendAfter historyWindowRows
    let c := (c.mapHistory fun _ => next).refreshHistoryExtent ring
    let c := { c with paced := { c.paced with lastWasScreen := false } }
    { c with toClientConn := c.toClientConn.queue .frame (c.historyFrame p.currentNum epoch rowOffset rows).bytes }
  | _, _ => c

/-- A time has come. -/
def isDue (at' : Option ℕ) (now : ℕ) : Bool := at'.any fun due => decide (due ≤ now)

/-- What the pass sends. -/
inductive PacedBody where
  | screen
  | rows (ring : PrimaryRing)

/-- The body whose opportunity has come; of two, the kind that did not go last. -/
def pacedBody (c : ViewConn σ) (history : Option PrimaryRing) (now : ℕ) : Option PacedBody :=
  match isDue c.pacedSendAt now, history.filter fun ring => isDue (c.historySendAt ring) now with
  | true, some ring => if c.pacing.isSome && c.paced.lastWasScreen then some (.rows ring) else some .screen
  | true, none => some .screen
  | false, some ring => some (.rows ring)
  | false, none => none

/-- The extent before a pass. -/
def refreshFor (c : ViewConn σ) (history : Option PrimaryRing) : ViewConn σ :=
  match history with
  | some ring => c.refreshHistoryExtent ring
  | none => c

/-- **The pass, for one viewport**: at most one body. -/
def sendPaced [GraphicsStore γ] (D : Display τ Snapshot) (c : ViewConn Snapshot) (src : Terminal γ)
    (history : Option PrimaryRing) (now : ℕ) : ViewConn Snapshot :=
  let c := c.refreshFor history
  match c.pacedBody history now with
  | some .screen => c.sendPacedFrame D src now
  | some (.rows ring) => c.sendHistoryBody ring now
  | none => c

/-- Before the session ends, the frame that is owed is sent at once. -/
def flushPaced [GraphicsStore γ] (D : Display τ Snapshot) (c : ViewConn Snapshot) (src : Terminal γ) (now : ℕ) :
    ViewConn Snapshot :=
  if c.owesPacedFrame then c.sendPacedFrame D src now else c

/-! ### Acknowledgements -/

/-- The newest frame of the log that is acknowledged. -/
def confirmedFrame (frames : List (ℕ × ℕ)) (acked : ℕ) : Option (ℕ × ℕ) :=
  (frames.takeWhile fun frame => decide (frame.1 ≤ acked)).getLast?

/-- The frame whose round trip is sampled when an acknowledgement moved the base from `ackedBefore`. -/
def sampledFrame (c : ViewConn σ) (ackedBefore : Option ℕ) : Option (ℕ × ℕ) :=
  match ackedBefore, c.producer, c.pacing with
  | some before, some p, some q => if p.ackedNum ≤ before then none else confirmedFrame q.sentFrames p.ackedNum
  | _, _, _ => none

/-- **The round trip of an acknowledgement**: the frames it confirms leave the log, and the newest is sampled. -/
def noteFrameAck (c : ViewConn σ) (ackedBefore : Option ℕ) (now : ℕ) : ViewConn σ :=
  match ackedBefore, c.producer, c.pacing with
  | some before, some p, some q =>
    let acks := { c.paced.acks with lastAckAt := some now }
    if p.ackedNum ≤ before then { c with paced := { c.paced with acks } }
    else
      { c with
        pacing := some
          { q with sentFrames := q.sentFrames.dropWhile fun frame => decide (frame.1 ≤ p.ackedNum) }
        paced :=
          { c.paced with
            acks := (confirmedFrame q.sentFrames p.ackedNum).elim acks fun frame => acks.record (now - frame.2) } }
  | _, _, _ => c

def applyFrameAck (c : ViewConn σ) (payload : Bytes) : Bool × ViewConn σ :=
  let applied := c.toClientConn.applyFrameAck payload
  (applied.1, { c with toClientConn := applied.2 })

/-- **An acknowledgement**; a resync asks for a frame. -/
def handleFrameAck [GraphicsStore γ] (D : Display τ Snapshot) (c : ViewConn Snapshot) (payload : Bytes)
    (src : Terminal γ) (now : ℕ) : ViewConn Snapshot :=
  let applied := c.applyFrameAck payload
  let noted := applied.2.noteFrameAck (c.producer.map FrameProducer.ackedNum) now
  if applied.1 then (noted.requestFrameFrom D src).2 else noted

/-! ### A resize of the session -/

/-- The session was resized: a viewport of another size gets a fresh epoch; one whose ring was renumbered under it
goes on at its count. -/
def resetHistoryOnResize (c : ViewConn σ) (total : ℕ) (renumbered : Bool) : ViewConn σ :=
  c.mapHistory fun h =>
    if (c.rows, c.cols) = h.size then if renumbered then h.reanchor total else h
    else h.onClientSize (c.rows, c.cols) total

end ViewConn

open ViewConn

/-! ### All viewports -/

/-- **The pass.** -/
def sendPacedFrames [GraphicsStore γ] (D : Display τ Snapshot) (clients : List (ViewConn Snapshot)) (src : Terminal γ)
    (history : Option PrimaryRing) (now : ℕ) : List (ViewConn Snapshot) :=
  clients.map fun c => c.sendPaced D src history now

/-- The times of the next opportunities. -/
def opportunities (clients : List (ViewConn σ)) (history : Option PrimaryRing) : List ℕ :=
  clients.flatMap fun c => (c.pacedSendAt.toList ++ (history.bind c.historySendAt).toList)

/-- **The time until the pass is woken**, in milliseconds; -1 when nothing is owed. -/
def pacedPollTimeout (clients : List (ViewConn σ)) (history : Option PrimaryRing) (now : ℕ) : ℤ :=
  ((opportunities clients history).map (· - now)).min?.elim (-1) fun ms => (min ms (2 ^ 31 - 1) : ℕ)

/-! ### The pass is woken when it sends -/

theorem appendFrame_ne_nil (buf : Bytes) (tag : IpcTag) (payload : Bytes) : appendFrame buf tag payload ≠ [] := by
  intro h
  have hnil := (List.append_eq_nil_iff.1 h).2
  cases hnil

namespace ViewConn

section Pass

variable {c : ViewConn Snapshot} {history : Option PrimaryRing} {now : ℕ}

theorem pacedSendAt_eq_some {at' : ℕ} (h : c.pacedSendAt = some at') :
    c.owesPacedFrame = true ∧ c.writeBuf = [] ∧ ∃ p, c.producer = some p ∧
      at' = match c.pacing.bind Pacing.lastFresh with
        | none => 0
        | some before => if p.ackedNum ≥ p.lastVisibleNum then before + pacedFrameFloorMs else before + pacedAckWaitMs := by
  unfold pacedSendAt at h
  split at h
  · cases h
  · next hno =>
      rw [or_eq_true, not_or, Bool.not_eq_true', Bool.not_eq_false, Bool.not_eq_true', Bool.not_eq_false,
        List.isEmpty_iff] at hno
      obtain ⟨p, hp, rfl⟩ := Option.map_eq_some_iff.1 h
      exact ⟨hno.1, hno.2, p, hp, rfl⟩

theorem historySendAt_eq_some {ring : PrimaryRing} {at' : ℕ} (h : c.historySendAt ring = some at') :
    c.writeBuf = [] ∧ (∃ p, c.producer = some p) ∧ ∃ cursor, c.history = some cursor := by
  obtain ⟨cursor, hcursor, h⟩ := Option.bind_eq_some_iff.1 h
  split at h
  · cases h
  · next hno =>
      rw [or_eq_true, not_or, Bool.not_eq_true', Bool.not_eq_false, List.isEmpty_iff] at hno
      refine ⟨hno.1, ?_, cursor, hcursor⟩
      cases hp : c.producer with
      | none =>
        rw [hp] at hno
        exact absurd rfl hno.2
      | some p => exact ⟨p, rfl⟩

theorem no_opportunity (h : c.writeBuf ≠ []) : c.pacedSendAt = none ∧ ∀ ring, c.historySendAt ring = none := by
  constructor
  · cases hat : c.pacedSendAt with
    | none => rfl
    | some at' => exact absurd (pacedSendAt_eq_some hat).2.1 h
  · intro ring
    cases hat : c.historySendAt ring with
    | none => rfl
    | some at' => exact absurd (historySendAt_eq_some hat).1 h

theorem refreshFor_sendAt (history : Option PrimaryRing) : (c.refreshFor history).pacedSendAt = c.pacedSendAt ∧
      ∀ ring, (c.refreshFor history).historySendAt ring = c.historySendAt ring := by
  cases history with
  | none => exact ⟨rfl, fun _ => rfl⟩
  | some ring =>
    unfold refreshFor refreshHistoryExtent pacedSendAt historySendAt owesPacedFrame historyResendAfter
      history
    cases c.pacing <;> exact ⟨rfl, fun _ => rfl⟩

theorem refreshFor_writeBuf (history : Option PrimaryRing) :
    (c.refreshFor history).writeBuf = c.writeBuf ∧ (c.refreshFor history).producer = c.producer := by
  cases history <;> exact ⟨rfl, rfl⟩

/-- An opportunity has come. -/
def anyDue (c : ViewConn σ) (history : Option PrimaryRing) (now : ℕ) : Bool :=
  isDue c.pacedSendAt now || history.any fun ring => isDue (c.historySendAt ring) now

theorem pacedBody_isSome : (c.pacedBody history now).isSome = c.anyDue history now := by
  unfold pacedBody anyDue
  cases isDue c.pacedSendAt now with
  | true =>
    rw [Bool.true_or]
    cases history.filter fun ring => isDue (c.historySendAt ring) now with
    | none => rfl
    | some ring =>
      dsimp only
      split <;> rfl
  | false =>
    rw [Bool.false_or]
    cases history with
    | none => rfl
    | some ring =>
      rw [Option.filter_some, Option.any_some]
      cases isDue (c.historySendAt ring) now <;> rfl

theorem pacedBody_eq_some {body : PacedBody} (h : c.pacedBody history now = some body) :
    match body with
    | .screen => isDue c.pacedSendAt now = true
    | .rows ring => history = some ring ∧ isDue (c.historySendAt ring) now = true := by
  unfold pacedBody at h
  have hrows : ∀ {ring : PrimaryRing},
      (history.filter fun ring => isDue (c.historySendAt ring) now) = some ring →
        history = some ring ∧ isDue (c.historySendAt ring) now = true :=
    fun hfilter => Option.filter_eq_some_iff.1 hfilter
  split at h
  · next hscreen hring =>
      split at h
      · cases h
        exact hrows hring
      · cases h
        exact hscreen
  · next hscreen _ =>
      cases h
      exact hscreen
  · next _ hring =>
      cases h
      exact hrows hring
  · cases h

theorem isDue_eq_true {at' : Option ℕ} (h : isDue at' now = true) : ∃ due, at' = some due ∧ due ≤ now := by
  obtain ⟨due, hdue, hle⟩ := (Option.any_eq_true _ _).1 h
  exact ⟨due, hdue, of_decide_eq_true hle⟩

theorem maybeQueueScrollback_ne_nil (h : c.writeBuf ≠ []) (src : Terminal γ) :
    (c.maybeQueueScrollback src).writeBuf ≠ [] := by
  show (c.toClientConn.maybeQueueScrollback src.sessionTerm).2.writeBuf ≠ []
  rcases maybeQueueScrollback_cases c.toClientConn src.sessionTerm with heq | ⟨p, -, -, c', -, heq⟩
  · rw [heq]
    exact h
  · rw [heq]
    exact appendFrame_ne_nil _ _ _

variable [GraphicsStore γ] {p : FrameProducer Snapshot Bytes} (D : Display τ Snapshot)

theorem buildFrameFrom_some (hp : c.producer = some p) (src : Terminal γ) :
    (c.buildFrameFrom D src).1 = true ∧ (c.buildFrameFrom D src).2.writeBuf ≠ [] := by
  have hbuf := (queueFrame_some D hp (src.dumpVtMirror c.rows c.cols).bytes (.fromTerm src) src.altActive
    (src.rows, src.cols)).1
  constructor
  · show (c.toClientConn.queueFrame D _ _ _ _).1 = true
    rw [queueFrame, hp]
  · intro hnil
    exact appendFrame_ne_nil _ _ _ (hbuf.symm.trans hnil)

theorem sendPacedFrame_ne_nil (hp : c.producer = some p)
    (src : Terminal γ) (now : ℕ) : (c.sendPacedFrame D src now).writeBuf ≠ [] := by
  obtain ⟨hbuilt, hbuf⟩ := buildFrameFrom_some D hp src
  unfold sendPacedFrame
  simp only [hbuilt, Bool.not_true, Bool.false_eq_true, if_false]
  show (if (c.buildFrameFrom D src).2.history.isSome = true then (c.buildFrameFrom D src).2
    else (c.buildFrameFrom D src).2.maybeQueueScrollback src).writeBuf ≠ []
  split
  · exact hbuf
  · exact maybeQueueScrollback_ne_nil hbuf src

theorem sendHistoryBody_ne_nil (hp : c.producer = some p) {cursor : HistoryCursor}
    (hcursor : c.history = some cursor) (ring : PrimaryRing) (now : ℕ) :
    (c.sendHistoryBody ring now).writeBuf ≠ [] := by
  unfold sendHistoryBody
  rw [hp, hcursor]
  exact appendFrame_ne_nil _ _ _

/-- **The pass sends something exactly when an opportunity has come**; then bytes are waiting. -/
theorem sendPaced_queues (c : ViewConn Snapshot) (src : Terminal γ) (history : Option PrimaryRing) (now : ℕ) :
    (c.anyDue history now = false ∧ c.sendPaced D src history now = c.refreshFor history) ∨
      (c.anyDue history now = true ∧ c.writeBuf = [] ∧ (c.sendPaced D src history now).writeBuf ≠ []) := by
  have hrefresh := refreshFor_sendAt (c := c) history
  have hwriteBuf := refreshFor_writeBuf (c := c) history
  have hdue : ((c.refreshFor history).pacedBody history now).isSome = c.anyDue history now := by
    rw [pacedBody_isSome]
    unfold anyDue
    rw [hrefresh.1]
    simp only [hrefresh.2]
  unfold sendPaced
  dsimp only
  cases hbody : (c.refreshFor history).pacedBody history now with
  | none =>
    rw [hbody] at hdue
    exact .inl ⟨hdue.symm, rfl⟩
  | some body =>
    rw [hbody] at hdue
    refine .inr ⟨hdue.symm, ?_⟩
    have hcase := pacedBody_eq_some hbody
    cases body with
    | screen =>
      obtain ⟨at', hat, -⟩ := isDue_eq_true hcase
      obtain ⟨-, hempty, p, hp, -⟩ := pacedSendAt_eq_some hat
      exact ⟨hwriteBuf.1 ▸ hempty, sendPacedFrame_ne_nil D hp src now⟩
    | rows ring =>
      obtain ⟨at', hat, -⟩ := isDue_eq_true hcase.2
      obtain ⟨hempty, ⟨p, hp⟩, cursor, hcursor⟩ := historySendAt_eq_some hat
      exact ⟨hwriteBuf.1 ▸ hempty, sendHistoryBody_ne_nil hp hcursor ring now⟩

theorem sendPaced_writeBuf_iff (src : Terminal γ) :
    (c.sendPaced D src history now).writeBuf ≠ c.writeBuf ↔ c.anyDue history now = true := by
  rcases sendPaced_queues D c src history now with ⟨hno, heq⟩ | ⟨hyes, hempty, hne⟩
  · rw [hno, heq, (refreshFor_writeBuf history).1]
    exact ⟨fun h => absurd rfl h, nofun⟩
  · rw [hempty]
    exact ⟨fun _ => hyes, fun _ => hne⟩

end Pass

end ViewConn

/-! ### The time until the pass is woken -/

section Timeout

variable {clients : List (ViewConn Snapshot)} {history : Option PrimaryRing} {now : ℕ}

theorem mem_opportunities {due : ℕ} :
    due ∈ opportunities clients history ↔ ∃ c ∈ clients, c.pacedSendAt = some due ∨
      ∃ ring, history = some ring ∧ c.historySendAt ring = some due := by
  unfold opportunities
  simp only [List.mem_flatMap, mem_append, Option.mem_toList, Option.bind_eq_some_iff]

theorem exists_due_iff :
    (∃ due ∈ opportunities clients history, due ≤ now) ↔ ∃ c ∈ clients, c.anyDue history now = true := by
  constructor
  · rintro ⟨due, hmem, hle⟩
    obtain ⟨c, hc, hdue⟩ := mem_opportunities.1 hmem
    refine ⟨c, hc, ?_⟩
    unfold anyDue
    rw [or_eq_true]
    rcases hdue with hscreen | ⟨ring, rfl, hrows⟩
    · rw [hscreen]
      exact .inl (decide_eq_true hle)
    · rw [Option.any_some, hrows]
      exact .inr (decide_eq_true hle)
  · rintro ⟨c, hc, hdue⟩
    unfold anyDue at hdue
    rw [or_eq_true] at hdue
    rcases hdue with hscreen | hrows
    · obtain ⟨due, hsome, hle⟩ := isDue_eq_true hscreen
      exact ⟨due, mem_opportunities.2 ⟨c, hc, .inl hsome⟩, hle⟩
    · obtain ⟨ring, hring, hrows⟩ := (Option.any_eq_true _ _).1 hrows
      obtain ⟨due, hsome, hle⟩ := isDue_eq_true hrows
      exact ⟨due, mem_opportunities.2 ⟨c, hc, .inr ⟨ring, hring, hsome⟩⟩, hle⟩

theorem pacedPollTimeout_cases (clients : List (ViewConn Snapshot)) (history : Option PrimaryRing) (now : ℕ) :
    (opportunities clients history = [] ∧ pacedPollTimeout clients history now = -1) ∨
      ∃ due ∈ opportunities clients history, (∀ other ∈ opportunities clients history, due - now ≤ other - now) ∧
        pacedPollTimeout clients history now = (min (due - now) (2 ^ 31 - 1) : ℕ) := by
  unfold pacedPollTimeout
  cases hmin : ((opportunities clients history).map (· - now)).min? with
  | none =>
    rw [List.min?_eq_none_iff, List.map_eq_nil_iff] at hmin
    exact .inl ⟨hmin, rfl⟩
  | some ms =>
    obtain ⟨hmem, hleast⟩ := List.min?_eq_some_iff.1 hmin
    obtain ⟨due, hdue, rfl⟩ := List.mem_map.1 hmem
    exact .inr ⟨due, hdue, fun other hother => hleast _ (List.mem_map_of_mem hother), rfl⟩

/-- **The daemon does not sleep exactly when the pass sends something** to one of the viewports. -/
theorem pacedPollTimeout_eq_zero_iff [GraphicsStore γ] (D : Display τ Snapshot) (src : Terminal γ) :
    pacedPollTimeout clients history now = 0 ↔
      ∃ c ∈ clients, (c.sendPaced D src history now).writeBuf ≠ c.writeBuf := by
  simp only [sendPaced_writeBuf_iff]
  rw [← exists_due_iff]
  rcases pacedPollTimeout_cases clients history now with ⟨hnone, heq⟩ | ⟨due, hdue, hleast, heq⟩
  · rw [heq, hnone]
    constructor
    · intro h
      cases h
    · rintro ⟨due, hdue, -⟩
      cases hdue
  · rw [heq]
    constructor
    · intro hzero
      refine ⟨due, hdue, ?_⟩
      omega
    · rintro ⟨other, hother, hle⟩
      have hother' := hleast other hother
      omega

end Timeout

/-! ### Runs -/

/-- A visible frame that was sent to a paced viewport. -/
structure PacedFrame where
  /-- its number -/
  num : ℕ
  sentAt : ℕ
  /-- which of the terminals there were to broadcast it shows -/
  screen : ℕ
  size : ℕ × ℕ
  dump : MirrorDump
  /-- how many resyncs there had been -/
  resyncs : ℕ
  /-- the pass sent it, not the end of the session -/
  byPass : Bool
  /-- the visible frame before it had been acknowledged -/
  newestAcked : Bool

/-- A viewport, with the terminals there are and what happened. -/
structure PacedRun (γ : Type) where
  conn : ViewConn Snapshot := {}
  session : Terminal γ
  /-- the terminal of the shell that is open over the session -/
  overlay : Option (Terminal γ) := none
  clock : ℕ := 0
  /-- the terminals that there were to broadcast, the present one last -/
  screens : List (Terminal γ)
  /-- the screen at the last mark -/
  marked : Option ℕ := none
  sent : List PacedFrame := []
  resyncs : ℕ := 0
  /-- the frames whose round trips were sampled -/
  sampled : List ℕ := []

namespace PacedRun

/-- What happens to the viewport. -/
inductive Act (γ : Type) where
  /-- time passes -/
  | tick (ms : ℕ)
  /-- the terminals are others, or show something else -/
  | screen (session : Terminal γ) (overlay : Option (Terminal γ))
  | attach (table : Option (List Cap)) (rows cols : ℕ)
  | resize (rows cols : ℕ)
  /-- what the session printed is broadcast, with or without viewports that take frames of it -/
  | broadcast (bcast : Bytes) (framed : Bool)
  /-- another terminal is broadcast from now on -/
  | swap (bcast : Bytes) (framed : Bool)
  /-- a frame is asked for: a replay, or an answer that is due -/
  | request
  | prepare
  /-- the session was resized -/
  | resetHistory (renumbered : Bool)
  | resetFloor
  | ack (payload : Bytes)
  | clientCaps (table : List Cap)
  | refreshActivity (activity : SessionActivity)
  | queue (tag : IpcTag) (payload : Bytes)
  | written (n : ℕ)
  /-- the pass that sends -/
  | pass
  /-- the session ends -/
  | flush

/-- The table of an attachment asks for paced frames. -/
def advertisesPaced (table : List Cap) : Bool := ((findCap table capPaced).bind fun cap => decodePaced cap.payload).isSome

/-- The viewport stays paced. -/
def Act.KeepsPaced : Act γ → Prop
  | .attach (some table) _ _ => advertisesPaced table = true
  | _ => True

/-- Nothing new is owed, and no bytes leave the buffer. -/
def Act.Quiet : Act γ → Prop
  | .tick _ | .resize .. | .prepare | .resetFloor | .refreshActivity _ | .queue .. | .pass | .flush => True
  | _ => False

/-- The terminal that is broadcast. -/
def source (s : PacedRun γ) : Terminal γ := s.overlay.getD s.session

/-- The history, which rests while a shell is open over the session. -/
def history (s : PacedRun γ) : Option PrimaryRing := if s.overlay.isNone then some s.session.primaryRing else none

/-- A new connection to a session. -/
def start (session : Terminal γ) : PacedRun γ := { session, screens := [session] }

def setConn (s : PacedRun γ) (conn : ViewConn Snapshot) : PacedRun γ := { s with conn }

/-- The viewport is marked, if it is paced. -/
def mark (s : PacedRun γ) (asked : Bool) : PacedRun γ :=
  if asked && s.conn.isPaced then { s with marked := some (s.screens.length - 1) } else s

variable [GraphicsStore γ]

/-- The visible frame that is sent now. -/
def frameNow (s : PacedRun γ) (byPass : Bool) : PacedFrame where
  num := s.conn.producer.elim 0 fun p => p.currentNum + 1
  sentAt := s.clock
  screen := s.screens.length - 1
  size := (s.conn.rows, s.conn.cols)
  dump := s.source.dumpVtMirror s.conn.rows s.conn.cols
  resyncs := s.resyncs
  byPass
  newestAcked := s.conn.producer.any fun p => decide (p.ackedNum ≥ p.lastVisibleNum)

/-- The base is dropped, and the other terminal broadcast. -/
def dropBase (c : ViewConn Snapshot) : ViewConn Snapshot :=
  { c with producer := c.producer.map FrameProducer.dropAckedBase }

def sentByPass (s : PacedRun γ) : List PacedFrame :=
  match (s.conn.refreshFor s.history).pacedBody s.history s.clock with
  | some .screen => [s.frameNow true]
  | _ => []

/-- The frames that are sent at the end of the session. -/
def sentByFlush (s : PacedRun γ) : List PacedFrame :=
  if s.conn.owesPacedFrame && s.conn.producer.isSome then [s.frameNow false] else []

/-- **One step.** -/
def step (D : Display τ Snapshot) (s : PacedRun γ) : Act γ → Option (PacedRun γ)
  | .tick ms => some { s with clock := s.clock + ms }
  | .screen session overlay =>
    some { s with session, overlay, screens := s.screens ++ [overlay.getD session] }
  | .attach table rows cols =>
    some (s.setConn (s.conn.attach D table rows cols s.clock s.session.primaryRing))
  | .resize rows cols => some (s.setConn { s.conn with toSizedConn := s.conn.toSizedConn.applyResize rows cols })
  | .broadcast bcast framed =>
    some ((s.mark s.conn.initApplied).setConn
      (broadcastTo D s.source bcast (framed || s.conn.takesPerReadFrames) s.conn))
  | .swap bcast framed =>
    let c := dropBase s.conn
    some ((s.mark s.conn.initApplied).setConn
      (broadcastTo D s.source bcast (framed || c.takesPerReadFrames) c))
  | .request => some ((s.mark true).setConn (s.conn.requestFrameFrom D s.source).2)
  | .prepare =>
    some (s.setConn { s.conn with toSizedConn := s.conn.toSizedConn.prepareRegeometryFrame.2 })
  | .resetHistory renumbered =>
    some (s.setConn (s.conn.resetHistoryOnResize s.session.primaryRing.total renumbered))
  | .resetFloor =>
    some (s.setConn
      { s.conn with sbFloor := if s.conn.producer.isSome then s.session.primaryRing.total else s.conn.sbFloor })
  | .ack payload =>
    let applied := s.conn.applyFrameAck payload
    let before := s.conn.producer.map FrameProducer.ackedNum
    let noted : PacedRun γ :=
      { s with
        conn := applied.2.noteFrameAck before s.clock
        resyncs := if applied.1 then s.resyncs + 1 else s.resyncs
        sampled := s.sampled ++ ((applied.2.sampledFrame before).map Prod.fst).toList }
    some ((noted.mark applied.1).setConn (s.conn.handleFrameAck D payload s.source s.clock))
  | .clientCaps table => some (s.setConn (s.conn.absorbClientCaps table s.clock s.session.primaryRing.total))
  | .refreshActivity activity =>
    some (s.setConn { s.conn with toClientConn := s.conn.toClientConn.refreshActivity activity })
  | .queue tag payload => some (s.setConn { s.conn with toClientConn := s.conn.toClientConn.queue tag payload })
  | .written n => some (s.setConn { s.conn with toClientConn := s.conn.toClientConn.written n })
  | .pass =>
    some
      { s with
        conn := s.conn.sendPaced D s.source s.history s.clock
        sent := s.sent ++ s.sentByPass }
  | .flush =>
    some
      { s with
        conn := s.conn.flushPaced D s.source s.clock
        sent := s.sent ++ s.sentByFlush }

end PacedRun

/-! ### What pacing keeps -/

namespace ViewConn

/-- When the newest paced frame was sent. -/
def lastFresh (c : ViewConn σ) : Option ℕ := c.pacing.bind Pacing.lastFresh

/-- The frames that were not acknowledged yet. -/
def sentLog (c : ViewConn σ) : List (ℕ × ℕ) := (c.pacing.map Pacing.sentFrames).getD []

/-- How many round trips were sampled. -/
def samples (c : ViewConn σ) : ℕ := if c.pacing.isSome then c.paced.acks.samples else 0

/-- The newest number. -/
def num (c : ViewConn σ) : ℕ := c.producer.elim 0 FrameProducer.currentNum

/-- What pacing remembers stays, and a mark is not lost. -/
structure Keeps (c c' : ViewConn σ) : Prop where
  pacing : c.pacing.isSome = true → c'.pacing.isSome = true
  owes : c.owesPacedFrame = true → c'.owesPacedFrame = true
  lastFresh : c'.lastFresh = c.lastFresh
  sentLog : c'.sentLog = c.sentLog
  samples : c'.samples = c.samples
  num : c.num ≤ c'.num

theorem Keeps.refl (c : ViewConn σ) : Keeps c c where
  pacing := fun h => h
  owes := fun h => h
  lastFresh := rfl
  sentLog := rfl
  samples := rfl
  num := Nat.le_refl _

theorem Keeps.trans {c c' c'' : ViewConn σ} (h : Keeps c c') (h' : Keeps c' c'') : Keeps c c'' where
  pacing := fun hp => h'.pacing (h.pacing hp)
  owes := fun ho => h'.owes (h.owes ho)
  lastFresh := h'.lastFresh.trans h.lastFresh
  sentLog := h'.sentLog.trans h.sentLog
  samples := h'.samples.trans h.samples
  num := Nat.le_trans h.num h'.num

variable {c c' : ViewConn σ} (D : Display τ σ)

theorem keeps_of_same (hpacing : c'.pacing = c.pacing) (hpaced : c'.paced = c.paced)
    (hnum : c.num ≤ c'.num) : Keeps c c' where
  pacing := fun h => by rw [hpacing, h]
  owes := fun h => by rw [owesPacedFrame, hpacing, hpaced]; exact h
  lastFresh := by rw [lastFresh, hpacing]; rfl
  sentLog := by rw [sentLog, hpacing]; rfl
  samples := by rw [samples, hpacing, hpaced]; rfl
  num := hnum

theorem keeps_mapPacing (f : Pacing → Pacing) (hpacing : c'.pacing = c.pacing.map f)
    (hfresh : ∀ p, (f p).lastFresh = p.lastFresh) (hsent : ∀ p, (f p).sentFrames = p.sentFrames)
    (hdirty : c.paced.dirty = true → c'.paced.dirty = true) (hacks : c'.paced.acks = c.paced.acks)
    (hnum : c.num ≤ c'.num) : Keeps c c' where
  pacing := fun h => by rw [hpacing, isSome_map, h]
  owes := fun h => by
    rw [owesPacedFrame, and_eq_true] at h ⊢
    rw [hpacing, isSome_map]
    exact ⟨h.1, hdirty h.2⟩
  lastFresh := by
    rw [lastFresh, lastFresh, hpacing]
    cases c.pacing with
    | none => rfl
    | some p => exact hfresh p
  sentLog := by
    rw [sentLog, sentLog, hpacing]
    cases c.pacing with
    | none => rfl
    | some p => exact hsent p
  samples := by rw [samples, samples, hpacing, isSome_map, hacks]
  num := hnum

theorem keeps_mapHistory (c : ViewConn σ) (f : HistoryCursor → HistoryCursor) : Keeps c (c.mapHistory f) :=
  keeps_mapPacing (fun p => { p with history := p.history.map f }) rfl (fun _ => rfl) (fun _ => rfl) (fun h => h) rfl
    (Nat.le_refl _)

theorem keeps_refreshHistoryExtent (c : ViewConn σ) (ring : PrimaryRing) : Keeps c (c.refreshHistoryExtent ring) :=
  keeps_mapPacing
    (fun p => { p with extent := (p.history.bind fun h => h.extent ring).filter fun _ => c.paced.wantsExtent })
    rfl (fun _ => rfl) (fun _ => rfl) (fun h => h) rfl (Nat.le_refl _)

theorem keeps_refreshFor (c : ViewConn σ) (history : Option PrimaryRing) : Keeps c (c.refreshFor history) := by
  cases history with
  | none => exact .refl c
  | some ring => exact keeps_refreshHistoryExtent c ring

theorem keeps_noteHistoryAck (c : ViewConn σ) (table : List Cap) (now total : ℕ) :
    Keeps c (c.noteHistoryAck table now total) := by
  unfold noteHistoryAck
  split
  · exact keeps_mapHistory c _
  · exact .refl c

theorem keeps_absorbClientCaps (c : ViewConn σ) (table : List Cap) (now total : ℕ) :
    Keeps c (c.absorbClientCaps table now total) := by
  have hasked : Keeps c { c with toClientConn := c.toClientConn.absorbClientCaps table } :=
    keeps_of_same rfl rfl (Nat.le_refl _)
  exact hasked.trans (keeps_noteHistoryAck _ table now total)

theorem keeps_notePaced (c : ViewConn σ) {table : List Cap} (h : PacedRun.advertisesPaced table = true) :
    Keeps c (c.notePaced table) := by
  unfold PacedRun.advertisesPaced at h
  unfold notePaced
  rw [h]
  cases hp : c.pacing with
  | some p => exact keeps_of_same hp.symm rfl (Nat.le_refl _)
  | none =>
    refine ⟨fun _ => rfl, ?_, ?_, ?_, ?_, Nat.le_refl _⟩
    · intro howes
      rw [owesPacedFrame, hp] at howes
      cases howes
    · rw [lastFresh, lastFresh, hp]
      rfl
    · rw [sentLog, sentLog, hp]
      rfl
    · rw [samples, samples, hp]
      rfl

theorem keeps_openHistory (c : ViewConn σ) (ring : PrimaryRing) : Keeps c (c.openHistory ring) := by
  unfold openHistory
  split
  · next p q epoch rows _ hq _ =>
      split
      · exact .refl c
      · refine Keeps.trans ?_ (keeps_refreshHistoryExtent _ ring)
        let start : HistoryStart := if epoch = 0 then .fresh else .continued epoch rows
        let cursor := (HistoryCursor.new (c.rows, c.cols)).activate start ring.total
        exact keeps_mapPacing (fun q => { q with history := some cursor }) (by rw [hq]; rfl) (fun _ => rfl)
          (fun _ => rfl) (fun h => h) rfl (Nat.le_refl _)
  · exact .refl c

theorem num_applyInit (c : ClientConn σ) (table : List Cap) (rows cols : ℕ) :
    c.producer.elim 0 currentNum ≤ (c.applyInit D table rows cols).producer.elim 0 currentNum := by
  unfold ClientConn.applyInit
  dsimp only
  split
  · next h =>
      have hnone : c.producer = none := by
        rw [and_eq_true] at h
        exact Option.isNone_iff_eq_none.1 h.1
      rw [hnone]
      exact Nat.zero_le _
  · exact Nat.le_refl _

theorem keeps_attach (c : ViewConn σ) {table : Option (List Cap)} (rows cols now : ℕ)
    (ring : PrimaryRing) (h : ∀ t, table = some t → PacedRun.advertisesPaced t = true) :
    Keeps c (c.attach D table rows cols now ring) := by
  unfold attach
  dsimp only
  refine Keeps.trans ?_ (keeps_openHistory _ ring)
  have hinit : Keeps c (c.applyInit D table rows cols now ring.total) := by
    have hresized : Keeps c { c with toSizedConn := c.toSizedConn.applyResize rows cols, initApplied := true } :=
      keeps_of_same rfl rfl (Nat.le_refl _)
    unfold applyInit
    cases table with
    | none => exact hresized
    | some t =>
      dsimp only
      refine ((hresized.trans (keeps_notePaced _ (h t rfl))).trans
        (keeps_noteHistoryAck _ t now ring.total)).trans ?_
      refine keeps_of_same ?_ rfl (num_applyInit D _ t rows cols)
      show (ClientConn.applyInit D _ t rows cols).pacing = _
      unfold ClientConn.applyInit
      dsimp only
      split <;> rfl
  split
  · exact hinit.trans (keeps_of_same rfl rfl (Nat.le_refl _))
  · exact hinit

/-! ### Frames -/

theorem queueFrame_producer (c : ClientConn σ) (dump : Bytes) (snapshot : σ) (alt : Bool) (dims : ℕ × ℕ) :
    (c.queueFrame D dump snapshot alt dims).2.pacing = c.pacing ∧
      ∀ p, c.producer = some p → ∃ p', (c.queueFrame D dump snapshot alt dims).2.producer = some p' ∧
        p'.currentNum = p.currentNum + 1 ∧ p'.lastVisibleNum = p.currentNum + 1 := by
  unfold queueFrame
  split
  · next hp =>
      rw [recordAnnouncements_eq]
      refine ⟨rfl, fun p hp' => ?_⟩
      rw [hp] at hp'
      cases hp'
  · next p hp =>
      dsimp only
      rw [queueVisible_eq, noteKeyframe_eq, recordAnnouncements_eq]
      refine ⟨rfl, fun p' hp' => ?_⟩
      rw [hp, Option.some.injEq] at hp'
      subst hp'
      dsimp only
      split
      · exact ⟨_, rfl, rfl, rfl⟩
      · have hsame := ack_current (p.advanceVisible dump snapshot alt dims 0)
          (c.visibleFrame D (p.advanceVisible dump snapshot alt dims 0)).frameNum
        exact ⟨_, rfl, congrArg ProducedFrame.num hsame.1, hsame.2⟩

theorem maybeQueueScrollback_producer (c : ClientConn σ) (term : SessionTerm) :
    (c.maybeQueueScrollback term).2.pacing = c.pacing ∧
      ∀ p, c.producer = some p → ∃ p', (c.maybeQueueScrollback term).2.producer = some p' ∧
        p.currentNum ≤ p'.currentNum ∧ p'.lastVisibleNum = p.lastVisibleNum := by
  unfold ClientConn.maybeQueueScrollback
  split
  · next hp =>
      refine ⟨rfl, fun p hp' => ?_⟩
      rw [hp] at hp'
      cases hp'
  · next p hp =>
      split
      · refine ⟨rfl, fun p' hp' => ?_⟩
        rw [hp, Option.some.injEq] at hp'
        subst hp'
        refine ⟨_, rfl, ?_⟩
        split
        · exact ⟨Nat.le_succ _, rfl⟩
        · have hsame := ack_current (p.advanceScrollbackAfterVisible term.sbTotal)
            (c.scrollbackFrame (p.advanceScrollbackAfterVisible term.sbTotal) term).frameNum
          refine ⟨?_, hsame.2⟩
          rw [currentNum, currentNum, hsame.1]
          exact Nat.le_succ _
      · exact ⟨rfl, fun p' hp' => ⟨p', hp', Nat.le_refl _, rfl⟩⟩

theorem num_le_of_producer
    (hsome : ∀ p, c.producer = some p → ∃ p', c'.producer = some p' ∧ p.currentNum ≤ p'.currentNum) :
    c.num ≤ c'.num := by
  cases hp : c.producer with
  | none =>
    rw [num, hp]
    exact Nat.zero_le _
  | some p =>
    obtain ⟨p', hp', hle⟩ := hsome p hp
    rw [num, num, hp, hp']
    exact hle

theorem keeps_maybeQueueScrollback (c : ViewConn σ) (src : Terminal γ) : Keeps c (c.maybeQueueScrollback src) := by
  obtain ⟨hpacing, hsome⟩ := maybeQueueScrollback_producer c.toClientConn src.sessionTerm
  refine keeps_of_same hpacing rfl (num_le_of_producer fun p hp => ?_)
  obtain ⟨p', hp', hle, -⟩ := hsome p hp
  exact ⟨p', hp', hle⟩

theorem keeps_queueFrame (c : ViewConn σ) (dump : Bytes) (snapshot : σ) (alt : Bool)
    (dims : ℕ × ℕ) {c' : ViewConn σ} (hpaced : c'.paced = c.paced)
    (hconn : c'.pacing = (c.toClientConn.queueFrame D dump snapshot alt dims).2.pacing ∧
      c'.producer = (c.toClientConn.queueFrame D dump snapshot alt dims).2.producer) : Keeps c c' := by
  obtain ⟨hpacing, hsome⟩ := queueFrame_producer D c.toClientConn dump snapshot alt dims
  refine keeps_of_same (hconn.1.trans hpacing) hpaced (num_le_of_producer fun p hp => ?_)
  obtain ⟨p', hp', hnum, -⟩ := hsome p hp
  exact ⟨p', hconn.2.trans hp', by omega⟩

theorem keeps_owePacedFrame (c : ViewConn σ) : Keeps c c.owePacedFrame.2 := by
  unfold owePacedFrame
  split
  · exact keeps_mapPacing (fun p => p) (by cases c.pacing <;> rfl) (fun _ => rfl) (fun _ => rfl) (fun _ => rfl) rfl
      (Nat.le_refl _)
  · exact .refl c

theorem owes_owePacedFrame {c : ViewConn σ} (h : c.isPaced = true) :
    c.owePacedFrame.1 = true ∧ c.owePacedFrame.2.owesPacedFrame = true := by
  unfold owePacedFrame
  rw [if_pos h]
  rw [isPaced, and_eq_true] at h
  refine ⟨rfl, ?_⟩
  rw [owesPacedFrame, and_eq_true]
  exact ⟨h.1, rfl⟩

section Source

variable [GraphicsStore γ] (D : Display τ Snapshot)

theorem keeps_buildFrameFrom (c : ViewConn Snapshot) (src : Terminal γ) : Keeps c (c.buildFrameFrom D src).2 :=
  keeps_queueFrame D c (src.dumpVtMirror c.rows c.cols).bytes (.fromTerm src) src.altActive (src.rows, src.cols) rfl
    ⟨rfl, rfl⟩

theorem keeps_requestFrameFrom (c : ViewConn Snapshot) (src : Terminal γ) : Keeps c (c.requestFrameFrom D src).2 ∧
      (c.isPaced = true → (c.requestFrameFrom D src).2.owesPacedFrame = true) := by
  have hkeeps := keeps_owePacedFrame c
  unfold requestFrameFrom
  dsimp only
  split
  · exact ⟨hkeeps, fun h => (owes_owePacedFrame h).2⟩
  · next hno =>
      have hunpaced : c.isPaced = true → False := fun h => hno (owes_owePacedFrame h).1
      split
      · exact ⟨hkeeps.trans (keeps_buildFrameFrom D _ src), fun h => (hunpaced h).elim⟩
      · exact ⟨hkeeps, fun h => (hunpaced h).elim⟩

theorem keeps_broadcastTo (c : ViewConn Snapshot) (src : Terminal γ) (bcast : Bytes) (framed : Bool) :
    Keeps c (broadcastTo D src bcast framed c) ∧
      (c.initApplied = true → c.isPaced = true → (broadcastTo D src bcast framed c).owesPacedFrame = true) := by
  unfold broadcastTo
  split
  · next hinit =>
      rw [Bool.not_eq_true'] at hinit
      rw [hinit]
      exact ⟨.refl c, nofun⟩
  · split
    · next hpaced => exact ⟨keeps_owePacedFrame c, fun _ _ => (owes_owePacedFrame hpaced).2⟩
    · next hpaced =>
        refine ⟨?_, fun _ h => absurd h hpaced⟩
        split
        · split
          · exact (keeps_buildFrameFrom D c src).trans (keeps_maybeQueueScrollback _ src)
          · show Keeps c (c.outputUnframed D src bcast)
            exact keeps_queueFrame D c [] (.fromTerm src) src.altActive (src.rows, src.cols) rfl ⟨rfl, rfl⟩
        · exact keeps_of_same rfl rfl (Nat.le_refl _)

/-- **A visible frame that was owed is sent**: it is the newest, and enters the log. -/
theorem sendPacedFrame_sent {c : ViewConn Snapshot} {p : FrameProducer Snapshot Bytes}
    (hp : c.producer = some p) (hpacing : c.pacing.isSome = true) (src : Terminal γ) (now : ℕ) :
    (c.sendPacedFrame D src now).lastFresh = some now ∧
      (c.sendPacedFrame D src now).sentLog = logSent c.sentLog (p.currentNum + 1) now ∧
      (c.sendPacedFrame D src now).samples = c.samples ∧ p.currentNum + 1 ≤ (c.sendPacedFrame D src now).num := by
  obtain ⟨q, hq⟩ := Option.isSome_iff_exists.1 hpacing
  obtain ⟨hbuilt, -⟩ := buildFrameFrom_some D hp src
  have hframe : ∃ p', (c.buildFrameFrom D src).2.producer = some p' ∧ p'.currentNum = p.currentNum + 1 ∧
      p'.lastVisibleNum = p.currentNum + 1 :=
    (queueFrame_producer D c.toClientConn (src.dumpVtMirror c.rows c.cols).bytes (.fromTerm src) src.altActive
      (src.rows, src.cols)).2 p hp
  have hbuiltPacing : (c.buildFrameFrom D src).2.pacing = some q :=
    (queueFrame_producer D c.toClientConn (src.dumpVtMirror c.rows c.cols).bytes (.fromTerm src) src.altActive
      (src.rows, src.cols)).1.trans hq
  -- the growth after the frame, if any, keeps it the newest visible frame
  have hsent : ∃ c' p' : _, c.sendPacedFrame D src now = noteSent c' now ∧ c'.pacing = some q ∧
      c'.paced = c.paced ∧ c'.producer = some p' ∧ p.currentNum + 1 ≤ currentNum p' ∧
      p'.lastVisibleNum = p.currentNum + 1 := by
    obtain ⟨p', hp', hnum, hvisible⟩ := hframe
    unfold sendPacedFrame
    simp only [hbuilt, Bool.not_true, Bool.false_eq_true, if_false]
    split
    · exact ⟨_, p', rfl, hbuiltPacing, rfl, hp', hnum.ge, hvisible⟩
    · obtain ⟨hscrollback, hsome⟩ :=
        maybeQueueScrollback_producer (c.buildFrameFrom D src).2.toClientConn src.sessionTerm
      obtain ⟨p'', hp'', hle, hsame⟩ := hsome p' hp'
      exact ⟨_, p'', rfl, hscrollback.trans hbuiltPacing, rfl, hp'', by omega, hsame.trans hvisible⟩
  obtain ⟨c', p', heq, hc', hpaced, hp', hle, hvisible⟩ := hsent
  rw [heq]
  unfold noteSent lastFresh sentLog samples num
  rw [hc', hp', hpaced, hq, ← hvisible]
  exact ⟨rfl, rfl, rfl, hvisible.trans_le hle⟩

theorem sendPacedFrame_unframed {c : ViewConn Snapshot} (hp : c.producer = none)
    (src : Terminal γ) (now : ℕ) : c.sendPacedFrame D src now = (c.buildFrameFrom D src).2 := by
  have hunbuilt : (c.buildFrameFrom D src).1 = false := by
    show (c.toClientConn.queueFrame D _ _ _ _).1 = false
    rw [queueFrame_none D hp]
  unfold sendPacedFrame
  simp only [hunbuilt, Bool.not_false, if_true]

theorem keeps_sendHistoryBody (c : ViewConn Snapshot) (ring : PrimaryRing) (now : ℕ) :
    Keeps c (c.sendHistoryBody ring now) := by
  unfold sendHistoryBody
  split
  · next p h _ _ =>
      let next := (h.nextBody ring now c.historyResendAfter historyWindowRows).1
      refine keeps_mapPacing (fun q =>
        { q with
          history := q.history.map fun _ => next
          extent := ((q.history.map fun _ => next).bind fun h => h.extent ring).filter fun _ => c.paced.wantsExtent })
        ?_ (fun _ => rfl) (fun _ => rfl) (fun h => h) rfl (Nat.le_refl _)
      exact Option.map_map _ _ c.pacing
  · exact .refl c

end Source

/-! ### Acknowledgements -/

/-- **An acknowledgement leaves what pacing remembers**, and a resync that is heeded forgets what was sent. -/
theorem applyFrameAck_pacing (c : ViewConn σ) (payload : Bytes) :
    (c.applyFrameAck payload).2.paced = c.paced ∧ (c.applyFrameAck payload).2.num = c.num ∧
      ((c.applyFrameAck payload).1 = false → (c.applyFrameAck payload).2.pacing = c.pacing) ∧
      ((c.applyFrameAck payload).1 = true → (c.applyFrameAck payload).2.pacing =
        c.pacing.map fun p => { p with lastFresh := none, sentFrames := [] }) := by
  unfold applyFrameAck ClientConn.applyFrameAck
  dsimp only
  split
  · exact ⟨rfl, rfl, fun _ => rfl, nofun⟩
  · split
    · exact ⟨rfl, rfl, fun _ => rfl, nofun⟩
    · next acked flags _ =>
        rw [KeyframeRun.applyCoalesceOff_eq]
        dsimp only
        cases hp : c.producer with
        | none =>
          refine ⟨rfl, ?_, fun _ => rfl, nofun⟩
          rw [num, num, hp]
        | some p =>
          have hnum : (settleKeyframe c.regeometryKeyframe acked (p.ack acked).2).2.current.num =
              p.current.num := by
            rw [← (ack_current p acked).1]
            unfold settleKeyframe
            split
            · split <;> rfl
            · rfl
            · rfl
          have hold : c.num = p.current.num := by
            rw [num, hp]
            rfl
          dsimp only
          split
          · exact ⟨rfl, hnum.trans hold.symm, nofun, fun _ => rfl⟩
          · exact ⟨rfl, hnum.trans hold.symm, fun _ => rfl, nofun⟩

theorem confirmedFrame_eq_some {frames : List (ℕ × ℕ)} {acked : ℕ} {frame : ℕ × ℕ}
    (hsorted : frames.Pairwise fun f g => f.1 < g.1) (h : confirmedFrame frames acked = some frame) :
    frame ∈ frames ∧ ∀ later ∈ frames.dropWhile (fun f => decide (f.1 ≤ acked)), frame.1 < later.1 := by
  have hmem : frame ∈ frames.takeWhile fun f => decide (f.1 ≤ acked) := List.mem_of_getLast? h
  rw [← List.takeWhile_append_dropWhile (p := fun f : ℕ × ℕ => decide (f.1 ≤ acked)) (l := frames),
    List.pairwise_append] at hsorted
  exact ⟨(List.takeWhile_prefix _).subset hmem, fun later hlater => hsorted.2.2 frame hmem later hlater⟩

/-- **The round trip of an acknowledgement**: at most one frame is sampled, and it leaves the log with all before
it. -/
theorem noteFrameAck_sampled (c : ViewConn σ) (ackedBefore : Option ℕ) (now : ℕ)
    (hsorted : c.sentLog.Pairwise fun f g => f.1 < g.1) :
    (c.noteFrameAck ackedBefore now).sentLog.Sublist c.sentLog ∧
      (c.noteFrameAck ackedBefore now).samples = c.samples + (c.sampledFrame ackedBefore).toList.length ∧
      ∀ frame, c.sampledFrame ackedBefore = some frame →
        frame ∈ c.sentLog ∧ ∀ later ∈ (c.noteFrameAck ackedBefore now).sentLog, frame.1 < later.1 := by
  cases ackedBefore with
  | none => exact ⟨.refl _, rfl, nofun⟩
  | some before =>
    cases hp : c.producer with
    | none =>
      unfold noteFrameAck sampledFrame
      rw [hp]
      exact ⟨.refl _, rfl, nofun⟩
    | some p =>
      cases hq : c.pacing with
      | none =>
        unfold noteFrameAck sampledFrame
        rw [hp, hq]
        exact ⟨.refl _, rfl, nofun⟩
      | some q =>
        have hlog : c.sentLog = q.sentFrames := by
          rw [sentLog, hq]
          rfl
        have hsamples : c.samples = c.paced.acks.samples := by
          rw [samples, hq]
          rfl
        unfold noteFrameAck sampledFrame
        rw [hp, hq]
        dsimp only
        split
        · refine ⟨.refl _, ?_, nofun⟩
          rw [samples, hq]
          exact hsamples.symm
        · rw [hlog] at hsorted ⊢
          refine ⟨List.dropWhile_sublist _, ?_, fun frame hframe => confirmedFrame_eq_some hsorted hframe⟩
          rw [hsamples]
          cases confirmedFrame q.sentFrames p.ackedNum <;> rfl

theorem noteFrameAck_keeps (c : ViewConn σ) (ackedBefore : Option ℕ) (now : ℕ) :
    (c.noteFrameAck ackedBefore now).pacing.isSome = c.pacing.isSome ∧
      (c.noteFrameAck ackedBefore now).lastFresh = c.lastFresh ∧
      (c.noteFrameAck ackedBefore now).owesPacedFrame = c.owesPacedFrame ∧
      (c.noteFrameAck ackedBefore now).producer = c.producer := by
  unfold noteFrameAck
  split
  · next q _ hq =>
      split
      · exact ⟨rfl, rfl, rfl, rfl⟩
      · unfold lastFresh owesPacedFrame
        rw [hq]
        exact ⟨rfl, rfl, rfl, rfl⟩
  · exact ⟨rfl, rfl, rfl, rfl⟩

end ViewConn

/-! ### The invariant -/

namespace PacedRun

/-- Two visible frames of a paced viewport, the second sent by the pass: when there was no resync between them, the
frame before was acknowledged and the least time passed, or the wait for an acknowledgement did. -/
def Spaced (f g : PacedFrame) : Prop :=
  g.byPass = true → f.resyncs = g.resyncs →
    (g.newestAcked = true ∧ f.sentAt + pacedFrameFloorMs ≤ g.sentAt) ∨ f.sentAt + pacedAckWaitMs ≤ g.sentAt

/-- **What a run of a paced viewport keeps.** -/
structure Delivered (s : PacedRun γ) : Prop where
  source : s.screens.getLast? = some (s.overlay.getD s.session)
  marked_lt : ∀ m, s.marked = some m → m < s.screens.length
  /-- a mark is served by a frame of that screen or a later one, or a frame is owed -/
  served : ∀ m, s.marked = some m → s.conn.owesPacedFrame = true ∨ ∃ f ∈ s.sent, m ≤ f.screen
  spaced : s.sent.Pairwise Spaced
  past : ∀ f ∈ s.sent, f.sentAt ≤ s.clock ∧ f.resyncs ≤ s.resyncs
  fresh : ∀ f ∈ s.sent, f.resyncs = s.resyncs → ∃ at', s.conn.lastFresh = some at' ∧ f.sentAt ≤ at'
  /-- the frames in the log are in order, after all that were sampled -/
  logged : s.conn.sentLog.Pairwise fun f g => f.1 < g.1
  logged_le : ∀ f ∈ s.conn.sentLog, f.1 ≤ s.conn.num
  sampled : s.sampled.Pairwise (· < ·)
  sampled_lt : ∀ n ∈ s.sampled, n ≤ s.conn.num ∧ ∀ f ∈ s.conn.sentLog, n < f.1
  samples : s.conn.samples = s.sampled.length

/-- A frame that was sent shows the terminal that was broadcast, bounded for the size the viewport had. -/
def Shown [GraphicsStore γ] (s : PacedRun γ) : Prop :=
  ∀ f ∈ s.sent, ∃ t, s.screens[f.screen]? = some t ∧ f.dump = t.dumpVtMirror f.size.1 f.size.2

theorem delivered_start (session : Terminal γ) : Delivered (start session) where
  source := rfl
  marked_lt := nofun
  served := nofun
  spaced := .nil
  past := nofun
  fresh := nofun
  logged := .nil
  logged_le := nofun
  sampled := .nil
  sampled_lt := nofun
  samples := rfl

variable {s : PacedRun γ} {c : ViewConn Snapshot} {frames : List (ℕ × ℕ)} {num now : ℕ}

theorem Delivered.keep (h : Delivered s) (hc : s.conn.Keeps c) : Delivered (s.setConn c) where
  source := h.source
  marked_lt := h.marked_lt
  served := fun m hm => (h.served m hm).imp_left hc.owes
  spaced := h.spaced
  past := h.past
  fresh := fun f hf hr => by
    obtain ⟨at', hat, hle⟩ := h.fresh f hf hr
    exact ⟨at', hc.lastFresh.trans hat, hle⟩
  logged := by
    show c.sentLog.Pairwise _
    rw [hc.sentLog]
    exact h.logged
  logged_le := fun f hf => by
    rw [setConn, hc.sentLog] at hf
    exact Nat.le_trans (h.logged_le f hf) hc.num
  sampled := h.sampled
  sampled_lt := fun n hn => by
    refine ⟨Nat.le_trans (h.sampled_lt n hn).1 hc.num, fun f hf => ?_⟩
    rw [setConn, hc.sentLog] at hf
    exact (h.sampled_lt n hn).2 f hf
  samples := hc.samples.trans h.samples

theorem Delivered.mark (h : Delivered s) {asked : Bool} (hc : s.conn.Keeps c)
    (howes : asked = true → s.conn.isPaced = true → c.owesPacedFrame = true) :
    Delivered ((s.mark asked).setConn c) := by
  have hkept := h.keep hc
  unfold PacedRun.mark
  split
  · next hmark =>
      rw [and_eq_true] at hmark
      have hlen : s.screens ≠ [] := by
        intro hnil
        have hlast := h.source
        rw [hnil] at hlast
        cases hlast
      refine { hkept with marked_lt := ?_, served := fun m _ => .inl (howes hmark.1 hmark.2) }
      intro m hm
      cases hm
      exact Nat.sub_lt (List.length_pos_of_ne_nil hlen) Nat.zero_lt_one
  · exact hkept

theorem due_of_isDue {now : ℕ} (h : isDue c.pacedSendAt now = true) {at' : ℕ}
    (hfresh : c.lastFresh = some at') :
    (c.producer.any (fun p => decide (p.ackedNum ≥ p.lastVisibleNum)) = true ∧ at' + pacedFrameFloorMs ≤ now) ∨
      at' + pacedAckWaitMs ≤ now := by
  obtain ⟨due, hdue, hle⟩ := isDue_eq_true h
  obtain ⟨-, -, p, hp, rfl⟩ := pacedSendAt_eq_some hdue
  rw [show c.pacing.bind Pacing.lastFresh = some at' from hfresh] at hle
  dsimp only at hle
  split at hle
  · next hacked =>
      rw [hp]
      exact .inl ⟨decide_eq_true hacked, hle⟩
  · exact .inr hle

theorem mem_logSent {f : ℕ × ℕ} (h : f ∈ logSent frames num now) : f ∈ frames ∨ f = (num, now) := by
  unfold logSent at h
  rcases mem_append.1 h with h | h
  · left
    split at h
    · exact List.mem_of_mem_drop h
    · exact h
  · exact .inr (mem_singleton.1 h)

theorem pairwise_logSent (h : frames.Pairwise fun f g => f.1 < g.1)
    (hnum : ∀ f ∈ frames, f.1 < num) : (logSent frames num now).Pairwise fun f g => f.1 < g.1 := by
  unfold logSent
  refine List.pairwise_append.2 ⟨?_, List.pairwise_singleton _ _, ?_⟩
  · split
    · exact h.drop
    · exact h
  · intro f hf g hg
    rw [mem_singleton.1 hg]
    split at hf
    · exact hnum f (List.mem_of_mem_drop hf)
    · exact hnum f hf

variable [GraphicsStore γ] {t : PacedRun γ} {a : Act γ} (D : Display τ Snapshot) {quiet : List (Act γ)}

/-- **A visible frame is sent**, by the pass when it is due, or at the end of the session. -/
theorem Delivered.send (h : Delivered s) (D : Display τ Snapshot) {byPass : Bool} (howes : s.conn.owesPacedFrame = true)
    {p : FrameProducer Snapshot Bytes} (hp : s.conn.producer = some p)
    (hdue : byPass = true → isDue s.conn.pacedSendAt s.clock = true) :
    Delivered { s with
        conn := s.conn.sendPacedFrame D s.source s.clock
        sent := s.sent ++ [s.frameNow byPass] } := by
  have hpacing : s.conn.pacing.isSome = true := by
    rw [owesPacedFrame, and_eq_true] at howes
    exact howes.1
  obtain ⟨hfresh, hlog, hsamples, hnum⟩ := sendPacedFrame_sent D hp hpacing s.source s.clock
  have hold : s.conn.num = p.currentNum := by
    rw [num, hp]
    rfl
  refine
    { source := h.source, marked_lt := h.marked_lt, served := ?_, spaced := ?_, past := ?_, fresh := ?_, logged := ?_
      logged_le := ?_, sampled := h.sampled, sampled_lt := ?_, samples := hsamples.trans h.samples }
  · intro m hm
    have hlt := h.marked_lt m hm
    exact .inr ⟨_, List.mem_append_right _ List.mem_cons_self, Nat.le_sub_one_of_lt hlt⟩
  · refine List.pairwise_append.2 ⟨h.spaced, List.pairwise_singleton _ _, ?_⟩
    intro f hf g hg
    rw [mem_singleton.1 hg]
    intro hpass hresyncs
    obtain ⟨at', hat, hle⟩ := h.fresh f hf hresyncs
    rcases due_of_isDue (hdue hpass) hat with ⟨hacked, hfloor⟩ | hwait
    · exact .inl ⟨hacked, Nat.le_trans (Nat.add_le_add_right hle _) hfloor⟩
    · exact .inr (Nat.le_trans (Nat.add_le_add_right hle _) hwait)
  · intro f hf
    rcases mem_append.1 hf with hf | hf
    · exact h.past f hf
    · rw [mem_singleton.1 hf]
      exact ⟨Nat.le_refl _, Nat.le_refl _⟩
  · intro f hf _
    refine ⟨s.clock, hfresh, ?_⟩
    rcases mem_append.1 hf with hf | hf
    · exact (h.past f hf).1
    · rw [mem_singleton.1 hf]
      exact Nat.le_refl _
  · show (s.conn.sendPacedFrame D s.source s.clock).sentLog.Pairwise _
    rw [hlog]
    refine pairwise_logSent h.logged fun f hf => ?_
    have hle := h.logged_le f hf
    omega
  · intro f hf
    rw [hlog] at hf
    show f.1 ≤ (s.conn.sendPacedFrame D s.source s.clock).num
    rcases mem_logSent hf with hf | rfl
    · have hle := h.logged_le f hf
      omega
    · exact hnum
  · intro n hn
    obtain ⟨hle, hlt⟩ := h.sampled_lt n hn
    constructor
    · show n ≤ (s.conn.sendPacedFrame D s.source s.clock).num
      omega
    · intro f hf
      rw [hlog] at hf
      rcases mem_logSent hf with hf | rfl
      · exact hlt f hf
      · show n < p.currentNum + 1
        omega

/-- **The pass.** -/
theorem Delivered.pass (h : Delivered s) (D : Display τ Snapshot) : Delivered { s with
        conn := s.conn.sendPaced D s.source s.history s.clock
        sent := s.sent ++ s.sentByPass } := by
  have hrefresh := h.keep (keeps_refreshFor s.conn s.history)
  unfold sendPaced sentByPass
  dsimp only
  cases hbody : (s.conn.refreshFor s.history).pacedBody s.history s.clock with
  | none =>
    rw [append_nil]
    exact hrefresh
  | some body =>
    have hdue := pacedBody_eq_some hbody
    cases body with
    | rows ring =>
      rw [append_nil]
      exact hrefresh.keep (keeps_sendHistoryBody _ ring s.clock)
    | screen =>
      obtain ⟨at', hat, -⟩ := isDue_eq_true hdue
      obtain ⟨howes, -, p, hp, -⟩ := pacedSendAt_eq_some hat
      have hframe : s.frameNow true = (s.setConn (s.conn.refreshFor s.history)).frameNow true := by
        unfold frameNow setConn
        cases s.history <;> rfl
      dsimp only
      rw [hframe]
      exact hrefresh.send D howes hp fun _ => hdue

theorem Delivered.flush (h : Delivered s) (D : Display τ Snapshot) : Delivered { s with
        conn := s.conn.flushPaced D s.source s.clock
        sent := s.sent ++ s.sentByFlush } := by
  unfold flushPaced sentByFlush
  cases howes : s.conn.owesPacedFrame with
  | false =>
    rw [Bool.false_and, if_neg Bool.false_ne_true, if_neg Bool.false_ne_true, append_nil]
    exact h
  | true =>
    cases hp : s.conn.producer with
    | some p => exact h.send D howes hp nofun
    | none =>
      rw [if_pos rfl, sendPacedFrame_unframed D hp]
      show Delivered { s with conn := _, sent := s.sent ++ [] }
      rw [append_nil]
      exact h.keep (keeps_buildFrameFrom D s.conn s.source)

omit [GraphicsStore γ] in
theorem Delivered.applyAck (h : Delivered s) (payload : Bytes) : Delivered { s with
        conn := (s.conn.applyFrameAck payload).2
        resyncs := if (s.conn.applyFrameAck payload).1 then s.resyncs + 1 else s.resyncs } := by
  obtain ⟨hpaced, hnum, hsame, hresync⟩ := applyFrameAck_pacing s.conn payload
  cases hflag : (s.conn.applyFrameAck payload).1 with
  | false => exact h.keep (keeps_of_same (hsame hflag) hpaced hnum.ge)
  | true =>
    have hpacing := hresync hflag
    have hlog : (s.conn.applyFrameAck payload).2.sentLog = [] := by
      rw [sentLog, hpacing]
      cases s.conn.pacing <;> rfl
    have howes : (s.conn.applyFrameAck payload).2.owesPacedFrame = s.conn.owesPacedFrame := by
      rw [owesPacedFrame, hpacing, isSome_map, hpaced]
      rfl
    have hsamples : (s.conn.applyFrameAck payload).2.samples = s.conn.samples := by
      rw [ViewConn.samples, hpacing, isSome_map, hpaced]
      rfl
    refine
      { source := h.source, marked_lt := h.marked_lt, served := ?_, spaced := h.spaced, past := ?_, fresh := ?_
        logged := ?_, logged_le := ?_, sampled := h.sampled, sampled_lt := ?_, samples := hsamples.trans h.samples }
    · exact fun m hm => (h.served m hm).imp_left howes.trans
    · exact fun f hf => ⟨(h.past f hf).1, Nat.le_succ_of_le (h.past f hf).2⟩
    · intro f hf hr
      have hle := (h.past f hf).2
      have hnew : f.resyncs = s.resyncs + 1 := hr
      omega
    · show (s.conn.applyFrameAck payload).2.sentLog.Pairwise _
      rw [hlog]
      exact .nil
    · intro f hf
      rw [hlog] at hf
      cases hf
    · intro n hn
      refine ⟨hnum ▸ (h.sampled_lt n hn).1, fun f hf => ?_⟩
      rw [hlog] at hf
      cases hf

omit [GraphicsStore γ] in
theorem Delivered.note (h : Delivered s) (before : Option ℕ) : Delivered { s with
        conn := s.conn.noteFrameAck before s.clock
        sampled := s.sampled ++ ((s.conn.sampledFrame before).map Prod.fst).toList } := by
  obtain ⟨hsub, hsamples, hframe⟩ := noteFrameAck_sampled s.conn before s.clock h.logged
  obtain ⟨hpacing, hfresh, howes, hproducer⟩ := noteFrameAck_keeps s.conn before s.clock
  have hnum : (s.conn.noteFrameAck before s.clock).num = s.conn.num := by rw [num, hproducer]; rfl
  have hnew : ∀ n ∈ ((s.conn.sampledFrame before).map Prod.fst).toList,
      ∃ f ∈ s.conn.sentLog, n = f.1 ∧ ∀ later ∈ (s.conn.noteFrameAck before s.clock).sentLog, n < later.1 := by
    intro n hn
    obtain ⟨f, hf, rfl⟩ := Option.map_eq_some_iff.1 (Option.mem_toList.1 hn)
    exact ⟨f, (hframe f hf).1, rfl, (hframe f hf).2⟩
  refine
    { source := h.source, marked_lt := h.marked_lt, served := ?_, spaced := h.spaced, past := h.past, fresh := ?_
      logged := h.logged.sublist hsub, logged_le := ?_, sampled := ?_, sampled_lt := ?_, samples := ?_ }
  · exact fun m hm => (h.served m hm).imp_left howes.trans
  · intro f hf hr
    obtain ⟨at', hat, hle⟩ := h.fresh f hf hr
    exact ⟨at', hfresh.trans hat, hle⟩
  · intro f hf
    show f.1 ≤ (s.conn.noteFrameAck before s.clock).num
    rw [hnum]
    exact h.logged_le f (hsub.subset hf)
  · refine List.pairwise_append.2 ⟨h.sampled, ?_, ?_⟩
    · cases (s.conn.sampledFrame before).map Prod.fst with
      | none => exact .nil
      | some n => exact List.pairwise_singleton _ _
    · intro n hn n' hn'
      obtain ⟨f, hf, rfl, -⟩ := hnew n' hn'
      exact (h.sampled_lt n hn).2 f hf
  · intro n hn
    show n ≤ (s.conn.noteFrameAck before s.clock).num ∧ _
    rw [hnum]
    rcases mem_append.1 hn with hn | hn
    · exact ⟨(h.sampled_lt n hn).1, fun f hf => (h.sampled_lt n hn).2 f (hsub.subset hf)⟩
    · obtain ⟨f, hf, rfl, hlater⟩ := hnew n hn
      exact ⟨h.logged_le f hf, hlater⟩
  · show (s.conn.noteFrameAck before s.clock).samples = _
    rw [hsamples, h.samples, List.length_append]
    cases s.conn.sampledFrame before <;> rfl

theorem Delivered.ack (h : Delivered s) (D : Display τ Snapshot) (payload : Bytes)
    (hstep : step D s (.ack payload) = some t) : Delivered t := by
  rw [step, Option.some.injEq] at hstep
  subst hstep
  have hnoted := (h.applyAck payload).note (s.conn.producer.map ackedNum)
  dsimp only at hnoted ⊢
  unfold handleFrameAck
  dsimp only
  cases hflag : (s.conn.applyFrameAck payload).1 with
  | false =>
    rw [hflag] at hnoted
    exact hnoted.mark (.refl _) nofun
  | true =>
    rw [hflag] at hnoted
    obtain ⟨hkeeps, howes⟩ := keeps_requestFrameFrom D
      ((s.conn.applyFrameAck payload).2.noteFrameAck (s.conn.producer.map ackedNum) s.clock) s.source
    exact hnoted.mark hkeeps fun _ => howes

theorem keeps_dropBase (c : ViewConn Snapshot) : c.Keeps (dropBase c) := by
  refine keeps_of_same rfl rfl (num_le_of_producer fun p hp => ⟨p.dropAckedBase, ?_, Nat.le_refl _⟩)
  show c.producer.map _ = _
  rw [hp]
  rfl

theorem keeps_prepare (c : ViewConn Snapshot) :
    c.Keeps { c with toSizedConn := c.toSizedConn.prepareRegeometryFrame.2 } := by
  unfold SizedConn.prepareRegeometryFrame
  split
  · exact .refl c
  · split
    · split
      · next p hp =>
          exact keeps_of_same rfl rfl (num_le_of_producer fun p' hp' => by
            rw [hp, Option.some.injEq] at hp'
            subst hp'
            exact ⟨p.dropAckedBase, rfl, Nat.le_refl _⟩)
      · exact .refl c
    · exact .refl c

/-- **Every operation keeps the invariant**, as long as the viewport stays paced. -/
theorem Delivered.step (h : Delivered s) (D : Display τ Snapshot) (ha : a.KeepsPaced)
    (hstep : step D s a = some t) : Delivered t := by
  cases a with
  | ack payload => exact h.ack D payload hstep
  | pass =>
    cases hstep
    exact h.pass D
  | flush =>
    cases hstep
    exact h.flush D
  | tick ms =>
    cases hstep
    exact { h with past := fun f hf => ⟨Nat.le_add_right_of_le (h.past f hf).1, (h.past f hf).2⟩ }
  | screen session overlay =>
    cases hstep
    refine { h with source := List.getLast?_concat, marked_lt := fun m hm => ?_ }
    rw [List.length_append]
    exact Nat.lt_add_right _ (h.marked_lt m hm)
  | attach table rows cols =>
    cases hstep
    refine h.keep (keeps_attach D s.conn rows cols s.clock _ fun t ht => ?_)
    subst ht
    exact ha
  | resize rows cols =>
    cases hstep
    exact h.keep (keeps_of_same rfl rfl (Nat.le_refl _))
  | broadcast bcast framed =>
    cases hstep
    obtain ⟨hkeeps, howes⟩ := keeps_broadcastTo D s.conn s.source bcast (framed || s.conn.takesPerReadFrames)
    exact h.mark hkeeps howes
  | swap bcast framed =>
    cases hstep
    obtain ⟨hkeeps, howes⟩ :=
      keeps_broadcastTo D (dropBase s.conn) s.source bcast (framed || (dropBase s.conn).takesPerReadFrames)
    refine h.mark ((keeps_dropBase s.conn).trans hkeeps) fun hinit hpaced => howes hinit ?_
    rw [isPaced] at hpaced ⊢
    show (s.conn.pacing.isSome && (s.conn.producer.map FrameProducer.dropAckedBase).isSome) = true
    rw [isSome_map]
    exact hpaced
  | request =>
    cases hstep
    obtain ⟨hkeeps, howes⟩ := keeps_requestFrameFrom D s.conn s.source
    exact h.mark hkeeps fun _ => howes
  | prepare =>
    cases hstep
    exact h.keep (keeps_prepare s.conn)
  | resetHistory renumbered =>
    cases hstep
    exact h.keep (keeps_mapHistory s.conn _)
  | resetFloor =>
    cases hstep
    exact h.keep (keeps_of_same rfl rfl (Nat.le_refl _))
  | clientCaps table =>
    cases hstep
    exact h.keep (keeps_absorbClientCaps s.conn table s.clock _)
  | refreshActivity activity =>
    cases hstep
    refine h.keep ?_
    unfold refreshActivity
    split
    · exact keeps_of_same rfl rfl (Nat.le_refl _)
    · exact .refl _
  | queue tag payload =>
    cases hstep
    exact h.keep (keeps_of_same rfl rfl (Nat.le_refl _))
  | written n =>
    cases hstep
    exact h.keep (keeps_of_same rfl rfl (Nat.le_refl _))

/-! ### What was sent shows what was broadcast -/

theorem step_sent (hstep : step D s a = some t) :
    (t.sent = s.sent ∨ ∃ byPass, t.sent = s.sent ++ [s.frameNow byPass]) ∧
      (t.screens = s.screens ∨ ∃ screen, t.screens = s.screens ++ [screen]) := by
  have hmark : ∀ (s : PacedRun γ) (asked : Bool), (s.mark asked).sent = s.sent ∧ (s.mark asked).screens = s.screens := by
    intro s asked
    unfold mark
    split <;> exact ⟨rfl, rfl⟩
  cases a with
  | pass =>
    cases hstep
    refine ⟨?_, .inl rfl⟩
    unfold sentByPass
    dsimp only
    split
    · exact .inr ⟨true, rfl⟩
    · exact .inl (append_nil _)
  | flush =>
    cases hstep
    refine ⟨?_, .inl rfl⟩
    unfold sentByFlush
    dsimp only
    split
    · exact .inr ⟨false, rfl⟩
    · exact .inl (append_nil _)
  | screen session overlay =>
    cases hstep
    exact ⟨.inl rfl, .inr ⟨_, rfl⟩⟩
  | broadcast bcast framed =>
    cases hstep
    exact ⟨.inl (hmark s _).1, .inl (hmark s _).2⟩
  | swap bcast framed =>
    cases hstep
    exact ⟨.inl (hmark s _).1, .inl (hmark s _).2⟩
  | request =>
    cases hstep
    exact ⟨.inl (hmark s _).1, .inl (hmark s _).2⟩
  | ack payload =>
    cases hstep
    exact ⟨.inl (hmark _ _).1, .inl (hmark _ _).2⟩
  | tick | attach | resize | prepare | resetHistory | resetFloor | clientCaps | refreshActivity | queue | written =>
    cases hstep
    exact ⟨.inl rfl, .inl rfl⟩

/-- **Every frame shows the terminal that was broadcast when it was sent.** -/
theorem Shown.step (hshown : Shown s) (h : Delivered s) (D : Display τ Snapshot)
    (hstep : step D s a = some t) : Shown t := by
  obtain ⟨hsent, hscreens⟩ := step_sent D hstep
  have hkept : ∀ {i : ℕ} {x : Terminal γ}, s.screens[i]? = some x → t.screens[i]? = some x := by
    intro i x hx
    rcases hscreens with heq | ⟨screen, heq⟩
    · rw [heq, hx]
    · obtain ⟨hlt, -⟩ := List.getElem?_eq_some_iff.1 hx
      rw [heq, List.getElem?_append_left hlt, hx]
  have hold : ∀ f ∈ s.sent, ∃ x, t.screens[f.screen]? = some x ∧ f.dump = x.dumpVtMirror f.size.1 f.size.2 := by
    intro f hf
    obtain ⟨x, hx, hdump⟩ := hshown f hf
    exact ⟨x, hkept hx, hdump⟩
  rcases hsent with heq | ⟨byPass, heq⟩
  · intro f hf
    exact hold f (heq ▸ hf)
  · intro f hf
    rw [heq] at hf
    rcases mem_append.1 hf with hf | hf
    · exact hold f hf
    · rw [mem_singleton.1 hf]
      have hlast := h.source
      rw [List.getLast?_eq_getElem?] at hlast
      exact ⟨s.source, hkept hlast, rfl⟩

/-! ### After a pass -/

/-- No opportunity is earlier than it was. -/
structure Calm (c c' : ViewConn Snapshot) : Prop where
  screen : c'.pacedSendAt = none ∨ c'.pacedSendAt = c.pacedSendAt
  rows : ∀ ring, c'.historySendAt ring = none ∨ c'.historySendAt ring = c.historySendAt ring

theorem Calm.opportunities {c c' : ViewConn Snapshot} (h : Calm c c') {history : Option PrimaryRing} {due : ℕ}
    (hmem : due ∈ Posh.opportunities [c'] history) : due ∈ Posh.opportunities [c] history := by
  obtain ⟨d, hd, hdue⟩ := mem_opportunities.1 hmem
  rw [mem_singleton.1 hd] at hdue
  refine mem_opportunities.2 ⟨c, List.mem_singleton_self c, ?_⟩
  rcases hdue with hscreen | ⟨ring, hring, hrows⟩
  · rcases h.screen with hnone | hsame
    · rw [hnone] at hscreen
      cases hscreen
    · exact .inl (hsame ▸ hscreen)
  · rcases h.rows ring with hnone | hsame
    · rw [hnone] at hrows
      cases hrows
    · exact .inr ⟨ring, hring, hsame ▸ hrows⟩

theorem calm_of_waiting {c c' : ViewConn Snapshot} (h : c'.writeBuf ≠ []) : Calm c c' :=
  ⟨.inl (no_opportunity h).1, fun ring => .inl ((no_opportunity h).2 ring)⟩

theorem calm_of_unframed {c c' : ViewConn Snapshot} (h : c'.producer = none) : Calm c c' := by
  refine ⟨.inl ?_, fun ring => .inl ?_⟩
  · unfold pacedSendAt
    rw [h]
    split <;> rfl
  · unfold historySendAt
    rw [h, Option.isNone_none, Bool.or_true]
    cases c'.history <;> rfl

theorem Calm.refl (c : ViewConn Snapshot) : Calm c c := ⟨.inr rfl, fun _ => .inr rfl⟩

theorem calm_sendPaced (c : ViewConn Snapshot) (src : Terminal γ)
    (history : Option PrimaryRing) (now : ℕ) : Calm c (c.sendPaced D src history now) := by
  rcases sendPaced_queues D c src history now with ⟨-, heq⟩ | ⟨-, -, hne⟩
  · rw [heq]
    obtain ⟨hscreen, hrows⟩ := refreshFor_sendAt (c := c) history
    exact ⟨.inr hscreen, fun ring => .inr (hrows ring)⟩
  · exact calm_of_waiting hne

theorem calm_flushPaced (c : ViewConn Snapshot) (src : Terminal γ) (now : ℕ) :
    Calm c (c.flushPaced D src now) := by
  unfold flushPaced
  split
  · cases hp : c.producer with
    | some p => exact calm_of_waiting (sendPacedFrame_ne_nil D hp src now)
    | none =>
      refine calm_of_unframed ?_
      rw [sendPacedFrame_unframed D hp]
      show (c.toClientConn.queueFrame D _ _ _ _).2.producer = none
      rw [queueFrame_none D hp, recordAnnouncements_eq]
      exact hp
  · exact .refl c

theorem calm_prepare (c : ViewConn Snapshot) :
    Calm c { c with toSizedConn := c.toSizedConn.prepareRegeometryFrame.2 } := by
  unfold SizedConn.prepareRegeometryFrame
  split
  · exact .refl c
  · split
    · split
      · next p hp =>
          refine ⟨.inr ?_, fun ring => .inr ?_⟩
          · unfold pacedSendAt
            rw [hp]
            rfl
          · unfold historySendAt
            rw [hp]
            rfl
      · exact .refl c
    · exact .refl c

theorem step_quiet (ha : a.Quiet)
    (hstep : step D s a = some t) : t.history = s.history ∧ s.clock ≤ t.clock ∧ Calm s.conn t.conn := by
  cases a with
  | tick ms =>
    cases hstep
    exact ⟨rfl, Nat.le_add_right _ _, .refl _⟩
  | resize rows cols =>
    cases hstep
    exact ⟨rfl, Nat.le_refl _, .inr rfl, fun _ => .inr rfl⟩
  | prepare =>
    cases hstep
    exact ⟨rfl, Nat.le_refl _, calm_prepare s.conn⟩
  | resetFloor =>
    cases hstep
    exact ⟨rfl, Nat.le_refl _, .inr rfl, fun _ => .inr rfl⟩
  | refreshActivity activity =>
    cases hstep
    refine ⟨rfl, Nat.le_refl _, ?_⟩
    show Calm s.conn { s.conn with toClientConn := s.conn.toClientConn.refreshActivity activity }
    unfold refreshActivity
    split
    · exact ⟨.inr rfl, fun _ => .inr rfl⟩
    · exact .refl _
  | queue tag payload =>
    cases hstep
    exact ⟨rfl, Nat.le_refl _, calm_of_waiting (appendFrame_ne_nil _ tag payload)⟩
  | pass =>
    cases hstep
    exact ⟨rfl, Nat.le_refl _, calm_sendPaced D s.conn s.source s.history s.clock⟩
  | flush =>
    cases hstep
    exact ⟨rfl, Nat.le_refl _, calm_flushPaced D s.conn s.source s.clock⟩
  | screen | attach | broadcast | swap | request | resetHistory | ack | clientCaps | written => exact ha.elim

/-- The times at which the viewport may be sent something. -/
def upcoming (s : PacedRun γ) : List ℕ := opportunities [s.conn] s.history

theorem run_quiet {s t : PacedRun γ} (hquiet : ∀ a ∈ quiet, a.Quiet) (hrun : Runs.exec (step D) s quiet = some t) :
    s.clock ≤ t.clock ∧ ∀ due ∈ t.upcoming, due ∈ s.upcoming := by
  refine Runs.exec_invariant_of_allOk
    (I := fun u : PacedRun γ => u.history = s.history ∧ s.clock ≤ u.clock ∧ ∀ due ∈ u.upcoming, due ∈ s.upcoming)
    ?_ ⟨rfl, Nat.le_refl _, fun _ h => h⟩ (Runs.allOk_of_forall s hquiet) hrun |>.2
  rintro u a v ⟨hhistory, hclock, hupcoming⟩ ha hstep
  obtain ⟨hsame, hlater, hcalm⟩ := step_quiet D ha hstep
  refine ⟨hsame.trans hhistory, Nat.le_trans hclock hlater, fun due hdue => hupcoming due ?_⟩
  unfold upcoming at hdue ⊢
  rw [hsame] at hdue
  exact hcalm.opportunities hdue

theorem opportunities_of_waiting (h : c.writeBuf ≠ []) (history : Option PrimaryRing) :
    opportunities [c] history = [] := by
  obtain ⟨hscreen, hrows⟩ := no_opportunity h
  refine List.eq_nil_iff_forall_not_mem.2 fun due hdue => ?_
  obtain ⟨c', hc', hsome⟩ := mem_opportunities.1 hdue
  rw [mem_singleton.1 hc'] at hsome
  rcases hsome with hsome | ⟨ring, -, hsome⟩
  · cases hscreen.symm.trans hsome
  · cases (hrows ring).symm.trans hsome

theorem upcoming_pass (hstep : step D s .pass = some t) : t.clock = s.clock ∧ (∀ due ∈ t.upcoming, t.clock < due) ∧
      (t.conn.writeBuf ≠ s.conn.writeBuf → t.upcoming = []) := by
  cases hstep
  refine ⟨rfl, ?_⟩
  rcases sendPaced_queues D s.conn s.source s.history s.clock with ⟨hno, heq⟩ | ⟨-, -, hne⟩
  · constructor
    · intro due hdue
      by_contra hle
      have hcalm := calm_sendPaced D s.conn s.source s.history s.clock
      have hpast : ∃ due ∈ opportunities [s.conn] s.history, due ≤ s.clock :=
        ⟨due, hcalm.opportunities hdue, Nat.le_of_not_lt hle⟩
      obtain ⟨c, hc, hcome⟩ := exists_due_iff.1 hpast
      rw [mem_singleton.1 hc, hno] at hcome
      cases hcome
    · intro hne
      refine absurd ?_ hne
      show (s.conn.sendPaced D s.source s.history s.clock).writeBuf = s.conn.writeBuf
      rw [heq, (refreshFor_writeBuf s.history).1]
  · have hnone := opportunities_of_waiting hne s.history
    refine ⟨fun due hdue => ?_, fun _ => hnone⟩
    exact absurd (List.eq_nil_iff_forall_not_mem.1 hnone due) (not_not_intro hdue)

/-- The time until the viewport's pass is woken. -/
def pollTimeout (s : PacedRun γ) (now : ℕ) : ℤ := pacedPollTimeout [s.conn] s.history now

/-- **No busy loop.**  After a pass, and as long as nothing new comes and nothing is drained, the daemon sleeps: until
the time the pass left, or for good when the pass sent something. -/
theorem sleeps_after_pass (hquiet : ∀ a ∈ quiet, a.Quiet)
    {t u : PacedRun γ} (hpass : step D s .pass = some t) (hrun : Runs.exec (step D) t quiet = some u) :
    t.pollTimeout t.clock ≠ 0 ∧
      (u.pollTimeout u.clock = 0 → ∃ wait : ℕ, t.pollTimeout t.clock = wait ∧ t.clock + wait ≤ u.clock) ∧
      (t.conn.writeBuf ≠ s.conn.writeBuf → ∀ now, u.pollTimeout now = -1) := by
  obtain ⟨-, hlater, hwaiting⟩ := upcoming_pass D hpass
  obtain ⟨-, hupcoming⟩ := run_quiet D hquiet hrun
  have hnonzero : t.pollTimeout t.clock ≠ 0 := by
    intro hzero
    rcases pacedPollTimeout_cases [t.conn] t.history t.clock with ⟨-, heq⟩ | ⟨due, hdue, -, heq⟩
    · rw [pollTimeout, heq] at hzero
      cases hzero
    · have hlt := hlater due hdue
      rw [pollTimeout, heq] at hzero
      omega
  refine ⟨hnonzero, ?_, ?_⟩
  · intro hzero
    rcases pacedPollTimeout_cases [u.conn] u.history u.clock with ⟨-, heq⟩ | ⟨due, hdue, -, heq⟩
    · rw [pollTimeout, heq] at hzero
      cases hzero
    · rw [pollTimeout, heq] at hzero
      have hmem := hupcoming due hdue
      rcases pacedPollTimeout_cases [t.conn] t.history t.clock with ⟨hnone, -⟩ | ⟨first, hfirst, hleast, heq'⟩
      · rw [upcoming, hnone] at hmem
        cases hmem
      · have hlt := hlater due hmem
        have hle := hleast due hmem
        exact ⟨min (first - t.clock) (2 ^ 31 - 1), heq', by omega⟩
  · intro hne now
    rcases pacedPollTimeout_cases [u.conn] u.history now with ⟨-, heq⟩ | ⟨due, hdue, -, -⟩
    · exact heq
    · have hmem := hupcoming due hdue
      rw [hwaiting hne] at hmem
      cases hmem

/-! ### Paced delivery -/

/-- **Paced delivery neither spins nor forgets.**  In every run of a viewport that stays paced: the daemon does not
sleep exactly when the pass would send the viewport something; after a pass it sleeps until the time the pass left,
unless something new comes or bytes are drained; a mark stays until a frame of the screen marked, or of a later one,
was sent; two frames without a resync between them are apart for the least time, with the frame before acknowledged, or
for the wait for an acknowledgement; and no round trip is sampled twice. -/
theorem paced_delivery (D : Display τ Snapshot) {session : Terminal γ} {acts : List (Act γ)} {s : PacedRun γ}
    (hkeeps : ∀ a ∈ acts, a.KeepsPaced) (hrun : Runs.exec (step D) (start session) acts = some s) :
    (∀ now, s.pollTimeout now = 0 ↔ (s.conn.sendPaced D s.source s.history now).writeBuf ≠ s.conn.writeBuf) ∧
    (∀ t, step D s .pass = some t → t.pollTimeout t.clock ≠ 0 ∧
      ∀ quiet u, (∀ a ∈ quiet, a.Quiet) → Runs.exec (step D) t quiet = some u →
        (u.pollTimeout u.clock = 0 → ∃ wait : ℕ, t.pollTimeout t.clock = wait ∧ t.clock + wait ≤ u.clock) ∧
        (t.conn.writeBuf ≠ s.conn.writeBuf → ∀ now, u.pollTimeout now = -1)) ∧
    (∀ m, s.marked = some m → s.conn.owesPacedFrame = true ∨ ∃ f ∈ s.sent, m ≤ f.screen) ∧
    (∀ f ∈ s.sent, ∃ t, s.screens[f.screen]? = some t ∧ f.dump = t.dumpVtMirror f.size.1 f.size.2) ∧
    s.sent.Pairwise Spaced ∧ (s.sampled.Nodup ∧ s.conn.samples = s.sampled.length) := by
  obtain ⟨hdelivered, hshown⟩ : Delivered s ∧ Shown s :=
    Runs.exec_invariant_of_allOk (I := fun s => Delivered s ∧ Shown s)
      (fun _ _ _ h ha hstep => ⟨h.1.step D ha hstep, h.2.step h.1 D hstep⟩)
      ⟨delivered_start session, nofun⟩ (Runs.allOk_of_forall _ hkeeps) hrun
  refine ⟨?_, ?_, hdelivered.served, hshown, hdelivered.spaced, hdelivered.sampled.imp Nat.ne_of_lt,
    hdelivered.samples⟩
  · intro now
    rw [pollTimeout, pacedPollTimeout_eq_zero_iff D s.source]
    simp only [List.mem_singleton, exists_eq_left]
  · intro t ht
    have hstill : ∀ a ∈ ([] : List (Act γ)), a.Quiet := by
      rintro a ⟨⟩
    exact ⟨(sleeps_after_pass D hstill ht (Runs.exec_nil t)).1,
      fun quiet u hquiet hu => (sleeps_after_pass D hquiet ht hu).2⟩

/-- A display that is never painted. -/
def stillDisplay : Display Unit Snapshot where
  withScrollback _ _ _ := ()
  process _ _ := ()
  rows _ := 1
  cols _ := 2
  resize _ _ _ := ()
  blank := Snapshot.blank
  newFrame _ _ _ _ := []

/-- A paced viewport attaches, and is sent a frame; output comes, and is sent when the frame was acknowledged and
twenty milliseconds passed. -/
def twoFrames : List (Act Unit) :=
  [.attach (some [⟨capProtocolVersion, [1]⟩, ⟨capLossy, []⟩, ⟨capPaced, [1]⟩]) 1 2, .request, .pass, .written 1000,
    .broadcast [0x61] false, .tick 5, .pass, .ack [1, 0, 0, 0, 0, 0, 0, 0, 0], .tick 14, .pass, .tick 1, .pass]

/-- The second frame goes at the twentieth millisecond, and the round trip of the first is sampled. -/
theorem paced_delivery_twoFrames :
    ∃ s, Runs.exec (step stillDisplay) (start (Terminal.withScrollback (γ := Unit) 1 2 4)) twoFrames = some s ∧
      (s.sent.map (fun f => (f.num, f.sentAt)), s.sampled) = ([(1, 0), (2, 20)], [1]) ∧ s.sent.Pairwise Spaced := by
  have hsent : (Runs.exec (step stillDisplay) (start (Terminal.withScrollback (γ := Unit) 1 2 4)) twoFrames).map
      (fun s => (s.sent.map (fun f => (f.num, f.sentAt)), s.sampled)) = some ([(1, 0), (2, 20)], [1]) := by
    decide +kernel
  obtain ⟨s, hs, hs'⟩ := Option.map_eq_some_iff.1 hsent
  have hkeeps : ∀ a ∈ twoFrames, a.KeepsPaced := by
    unfold twoFrames
    simp only [List.forall_mem_cons, List.not_mem_nil, false_imp_iff, implies_true, and_true]
    exact ⟨rfl, trivial, trivial, trivial, trivial, trivial, trivial, trivial, trivial, trivial, trivial, trivial⟩
  exact ⟨s, hs, hs', (paced_delivery stillDisplay hkeeps hs).2.2.2.2.1⟩

end PacedRun

end Posh
