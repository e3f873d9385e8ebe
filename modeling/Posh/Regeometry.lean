/-
**The keyframe for a new geometry.**

A visible dump is bounded for the size of the client it was built for, so that a client that takes another size
is owed a frame.  For a client that is sent escapes instead of dumps, the frame must be a whole dump: escapes
between two screens of the session say nothing of the client's new size.  The base is therefore dropped, and a
keyframe is owed from then on: an acknowledgement that was on its way, or that comes late, would bring back a
frame of the old size, and drops the base again until the keyframe or a later frame was acknowledged.

A run is any sequence of what the daemon does with the connection.  It records the visible frames queued since
the keyframe was first owed, each with the screen it shows and the base it was encoded against.
-/

import Posh.ClientConn
import Posh.Term.Dump

set_option autoImplicit false

namespace Posh

open FrameProducer (baseline hasAckedBase)
open ClientConn (applyFrameAck applyInit decodeFrameAck queueFrame settleKeyframe stampBase usesMorph)
open ClientConn
open List (mem_append mem_singleton)

variable {τ σ : Type}

/-! ### Connections with a geometry -/

/-- A connection with the size of its client. -/
structure SizedConn (σ : Type) extends ClientConn σ where
  rows : ℕ := 0
  cols : ℕ := 0
  /-- the size the newest visible dump is bounded for, if it is bounded -/
  visibleShapedFor : Option (ℕ × ℕ) := none

namespace SizedConn

def applyResize (c : SizedConn σ) (rows cols : ℕ) : SizedConn σ := { c with rows, cols }

def noteVisibleDumpShape (c : SizedConn σ) (dump : Term.MirrorDump) : SizedConn σ :=
  { c with visibleShapedFor := dump.shapedFor }

/-- A visible dump is queued, and its shape noted. -/
def queueDump (D : Display τ σ) (c : SizedConn σ) (dump : Term.MirrorDump) (snapshot : σ) (alt : Bool)
    (dims : ℕ × ℕ) : Bool × SizedConn σ :=
  let queued := c.toClientConn.queueFrame D dump.bytes snapshot alt dims
  (queued.1, { c.noteVisibleDumpShape dump with toClientConn := queued.2 })

/-- The newest visible dump is shaped for another size than the client's. -/
def owesRegeometryFrame (c : SizedConn σ) : Bool :=
  c.producer.isSome && c.visibleShapedFor.any fun size => decide (size ≠ (c.rows, c.cols))

/-- The client is owed a frame for its size; one that is sent escapes gets a keyframe. -/
def prepareRegeometryFrame (c : SizedConn σ) : Bool × SizedConn σ :=
  if !c.owesRegeometryFrame then (false, c)
  else if c.usesMorph then
    match c.producer with
    | some p =>
      (true, { c with producer := some p.dropAckedBase, regeometryKeyframe := some .owed })
    | none => (true, c)
  else (true, c)

end SizedConn

/-! ### Runs -/

/-- A visible frame that was queued: what it shows, and the base it was encoded against. -/
structure QueuedVisible (σ : Type) where
  frame : ServerFrame
  dump : Bytes
  snapshot : σ
  altScreen : Bool
  dims : ℕ × ℕ
  base : Option (BaselineRef σ Bytes)

/-- The base is the screen of a frame. -/
def QueuedVisible.Shows (q : QueuedVisible σ) (dump : Bytes) (snapshot : σ) (alt : Bool) (dims : ℕ × ℕ) : Prop :=
  q.dump = dump ∧ q.snapshot = snapshot ∧ q.altScreen = alt ∧ q.dims = dims

/-- A connection, with the visible frames queued since a keyframe was owed. -/
structure KeyframeRun (σ : Type) where
  conn : SizedConn σ := {}
  queued : List (QueuedVisible σ) := []
  /-- the first of them or a later frame was acknowledged, and its base was held -/
  confirmed : Bool := false

namespace KeyframeRun

/-- What happens to the connection. -/
inductive Act (σ : Type) where
  /-- a table of capabilities arrives with the size -/
  | init (table : List Cap) (rows cols : ℕ)
  | resize (rows cols : ℕ)
  | prepare
  /-- a visible frame of a screen is queued -/
  | visible (dump : Term.MirrorDump) (snapshot : σ) (alt : Bool) (dims : ℕ × ℕ)
  | scrollback (term : SessionTerm)
  /-- an acknowledgement arrives, whatever it says -/
  | ack (payload : Bytes)
  /-- the base is dropped, as when the source of the frames is swapped -/
  | dropBase
  | queue (tag : IpcTag) (payload : Bytes)
  | written (n : ℕ)
  | clientCaps (table : List Cap)
  | refreshActivity (activity : SessionActivity)

/-- The table says that the client takes escapes over a lossy link. -/
def advertisesMorph (table : List Cap) : Bool :=
  (findCap table capLossy).isSome && (findCap table capMorph).isSome

/-- The client goes on taking escapes over a lossy link. -/
def Act.KeepsMorph : Act σ → Prop
  | .init table _ _ => advertisesMorph table = true
  | _ => True

/-- An acknowledgement of the first frame queued or a later one. -/
def reaches (queued : List (QueuedVisible σ)) (payload : Bytes) : Bool :=
  match ClientConn.decodeFrameAck payload, queued.head? with
  | some (acked, _), some first => decide (first.frame.frameNum ≤ acked)
  | _, _ => false

def setConn (s : KeyframeRun σ) (c : ClientConn σ) : KeyframeRun σ :=
  { s with conn := { s.conn with toClientConn := c } }

/-- One step; a visible frame needs a client that takes frames. -/
def step (D : Display τ σ) (s : KeyframeRun σ) : Act σ → Option (KeyframeRun σ)
  | .init table rows cols =>
    some { s with conn := { s.conn.applyResize rows cols with
      toClientConn := s.conn.toClientConn.applyInit D table rows cols } }
  | .resize rows cols => some { s with conn := s.conn.applyResize rows cols }
  | .prepare => some { s with conn := s.conn.prepareRegeometryFrame.2 }
  | .visible dump snapshot alt dims =>
    s.conn.producer.map fun p =>
      let moved := p.advanceVisible dump.bytes snapshot alt dims 0
      { s with
        conn := (s.conn.queueDump D dump snapshot alt dims).2
        queued := s.queued ++
          [{ frame := s.conn.visibleFrame D moved
             dump := dump.bytes
             snapshot
             altScreen := alt
             dims
             base := moved.baseline }] }
  | .scrollback term => some (s.setConn (s.conn.toClientConn.maybeQueueScrollback term).2)
  | .ack payload =>
    let c := (s.conn.toClientConn.applyFrameAck payload).2
    some
      { s.setConn c with
        confirmed := s.confirmed ||
          (reaches s.queued payload && c.producer.any FrameProducer.hasAckedBase) }
  | .dropBase =>
    some (s.setConn { s.conn.toClientConn with producer := s.conn.producer.map (·.dropAckedBase) })
  | .queue tag payload => some (s.setConn (s.conn.toClientConn.queue tag payload))
  | .written n => some (s.setConn (s.conn.toClientConn.written n))
  | .clientCaps table => some (s.setConn (s.conn.toClientConn.absorbClientCaps table))
  | .refreshActivity activity => some (s.setConn (s.conn.toClientConn.refreshActivity activity))

/-- The keyframe is owed from now on. -/
def prepared (s : KeyframeRun σ) : KeyframeRun σ := { conn := s.conn.prepareRegeometryFrame.2 }

/-! ### The invariant -/

/-- A base that shows one of the frames queued, under its number or a later one. -/
def FromQueued (queued : List (QueuedVisible σ)) (base : BaselineRef σ Bytes) : Prop :=
  ∃ q ∈ queued, q.frame.frameNum ≤ base.num ∧
    q.Shows base.dump base.snapshot base.altScreen (base.rows, base.cols)

/-- **The producer, since the keyframe was owed** at the frame number `start`: while it is owed or not
acknowledged there is no base, and the base there is afterwards shows a frame queued since. -/
structure Fits (start : ℕ) (queued : List (QueuedVisible σ)) (confirmed : Bool)
    (keyframe : Option RegeometryKeyframe) (p : FrameProducer σ Bytes) : Prop where
  outstanding : ∀ f ∈ p.outstanding, f.num < p.current.num
  started : start ≤ p.current.num
  numbered : ∀ q ∈ queued, start < q.frame.frameNum ∧ q.frame.frameNum ≤ p.current.num
  first : ∀ q₀, queued.head? = some q₀ → ∀ q ∈ queued, q₀.frame.frameNum ≤ q.frame.frameNum
  /-- every later frame that is retained shows a frame queued since -/
  fresh : ∀ f, f = p.current ∨ f ∈ p.outstanding → start < f.num →
    ∃ q ∈ queued, q.frame.frameNum ≤ f.num ∧ q.Shows f.data f.snapshot f.altScreen f.dims
  pending : keyframe ≠ none → p.ackedData = none
  sent : ∀ num, keyframe = some (.sent num) → ∃ q ∈ queued, q.frame.frameNum ≤ num
  settled : keyframe = none → ∃ q ∈ queued, q.frame.frameNum ≤ p.ackedNum
  held : p.hasAckedBase = true → confirmed = true
  base : ∀ ref, p.baseline = some ref → FromQueued queued ref

/-- What was queued: whole dumps, until the confirmation, and escapes only from frames queued since. -/
structure Logged (queued : List (QueuedVisible σ)) (confirmed : Bool) : Prop where
  whole : confirmed = false → ∀ q ∈ queued, ∃ bytes, q.frame.body = .full bytes
  anchored : ∀ q ∈ queued, ∀ num sum escapes, q.frame.body = .morph num sum escapes →
    ∃ base, q.base = some base ∧ base.num = num ∧ FromQueued queued base

/-- **The invariant**, from the moment the keyframe is owed. -/
structure Durable (start : ℕ) (s : KeyframeRun σ) : Prop where
  morph : s.conn.usesMorph = true
  producer : ∃ p, s.conn.producer = some p ∧ Fits start s.queued s.confirmed s.conn.regeometryKeyframe p
  logged : Logged s.queued s.confirmed

section Fits

variable {start : ℕ} {queued : List (QueuedVisible σ)} {confirmed : Bool}
  {keyframe : Option RegeometryKeyframe} {p : FrameProducer σ Bytes}

theorem Fits.dropBase (h : Fits start queued confirmed keyframe p) (confirmed' : Bool) :
    Fits start queued confirmed' keyframe p.dropAckedBase where
  outstanding := h.outstanding
  started := h.started
  numbered := h.numbered
  first := h.first
  fresh := h.fresh
  pending := fun _ => rfl
  sent := h.sent
  settled := h.settled
  held := nofun
  base := nofun

theorem Fits.owed (h : Fits start queued confirmed keyframe p) :
    Fits start queued confirmed (some .owed) p.dropAckedBase :=
  { h.dropBase confirmed with
    pending := fun _ => rfl
    sent := nofun
    settled := nofun }

theorem mem_outstanding_rotate {next f : ProducedFrame σ Bytes} (hf : f ∈ (p.rotateCurrent next).outstanding) :
    f = p.current ∨ f ∈ p.outstanding :=
  (FrameProducer.mem_rotateCurrent hf).symm

theorem Fits.scrollback (h : Fits start queued confirmed keyframe p) (hbase : p.hasAckedBase = true)
    (total : ℕ) : Fits start queued confirmed keyframe (p.advanceScrollbackAfterVisible total) where
  outstanding := by
    intro f hf
    show f.num < p.current.num + 1
    rcases mem_outstanding_rotate hf with rfl | hf
    · omega
    · have hlt := h.outstanding f hf
      omega
  started := Nat.le_succ_of_le h.started
  numbered := fun q hq => ⟨(h.numbered q hq).1, Nat.le_succ_of_le (h.numbered q hq).2⟩
  first := h.first
  fresh := by
    have hcurrent : ∃ q ∈ queued, q.frame.frameNum ≤ p.current.num ∧
        q.Shows p.current.data p.current.snapshot p.current.altScreen p.current.dims := by
      refine h.fresh p.current (.inl rfl) ?_
      have hnone : keyframe = none := by
        by_contra hne
        rw [hasAckedBase, h.pending hne] at hbase
        cases hbase
      obtain ⟨q, hq, -⟩ := h.settled hnone
      have hnum := h.numbered q hq
      omega
    intro f hf hlt
    rcases hf with rfl | hf
    · obtain ⟨q, hq, hle, hshows⟩ := hcurrent
      exact ⟨q, hq, Nat.le_succ_of_le hle, hshows⟩
    · rcases mem_outstanding_rotate hf with rfl | hf
      · exact hcurrent
      · exact h.fresh f (.inr hf) hlt
  pending := h.pending
  sent := h.sent
  settled := h.settled
  held := h.held
  base := h.base

theorem FromQueued.append {base : BaselineRef σ Bytes} (h : FromQueued queued base) (q : QueuedVisible σ) :
    FromQueued (queued ++ [q]) base := by
  obtain ⟨q', hq', hrest⟩ := h
  exact ⟨q', List.mem_append_left _ hq', hrest⟩

/-- A keyframe that is owed is sent under the number of the frame. -/
def noted (keyframe : Option RegeometryKeyframe) (num : ℕ) : Option RegeometryKeyframe :=
  if keyframe = some .owed then some (.sent num) else keyframe

theorem noted_eq_none {num : ℕ} (h : noted keyframe num = none) : keyframe = none := by
  unfold noted at h
  split at h
  · cases h
  · exact h

variable {q : QueuedVisible σ}

theorem Fits.visible (h : Fits start queued confirmed keyframe p) (dump : Bytes) (snapshot : σ) (alt : Bool)
    (dims : ℕ × ℕ) (hnum : q.frame.frameNum = p.current.num + 1)
    (hshows : q.Shows dump snapshot alt dims) :
    Fits start (queued ++ [q]) confirmed (noted keyframe (p.current.num + 1))
      (p.advanceVisible dump snapshot alt dims 0) where
  outstanding := by
    intro f hf
    show f.num < p.current.num + 1
    rcases mem_outstanding_rotate hf with rfl | hf
    · exact Nat.lt_succ_self _
    · exact Nat.lt_succ_of_lt (h.outstanding f hf)
  started := Nat.le_succ_of_le h.started
  numbered := by
    intro q' hq'
    show start < q'.frame.frameNum ∧ q'.frame.frameNum ≤ p.current.num + 1
    rcases mem_append.1 hq' with hq' | hq'
    · exact ⟨(h.numbered q' hq').1, Nat.le_succ_of_le (h.numbered q' hq').2⟩
    · have hstarted := h.started
      rw [mem_singleton.1 hq', hnum]
      omega
  first := by
    intro q₀ hhead q' hq'
    cases queued with
    | nil =>
      rw [List.nil_append, List.head?_cons, Option.some.injEq] at hhead
      rw [List.nil_append, mem_singleton] at hq'
      rw [← hhead, hq']
    | cons q₁ rest =>
      rw [List.cons_append, List.head?_cons, Option.some.injEq] at hhead
      subst hhead
      rcases mem_append.1 hq' with hq' | hq'
      · exact h.first q₁ rfl q' hq'
      · have hle := (h.numbered q₁ List.mem_cons_self).2
        rw [mem_singleton.1 hq', hnum]
        exact Nat.le_succ_of_le hle
  fresh := by
    intro f hf hlt
    have hold : ∀ g, g = p.current ∨ g ∈ p.outstanding → start < g.num →
        ∃ q' ∈ queued ++ [q], q'.frame.frameNum ≤ g.num ∧ q'.Shows g.data g.snapshot g.altScreen g.dims := by
      intro g hg hlt
      obtain ⟨q', hq', hrest⟩ := h.fresh g hg hlt
      exact ⟨q', List.mem_append_left _ hq', hrest⟩
    rcases hf with rfl | hf
    · exact ⟨q, List.mem_append_right _ List.mem_cons_self, hnum.le, hshows⟩
    · rcases mem_outstanding_rotate hf with hf | hf
      · exact hold f (.inl hf) hlt
      · exact hold f (.inr hf) hlt
  pending := by
    intro hne
    refine h.pending fun hnone => hne ?_
    rw [noted, hnone]
    rfl
  sent := by
    intro num hsent
    unfold noted at hsent
    split at hsent
    · cases hsent
      exact ⟨q, List.mem_append_right _ List.mem_cons_self, hnum.le⟩
    · obtain ⟨q', hq', hle⟩ := h.sent num hsent
      exact ⟨q', List.mem_append_left _ hq', hle⟩
  settled := by
    intro hnone
    obtain ⟨q', hq', hle⟩ := h.settled (noted_eq_none hnone)
    exact ⟨q', List.mem_append_left _ hq', hle⟩
  held := h.held
  base := fun ref href => (h.base ref href).append q

/-! ### Acknowledgements -/

variable {payload : Bytes} {flags : UInt8} {acked : ℕ}

theorem Fits.reaches_of_le (h : Fits start queued confirmed keyframe p)
    (hack : decodeFrameAck payload = some (acked, flags)) (hq : q ∈ queued)
    (hle : q.frame.frameNum ≤ acked) : reaches queued payload = true := by
  cases queued with
  | nil => cases hq
  | cons q₀ rest =>
    have hfirst := h.first q₀ rfl q hq
    unfold reaches
    rw [hack]
    exact decide_eq_true (by omega)

/-- What the confirmation becomes with an acknowledgement. -/
def confirms (queued : List (QueuedVisible σ)) (confirmed : Bool) (payload : Bytes) (p : FrameProducer σ Bytes) :
    Bool :=
  confirmed || (reaches queued payload && p.hasAckedBase)

theorem Fits.confirm (h : Fits start queued confirmed keyframe p) (payload : Bytes) :
    Fits start queued (confirms queued confirmed payload p) keyframe p :=
  { h with held := fun hbase => by rw [confirms, h.held hbase, Bool.true_or] }

/-- **An acknowledgement that lands on a frame queued since**: its base is one of those frames. -/
theorem Fits.land (h : Fits start queued confirmed keyframe p)
    (hack : decodeFrameAck payload = some (acked, flags)) (hq : q ∈ queued)
    (hle : q.frame.frameNum ≤ acked) (hlater : p.ackedNum < acked) (hsent : acked ≤ p.current.num)
    {next : Option RegeometryKeyframe} (hnext : next = none ∨ next = keyframe ∧ (p.ack acked).2.ackedData = none) :
    Fits start queued (confirms queued confirmed payload (p.ack acked).2) next (p.ack acked).2 := by
  have heq : (p.ack acked).2 = { p with
      ackedNum := acked
      visibleDirectlyAcked := p.visibleDirectlyAcked || acked == p.lastVisibleNum
      ackedData := (p.retained acked).map ProducedFrame.data
      ackedBaseline := (p.retained acked).map fun f => (f.snapshot, f.altScreen, f.dims)
      outstanding := p.outstanding.filter fun f => decide (f.num ≥ acked) } := by
    rcases p.ack_cases acked with ⟨hno, -⟩ | ⟨-, -, heq⟩
    · omega
    · rw [heq]
  have hstart : start < acked := Nat.lt_of_lt_of_le (h.numbered q hq).1 hle
  have hkept : ∀ {f}, f ∈ p.outstanding.filter (fun f => decide (f.num ≥ acked)) → f ∈ p.outstanding :=
    fun hf => (List.mem_filter.1 hf).1
  have hreaches := h.reaches_of_le hack hq hle
  refine
    { outstanding := ?_, started := ?_, numbered := ?_, first := h.first, fresh := ?_, pending := ?_, sent := ?_
      settled := ?_, held := ?_, base := ?_ }
  · rw [heq]
    exact fun f hf => h.outstanding f (hkept hf)
  · rw [heq]
    exact h.started
  · rw [heq]
    exact h.numbered
  · rw [heq]
    exact fun f hf hlt => h.fresh f (hf.imp_right hkept) hlt
  · intro hne
    rcases hnext with hnone | ⟨-, hnone⟩
    · exact absurd hnone hne
    · exact hnone
  · intro num hnum
    rcases hnext with hnone | ⟨hsame, -⟩
    · rw [hnone] at hnum
      cases hnum
    · exact h.sent num (hsame ▸ hnum)
  · intro _
    rw [heq]
    exact ⟨q, hq, hle⟩
  · intro hbase
    rw [confirms, hreaches, hbase, Bool.true_and, Bool.or_true]
  · intro ref href
    rw [heq, baseline] at href
    cases hret : p.retained acked with
    | none =>
      rw [hret] at href
      cases href
    | some f =>
      rw [hret] at href
      cases href
      obtain ⟨hfnum, hf⟩ := FrameProducer.retained_mem hret
      obtain ⟨q', hq', hle', hshows⟩ := h.fresh f hf (hfnum ▸ hstart)
      exact ⟨q', hq', hfnum ▸ hle', hshows⟩

/-- An acknowledgement of a frame before the keyframe moves the books of the producer; its base is dropped. -/
theorem Fits.late (h : Fits start queued confirmed keyframe p) (hne : keyframe ≠ none) (acked : ℕ) :
    Fits start queued confirmed keyframe (p.ack acked).2.dropAckedBase := by
  rcases p.ack_cases acked with ⟨-, heq⟩ | ⟨-, -, heq⟩
  · rw [heq]
    exact h.dropBase confirmed
  · rw [heq]
    have hkept : ∀ {f}, f ∈ p.outstanding.filter (fun f => decide (f.num ≥ acked)) → f ∈ p.outstanding :=
      fun hf => (List.mem_filter.1 hf).1
    exact
      { outstanding := fun f hf => h.outstanding f (hkept hf)
        started := h.started
        numbered := h.numbered
        first := h.first
        fresh := fun f hf hlt => h.fresh f (hf.imp_right hkept) hlt
        pending := fun _ => rfl
        sent := h.sent
        settled := fun hnone => absurd hnone hne
        held := nofun
        base := nofun }

/-- **An acknowledgement, with what becomes of the keyframe.** -/
theorem Fits.settle (h : Fits start queued confirmed keyframe p)
    (hack : decodeFrameAck payload = some (acked, flags)) : Fits start queued
      (confirms queued confirmed payload (settleKeyframe keyframe acked (p.ack acked).2).2)
      (settleKeyframe keyframe acked (p.ack acked).2).1 (settleKeyframe keyframe acked (p.ack acked).2).2 := by
  -- an acknowledgement that changes nothing leaves the base, and with it the keyframe, as they are
  have hstale : (p.ack acked).2 = p → ∀ num, keyframe = some (.sent num) → (p.ack acked).2.hasAckedBase = false := by
    intro heq num hsent
    rw [heq, hasAckedBase, h.pending (by rw [hsent]; nofun)]
    rfl
  cases hk : keyframe with
  | none =>
    subst hk
    show Fits start queued (confirms queued confirmed payload (p.ack acked).2) none (p.ack acked).2
    obtain ⟨q, hq, hle⟩ := h.settled rfl
    rcases p.ack_cases acked with ⟨-, heq⟩ | ⟨hlater, hsent, -⟩
    · rw [heq]
      exact h.confirm payload
    · exact h.land hack hq (Nat.le_of_lt (Nat.lt_of_le_of_lt hle hlater)) hlater hsent (.inl rfl)
  | some k =>
    cases k with
    | owed => exact (hk ▸ h.late (by rw [hk]; nofun) acked).confirm payload
    | sent num =>
      by_cases hle : num ≤ acked
      · rcases p.ack_cases acked with ⟨-, heq⟩ | ⟨hlater, hsent, -⟩
        · have hbase := hstale (by rw [heq]) num hk
          rw [settleKeyframe, if_pos hle, hbase, heq]
          exact (hk ▸ h).confirm payload
        · obtain ⟨q, hq, hqle⟩ := h.sent num hk
          rw [settleKeyframe, if_pos hle]
          refine h.land hack hq (Nat.le_trans hqle hle) hlater hsent ?_
          cases hbase : (p.ack acked).2.hasAckedBase with
          | true => exact .inl rfl
          | false => exact .inr ⟨hk.symm, Option.isNone_iff_eq_none.1 (by simpa [hasAckedBase] using hbase)⟩
      · rw [settleKeyframe, if_neg hle]
        exact (hk ▸ h.late (by rw [hk]; nofun) acked).confirm payload

end Fits

/-! ### What is queued -/

section Logged

variable {queued : List (QueuedVisible σ)} {confirmed : Bool} {p : FrameProducer σ Bytes} {c : ClientConn σ}

theorem Logged.confirm (h : Logged queued confirmed) (more : Bool) : Logged queued (confirmed || more) where
  whole := fun hno => h.whole (Bool.or_eq_false_iff.1 hno).1
  anchored := h.anchored

theorem stampBase_of_full {body : FrameBody} {bytes : Bytes} (h : body = .full bytes) (wants : Bool)
    (acked : Option Bytes) : stampBase wants acked body = .full bytes := by
  subst h
  cases wants <;> cases acked <;> rfl

theorem stampBase_morph {wants : Bool} {acked : Option Bytes} {body : FrameBody} {num : ℕ} {sum : Option UInt32}
    {escapes : Bytes} (h : stampBase wants acked body = .morph num sum escapes) :
    body = .morph num sum escapes := by
  unfold stampBase at h
  split at h
  · cases h
  · exact h

theorem visibleFrame_full (D : Display τ σ) (hmorph : c.usesMorph = true) (hbase : p.baseline = none) :
    (c.visibleFrame D p).body = .full p.current.data := by
  refine stampBase_of_full ?_ c.stampsBaseSum p.ackedDump
  rw [hmorph]
  show MorphDelta.encode D p.baseline p.currentFrame = .full p.current.data
  rw [hbase]
  rfl

theorem visibleFrame_morph (D : Display τ σ) (hmorph : c.usesMorph = true)
    {num : ℕ} {sum : Option UInt32} {escapes : Bytes} (h : (c.visibleFrame D p).body = .morph num sum escapes) :
    ∃ base, p.baseline = some base ∧ base.num = num := by
  have hbody : MorphDelta.encode D p.baseline p.currentFrame = .morph num sum escapes := by
    have henc := stampBase_morph h
    rw [hmorph] at henc
    exact henc
  cases hbase : p.baseline with
  | none =>
    rw [hbase] at hbody
    cases hbody
  | some base =>
    rw [hbase, MorphDelta.encode] at hbody
    split at hbody
    · cases hbody
      exact ⟨base, rfl, rfl⟩
    · cases hbody

theorem Logged.visible (h : Logged queued confirmed) (D : Display τ σ)
    (hmorph : c.usesMorph = true) (hheld : p.hasAckedBase = true → confirmed = true)
    (hfrom : ∀ ref, p.baseline = some ref → FromQueued queued ref) {q : QueuedVisible σ}
    (hframe : q.frame = c.visibleFrame D p) (hbase : q.base = p.baseline) : Logged (queued ++ [q]) confirmed where
  whole := by
    intro hno q' hq'
    rcases mem_append.1 hq' with hq' | hq'
    · exact h.whole hno q' hq'
    · have hnone : p.baseline = none := by
        unfold baseline
        split
        · next hdata _ =>
            have hyes := hheld (by rw [hasAckedBase, hdata]; rfl)
            rw [hno] at hyes
            cases hyes
        · rfl
      rw [mem_singleton.1 hq', hframe]
      exact ⟨_, visibleFrame_full D hmorph hnone⟩
  anchored := by
    intro q' hq' num sum escapes hbody
    rcases mem_append.1 hq' with hq' | hq'
    · obtain ⟨base, hsome, hnum, hq⟩ := h.anchored q' hq' num sum escapes hbody
      exact ⟨base, hsome, hnum, hq.append q⟩
    · rw [mem_singleton.1 hq', hframe] at hbody
      obtain ⟨base, hsome, hnum⟩ := visibleFrame_morph D hmorph hbody
      rw [mem_singleton.1 hq', hbase]
      exact ⟨base, hsome, hnum, (hfrom base hsome).append q⟩

end Logged

/-! ### What the operations do -/

variable {c : ClientConn σ}

theorem usesMorph_withhold (h : c.usesMorph = true) : c.withhold = true := by
  rw [usesMorph, Bool.and_eq_true] at h
  rw [withhold, h.1, Bool.true_or]

variable {p : FrameProducer σ Bytes}

/-- **A visible frame of a client that is sent escapes**: the daemon does not acknowledge it itself. -/
theorem queueDump_morph (D : Display τ σ) {c : SizedConn σ} (hmorph : c.usesMorph = true)
    (hp : c.producer = some p) (dump : Term.MirrorDump) (snapshot : σ) (alt : Bool) (dims : ℕ × ℕ) :
    (c.queueDump D dump snapshot alt dims).2.usesMorph = true ∧ (c.queueDump D dump snapshot alt dims).2.producer =
        some (p.advanceVisible dump.bytes snapshot alt dims 0) ∧
      (c.queueDump D dump snapshot alt dims).2.regeometryKeyframe =
        noted c.regeometryKeyframe (p.current.num + 1) := by
  have hwithhold := usesMorph_withhold hmorph
  unfold SizedConn.queueDump
  rw [queueFrame, hp]
  dsimp only
  rw [hwithhold, if_pos rfl, queueVisible_eq, recordAnnouncements_eq]
  unfold noteKeyframe noted
  dsimp only
  split <;> exact ⟨hmorph, rfl, rfl⟩

theorem prepareRegeometryFrame_morph {c : SizedConn σ} (hmorph : c.usesMorph = true) :
    (c.owesRegeometryFrame = false ∧ c.prepareRegeometryFrame = (false, c)) ∨
      ∃ p, c.producer = some p ∧ c.prepareRegeometryFrame =
        (true, { c with producer := some p.dropAckedBase, regeometryKeyframe := some .owed }) := by
  unfold SizedConn.prepareRegeometryFrame
  cases howes : c.owesRegeometryFrame with
  | false => exact .inl ⟨rfl, rfl⟩
  | true =>
    right
    cases hp : c.producer with
    | none =>
      rw [SizedConn.owesRegeometryFrame, hp] at howes
      cases howes
    | some p =>
      refine ⟨p, rfl, ?_⟩
      rw [hmorph]
      rfl

theorem applyInit_morph (D : Display τ σ) (hp : c.producer = some p)
    {table : List Cap} (htable : advertisesMorph table = true) (rows cols : ℕ) :
    (c.applyInit D table rows cols).usesMorph = true ∧ (c.applyInit D table rows cols).producer = some p ∧
      (c.applyInit D table rows cols).regeometryKeyframe = c.regeometryKeyframe := by
  unfold applyInit
  dsimp only
  rw [show (c.absorbClientCaps table).producer = some p from hp]
  exact ⟨htable, rfl, rfl⟩

theorem applyCoalesceOff_eq (c : ClientConn σ) (flags : UInt8) : c.applyCoalesceOff flags = { c with
        coalesceOff := (c.applyCoalesceOff flags).coalesceOff
        pendingFrameStart := (c.applyCoalesceOff flags).pendingFrameStart } := by
  unfold applyCoalesceOff
  split <;> rfl

/-- **An acknowledgement of a client that is sent escapes**: the producer and the keyframe are settled, and a
resync drops the base besides. -/
theorem applyFrameAck_morph (hmorph : c.usesMorph = true)
    (hp : c.producer = some p) {payload : Bytes} {acked : ℕ} {flags : UInt8}
    (hack : decodeFrameAck payload = some (acked, flags)) :
    let settled := settleKeyframe c.regeometryKeyframe acked (p.ack acked).2
    let c' := (c.applyFrameAck payload).2
    c'.usesMorph = true ∧ c'.regeometryKeyframe = settled.1 ∧
      (c'.producer = some settled.2 ∨ c'.producer = some settled.2.dropAckedBase) := by
  have hlossy : c.lossy = true := by
    rw [usesMorph, Bool.and_eq_true] at hmorph
    exact hmorph.1
  unfold applyFrameAck
  rw [hack, hlossy]
  dsimp only
  rw [applyCoalesceOff_eq]
  dsimp only
  rw [hp]
  dsimp only
  split
  · next h => cases h
  · split
    · exact ⟨hmorph, rfl, .inr rfl⟩
    · exact ⟨hmorph, rfl, .inl rfl⟩

/-! ### Steps and runs -/

section Runs

variable {start : ℕ} {s t : KeyframeRun σ}

theorem Durable.leave (h : Durable start s) {c : SizedConn σ} (hmorph : c.usesMorph = true)
    (hp : c.producer = s.conn.producer) (hk : c.regeometryKeyframe = s.conn.regeometryKeyframe) :
    Durable start { s with conn := c } where
  morph := hmorph
  producer := by
    obtain ⟨p, hp', hfits⟩ := h.producer
    exact ⟨p, hp.trans hp', hk ▸ hfits⟩
  logged := h.logged

theorem Durable.visible (h : Durable start s) (D : Display τ σ) (dump : Term.MirrorDump) (snapshot : σ) (alt : Bool)
    (dims : ℕ × ℕ) (hstep : step D s (.visible dump snapshot alt dims) = some t) : Durable start t := by
  obtain ⟨p, hp, hfits⟩ := h.producer
  rw [step, hp, Option.map_some, Option.some.injEq] at hstep
  subst hstep
  obtain ⟨hmorph, hproducer, hkeyframe⟩ := queueDump_morph D h.morph hp dump snapshot alt dims
  refine ⟨hmorph, ⟨_, hproducer, ?_⟩, ?_⟩
  · rw [hkeyframe]
    exact hfits.visible dump.bytes snapshot alt dims rfl ⟨rfl, rfl, rfl, rfl⟩
  · exact h.logged.visible D h.morph (p := p.advanceVisible dump.bytes snapshot alt dims 0)
      hfits.held hfits.base rfl rfl

theorem Durable.scrollback (h : Durable start s) (term : SessionTerm) :
    Durable start (s.setConn (s.conn.toClientConn.maybeQueueScrollback term).2) := by
  obtain ⟨p, hp, hfits⟩ := h.producer
  rw [maybeQueueScrollback, hp]
  dsimp only
  split
  case isFalse => exact h
  case isTrue hdue =>
    rw [Bool.and_eq_true] at hdue
    rw [usesMorph_withhold h.morph, if_pos rfl]
    exact ⟨h.morph, ⟨_, rfl, hfits.scrollback hdue.2 term.sbTotal⟩, h.logged⟩

theorem Durable.ack (h : Durable start s) (D : Display τ σ) (payload : Bytes)
    (hstep : step D s (.ack payload) = some t) : Durable start t := by
  obtain ⟨p, hp, hfits⟩ := h.producer
  rw [step, Option.some.injEq] at hstep
  subst hstep
  cases hack : decodeFrameAck payload with
  | none =>
    have hsame : (s.conn.toClientConn.applyFrameAck payload).2 = s.conn.toClientConn := by
      rw [applyFrameAck, hack]
      split <;> rfl
    have hno : reaches s.queued payload = false := by rw [reaches, hack]
    rw [hsame, hno, Bool.false_and, Bool.or_false]
    exact h
  | some decoded =>
    obtain ⟨acked, flags⟩ := decoded
    obtain ⟨hmorph, hkeyframe, hproducer⟩ := applyFrameAck_morph h.morph hp hack
    have hsettled := hfits.settle hack
    rcases hproducer with hproducer | hproducer
    · refine ⟨hmorph, ⟨_, hproducer, ?_⟩, h.logged.confirm _⟩
      show Fits start s.queued _ (s.conn.toClientConn.applyFrameAck payload).2.regeometryKeyframe _
      rw [hkeyframe, hproducer]
      exact hsettled
    · refine ⟨hmorph, ⟨_, hproducer, ?_⟩, h.logged.confirm _⟩
      show Fits start s.queued _ (s.conn.toClientConn.applyFrameAck payload).2.regeometryKeyframe _
      rw [hkeyframe]
      exact hsettled.dropBase _

/-- **Every operation keeps the invariant**, as long as the client goes on taking escapes. -/
theorem Durable.step (h : Durable start s) (D : Display τ σ) {a : Act σ} (ha : a.KeepsMorph)
    (hstep : step D s a = some t) : Durable start t := by
  obtain ⟨p, hp, hfits⟩ := h.producer
  cases a with
  | visible dump snapshot alt dims => exact h.visible D dump snapshot alt dims hstep
  | ack payload => exact h.ack D payload hstep
  | scrollback term =>
    cases hstep
    exact h.scrollback term
  | init table rows cols =>
    cases hstep
    obtain ⟨hmorph, hproducer, hkeyframe⟩ := applyInit_morph D hp ha rows cols
    exact h.leave hmorph (hproducer.trans hp.symm) hkeyframe
  | prepare =>
    cases hstep
    rcases prepareRegeometryFrame_morph h.morph with ⟨-, heq⟩ | ⟨p', hp', heq⟩
    · rw [heq]
      exact h
    · rw [hp, Option.some.injEq] at hp'
      subst hp'
      rw [heq]
      exact ⟨h.morph, ⟨_, rfl, hfits.owed⟩, h.logged⟩
  | dropBase =>
    cases hstep
    refine ⟨h.morph, ⟨p.dropAckedBase, ?_, hfits.dropBase _⟩, h.logged⟩
    show s.conn.producer.map _ = _
    rw [hp]
    rfl
  | refreshActivity activity =>
    cases hstep
    refine h.leave ?_ ?_ ?_ <;> unfold refreshActivity <;> split
    all_goals first | exact h.morph | rfl
  | resize rows cols =>
    cases hstep
    exact h.leave h.morph rfl rfl
  | queue tag payload =>
    cases hstep
    exact h.leave h.morph rfl rfl
  | written n =>
    cases hstep
    exact h.leave h.morph rfl rfl
  | clientCaps table =>
    cases hstep
    exact h.leave h.morph rfl rfl

end Runs

/-! ### Before a keyframe is owed -/

/-- What is retained was sent before the current frame. -/
def Ordered (p : FrameProducer σ Bytes) : Prop := ∀ f ∈ p.outstanding, f.num < p.current.num

section Ordered

variable {p : FrameProducer σ Bytes} {c : ClientConn σ}

theorem Ordered.rotate (h : Ordered p) {next : ProducedFrame σ Bytes} (hnum : next.num = p.current.num + 1) :
    Ordered (p.rotateCurrent next) := by
  intro f hf
  show f.num < next.num
  rw [hnum]
  rcases mem_outstanding_rotate hf with rfl | hf
  · exact Nat.lt_succ_self _
  · exact Nat.lt_succ_of_lt (h f hf)

theorem Ordered.ack (h : Ordered p) (n : ℕ) : Ordered (p.ack n).2 := by
  rcases p.ack_cases n with ⟨-, heq⟩ | ⟨-, -, heq⟩
  · rw [heq]
    exact h
  · rw [heq]
    exact fun f hf => h f (List.mem_filter.1 hf).1

/-- Every producer a connection can have. -/
def Retains (c : ClientConn σ) : Prop := ∀ p, c.producer = some p → Ordered p

theorem Retains.visible (h : Retains c) (D : Display τ σ) (dump : Bytes) (snapshot : σ)
    (alt : Bool) (dims : ℕ × ℕ) : Retains (c.queueFrame D dump snapshot alt dims).2 := by
  unfold queueFrame
  split
  case h_1 hp =>
    rw [recordAnnouncements_eq]
    exact h
  case h_2 p hp =>
    have hmoved : Ordered (p.advanceVisible dump snapshot alt dims 0) :=
      Ordered.rotate (p := { p with lastVisibleNum := p.current.num + 1, visibleDirectlyAcked := false }) (h p hp) rfl
    dsimp only
    rw [queueVisible_eq, noteKeyframe_eq]
    intro p' hp'
    cases hp'
    split
    · exact hmoved
    · exact hmoved.ack _

theorem Retains.scrollback (h : Retains c) (term : SessionTerm) : Retains (c.maybeQueueScrollback term).2 := by
  unfold maybeQueueScrollback
  split
  case h_1 => exact h
  case h_2 p hp =>
    split
    case isFalse => exact h
    case isTrue =>
      have hmoved : Ordered (p.advanceScrollbackAfterVisible term.sbTotal) := (h p hp).rotate rfl
      intro p' hp'
      cases hp'
      split
      · exact hmoved
      · exact hmoved.ack _

theorem Ordered.settle (h : Ordered p) (keyframe : Option RegeometryKeyframe) (acked : ℕ) :
    Ordered (settleKeyframe keyframe acked p).2 := by
  unfold settleKeyframe
  split
  · split <;> exact h
  · exact h
  · exact h

theorem Retains.ack (h : Retains c) (payload : Bytes) : Retains (c.applyFrameAck payload).2 := by
  unfold applyFrameAck
  split
  case isTrue => exact h
  case isFalse =>
    split
    case h_1 => exact h
    case h_2 acked flags _ =>
      rw [applyCoalesceOff_eq]
      dsimp only
      split
      case h_1 hp =>
        intro p hp'
        cases hp.symm.trans hp'
      case h_2 p hp =>
        have hsettled := ((h p hp).ack acked).settle c.regeometryKeyframe acked
        split <;> (intro p' hp'; cases hp'; exact hsettled)

theorem Retains.init (h : Retains c) (D : Display τ σ) (table : List Cap) (rows cols : ℕ) :
    Retains (c.applyInit D table rows cols) := by
  unfold applyInit
  dsimp only
  split
  · intro p hp
    cases hp
    exact fun f hf => nomatch hf
  · exact h

theorem Retains.prepare {c : SizedConn σ} (h : Retains c.toClientConn) :
    Retains c.prepareRegeometryFrame.2.toClientConn := by
  unfold SizedConn.prepareRegeometryFrame
  split
  · exact h
  · split
    · split
      · next p hp =>
          intro p' hp'
          cases hp'
          exact h p hp
      · exact h
    · exact h

theorem Retains.step {s t : KeyframeRun σ} (h : Retains s.conn.toClientConn) (D : Display τ σ) {a : Act σ}
    (hstep : step D s a = some t) : Retains t.conn.toClientConn := by
  cases a with
  | visible dump snapshot alt dims =>
    rw [KeyframeRun.step] at hstep
    obtain ⟨p, -, rfl⟩ := Option.map_eq_some_iff.1 hstep
    exact h.visible D dump.bytes snapshot alt dims
  | scrollback term =>
    cases hstep
    exact h.scrollback term
  | ack payload =>
    cases hstep
    exact h.ack payload
  | init table rows cols =>
    cases hstep
    exact h.init D table rows cols
  | prepare =>
    cases hstep
    exact h.prepare
  | dropBase =>
    cases hstep
    intro p hp
    obtain ⟨p', hp', rfl⟩ := Option.map_eq_some_iff.1 (show s.conn.producer.map _ = some p from hp)
    exact h p' hp'
  | refreshActivity activity =>
    cases hstep
    show Retains (s.conn.toClientConn.refreshActivity activity)
    unfold refreshActivity
    split <;> exact h
  | resize rows cols =>
    cases hstep
    exact h
  | queue tag payload =>
    cases hstep
    exact h
  | written n =>
    cases hstep
    exact h
  | clientCaps table =>
    cases hstep
    exact h

end Ordered

/-! ### The keyframe is durable -/

theorem durable_prepared {s : KeyframeRun σ} (hretains : Retains s.conn.toClientConn)
    (hmorph : s.conn.usesMorph = true) (howed : s.conn.prepareRegeometryFrame.1 = true) :
    ∃ start, Durable start s.prepared := by
  rcases prepareRegeometryFrame_morph hmorph with ⟨-, heq⟩ | ⟨p, hp, heq⟩
  · rw [heq] at howed
    cases howed
  · refine ⟨p.current.num, ?_, ⟨p.dropAckedBase, ?_, ?_⟩, ?_⟩
    · rw [prepared, heq]
      exact hmorph
    · rw [prepared, heq]
    · rw [prepared, heq]
      exact
        { outstanding := hretains p hp
          started := Nat.le_refl _
          numbered := nofun
          first := nofun
          fresh := by
            intro f hf hlt
            rcases hf with rfl | hf
            · exact absurd hlt (Nat.lt_irrefl _)
            · exact absurd hlt (Nat.lt_asymm (hretains p hp f hf))
          pending := fun _ => rfl
          sent := nofun
          settled := nofun
          held := nofun
          base := nofun }
    · exact { whole := nofun, anchored := nofun }

/-- **The keyframe is durable.**  A client that is sent escapes is found to be owed a frame for its geometry, after
whatever happened before.  Whatever happens to it afterwards, while it goes on taking escapes: the visible frames
queued are whole dumps until the first of them or a later frame was acknowledged and its base is held, and every
frame that is escapes starts from the screen of a frame queued since. -/
theorem keyframe_durable (D : Display τ σ) {before after : List (Act σ)} {s₀ s : KeyframeRun σ}
    (hbefore : Runs.exec (step D) {} before = some s₀) (hmorph : s₀.conn.usesMorph = true)
    (howed : s₀.conn.prepareRegeometryFrame.1 = true) (hkeeps : ∀ a ∈ after, a.KeepsMorph)
    (hafter : Runs.exec (step D) s₀.prepared after = some s) :
    (s.confirmed = false → ∀ q ∈ s.queued, ∃ bytes, q.frame.body = .full bytes) ∧
      ∀ q ∈ s.queued, ∀ num sum escapes, q.frame.body = .morph num sum escapes →
        ∃ base, q.base = some base ∧ base.num = num ∧ FromQueued s.queued base := by
  have hretains : Retains s₀.conn.toClientConn :=
    Runs.exec_invariant (I := fun s => Retains s.conn.toClientConn) (fun _ _ _ h hstep => h.step D hstep)
      (by rintro p ⟨⟩) hbefore
  obtain ⟨start, hstart⟩ := durable_prepared hretains hmorph howed
  have hdurable : Durable start s :=
    Runs.exec_invariant_of_allOk (fun _ _ _ h ha hstep => h.step D ha hstep) hstart
      (Runs.allOk_of_forall s₀.prepared hkeeps) hafter
  exact ⟨hdurable.logged.whole, hdurable.logged.anchored⟩

/-- A client with more rows than the session is sent a frame, and shrinks. -/
def shrunk : List (Act Unit) :=
  [.init [⟨capProtocolVersion, [1]⟩, ⟨capLossy, []⟩, ⟨capMorph, []⟩] 40 80,
    .visible ⟨[0x61], some (40, 80), (24, 80)⟩ () false (24, 80), .resize 30 80]

/-- The old frame is acknowledged when the keyframe is on its way; only the acknowledgement of the frame after it
gives a base. -/
def lateAck : List (Act Unit) :=
  [.visible ⟨[0x62], some (30, 80), (24, 80)⟩ () false (24, 80), .ack [1, 0, 0, 0, 0, 0, 0, 0, 0],
    .visible ⟨[0x63], some (30, 80), (24, 80)⟩ () false (24, 80), .ack [3, 0, 0, 0, 0, 0, 0, 0, 0],
    .visible ⟨[0x64], some (30, 80), (24, 80)⟩ () false (24, 80)]

theorem keyframe_durable_lateAck :
    ∃ s₀ s, Runs.exec (step nullDisplay) {} shrunk = some s₀ ∧
      Runs.exec (step nullDisplay) s₀.prepared lateAck = some s ∧
      s.queued.map (fun q => q.frame.body) = [.full [0x62], .full [0x63], .morph 3 none []] ∧
      ∀ q ∈ s.queued, ∀ num sum escapes, q.frame.body = .morph num sum escapes →
        ∃ base, q.base = some base ∧ base.num = num ∧ FromQueued s.queued base := by
  have howed : (Runs.exec (step nullDisplay) {} shrunk).map
      (fun s => (s.conn.usesMorph, s.conn.prepareRegeometryFrame.1)) = some (true, true) := by
    decide +kernel
  obtain ⟨s₀, hs₀, hs₀'⟩ := Option.map_eq_some_iff.1 howed
  have hbodies : ((Runs.exec (step nullDisplay) {} shrunk).bind fun s =>
      Runs.exec (step nullDisplay) s.prepared lateAck).map (fun s => s.queued.map fun q => q.frame.body) =
      some [.full [0x62], .full [0x63], .morph 3 none []] := by
    decide +kernel
  rw [hs₀, Option.bind_some] at hbodies
  obtain ⟨s, hs, hs'⟩ := Option.map_eq_some_iff.1 hbodies
  have hkeeps : ∀ a ∈ lateAck, a.KeepsMorph := by simp [lateAck, Act.KeepsMorph]
  exact ⟨s₀, s, hs₀, hs, hs', (keyframe_durable nullDisplay hs₀ (congrArg Prod.fst hs₀')
    (congrArg Prod.snd hs₀') hkeeps hs).2⟩

end KeyframeRun

end Posh
