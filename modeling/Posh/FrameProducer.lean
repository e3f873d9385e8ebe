/-
**The visible-frame producer.**

One producer numbers the frames sent to one peer.  It keeps the newest frame, at most eight older
ones, and the acknowledged baseline, against which the newest frame is encoded each time it is sent.
A frame slot is visible (a screen of its own) or a scrollback slot (it inherits a screen, so that the
chain of bases is not broken by it).

The log of a producer lists, frame number by frame number, which kind each slot was and which dump
was recorded for it.  `FrameProducer.Tracks` says that everything the producer holds agrees with the
log.
-/

import Posh.FrameCodec

set_option autoImplicit false

namespace Posh

variable {τ σ δ : Type}

/-- One produced frame's retained state. -/
structure ProducedFrame (σ : Type) (δ : Type := Dump) where
  num : ℕ
  /-- the visible dump as of this frame -/
  data : δ
  snapshot : σ
  altScreen : Bool
  dims : ℕ × ℕ
  /-- the scrollback rows the client holds after applying this frame -/
  sbTotal : ℕ

/-- The frame numbering, the acknowledged baseline and the retained frames of one peer. -/
structure FrameProducer (σ : Type) (δ : Type := Dump) where
  current : ProducedFrame σ δ
  ackedNum : ℕ
  /-- the acknowledged frame's dump, when it is still held -/
  ackedData : Option δ
  ackedBaseline : Option (σ × Bool × (ℕ × ℕ))
  /-- sent frames an acknowledgement may still land on, oldest first -/
  outstanding : List (ProducedFrame σ δ)
  lastVisibleNum : ℕ
  /-- whether the newest visible frame was acknowledged by its own number -/
  visibleDirectlyAcked : Bool

namespace FrameProducer

/-- A fresh producer at frame 0, the empty screen both ends start from. -/
def new [DumpBytes δ] (D : Display τ σ) (rows cols : ℕ) : FrameProducer σ δ where
  current :=
    { num := 0, data := DumpBytes.empty, snapshot := D.blank rows cols, altScreen := false
      dims := (rows, cols), sbTotal := 0 }
  ackedNum := 0
  ackedData := some DumpBytes.empty
  ackedBaseline := some (D.blank rows cols, false, (rows, cols))
  outstanding := []
  lastVisibleNum := 0
  visibleDirectlyAcked := true

def currentNum (p : FrameProducer σ δ) : ℕ := p.current.num

def currentSbTotal (p : FrameProducer σ δ) : ℕ := p.current.sbTotal

def ackedDump (p : FrameProducer σ δ) : Option δ := p.ackedData

def hasAckedBase (p : FrameProducer σ δ) : Bool := p.ackedData.isSome

/-- Retires the current frame into the window of the most recent eight and installs `next`. -/
def rotateCurrent (p : FrameProducer σ δ) (next : ProducedFrame σ δ) : FrameProducer σ δ :=
  let pushed := p.outstanding ++ [p.current]
  { p with
    current := next
    outstanding := if pushed.length > 8 then pushed.drop 1 else pushed }

/-- A fresh visible frame. -/
def advanceVisible (p : FrameProducer σ δ) (dump : δ) (snapshot : σ) (alt : Bool)
    (dims : ℕ × ℕ) (sbTotal : ℕ) : FrameProducer σ δ :=
  let num := p.current.num + 1
  rotateCurrent { p with lastVisibleNum := num, visibleDirectlyAcked := false }
    { num, data := dump, snapshot, altScreen := alt, dims, sbTotal }

/-- A scrollback slot that inherits the acknowledged screen, or the current one when none is
held. -/
def advanceScrollback (p : FrameProducer σ δ) (sbTotal : ℕ) : FrameProducer σ δ :=
  let num := p.current.num + 1
  match p.ackedData, p.ackedBaseline with
  | some d, some (s, a, dim) =>
    p.rotateCurrent { num, data := d, snapshot := s, altScreen := a, dims := dim, sbTotal }
  | _, _ => p.rotateCurrent { p.current with num, sbTotal }

/-- A scrollback slot that threads off the newest frame. -/
def advanceScrollbackAfterVisible (p : FrameProducer σ δ) (sbTotal : ℕ) : FrameProducer σ δ :=
  p.rotateCurrent { p.current with num := p.current.num + 1, sbTotal }

/-- The acknowledged frame as an encoder sees it, when it is held. -/
def baseline (p : FrameProducer σ δ) : Option (BaselineRef σ δ) :=
  match p.ackedData, p.ackedBaseline with
  | some dump, some (snapshot, alt, dims) =>
    some { num := p.ackedNum, dump, snapshot, altScreen := alt, rows := dims.1, cols := dims.2 }
  | _, _ => none

/-- The current frame as an encoder sees it. -/
def currentFrame (p : FrameProducer σ δ) : CurrentFrame σ δ where
  dump := p.current.data
  snapshot := p.current.snapshot
  altScreen := p.current.altScreen
  rows := p.current.dims.1
  cols := p.current.dims.2

/-- The body of the current frame, against the acknowledged baseline. -/
def encodeVisible [DumpBytes δ] (D : Display τ σ) (p : FrameProducer σ δ) (useMorph : Bool) : FrameBody :=
  if useMorph then MorphDelta.encode D p.baseline p.currentFrame
  else DumpDiff.encode p.baseline p.currentFrame

/-- The retained state of frame `n`, if it is the current frame or one of the window. -/
def retained (p : FrameProducer σ δ) (n : ℕ) : Option (ProducedFrame σ δ) :=
  if n = p.current.num then some p.current else p.outstanding.find? fun f => f.num == n

/-- Applies a client's acknowledgement: the scrollback total of the acknowledged frame, when it is
still held, and the producer afterwards. -/
def ack (p : FrameProducer σ δ) (ackedFrame : ℕ) : Option ℕ × FrameProducer σ δ :=
  -- an acknowledgement of a frame never sent, or one already passed
  if ackedFrame ≤ p.ackedNum ∨ ackedFrame > p.current.num then (none, p)
  else
    let acked := p.retained ackedFrame
    (acked.map ProducedFrame.sbTotal,
          { p with
        ackedNum := ackedFrame
        visibleDirectlyAcked := p.visibleDirectlyAcked || ackedFrame == p.lastVisibleNum
        ackedData := acked.map ProducedFrame.data
        ackedBaseline := acked.map fun f => (f.snapshot, f.altScreen, f.dims)
        outstanding := p.outstanding.filter fun f => decide (f.num ≥ ackedFrame) })

/-- Drops the baseline, so that the next body is a whole dump. -/
def dropAckedBase (p : FrameProducer σ δ) : FrameProducer σ δ :=
  { p with ackedData := none, ackedBaseline := none }

/-- The acknowledgements have passed the newest visible frame without ever naming it. -/
def visibleFrameLeapt (p : FrameProducer σ δ) : Bool :=
  decide (p.ackedNum > p.lastVisibleNum) && !p.visibleDirectlyAcked

/-! ### What the operations do -/

/-- A scrollback slot is a rotation to a frame that keeps the screen of the baseline, or of the
current frame. -/
theorem advanceScrollback_eq (p : FrameProducer σ δ) (t : ℕ) :
    ∃ next : ProducedFrame σ δ, p.advanceScrollback t = p.rotateCurrent next ∧ next.num = p.current.num + 1 := by
  unfold advanceScrollback
  split <;> exact ⟨_, rfl, rfl⟩

@[simp] theorem advanceScrollback_ackedNum (p : FrameProducer σ) (t : ℕ) :
    (p.advanceScrollback t).ackedNum = p.ackedNum := by
  obtain ⟨next, heq, -⟩ := p.advanceScrollback_eq t
  rw [heq]
  rfl

@[simp] theorem advanceScrollback_currentNum (p : FrameProducer σ) (t : ℕ) :
    (p.advanceScrollback t).current.num = p.current.num + 1 := by
  obtain ⟨next, heq, hnum⟩ := p.advanceScrollback_eq t
  rw [heq]
  exact hnum

theorem advanceScrollback_data {p : FrameProducer σ} {d : Dump} (hd : p.ackedData = some d)
    (hb : p.ackedBaseline.isSome = true) (t : ℕ) : (p.advanceScrollback t).current.data = d := by
  obtain ⟨b, hb⟩ := Option.isSome_iff_exists.1 hb
  unfold advanceScrollback
  rw [hd, hb]
  rfl

/-- What the newest frame is encoded as, without escapes: the whole dump, or a diff against the
acknowledged dump that is a net win. -/
theorem encodeVisible_cases (D : Display τ σ) (p : FrameProducer σ) :
    p.encodeVisible D false = .full p.current.data.bytes ∨ ∃ d, p.ackedData = some d ∧
        (makeDiff d.bytes p.current.data.bytes).length + 8 < p.current.data.bytes.length ∧
        p.encodeVisible D false = .diff p.ackedNum none (makeDiff d.bytes p.current.data.bytes) := by
  rcases DumpDiff.encode_cases p.baseline p.currentFrame with h | ⟨base, hbase, hwin, h⟩
  · exact .inl h
  · refine .inr ?_
    unfold baseline at hbase
    split at hbase
    case h_1 dump s a dims hd _ =>
      rw [Option.some.injEq] at hbase
      subst hbase
      exact ⟨dump, hd, hwin, h⟩
    case h_2 => cases hbase

/-- What an acknowledgement does: nothing, or it moves the acknowledged frame to one that was
sent. -/
theorem ack_cases (p : FrameProducer σ δ) (n : ℕ) :
    ((n ≤ p.ackedNum ∨ p.current.num < n) ∧ p.ack n = (none, p)) ∨
      (p.ackedNum < n ∧ n ≤ p.current.num ∧ p.ack n = ((p.retained n).map ProducedFrame.sbTotal,
          { p with
            ackedNum := n
            visibleDirectlyAcked := p.visibleDirectlyAcked || n == p.lastVisibleNum
            ackedData := (p.retained n).map ProducedFrame.data
            ackedBaseline := (p.retained n).map fun f => (f.snapshot, f.altScreen, f.dims)
            outstanding := p.outstanding.filter fun f => decide (f.num ≥ n) })) := by
  by_cases h : n ≤ p.ackedNum ∨ n > p.current.num
  · exact .inl ⟨h, by rw [ack, if_pos h]⟩
  · refine .inr ⟨by omega, by omega, ?_⟩
    rw [ack, if_neg h]

theorem ack_current (p : FrameProducer σ δ) (n : ℕ) :
    (p.ack n).2.current = p.current ∧ (p.ack n).2.lastVisibleNum = p.lastVisibleNum := by
  rcases p.ack_cases n with ⟨-, heq⟩ | ⟨-, -, heq⟩
  · rw [heq]
    exact ⟨rfl, rfl⟩
  · rw [heq]
    exact ⟨rfl, rfl⟩

theorem ack_ackedNum (p : FrameProducer σ) (n : ℕ) : (p.ack n).2 = p ∨ (p.ack n).2.ackedNum = n := by
  rcases p.ack_cases n with ⟨-, heq⟩ | ⟨-, -, heq⟩
  · exact .inl (by rw [heq])
  · exact .inr (by rw [heq])

theorem ack_newest {p : FrameProducer σ} {n : ℕ} (hn : p.current.num = n) (h : p.ackedNum < n) :
    (p.ack n).2.ackedNum = n := by
  rcases p.ack_cases n with ⟨hno, -⟩ | ⟨-, -, heq⟩
  · omega
  · rw [heq]

theorem retained_mem {p : FrameProducer σ δ} {n : ℕ} {f : ProducedFrame σ δ}
    (h : p.retained n = some f) : f.num = n ∧ (f = p.current ∨ f ∈ p.outstanding) := by
  unfold retained at h
  split at h
  case isTrue hn =>
    rw [Option.some.injEq] at h
    exact ⟨h ▸ hn.symm, .inl h.symm⟩
  case isFalse =>
    have hnum := List.find?_some h
    exact ⟨by simpa using hnum, .inr (List.mem_of_find?_eq_some h)⟩

end FrameProducer

/-! ### The log -/

/-- What was recorded for a frame number: the kind of its slot and its dump. -/
structure LoggedFrame where
  visible : Bool
  dump : Dump
  deriving DecidableEq

/-- Frame 0, the empty screen both ends start from. -/
def initialLog : List LoggedFrame := [⟨true, .empty⟩]

namespace FrameProducer

/-- The producer agrees with the log of its frames. -/
structure Tracks (log : List LoggedFrame) (p : FrameProducer σ) : Prop where
  /-- every frame up to the current one is logged -/
  length_eq : log.length = p.current.num + 1
  /-- the current frame's dump is the one logged for it -/
  current_dump : (log[p.current.num]?).map LoggedFrame.dump = some p.current.data
  /-- so is that of every retained frame -/
  outstanding_dump : ∀ f ∈ p.outstanding,
    f.num < p.current.num ∧ (log[f.num]?).map LoggedFrame.dump = some f.data
  /-- only a sent frame is acknowledged -/
  acked_le : p.ackedNum ≤ p.current.num
  /-- a held baseline is the dump logged for the acknowledged frame -/
  acked_dump : ∀ d, p.ackedData = some d → (log[p.ackedNum]?).map LoggedFrame.dump = some d
  /-- the two halves of the baseline are held together -/
  baseline_iff : p.ackedBaseline.isSome = p.ackedData.isSome
  /-- the newest visible frame is logged as one -/
  last_visible : ∃ d, log[p.lastVisibleNum]? = some ⟨true, d⟩
  /-- and every frame after it is a scrollback slot -/
  after_last : ∀ n f, p.lastVisibleNum < n → log[n]? = some f → f.visible = false
  /-- an acknowledgement of the newest visible frame itself is remembered -/
  direct : p.ackedNum = p.lastVisibleNum → p.visibleDirectlyAcked = true

variable {log : List LoggedFrame} {p : FrameProducer σ} {n : ℕ}

theorem getElem?_log_append {f : LoggedFrame} (h : log[n]? = some f) (g : LoggedFrame) :
    (log ++ [g])[n]? = some f := by
  obtain ⟨hn, -⟩ := List.getElem?_eq_some_iff.1 h
  rw [List.getElem?_append_left hn, h]

theorem map_getElem?_log_append {β : Type} {x : β} {φ : LoggedFrame → β}
    (h : (log[n]?).map φ = some x) (g : LoggedFrame) : ((log ++ [g])[n]?).map φ = some x := by
  obtain ⟨f, hf, rfl⟩ := Option.map_eq_some_iff.1 h
  rw [getElem?_log_append hf, Option.map_some]

theorem Tracks.getElem?_new (h : Tracks log p) (g : LoggedFrame) : (log ++ [g])[p.current.num + 1]? = some g := by
  rw [← h.length_eq, List.getElem?_append_right (Nat.le_refl _), Nat.sub_self]
  rfl

theorem Tracks.visible_le (h : Tracks log p) {d : Dump}
    (hn : log[n]? = some ⟨true, d⟩) : n ≤ p.lastVisibleNum := by
  by_contra hlt
  have hv := h.after_last n _ (Nat.lt_of_not_le hlt) hn
  cases hv

theorem Tracks.lastVisible_le (h : Tracks log p) : p.lastVisibleNum ≤ p.current.num := by
  obtain ⟨d, hd⟩ := h.last_visible
  obtain ⟨hn, -⟩ := List.getElem?_eq_some_iff.1 hd
  have hl := h.length_eq
  omega

theorem tracks_new (D : Display τ σ) (rows cols : ℕ) : Tracks initialLog (new D rows cols) where
  length_eq := rfl
  current_dump := rfl
  outstanding_dump := by intro f hf; simp [new] at hf
  acked_le := Nat.le_refl 0
  acked_dump := by
    intro d hd
    simp only [new, Option.some.injEq] at hd
    subst hd
    rfl
  baseline_iff := rfl
  last_visible := ⟨.empty, rfl⟩
  after_last := by
    intro n f hn hf
    obtain ⟨hlt, -⟩ := List.getElem?_eq_some_iff.1 hf
    simp only [initialLog, List.length_singleton] at hlt
    simp only [new] at hn
    omega
  direct := fun _ => rfl

theorem mem_rotateCurrent {p : FrameProducer σ δ} {next f : ProducedFrame σ δ}
    (hf : f ∈ (p.rotateCurrent next).outstanding) : f ∈ p.outstanding ∨ f = p.current := by
  have hmem : f ∈ p.outstanding ++ [p.current] := by
    simp only [rotateCurrent] at hf
    split at hf
    · exact List.mem_of_mem_drop hf
    · exact hf
  simpa using hmem

/-- A rotation to a logged next frame keeps the agreement; what it does to the visible bookkeeping
is left to the caller. -/
theorem Tracks.rotate (h : Tracks log p) (next : ProducedFrame σ) {q : FrameProducer σ}
    {g : LoggedFrame} (hnum : next.num = p.current.num + 1) (hg : g.dump = next.data)
    (hcur : q.current = next) (hout : q.outstanding = (p.rotateCurrent next).outstanding)
    (hacked : q.ackedNum = p.ackedNum) (hdata : q.ackedData = p.ackedData)
    (hbaseline : q.ackedBaseline = p.ackedBaseline)
    (hlast : ∃ d, (log ++ [g])[q.lastVisibleNum]? = some ⟨true, d⟩)
    (hafter : ∀ n f, q.lastVisibleNum < n → (log ++ [g])[n]? = some f → f.visible = false)
    (hdirect : q.ackedNum = q.lastVisibleNum → q.visibleDirectlyAcked = true) :
    Tracks (log ++ [g]) q where
  length_eq := by rw [List.length_append, h.length_eq, hcur, hnum]; rfl
  current_dump := by rw [hcur, hnum, h.getElem?_new, Option.map_some, hg]
  outstanding_dump := by
    intro f hf
    rw [hout] at hf
    rw [hcur, hnum]
    rcases mem_rotateCurrent hf with hf | rfl
    · obtain ⟨hlt, hdump⟩ := h.outstanding_dump f hf
      exact ⟨by omega, map_getElem?_log_append hdump g⟩
    · exact ⟨Nat.lt_succ_self _, map_getElem?_log_append h.current_dump g⟩
  acked_le := by
    have hle := h.acked_le
    rw [hacked, hcur, hnum]
    omega
  acked_dump := by
    intro d hd
    rw [hdata] at hd
    rw [hacked]
    exact map_getElem?_log_append (h.acked_dump d hd) g
  baseline_iff := by rw [hbaseline, hdata, h.baseline_iff]
  last_visible := hlast
  after_last := hafter
  direct := hdirect

theorem getElem?_append_singleton_cases {f g : LoggedFrame}
    (h : (log ++ [g])[n]? = some f) : log[n]? = some f ∨ (n = log.length ∧ f = g) := by
  by_cases hn : n < log.length
  · rw [List.getElem?_append_left hn] at h
    exact .inl h
  · rw [List.getElem?_append_right (Nat.le_of_not_lt hn)] at h
    have hz : n - log.length = 0 := by
      by_contra hne
      rw [List.getElem?_eq_none (by simp only [List.length_singleton]; omega)] at h
      cases h
    rw [hz] at h
    simp only [List.getElem?_cons_zero, Option.some.injEq] at h
    exact .inr ⟨by omega, h.symm⟩

theorem Tracks.advanceVisible (h : Tracks log p) (d : Dump) (s : σ) (a : Bool) (dims : ℕ × ℕ)
    (t : ℕ) : Tracks (log ++ [⟨true, d⟩]) (p.advanceVisible d s a dims t) := by
  refine h.rotate ⟨p.current.num + 1, d, s, a, dims, t⟩ rfl rfl rfl rfl rfl rfl
    rfl ⟨d, h.getElem?_new _⟩ ?_ ?_
  · intro n f hn hf
    obtain ⟨hlt, -⟩ := List.getElem?_eq_some_iff.1 hf
    rw [List.length_append, h.length_eq, List.length_singleton] at hlt
    have hn' : p.current.num + 1 < n := hn
    omega
  · intro heq
    have hle := h.acked_le
    have heq' : p.ackedNum = p.current.num + 1 := heq
    omega

theorem Tracks.rotate_scrollback (h : Tracks log p) (next : ProducedFrame σ)
    (hnum : next.num = p.current.num + 1) : Tracks (log ++ [⟨false, next.data⟩]) (p.rotateCurrent next) := by
  refine h.rotate next hnum rfl rfl rfl rfl rfl rfl ?_ ?_ h.direct
  · obtain ⟨d, hd⟩ := h.last_visible
    exact ⟨d, getElem?_log_append hd _⟩
  · intro n f hn hf
    rcases getElem?_append_singleton_cases hf with hf | ⟨-, rfl⟩
    · exact h.after_last n f hn hf
    · rfl

theorem Tracks.advanceScrollback (h : Tracks log p) (t : ℕ) :
    Tracks (log ++ [⟨false, (p.advanceScrollback t).current.data⟩]) (p.advanceScrollback t) := by
  obtain ⟨next, heq, hnum⟩ := p.advanceScrollback_eq t
  rw [heq]
  exact h.rotate_scrollback next hnum

theorem Tracks.advanceScrollbackAfterVisible (h : Tracks log p) (t : ℕ) :
    Tracks (log ++ [⟨false, p.current.data⟩]) (p.advanceScrollbackAfterVisible t) :=
  h.rotate_scrollback { p.current with num := p.current.num + 1, sbTotal := t } rfl

theorem Tracks.retained_dump (h : Tracks log p) {f : ProducedFrame σ}
    (hf : p.retained n = some f) : (log[n]?).map LoggedFrame.dump = some f.data := by
  obtain ⟨rfl, rfl | hmem⟩ := retained_mem hf
  · exact h.current_dump
  · exact (h.outstanding_dump f hmem).2

theorem Tracks.ack (h : Tracks log p) (n : ℕ) : Tracks log (p.ack n).2 := by
  rcases p.ack_cases n with ⟨-, heq⟩ | ⟨hlt, hle, heq⟩
  · rw [heq]
    exact h
  · rw [heq]
    exact
      { length_eq := h.length_eq
        current_dump := h.current_dump
        outstanding_dump := fun f hf => h.outstanding_dump f (List.mem_of_mem_filter hf)
        acked_le := hle
        acked_dump := by
          intro d hd
          obtain ⟨f, hf, rfl⟩ := Option.map_eq_some_iff.1 hd
          exact h.retained_dump hf
        baseline_iff := by simp only [Option.isSome_map]
        last_visible := h.last_visible
        after_last := h.after_last
        direct := by
          intro hn
          have hn' : n = p.lastVisibleNum := hn
          simp [hn'] }

theorem Tracks.dropAckedBase (h : Tracks log p) : Tracks log p.dropAckedBase :=
  { h with
    acked_dump := by intro d hd; cases hd
    baseline_iff := rfl }

end FrameProducer

end Posh
