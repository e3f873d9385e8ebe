/-
**The scrollback stream across epochs.**

The server opens another epoch when the viewport's size changes, and when a viewport that had
acknowledged rows acknowledges none.  Every frame names the epoch it was built in, and the viewport takes
the epoch of whichever frame arrives: one that names another epoch than the one held clears the ring and
starts the count again.  Frames are not ordered by the link.  A frame from before a change of the epoch
that arrives after the viewport entered the next one takes it back, the next frame takes it forth again,
and the acknowledgement of none that follows has the server open yet another epoch.  That, and nothing
else, is what a late frame can destroy: as long as no such frame arrives the viewport goes from epoch to
epoch forwards, keeps its ring within each, and does not acknowledge backwards.
-/

import Posh.HistoryCursor
import Posh.HistoryLedger

set_option autoImplicit false

namespace Posh

open HistoryCursor (nextEpoch)
open HistoryCursor
open HistoryView
open List (mem_append mem_singleton)

/-- What a viewport's message says of the history: its entry, which the message after its own resize
leaves out, and its size. -/
structure HistoryMessage where
  entry : Option (UInt8 × ℕ)
  size : ℕ × ℕ
  deriving DecidableEq, Repr

/-- A count reported: the generation it is of, how often the viewport had been resized, and the rows. -/
structure HistoryReport where
  generation : ℕ
  resizes : ℕ
  rows : ℕ
  deriving DecidableEq, Repr

/-- The two sides of a history stream over many epochs, and what is between them. -/
structure HistoryEpochs where
  ring : PrimaryRing
  cursor : HistoryCursor
  client : HistoryView
  /-- the viewport's size -/
  size : ℕ × ℕ
  suppressScrollbackOnce : Bool := false
  /-- the frames sent, each with the generation it was built in -/
  frames : List (ℕ × HistoryFrame) := []
  messages : List HistoryMessage := []
  /-- how many epochs the server opened after the first -/
  bumps : ℕ := 0
  /-- the generations of the frames the viewport took an epoch from -/
  entered : List ℕ := []
  /-- how often the viewport was resized -/
  resizes : ℕ := 0
  /-- what the viewport reported -/
  reports : List HistoryReport := []
  deriving DecidableEq, Repr

namespace HistoryEpochs

inductive Act where
  | scroll (row : Bytes)
  | evict (n : ℕ)
  /-- a frame with the epoch, with the extent or without, and with a body when one is due -/
  | emit (extent : Bool) (body : Option (ℕ × ℕ × ℕ))
  /-- the frame sent as number `i` arrives -/
  | deliver (i : ℕ)
  /-- the viewport is resized -/
  | resize (size : ℕ × ℕ)
  /-- the viewport sends a message -/
  | report
  /-- the message sent as number `i` arrives; a resize renumbers the ring -/
  | receive (i now : ℕ) (rows : List Bytes) (scrolled : ℕ)
  deriving DecidableEq, Repr

/-- The server takes a message: the size first reaches the screen, then the entry is answered, and then
the size. -/
def onMessage (ring : PrimaryRing) (cursor : HistoryCursor) (m : HistoryMessage) (now : ℕ)
    (rows : List Bytes) (scrolled : ℕ) : PrimaryRing × HistoryCursor × ℕ :=
  let size := if m.size.1 > 0 ∧ m.size.2 > 0 then m.size else cursor.size
  let ring := if size = cursor.size then ring else ring.renumber rows scrolled
  let answered := (m.entry.map fun e => cursor.onClientEntry e.1 e.2 ring.total now).getD cursor
  let sized := answered.onClientSize size ring.total
  (ring, sized,
    (if answered.epoch = cursor.epoch then 0 else 1) + if sized.epoch = answered.epoch then 0 else 1)

/-- Whether a frame takes the viewport into another epoch. -/
def enters (v : HistoryView) (f : HistoryFrame) : Bool :=
  match f.epochAck with
  | some e => decide (v.sb2Epoch ≠ some e)
  | none => false

/-- The entry of the viewport's next message. -/
def outgoingEntry (s : HistoryEpochs) : Option (UInt8 × ℕ) :=
  if s.suppressScrollbackOnce then none else some (s.client.sb2Epoch.getD 0, s.client.sb2Rows)

/-- The count that entry reports, once the viewport is in an epoch it took from a frame. -/
def outgoingReport (s : HistoryEpochs) : Option HistoryReport :=
  if s.suppressScrollbackOnce || s.client.sb2Epoch.isNone then none
  else s.entered.getLast?.map fun g =>
    { generation := g, resizes := s.resizes, rows := s.client.sb2Rows }

def step (s : HistoryEpochs) : Act → Option HistoryEpochs
  | .scroll row => some { s with ring := s.ring.push row }
  | .evict n => some { s with ring := s.ring.evict n }
  | .emit extent body =>
    let sent := body.map fun (now, rto, window) => s.cursor.nextBody s.ring now rto window
    let cursor := (sent.map Prod.fst).getD s.cursor
    some { s with
      cursor
      frames := s.frames ++ [(s.bumps,
          { epochAck := cursor.currentEpoch
            extent := if extent then cursor.extent s.ring else none
            body := sent.map Prod.snd })] }
  | .deliver i =>
    s.frames[i]?.map fun f =>
      { s with
        client := s.client.processFrame f.2
        entered := if enters s.client f.2 then s.entered ++ [f.1] else s.entered }
  | .resize size =>
    some { s with
      client := s.client.clearV2RowSpace none
      size
      suppressScrollbackOnce := true
      resizes := s.resizes + 1 }
  | .report =>
    some { s with
      suppressScrollbackOnce := false
      messages := s.messages ++ [{ entry := s.outgoingEntry, size := s.size }]
      reports := s.reports ++ s.outgoingReport.toList }
  | .receive i now rows scrolled =>
    s.messages[i]?.map fun m =>
      let r := onMessage s.ring s.cursor m now rows scrolled
      { s with
        ring := r.1
        cursor := r.2.1
        bumps := s.bumps + r.2.2 }

/-! ### What a late frame must not do -/

/-- Built in the generation `k`, before an epoch was opened from which on the viewport has entered
one. -/
def Superseded (s : HistoryEpochs) (k : ℕ) : Prop := ∃ g ∈ s.entered, k < g

instance (s : HistoryEpochs) (k : ℕ) : Decidable (s.Superseded k) :=
  inferInstanceAs (Decidable (∃ g ∈ s.entered, k < g))

/-- The history is kept: the epoch is the same, the ring at most grew, and so did the count that is
acknowledged. -/
def Keeps (v v' : HistoryView) : Prop :=
  v'.sb2Epoch = v.sb2Epoch ∧ (∃ l, v'.scrollback = v.scrollback.replay l) ∧ v.sb2Rows ≤ v'.sb2Rows

/-- A superseded frame that arrives keeps the history. -/
def Kept (s : HistoryEpochs) : Act → Prop
  | .deliver i => ∀ f, s.frames[i]? = some f → s.Superseded f.1 → Keeps s.client (s.client.processFrame f.2)
  | _ => True

/-- **The viewport never goes back**: it takes its epochs in the order in which they were opened, and
between two resizes of its own it does not acknowledge fewer rows of a generation than before. -/
structure NeverBack (s : HistoryEpochs) : Prop where
  entered : s.entered.Pairwise (· ≤ ·)
  reports : s.reports.Pairwise fun a b =>
    a.generation = b.generation → a.resizes = b.resizes → a.rows ≤ b.rows

/-- A superseded frame that arrives names the epoch that is held, or none. -/
def NamesHeld (s : HistoryEpochs) : Act → Prop
  | .deliver i => ∀ f, s.frames[i]? = some f → s.Superseded f.1 → enters s.client f.2 = false
  | _ => True

/-! ### What a frame does to the history -/

/-- The view a frame's body finds. -/
def arrived (v : HistoryView) (f : HistoryFrame) : HistoryView :=
  (f.epochAck.map v.adoptEpoch).getD v

variable {v v' v'' : HistoryView} {f : HistoryFrame} {s s' t : HistoryEpochs} {e : UInt8} {e₀ : UInt8} {k : ℕ}

theorem Keeps.refl (v : HistoryView) : Keeps v v := ⟨rfl, ⟨[], rfl⟩, Nat.le_refl _⟩

theorem Keeps.trans (h : Keeps v v') (h' : Keeps v' v'') : Keeps v v'' := by
  obtain ⟨hepoch, ⟨l, hl⟩, hrows⟩ := h
  obtain ⟨hepoch', ⟨l', hl'⟩, hrows'⟩ := h'
  exact ⟨hepoch'.trans hepoch, ⟨l ++ l', by rw [hl', hl, ScrollbackRing.replay_append]⟩, hrows.trans hrows'⟩

theorem keeps_of_advances
    (h : HistoryView.Advances (fun _ _ => True) (fun _ => True) v v') : Keeps v v' := by
  obtain ⟨l, hl⟩ := h.ledger
  exact ⟨h.epoch, ⟨l, hl.ring⟩, hl.rows ▸ Nat.le_add_right _ _⟩

theorem keeps_adoptExtent (v : HistoryView) (x : Scrollback2Extent) : Keeps v (v.adoptExtent x) := by
  by_cases hx : v.sb2Epoch = some x.epoch
  · have h : HistoryView.Advances (fun _ _ => True) (fun _ => True)
        { v with sb2Extent := some ((v.sb2Extent.getD x).merge x) } (v.adoptExtent x) :=
      advances_adoptExtent (fun _ _ _ _ _ => trivial) hx fun _ _ _ => trivial
    have hkeeps := keeps_of_advances h
    exact ⟨hkeeps.1, hkeeps.2.1, hkeeps.2.2⟩
  · rw [adoptExtent, if_neg hx]
    exact .refl v

theorem keeps_applyScrollback2 (v : HistoryView) (epoch : UInt8) (off : ℕ) (rows : List Bytes) :
    Keeps v (v.applyScrollback2 epoch off rows) :=
  keeps_of_advances (advances_applyScrollback2 (fun _ _ _ _ _ => trivial)
    (fun _ _ _ _ => trivial) (fun _ _ _ => trivial) fun _ _ _ => trivial)

theorem keeps_processFrame (v : HistoryView) (f : HistoryFrame) : Keeps (arrived v f) (v.processFrame f) := by
  have hextent : Keeps (arrived v f) ((f.extent.map (arrived v f).adoptExtent).getD (arrived v f)) := by
    cases f.extent with
    | none => exact .refl _
    | some x => exact keeps_adoptExtent _ x
  unfold processFrame
  cases f.body with
  | none => exact hextent
  | some body => exact hextent.trans (keeps_applyScrollback2 ..)

theorem arrived_of_not_enters (h : enters v f = false) : arrived v f = v := by
  unfold enters at h
  unfold arrived
  cases hack : f.epochAck with
  | none => rfl
  | some e =>
    rw [hack] at h
    simp only [decide_eq_false_iff_not, not_not] at h
    rw [Option.map_some, Option.getD_some, adoptEpoch, if_neg (not_not.2 h)]

theorem arrived_of_enters (h : enters v f = true) :
    ∃ e, f.epochAck = some e ∧ v.sb2Epoch ≠ some e ∧ arrived v f = v.clearV2RowSpace (some e) := by
  unfold enters at h
  unfold arrived
  cases hack : f.epochAck with
  | none =>
    rw [hack] at h
    cases h
  | some e =>
    rw [hack] at h
    have hne : v.sb2Epoch ≠ some e := of_decide_eq_true h
    refine ⟨e, rfl, hne, ?_⟩
    rw [Option.map_some, Option.getD_some, adoptEpoch, if_pos hne]

/-- **A frame keeps the history exactly when it names no other epoch.** -/
theorem keeps_iff_not_enters : Keeps v (v.processFrame f) ↔ enters v f = false := by
  have hkeeps := keeps_processFrame v f
  constructor
  · intro h
    rw [← Bool.not_eq_true]
    intro henters
    obtain ⟨e, -, hne, harrived⟩ := arrived_of_enters henters
    rw [harrived] at hkeeps
    exact hne (h.1.symm.trans hkeeps.1)
  · intro h
    rw [arrived_of_not_enters h] at hkeeps
    exact hkeeps

theorem kept_iff (s : HistoryEpochs) (a : Act) : Kept s a ↔ NamesHeld s a := by
  cases a with
  | deliver i =>
    exact forall_congr' fun f => forall_congr' fun _ => forall_congr' fun _ => keeps_iff_not_enters
  | scroll | evict | emit | resize | report | receive => exact Iff.rfl

/-! ### Frames name the epoch of their generation -/

/-- The epoch of the generation `k`, the first one's being `e₀`. -/
def epochAt (e₀ : UInt8) (k : ℕ) : UInt8 := HistoryCursor.nextEpoch^[k] e₀

theorem epochAt_succ (e₀ : UInt8) (k : ℕ) : epochAt e₀ (k + 1) = nextEpoch (epochAt e₀ k) :=
  Function.iterate_succ_apply' ..

/-- The server is in the epoch of its generation, and so was every frame when it was built. -/
structure Tracks (e₀ : UInt8) (s : HistoryEpochs) : Prop where
  cursor : s.cursor.epoch = epochAt e₀ s.bumps
  frames : ∀ f ∈ s.frames, ∀ e, f.2.epochAck = some e → e = epochAt e₀ f.1

theorem bumpEpoch_epoch (c : HistoryCursor) (total : ℕ) :
    (c.bumpEpoch total).epoch = c.epoch ∨ (c.bumpEpoch total).epoch = nextEpoch c.epoch := by
  unfold bumpEpoch
  split
  · exact .inr rfl
  · exact .inl rfl

theorem onClientEntry_epoch (c : HistoryCursor) (epoch : UInt8) (acked total now : ℕ) :
    (c.onClientEntry epoch acked total now).epoch = c.epoch ∨
      (c.onClientEntry epoch acked total now).epoch = nextEpoch c.epoch := by
  have hactivate : (c.activate .fresh total).epoch = c.epoch := by
    unfold activate
    split <;> rfl
  unfold onClientEntry onAck
  rw [← hactivate]
  split
  · exact .inl rfl
  · split
    · exact bumpEpoch_epoch _ _
    · split <;> exact .inl rfl

theorem onClientSize_epoch (c : HistoryCursor) (size : ℕ × ℕ) (total : ℕ) :
    (c.onClientSize size total).epoch = c.epoch ∨ (c.onClientSize size total).epoch = nextEpoch c.epoch := by
  unfold onClientSize
  split
  · exact .inl rfl
  · exact bumpEpoch_epoch { c with size } total

theorem epoch_counted {c c' : HistoryCursor} (hc : c.epoch = epochAt e₀ k)
    (hc' : c'.epoch = c.epoch ∨ c'.epoch = nextEpoch c.epoch) :
    c'.epoch = epochAt e₀ (k + if c'.epoch = c.epoch then 0 else 1) := by
  split
  case isTrue hsame => rw [hsame, hc, Nat.add_zero]
  case isFalse hother => rw [hc'.resolve_left hother, hc, epochAt_succ]

theorem onMessage_epoch (ring : PrimaryRing) (cursor : HistoryCursor) (m : HistoryMessage)
    (now : ℕ) (rows : List Bytes) (scrolled : ℕ) (h : cursor.epoch = epochAt e₀ k) :
    (onMessage ring cursor m now rows scrolled).2.1.epoch =
      epochAt e₀ (k + (onMessage ring cursor m now rows scrolled).2.2) := by
  unfold onMessage
  simp only
  rw [← Nat.add_assoc]
  refine epoch_counted (epoch_counted h ?_) (onClientSize_epoch _ _ _)
  cases m.entry with
  | none => exact .inl rfl
  | some entry => exact onClientEntry_epoch _ _ _ _ _

theorem tracks_step {a : Act} (h : Tracks e₀ s) (hstep : step s a = some s') : Tracks e₀ s' := by
  cases a with
  | scroll | evict | resize | report =>
    obtain rfl := Option.some.inj hstep
    exact ⟨h.cursor, h.frames⟩
  | emit extent body =>
    obtain rfl := Option.some.inj hstep
    have key : ∀ (cursor : HistoryCursor) (f : HistoryFrame), cursor.epoch = s.cursor.epoch →
        f.epochAck = cursor.currentEpoch →
        Tracks e₀ { s with cursor, frames := s.frames ++ [(s.bumps, f)] } := by
      intro cursor f hcursor hf
      refine ⟨hcursor.trans h.cursor, fun f' hf' e he => ?_⟩
      rcases mem_append.1 hf' with hf' | hf'
      · exact h.frames f' hf' e he
      · rw [mem_singleton] at hf'
        rw [hf', hf, currentEpoch] at he
        split at he
        · rw [hf', ← Option.some.inj he, hcursor, h.cursor]
        · cases he
    cases body with
    | none => exact key s.cursor _ rfl rfl
    | some due => exact key (s.cursor.nextBody s.ring due.1 due.2.1 due.2.2).1 _ rfl rfl
  | deliver i =>
    obtain ⟨f, -, rfl⟩ := Option.map_eq_some_iff.1 hstep
    exact ⟨h.cursor, h.frames⟩
  | receive i now rows scrolled =>
    obtain ⟨m, -, rfl⟩ := Option.map_eq_some_iff.1 hstep
    exact ⟨onMessage_epoch _ _ _ _ _ _ h.cursor, h.frames⟩

/-! ### The viewport goes forwards -/

/-- **The invariant** of the runs in which no superseded frame names another epoch: the epoch held is the
one of the generation last entered, and what was reported of it is not ahead of the count. -/
structure Forward (e₀ : UInt8) (s : HistoryEpochs) : Prop where
  tracks : Tracks e₀ s
  back : NeverBack s
  epoch : ∀ g, s.entered.getLast? = some g → ∀ e, s.client.sb2Epoch = some e → e = epochAt e₀ g
  known : ∀ r ∈ s.reports, r.generation ∈ s.entered ∧ r.resizes ≤ s.resizes
  awaiting : s.client.sb2Epoch = none → ∀ r ∈ s.reports, r.resizes < s.resizes
  count : ∀ r ∈ s.reports, s.entered.getLast? = some r.generation → r.resizes = s.resizes →
    r.rows ≤ s.client.sb2Rows

theorem le_getLast {l : List ℕ} (h : l.Pairwise (· ≤ ·)) {g k : ℕ} (hg : l.getLast? = some g)
    (hk : k ∈ l) : k ≤ g := by
  obtain ⟨l', rfl⟩ := List.getLast?_eq_some_iff.1 hg
  rcases mem_append.1 hk with hk | hk
  · exact (List.pairwise_append.1 h).2.2 k hk g List.mem_cons_self
  · exact (mem_singleton.1 hk).le

theorem Forward.keeps (h : Forward e₀ s) (hk : Keeps s.client v) : Forward e₀ { s with client := v } := by
  obtain ⟨hepoch, -, hrows⟩ := hk
  refine ⟨⟨h.tracks.cursor, h.tracks.frames⟩, ⟨h.back.entered, h.back.reports⟩, ?_, h.known, ?_, ?_⟩
  · show ∀ g, _ → ∀ e, v.sb2Epoch = some e → _
    rw [hepoch]
    exact h.epoch
  · show v.sb2Epoch = none → _
    rw [hepoch]
    exact h.awaiting
  · exact fun r hr hg hres => (h.count r hr hg hres).trans hrows

theorem Forward.enters (h : Forward e₀ s) (hf : (k, f) ∈ s.frames)
    (henters : enters s.client f = true) (hk : ¬s.Superseded k) :
    Forward e₀ { s with client := s.client.processFrame f, entered := s.entered ++ [k] } := by
  obtain ⟨e, hack, hne, harrived⟩ := arrived_of_enters henters
  have hkeeps := keeps_processFrame s.client f
  rw [harrived] at hkeeps
  have hin : (s.client.processFrame f).sb2Epoch = some e := hkeeps.1
  have he : e = epochAt e₀ k := h.tracks.frames _ hf e hack
  have hle : ∀ g ∈ s.entered, g ≤ k := fun g hg => Nat.le_of_not_lt fun hlt => hk ⟨g, hg, hlt⟩
  refine ⟨⟨h.tracks.cursor, h.tracks.frames⟩, ⟨?_, h.back.reports⟩, ?_, ?_, ?_, ?_⟩
  · refine List.pairwise_append.2 ⟨h.back.entered, List.pairwise_singleton _ _, fun g hg k' hk' => ?_⟩
    rw [mem_singleton.1 hk']
    exact hle g hg
  · intro g hg e' he'
    rw [List.getLast?_concat] at hg
    have he'' : some e = some e' := hin.symm.trans he'
    rw [← Option.some.inj hg, ← Option.some.inj he'']
    exact he
  · exact fun r hr => ⟨List.mem_append_left _ (h.known r hr).1, (h.known r hr).2⟩
  · exact fun hnone => absurd (hin.symm.trans hnone) nofun
  · intro r hr hg hres
    rw [List.getLast?_concat] at hg
    have hrk : r.generation ∈ s.entered := (h.known r hr).1
    cases hepoch : s.client.sb2Epoch with
    | none =>
      have hlt := h.awaiting hepoch r hr
      have hres' : r.resizes = s.resizes := hres
      omega
    | some e' =>
      -- this generation was entered before, so the epoch held is the one the frame names
      obtain ⟨g, hlast⟩ : ∃ g, s.entered.getLast? = some g := by
        cases hl : s.entered.getLast? with
        | some g => exact ⟨g, rfl⟩
        | none =>
          rw [List.getLast?_eq_none_iff.1 hl] at hrk
          cases hrk
      have hgk : g = k := by
        refine Nat.le_antisymm (hle g (List.mem_of_getLast? hlast)) ?_
        rw [Option.some.inj hg]
        exact le_getLast h.back.entered hlast hrk
      have hsame := h.epoch g hlast e' hepoch
      exact absurd (by rw [hepoch, hsame, hgk, he]) hne

theorem Forward.reported (h : Forward e₀ s) {g : ℕ} (hlast : s.entered.getLast? = some g)
    (hin : s.client.sb2Epoch ≠ none) (htracks : Tracks e₀ s') (hclient : s'.client = s.client)
    (hentered : s'.entered = s.entered) (hresizes : s'.resizes = s.resizes) (hreports : s'.reports = s.reports ++
      [{ generation := g, resizes := s.resizes, rows := s.client.sb2Rows }]) : Forward e₀ s' := by
  refine ⟨htracks, ⟨?_, ?_⟩, ?_, fun r hr => ?_, ?_, fun r hr hg hres => ?_⟩
  · rw [hentered]
    exact h.back.entered
  · rw [hreports]
    refine List.pairwise_append.2 ⟨h.back.reports, List.pairwise_singleton _ _, fun r hr r' hr' => ?_⟩
    rw [mem_singleton.1 hr']
    exact fun hgen hres => h.count r hr (hgen ▸ hlast) hres
  · rw [hentered, hclient]
    exact h.epoch
  · rw [hreports] at hr
    rw [hentered, hresizes]
    rcases mem_append.1 hr with hr | hr
    · exact h.known r hr
    · rw [mem_singleton.1 hr]
      exact ⟨List.mem_of_getLast? hlast, Nat.le_refl _⟩
  · rw [hclient]
    exact fun hnone => absurd hnone hin
  · rw [hreports] at hr
    rw [hentered] at hg
    rw [hresizes] at hres
    rw [hclient]
    rcases mem_append.1 hr with hr | hr
    · exact h.count r hr hg hres
    · rw [mem_singleton.1 hr]

/-- **As long as no superseded frame names another epoch, the viewport goes forwards.** -/
theorem forward_step {a : Act} (h : Forward e₀ s) (hok : NamesHeld s a)
    (hstep : step s a = some s') : Forward e₀ s' := by
  have htracks := tracks_step h.tracks hstep
  cases a with
  | scroll | evict | emit =>
    obtain rfl := Option.some.inj hstep
    exact ⟨htracks, ⟨h.back.entered, h.back.reports⟩, h.epoch, h.known, h.awaiting, h.count⟩
  | receive i now rows scrolled =>
    obtain ⟨m, -, rfl⟩ := Option.map_eq_some_iff.1 hstep
    exact ⟨htracks, ⟨h.back.entered, h.back.reports⟩, h.epoch, h.known, h.awaiting, h.count⟩
  | deliver i =>
    obtain ⟨⟨k, f⟩, hf, rfl⟩ := Option.map_eq_some_iff.1 hstep
    cases henters : enters s.client f with
    | false =>
      simp only [Bool.false_eq_true, if_false]
      exact h.keeps (keeps_iff_not_enters.2 henters)
    | true =>
      simp only [if_true]
      refine h.enters (List.mem_of_getElem? hf) henters fun hsup => ?_
      rw [hok _ hf hsup] at henters
      cases henters
  | resize size =>
    obtain rfl := Option.some.inj hstep
    refine ⟨htracks, ⟨h.back.entered, h.back.reports⟩, fun _ _ _ he => (by cases he), ?_, ?_, ?_⟩
    · exact fun r hr => ⟨(h.known r hr).1, Nat.le_succ_of_le (h.known r hr).2⟩
    · exact fun _ r hr => Nat.lt_succ_of_le (h.known r hr).2
    · intro r hr _ hres
      have hle := (h.known r hr).2
      have hres' : r.resizes = s.resizes + 1 := hres
      omega
  | report =>
    obtain rfl := Option.some.inj hstep
    cases hreport : s.outgoingReport with
    | none =>
      simp only [Option.toList_none, List.append_nil]
      exact ⟨⟨htracks.cursor, htracks.frames⟩, ⟨h.back.entered, h.back.reports⟩, h.epoch, h.known,
        h.awaiting, h.count⟩
    | some r =>
      unfold outgoingReport at hreport
      split at hreport
      case isTrue => cases hreport
      case isFalse hin =>
        obtain ⟨g, hlast, rfl⟩ := Option.map_eq_some_iff.1 hreport
        rw [Bool.or_eq_true, not_or, Option.isNone_iff_eq_none] at hin
        exact h.reported hlast hin.2 ⟨htracks.cursor, htracks.frames⟩ rfl rfl rfl rfl

/-- A run begins: nothing is in flight, and the viewport has taken no epoch from a frame. -/
structure Start (s : HistoryEpochs) : Prop where
  frames : s.frames = []
  messages : s.messages = []
  bumps : s.bumps = 0
  entered : s.entered = []
  reports : s.reports = []

theorem forward_of_start (h : Start s) : Forward s.cursor.epoch s := by
  refine ⟨⟨by rw [h.bumps]; rfl, by simp [h.frames]⟩, ⟨by simp [h.entered], by simp [h.reports]⟩, ?_,
    by simp [h.reports], by simp [h.reports], by simp [h.reports]⟩
  intro g hg
  rw [h.entered] at hg
  cases hg

/-- **A late frame keeps the history exactly when it names the epoch held.**  In a run from the
beginning, every superseded frame that arrives keeps the history and the viewport never goes back, just
when every superseded frame that arrives names the epoch the viewport is in, or none. -/
theorem kept_iff_namesHeld {s₀ : HistoryEpochs} {as : List Act} (h₀ : Start s₀) :
    (Runs.AllOk Kept step s₀ as ∧
      ∀ pre post t, pre ++ post = as → Runs.exec step s₀ pre = some t → t.NeverBack) ↔
      Runs.AllOk NamesHeld step s₀ as := by
  constructor
  · exact fun h => h.1.mono fun s a => (kept_iff s a).1
  · intro h
    refine ⟨h.mono fun s a => (kept_iff s a).2, fun pre post t heq hrun => ?_⟩
    rw [← heq] at h
    exact (Runs.exec_invariant_of_allOk (fun _ _ _ hf hok hstep => forward_step hf hok hstep)
      (forward_of_start h₀) h.of_append hrun).back

instance (s : HistoryEpochs) : (a : Act) → Decidable (NamesHeld s a)
  | .deliver i =>
    match h : s.frames[i]? with
    | none => isTrue fun f hf => by rw [h] at hf; cases hf
    | some f =>
      decidable_of_iff (s.Superseded f.1 → enters s.client f.2 = false)
        ⟨fun hok f' hf' => by rw [h] at hf'; exact Option.some.inj hf' ▸ hok, fun hok => hok f h⟩
  | .scroll _ | .evict _ | .emit _ _ | .resize _ | .report | .receive _ _ _ _ => isTrue trivial

/-- A viewport that holds no epoch, and a server that has not heard of it. -/
def attached : HistoryEpochs where
  ring := { rows := [], total := 0 }
  cursor := .new (24, 80)
  client := { scrollback := .new 100 }
  size := (24, 80)

theorem start_attached : Start attached := ⟨rfl, rfl, rfl, rfl, rfl⟩

/-- The viewport is resized while a frame is under way; it enters the next epoch and acknowledges a
row. -/
def resized : List Act :=
  [.report, .receive 0 0 [] 0, .emit true none, .deliver 0, .emit true none, .resize (24, 100), .report,
    .receive 1 0 [] 0, .scroll [97], .emit true (some (0, 100, 10)), .deliver 2, .report, .receive 2 0 [] 0]

/-- The late frame arrives, then one of the next epoch, and the count is acknowledged again. -/
def lateFrame : List Act := [.deliver 1, .emit true none, .deliver 3, .report, .receive 3 0 [] 0]

theorem kept_iff_namesHeld_resized :
    Runs.AllOk Kept step attached resized ∧
      ∀ pre post t, pre ++ post = resized → Runs.exec step attached pre = some t → t.NeverBack :=
  (kept_iff_namesHeld start_attached).2 (by decide)

/-- The state after some actions. -/
def after (s : HistoryEpochs) (as : List Act) : HistoryEpochs := (Runs.exec step s as).getD s

/-- **A late frame clears the ring, and the server opens an epoch for it**: the viewport was resized
once, and the server is in its third epoch. -/
theorem kept_fails :
    Start attached ∧
      Runs.exec step attached (resized ++ lateFrame) = some (after attached (resized ++ lateFrame)) ∧
      (after attached resized).client.scrollback.rows = [[97]] ∧
      (after attached (resized ++ lateFrame)).client.scrollback.rows = [] ∧
      (after attached (resized ++ lateFrame)).resizes = 1 ∧
      (after attached (resized ++ lateFrame)).cursor.epoch = 3 ∧
      ¬(Runs.AllOk Kept step attached (resized ++ lateFrame) ∧
        ∀ pre post t, pre ++ post = resized ++ lateFrame → Runs.exec step attached pre = some t →
          t.NeverBack) := by
  refine ⟨start_attached, by decide, by decide, by decide, by decide, by decide, ?_⟩
  intro h
  have hheld : Runs.AllOk NamesHeld step attached (resized ++ lateFrame) :=
    h.1.mono fun s a => (kept_iff s a).1
  revert hheld
  decide

end HistoryEpochs

end Posh
