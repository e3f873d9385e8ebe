/-
**The output of a session, sent to all of its viewports.**

Every viewport that is framed and not paced is sent a visible frame, built from the dump for its size.  Dumps are
expensive, so a dump that serves a later viewport too is kept for it: one for every size the session can be
bounded for, and one for all the sizes it cannot be bounded for.
-/

import Posh.ViewConn

set_option autoImplicit false

namespace Posh

open Term (Terminal GraphicsStore MirrorDump)
open Term.Render (Snapshot)

variable {τ σ α : Type}

/-! ### Dumps -/

/-- The last entry takes the place of the one that is removed. -/
def swapRemove (l : List α) (i : ℕ) : List α :=
  match l.getLast? with
  | some last => (l.set i last).dropLast
  | none => []

theorem mem_of_mem_swapRemove {l : List α} {i : ℕ} {x : α} (h : x ∈ swapRemove l i) : x ∈ l := by
  unfold swapRemove at h
  split at h
  case h_1 last hlast =>
    rcases List.mem_or_eq_of_mem_set (List.mem_of_mem_dropLast h) with hmem | rfl
    · exact hmem
    · exact List.mem_of_getLast? hlast
  case h_2 => cases h

variable {γ : Type} [GraphicsStore γ]

/-- **The dump for a viewport**: one that was kept, or a fresh one; and what is kept for the viewports whose sizes
come `later`. -/
def dumpFor (t : Terminal γ) (held : List MirrorDump) (later : List (ℕ × ℕ)) (rows cols : ℕ) :
    MirrorDump × List MirrorDump :=
  let found := held.findIdx? fun d => d.isDumpFor rows cols
  let dump := (found.bind (held[·]?)).getD (t.dumpVtMirror rows cols)
  let held := found.elim held (swapRemove held)
  (dump, if later.any fun size => dump.isDumpFor size.1 size.2 then held ++ [dump] else held)

/-! ### The broadcast -/

/-- The sizes of the viewports that are sent a frame for this read. -/
def geometries (clients : List (ViewConn σ)) : List (ℕ × ℕ) :=
  clients.filterMap fun c => if c.takesPerReadFrames then some (c.rows, c.cols) else none

/-- A viewport that is sent the bytes of the session as they are. -/
def ViewConn.queueOutput (c : ViewConn σ) (bcast : Bytes) : ViewConn σ :=
  { c with toClientConn := c.toClientConn.queue .output bcast }

/-- A viewport without frames: an answer that is due counts as given, and the bytes are sent as they are. -/
def ViewConn.outputUnframed (D : Display τ Snapshot) (c : ViewConn Snapshot) (t : Terminal γ) (bcast : Bytes) :
    ViewConn Snapshot :=
  let queued := c.toClientConn.queueFrame D [] (.fromTerm t) t.altActive (t.rows, t.cols)
  { c with toClientConn := queued.2 }.queueOutput bcast

/-- A visible frame from a dump, and the growth of the scrollback after it. -/
def ViewConn.outputFrame (D : Display τ Snapshot) (c : ViewConn Snapshot) (t : Terminal γ) (dump : MirrorDump) :
    ViewConn Snapshot :=
  let queued := c.toSizedConn.queueDump D dump (.fromTerm t) t.altActive (t.rows, t.cols)
  { c with toSizedConn := queued.2 }.maybeQueueScrollback t

/-- The viewports one after the other, with the dumps that are kept; each with the dump it is given.  With no
viewport that takes frames of reads, `framed` is false. -/
def broadcastEach (D : Display τ Snapshot) (t : Terminal γ) (bcast : Bytes) (framed : Bool) :
    List (ViewConn Snapshot) → List MirrorDump → List (ViewConn Snapshot × Option MirrorDump)
  | [], _ => []
  | c :: rest, held =>
    let owed := c.owePacedFrame
    -- a viewport that did not attach yet is sent nothing
    if !c.initApplied || owed.1 then
      (if c.initApplied then owed.2 else c, none) :: broadcastEach D t bcast framed rest held
    else if framed then
      if c.producer.isSome then
        let shared := dumpFor t held (geometries rest) c.rows c.cols
        (c.outputFrame D t shared.1, some shared.1) :: broadcastEach D t bcast framed rest shared.2
      else (c.outputUnframed D t bcast, none) :: broadcastEach D t bcast framed rest held
    else (c.queueOutput bcast, none) :: broadcastEach D t bcast framed rest held

/-- **The broadcast** of a session's output. -/
def broadcastOutput (D : Display τ Snapshot) (clients : List (ViewConn Snapshot)) (t : Terminal γ) (bcast : Bytes) :
    List (ViewConn Snapshot) :=
  (broadcastEach D t bcast (clients.any ViewConn.takesPerReadFrames) clients []).map Prod.fst

def dumpsGiven (D : Display τ Snapshot) (clients : List (ViewConn Snapshot)) (t : Terminal γ) (bcast : Bytes) :
    List (Option MirrorDump) :=
  (broadcastEach D t bcast (clients.any ViewConn.takesPerReadFrames) clients []).map Prod.snd

/-- What a viewport gets that is alone. -/
def broadcastTo (D : Display τ Snapshot) (t : Terminal γ) (bcast : Bytes) (framed : Bool) (c : ViewConn Snapshot) :
    ViewConn Snapshot :=
  if !c.initApplied then c
  else if c.isPaced then c.owePacedFrame.2
  else if framed then
    if c.producer.isSome then (c.buildFrameFrom D t).2.maybeQueueScrollback t else c.outputUnframed D t bcast
  else c.queueOutput bcast

/-! ### Sharing -/

/-- The dumps that are kept were built from the terminal. -/
def Built (t : Terminal γ) (held : List MirrorDump) : Prop :=
  ∀ d ∈ held, ∃ rows cols, d = t.dumpVtMirror rows cols

variable {t : Terminal γ} {held : List MirrorDump} (D : Display τ Snapshot)

/-- **The dump a viewport is given is its own.** -/
theorem dumpFor_fst (h : Built t held) (later : List (ℕ × ℕ)) (rows cols : ℕ) :
    (dumpFor t held later rows cols).1 = t.dumpVtMirror rows cols := by
  unfold dumpFor
  dsimp only
  cases hfound : held.findIdx? fun d => d.isDumpFor rows cols with
  | none => rfl
  | some i =>
    obtain ⟨hi, hserves, -⟩ := List.findIdx?_eq_some_iff_getElem.1 hfound
    obtain ⟨rows', cols', hd⟩ := h held[i] (List.getElem_mem hi)
    rw [hd] at hserves
    rw [Option.bind_some, List.getElem?_eq_getElem hi, Option.getD_some, hd]
    exact ((t.isDumpFor_dumpVtMirror rows' cols' rows cols).1 hserves).symm

theorem dumpFor_snd (h : Built t held) (later : List (ℕ × ℕ)) (rows cols : ℕ) :
    Built t (dumpFor t held later rows cols).2 := by
  have hrest : Built t ((held.findIdx? fun d => d.isDumpFor rows cols).elim held (swapRemove held)) := by
    intro d hd
    cases hfound : held.findIdx? fun d => d.isDumpFor rows cols with
    | none =>
      rw [hfound] at hd
      exact h d hd
    | some i =>
      rw [hfound] at hd
      exact h d (mem_of_mem_swapRemove hd)
  have hfst := dumpFor_fst h later rows cols
  intro d hd
  unfold dumpFor at hd hfst
  dsimp only at hd hfst
  rw [hfst] at hd
  split at hd
  · rcases List.mem_append.1 hd with hd | hd
    · exact hrest d hd
    · exact ⟨rows, cols, List.mem_singleton.1 hd⟩
  · exact hrest d hd

theorem owePacedFrame_fst (c : ViewConn σ) : c.owePacedFrame.1 = c.isPaced := by
  unfold ViewConn.owePacedFrame
  split
  · next h => rw [h]
  · next h => exact (Bool.eq_false_of_not_eq_true h).symm

/-- The dump a viewport is given when it is alone. -/
def ownDump (t : Terminal γ) (framed : Bool) (c : ViewConn σ) : Option MirrorDump :=
  if c.initApplied && !c.isPaced && framed && c.producer.isSome then some (t.dumpVtMirror c.rows c.cols) else none

theorem broadcastEach_eq (bcast : Bytes) (framed : Bool) {clients : List (ViewConn Snapshot)}
    (h : Built t held) :
    broadcastEach D t bcast framed clients held =
      clients.map fun c => (broadcastTo D t bcast framed c, ownDump t framed c) := by
  induction clients generalizing held with
  | nil => rfl
  | cons c rest ih =>
    rw [broadcastEach, List.map_cons, owePacedFrame_fst]
    unfold broadcastTo ownDump
    cases hinit : c.initApplied with
    | false => exact congrArg _ (ih h)
    | true =>
      cases hpaced : c.isPaced with
      | true => exact congrArg _ (ih h)
      | false =>
        cases framed with
        | false => exact congrArg (List.cons (c.queueOutput bcast, none)) (ih h)
        | true =>
          cases hp : c.producer.isSome with
          | false => exact congrArg (List.cons (c.outputUnframed D t bcast, none)) (ih h)
          | true =>
            have hfst := dumpFor_fst h (geometries rest) c.rows c.cols
            dsimp only [Bool.not_true, Bool.or_false, Bool.not_false, Bool.and_true]
            simp only [Bool.false_eq_true, if_false, if_true]
            rw [hfst, ih (dumpFor_snd h (geometries rest) c.rows c.cols)]
            rfl

/-- **The broadcast is what each viewport gets that is alone.** -/
theorem broadcastOutput_eq (clients : List (ViewConn Snapshot)) (t : Terminal γ) (bcast : Bytes) :
    broadcastOutput D clients t bcast =
      clients.map (broadcastTo D t bcast (clients.any ViewConn.takesPerReadFrames)) := by
  rw [broadcastOutput, broadcastEach_eq D bcast _ (by rintro d ⟨⟩), List.map_map]
  rfl

theorem dumpsGiven_eq (clients : List (ViewConn Snapshot)) (t : Terminal γ) (bcast : Bytes) :
    dumpsGiven D clients t bcast = clients.map (ownDump t (clients.any ViewConn.takesPerReadFrames)) := by
  rw [dumpsGiven, broadcastEach_eq D bcast _ (by rintro d ⟨⟩), List.map_map]
  rfl

theorem broadcastTo_framed (t : Terminal γ) (bcast : Bytes) {c : ViewConn Snapshot}
    (hinit : c.initApplied = true) (hframed : c.takesPerReadFrames = true) :
    broadcastTo D t bcast true c = (c.buildFrameFrom D t).2.maybeQueueScrollback t ∧
      ownDump t true c = some (t.dumpVtMirror c.rows c.cols) := by
  rw [ViewConn.takesPerReadFrames, Bool.and_eq_true, Bool.not_eq_true'] at hframed
  unfold broadcastTo ownDump
  rw [hinit, hframed.1, hframed.2]
  exact ⟨rfl, rfl⟩

/-- **Sharing dumps changes nothing.**  Of every broadcast, whoever else is sent it, a viewport that is framed and not
paced gets the frame that the dump for its own size gives, and the growth after it; the shape of that dump is noted,
and no other dump is given to it.  And a dump serves two sizes only when the dumps for these sizes are the same, bytes
and shape. -/
theorem broadcast_shares_own_dumps (D : Display τ Snapshot) (clients : List (ViewConn Snapshot)) (t : Terminal γ)
    (bcast : Bytes) :
    (∀ (i : ℕ) (c : ViewConn Snapshot), clients[i]? = some c → c.initApplied = true → c.takesPerReadFrames = true →
      ∃ c' : ViewConn Snapshot, (broadcastOutput D clients t bcast)[i]? = some c' ∧ c'.toClientConn =
          ((c.toClientConn.queueFrame D (t.dumpVtMirror c.rows c.cols).bytes (.fromTerm t) t.altActive
            (t.rows, t.cols)).2.maybeQueueScrollback t.sessionTerm).2 ∧
        c'.visibleShapedFor = (t.dumpVtMirror c.rows c.cols).shapedFor ∧
        (dumpsGiven D clients t bcast)[i]? = some (some (t.dumpVtMirror c.rows c.cols))) ∧
      ∀ rows cols rows' cols', (t.dumpVtMirror rows cols).isDumpFor rows' cols' = true ↔
        t.dumpVtMirror rows' cols' = t.dumpVtMirror rows cols := by
  refine ⟨fun i c hc hinit hframed => ?_, t.isDumpFor_dumpVtMirror⟩
  have hany : clients.any ViewConn.takesPerReadFrames = true :=
    List.any_eq_true.2 ⟨c, List.mem_of_getElem? hc, hframed⟩
  obtain ⟨hto, hown⟩ := broadcastTo_framed D t bcast hinit hframed
  refine ⟨(c.buildFrameFrom D t).2.maybeQueueScrollback t, ?_, rfl, rfl, ?_⟩
  · rw [broadcastOutput_eq, List.getElem?_map, hc, Option.map_some, hany, hto]
  · rw [dumpsGiven_eq, List.getElem?_map, hc, Option.map_some, hany, hown]

end Posh
