/-
**The client's scrollback history.**

The client accumulates the rows that scroll off the session's primary screen in a bounded ring.  Two
wire formats feed it: growth bodies anchored to a frame number, appended as they come, and bodies
addressed by an absolute row offset in an epoch's row space, which may arrive past a gap and are then
held until the gap is filled or known to be lost.  Rows the server will never send leave holes.
-/

import Posh.InputStream

set_option autoImplicit false

namespace Posh

/-! ### The ring -/

/-- The client's partial, growing view of the session's scrollback. -/
structure ScrollbackRing where
  /-- the rows held, oldest first -/
  rows : List Bytes
  capacity : ℕ
  /-- rows ever appended: the number the next row gets -/
  appended : ℕ
  /-- `(before, lines)`, oldest first: `lines` rows are missing before row number `before` -/
  holes : List (ℕ × ℕ)
  holesAdded : ℕ
  linesNotReceived : ℕ
  deriving DecidableEq, Repr

namespace ScrollbackRing

def new (capacity : ℕ) : ScrollbackRing where
  rows := []
  capacity := max capacity 1
  appended := 0
  holes := []
  holesAdded := 0
  linesNotReceived := 0

/-- The number of the oldest row held. -/
def firstNumber (r : ScrollbackRing) : ℕ := r.appended - r.rows.length

/-- One row at the bottom, the oldest evicted when the ring is full. -/
def appendRow (r : ScrollbackRing) (row : Bytes) : ScrollbackRing :=
  { r with
    rows := (if r.rows.length ≥ r.capacity then r.rows.drop 1 else r.rows) ++ [row]
    appended := r.appended + 1 }

/-- Rows at the bottom; a hole goes with the row after it. -/
def append (r : ScrollbackRing) (rows : List Bytes) : ScrollbackRing :=
  let r := rows.foldl appendRow r
  { r with holes := r.holes.dropWhile fun h => decide (h.1 < r.firstNumber) }

/-- `lines` rows the server will never send, at the tail; a mark at the same position as the last
one merges into it. -/
def markNotReceived (r : ScrollbackRing) (lines : ℕ) : ScrollbackRing :=
  if lines = 0 then r
  else
    let r := { r with linesNotReceived := r.linesNotReceived + lines }
    match r.holes.getLast? with
    | some (before, merged) =>
      if before = r.appended then
        { r with holes := r.holes.dropLast ++ [(before, merged + lines)] }
      else { r with holes := r.holes ++ [(r.appended, lines)], holesAdded := r.holesAdded + 1 }
    | none => { r with holes := r.holes ++ [(r.appended, lines)], holesAdded := r.holesAdded + 1 }

/-- Drops every row and hole; the counters go on. -/
def clear (r : ScrollbackRing) : ScrollbackRing := { r with rows := [], holes := [] }

def viewTotal (r : ScrollbackRing) : ℕ := r.appended + r.holesAdded

def viewLen (r : ScrollbackRing) : ℕ := r.rows.length + r.holes.length

/-- The ring is within its capacity, and holds only rows it was given. -/
structure WF (r : ScrollbackRing) : Prop where
  capacity_pos : 0 < r.capacity
  length_le : r.rows.length ≤ r.capacity
  length_le_appended : r.rows.length ≤ r.appended

theorem wf_new (capacity : ℕ) : (new capacity).WF :=
  ⟨Nat.lt_of_lt_of_le Nat.one_pos (Nat.le_max_right _ _), Nat.zero_le _, Nat.zero_le _⟩

theorem wf_appendRow {r : ScrollbackRing} (h : r.WF) (row : Bytes) : (r.appendRow row).WF := by
  obtain ⟨hpos, hcap, happ⟩ := h
  refine ⟨hpos, ?_, ?_⟩ <;>
  · simp only [appendRow]
    split <;> simp only [List.length_append, List.length_drop, List.length_singleton] <;> omega

theorem wf_append {r : ScrollbackRing} (h : r.WF) (rows : List Bytes) : (r.append rows).WF := by
  have key : (rows.foldl appendRow r).WF := by
    induction rows generalizing r with
    | nil => exact h
    | cons row rows ih => exact ih (wf_appendRow h row)
  exact ⟨key.1, key.2, key.3⟩

end ScrollbackRing

/-! ### Bodies past a gap -/

/-- The most rows held past a gap: four full bodies. -/
def sb2HeldMaxRows : ℕ := 4 * 256

/-- The bodies held past a gap, in the order of their row offsets. -/
structure HeldRows where
  bodies : List (ℕ × List Bytes) := []
  rows : ℕ := 0
  deriving DecidableEq, Repr

namespace HeldRows

/-- Puts a body at its place in the order of offsets, replacing one at the same offset. -/
def insertBody (off : ℕ) (rows : List Bytes) : List (ℕ × List Bytes) → List (ℕ × List Bytes)
  | [] => [(off, rows)]
  | (o, r) :: bs =>
    if off < o then (off, rows) :: (o, r) :: bs
    else if off = o then (off, rows) :: bs
    else (o, r) :: insertBody off rows bs

/-- Holds a body, unless one at least as long is held at its offset or the bound would be passed. -/
def hold (h : HeldRows) (rowOffset : ℕ) (rows : List Bytes) : Bool × HeldRows :=
  let existing := ((h.bodies.find? fun b => b.1 == rowOffset).map fun b => b.2.length).getD 0
  if rows.length ≤ existing then (true, h)
  else
    let total := h.rows - existing + rows.length
    if total > sb2HeldMaxRows then (false, h)
    else (true, { bodies := insertBody rowOffset rows h.bodies, rows := total })

/-- The lowest held offset. -/
def firstOffset (h : HeldRows) : Option ℕ := h.bodies.head?.map Prod.fst

/-- Takes out the first held body, if it starts at or below `t`. -/
def takeReachable (h : HeldRows) (t : ℕ) : Option (ℕ × List Bytes × HeldRows) :=
  match h.bodies with
  | [] => none
  | (off, rows) :: bs =>
    if off ≤ t then some (off, rows, { bodies := bs, rows := h.rows - rows.length }) else none

end HeldRows

/-- How much of the epoch's row space the server has, and below which row it will never send. -/
structure Scrollback2Extent where
  epoch : UInt8
  availRows : ℕ
  evictedUpto : ℕ
  deriving DecidableEq, Repr

/-- A later extent of the same epoch folded in: either field only grows. -/
def Scrollback2Extent.merge (x newer : Scrollback2Extent) : Scrollback2Extent :=
  { x with
    availRows := max x.availRows newer.availRows
    evictedUpto := max x.evictedUpto newer.evictedUpto }

/-- What a frame says of the history: the epoch the server is in, its extent, and a body of the
offset-addressed stream. -/
structure HistoryFrame where
  epochAck : Option UInt8
  extent : Option Scrollback2Extent
  body : Option (UInt8 × ℕ × List Bytes)
  deriving DecidableEq, Repr

/-! ### The history and the window on it -/

/-- The ring, the scroll offset, and the state of the offset-addressed stream. -/
structure HistoryView where
  scrollback : ScrollbackRing
  /-- how far the window is scrolled back; 0 is the live screen -/
  scrollOffset : ℕ := 0
  sb2Epoch : Option UInt8 := none
  /-- rows of the epoch that are held or known to be lost -/
  sb2Rows : ℕ := 0
  sb2Extent : Option Scrollback2Extent := none
  sb2Held : HeldRows := {}
  deriving DecidableEq, Repr

namespace HistoryView

/-- Rows the server holds that have not arrived. -/
def historyArriving (v : HistoryView) : ℕ := (v.sb2Extent.map fun x => x.availRows - v.sb2Rows).getD 0

/-- The rows the window can show: those of the ring, the holes and the arriving row. -/
def historyViewLen (v : HistoryView) : ℕ :=
  v.scrollback.viewLen + if v.historyArriving > 0 then 1 else 0

def setScroll (v : HistoryView) (offset : ℕ) : HistoryView :=
  { v with scrollOffset := min offset v.historyViewLen }

/-- Where the history's tail stands. -/
def historyMark (v : HistoryView) : ℕ :=
  v.scrollback.viewTotal + if v.historyArriving > 0 then 1 else 0

/-- Keeps a scrolled window on the rows it shows. -/
def keepHistoryAnchor (v : HistoryView) (mark : ℕ) : HistoryView :=
  let delta : ℤ := (v.historyMark : ℤ) - mark
  if v.scrollOffset > 0 ∧ delta ≠ 0 then v.setScroll (max ((v.scrollOffset : ℤ) + delta) 1).toNat
  else v

/-- Growth at the bottom, the scrolled window kept on its rows. -/
def appendGrowth (v : HistoryView) (rows : List Bytes) : HistoryView :=
  let v := { v with scrollback := v.scrollback.append rows }
  if v.scrollOffset > 0 then v.setScroll (v.scrollOffset + rows.length) else v

/-- The part of a body past the rows already accounted for is appended, and they advance to its
end. -/
def claimScrollback2Tail (v : HistoryView) (rowOffset : ℕ) (rows : List Bytes) : HistoryView :=
  let upto := rowOffset + rows.length
  if upto ≤ v.sb2Rows then v
  else
    { v with
      scrollback := v.scrollback.append (rows.drop (v.sb2Rows - rowOffset))
      sb2Rows := upto }

/-- Up to where a gap can no longer be filled. -/
def goneTo (v : HistoryView) : ℕ :=
  let floor := (v.sb2Extent.map Scrollback2Extent.evictedUpto).getD 0
  (v.sb2Held.firstOffset.map fun o => min o floor).getD floor

/-- The rows up to `n` are lost. -/
def markGone (v : HistoryView) (n : ℕ) : HistoryView :=
  { v with scrollback := v.scrollback.markNotReceived (n - v.sb2Rows), sb2Rows := n }

/-- The settling loop, for at most `fuel` rounds. -/
def settleFuel : ℕ → HistoryView → HistoryView
  | 0, v => v
  | fuel + 1, v =>
    match v.sb2Held.takeReachable v.sb2Rows with
    | some (off, rows, held) =>
      settleFuel fuel ({ v with sb2Held := held }.claimScrollback2Tail off rows)
    | none => if v.goneTo ≤ v.sb2Rows then v else settleFuel fuel (v.markGone v.goneTo)

/-- Advances over what is held and over what can no longer arrive. -/
def settleHistory (v : HistoryView) : HistoryView := settleFuel (2 * v.sb2Held.bodies.length + 2) v

/-- A body of the current epoch that is not fully covered. -/
def applyScrollback2Rows (v : HistoryView) (rowOffset : ℕ) (rows : List Bytes) : HistoryView :=
  settleHistory <| if rowOffset > v.sb2Rows ∧ v.sb2Extent.isSome then
      { v with sb2Held := (v.sb2Held.hold rowOffset rows).2 }
    else
      (if rowOffset > v.sb2Rows then v.markGone rowOffset else v).claimScrollback2Tail rowOffset rows

/-- A body of the offset-addressed stream: dropped when it is of another epoch or fully covered. -/
def applyScrollback2 (v : HistoryView) (epoch : UInt8) (rowOffset : ℕ) (rows : List Bytes) :
    HistoryView :=
  if v.sb2Epoch ≠ some epoch then v
  else if rowOffset + rows.length ≤ v.sb2Rows then v
  else (v.applyScrollback2Rows rowOffset rows).keepHistoryAnchor v.historyMark

/-- Opens a new row space: `epoch` taken from the server, or `none` while one is awaited.  The rows, the
window, the count, the extent and the held bodies belong to the old row space. -/
def clearV2RowSpace (v : HistoryView) (epoch : Option UInt8) : HistoryView where
  scrollback := v.scrollback.clear
  sb2Epoch := epoch

/-- The server's epoch: a change opens a fresh row space. -/
def adoptEpoch (v : HistoryView) (epoch : UInt8) : HistoryView :=
  if v.sb2Epoch ≠ some epoch then v.clearV2RowSpace (some epoch) else v

/-- The server's extent, taken only for the epoch held and only forward; a floor past the rows
accounted for settles the gap. -/
def adoptExtent (v : HistoryView) (x : Scrollback2Extent) : HistoryView :=
  if v.sb2Epoch = some x.epoch then
    { v with sb2Extent := some ((v.sb2Extent.getD x).merge x) }.settleHistory.keepHistoryAnchor
      v.historyMark
  else v

/-- The history half of a frame: the epoch, then the extent, then the body. -/
def processFrame (v : HistoryView) (f : HistoryFrame) : HistoryView :=
  let v := (f.epochAck.map v.adoptEpoch).getD v
  let v := (f.extent.map v.adoptExtent).getD v
  match f.body with
  | some (epoch, rowOffset, rows) => v.applyScrollback2 epoch rowOffset rows
  | none => v

/-! ### The settling loop ends -/

/-- Nothing held is reachable, and no gap below the floor is left. -/
def Settled (v : HistoryView) : Prop :=
  v.sb2Held.takeReachable v.sb2Rows = none ∧ v.goneTo ≤ v.sb2Rows

/-- The rounds still to come: two for each held body, and one for a gap. -/
def rounds (v : HistoryView) : ℕ :=
  2 * v.sb2Held.bodies.length + if v.goneTo ≤ v.sb2Rows then 0 else 1

theorem takeReachable_length {h held : HeldRows} {t off : ℕ} {rows : List Bytes}
    (heq : h.takeReachable t = some (off, rows, held)) : h.bodies.length = held.bodies.length + 1 := by
  unfold HeldRows.takeReachable at heq
  split at heq
  · cases heq
  · split at heq
    · simp only [Option.some.injEq, Prod.mk.injEq] at heq
      obtain ⟨-, -, rfl⟩ := heq
      rename_i hb _
      rw [hb, List.length_cons]
    · cases heq

@[simp] theorem claimScrollback2Tail_held (v : HistoryView) (off : ℕ) (rows : List Bytes) :
    (v.claimScrollback2Tail off rows).sb2Held = v.sb2Held := by
  unfold claimScrollback2Tail
  simp only
  split <;> rfl

theorem settled_settleFuel (fuel : ℕ) : ∀ v : HistoryView, rounds v < fuel → Settled (settleFuel fuel v) := by
  induction fuel with
  | zero => intro v h; omega
  | succ fuel ih =>
    intro v h
    rw [settleFuel]
    cases ht : v.sb2Held.takeReachable v.sb2Rows with
    | some r =>
      obtain ⟨off, rows, held⟩ := r
      refine ih _ ?_
      have hlen := takeReachable_length ht
      have hle : rounds ({ v with sb2Held := held }.claimScrollback2Tail off rows) ≤
          2 * held.bodies.length + 1 := by
        rw [rounds, claimScrollback2Tail_held]
        split <;> simp only <;> omega
      have hv : 2 * v.sb2Held.bodies.length ≤ rounds v := Nat.le_add_right _ _
      omega
    | none =>
      simp only
      split
      case isTrue hgone => exact ⟨ht, hgone⟩
      case isFalse hgap =>
          refine ih _ ?_
          have hsame : (v.markGone v.goneTo).goneTo = v.goneTo := rfl
          have hrows : (v.markGone v.goneTo).sb2Rows = v.goneTo := rfl
          rw [rounds, if_neg hgap] at h
          rw [rounds, hsame, hrows, if_pos (Nat.le_refl _)]
          show 2 * v.sb2Held.bodies.length + 0 < fuel
          omega

/-- **The settling loop runs to its end.** -/
theorem settled_settleHistory (v : HistoryView) : Settled (settleHistory v) := by
  refine settled_settleFuel _ v ?_
  rw [rounds]
  split <;> omega

end HistoryView

end Posh
