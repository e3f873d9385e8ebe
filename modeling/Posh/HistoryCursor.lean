/-
**The send cursor of the addressed scrollback stream.**

The server numbers the rows that scroll off the primary screen from the moment a viewport asked for
them, and sends them in bodies that name the number of their first row.  A body starts where the last
one ended, or, when the acknowledgement is overdue, at the rows acknowledged; it never starts below what
the ring still retains.  A resize of the session renumbers the ring under the cursor, which then goes on
at its count; a resize of the viewport, or a viewport that lost its count, opens another epoch.
-/

import Posh.ClientHistory

set_option autoImplicit false

namespace Posh

/-! ### The session's ring -/

/-- The primary screen's scrollback: the rows retained, oldest first, as they are dumped, and the count
of all rows that ever scrolled off. -/
structure PrimaryRing where
  rows : List Bytes
  total : ℕ
  deriving DecidableEq, Repr

namespace PrimaryRing

def len (g : PrimaryRing) : ℕ := g.rows.length

/-- The row at an index, oldest first; an index past the ring dumps nothing. -/
def dumpScrollbackRow (g : PrimaryRing) (i : ℕ) : Bytes := g.rows[i]?.getD []

/-- A row scrolls off the screen. -/
def push (g : PrimaryRing) (row : Bytes) : PrimaryRing where
  rows := g.rows ++ [row]
  total := g.total + 1

/-- The oldest rows leave the ring, as they do when it is full or cleared. -/
def evict (g : PrimaryRing) (n : ℕ) : PrimaryRing := { g with rows := g.rows.drop n }

/-- A resize renumbers the ring: it holds other rows, and what the new height pushed off was counted. -/
def renumber (g : PrimaryRing) (rows : List Bytes) (scrolled : ℕ) : PrimaryRing where
  rows
  total := g.total + scrolled

end PrimaryRing

/-! ### The cursor -/

def sb2RowsPerBody : ℕ := 256

/-- Where a cursor's row space starts. -/
inductive HistoryStart where
  /-- its own epoch: row 0 is the next row scrolled -/
  | fresh
  /-- the viewport's epoch: row `rows` is the next row scrolled -/
  | continued (epoch : UInt8) (rows : ℕ)
  deriving DecidableEq, Repr

/-- The send side of one viewport's history stream. -/
structure HistoryCursor where
  active : Bool
  epoch : UInt8
  /-- the total at which the row `anchorRel` begins -/
  anchorAbs : ℕ
  /-- the first row this cursor may offer -/
  anchorRel : ℕ
  ackedRows : ℕ
  sentUpto : ℕ
  /-- when the last body went out -/
  lastSend : ℕ
  /-- what a resend is timed from -/
  inFlightSince : ℕ
  /-- resends since the acknowledgement last advanced -/
  resends : ℕ
  size : ℕ × ℕ
  deriving DecidableEq, Repr

namespace HistoryCursor

/-- An inactive cursor for a viewport of `size`. -/
def new (size : ℕ × ℕ) : HistoryCursor where
  active := false
  epoch := 1
  anchorAbs := 0
  anchorRel := 0
  ackedRows := 0
  sentUpto := 0
  lastSend := 0
  inFlightSince := 0
  resends := 0
  size

/-- Opens the stream at the ring's `total`, unless it is open. -/
def activate (c : HistoryCursor) (start : HistoryStart) (total : ℕ) : HistoryCursor :=
  if c.active then c
  else
    let opened (c : HistoryCursor) (rows : ℕ) : HistoryCursor :=
      { c with
        active := true
        anchorAbs := total
        anchorRel := rows
        ackedRows := rows
        sentUpto := rows
        inFlightSince := 0 }
    match start with
    | .fresh => opened c 0
    | .continued epoch rows => opened { c with epoch } rows

/-- The epoch after `epoch`; 0 is what a viewport says that holds none. -/
def nextEpoch (epoch : UInt8) : UInt8 := if epoch + 1 = 0 then 1 else epoch + 1

theorem nextEpoch_ne (epoch : UInt8) : nextEpoch epoch ≠ epoch := by
  intro h
  unfold nextEpoch at h
  split at h
  case isTrue hwrap =>
    rw [← h] at hwrap
    exact absurd hwrap (by decide)
  case isFalse =>
    have hnat := congrArg UInt8.toNat h
    rw [UInt8.toNat_add] at hnat
    have hlt := epoch.toNat_lt
    simp at hnat
    omega

/-- Opens the next epoch at the ring's `total`. -/
def bumpEpoch (c : HistoryCursor) (total : ℕ) : HistoryCursor :=
  if c.active then
    { c with
      epoch := nextEpoch c.epoch
      anchorAbs := total
      anchorRel := 0
      ackedRows := 0
      sentUpto := 0
      inFlightSince := 0
      resends := 0 }
  else c

/-- A cumulative acknowledgement.  One of another epoch is ignored, and one that does not advance; but
0 rows after it had advanced come from a viewport that lost its count, and open a fresh epoch. -/
def onAck (c : HistoryCursor) (epoch : UInt8) (ackedRows now total : ℕ) : HistoryCursor :=
  if !c.active || epoch ≠ c.epoch then c
  else if ackedRows = 0 ∧ c.ackedRows > 0 then c.bumpEpoch total
  else if ackedRows ≤ c.ackedRows then c
  else { c with ackedRows, inFlightSince := now, resends := 0 }

/-- The entry of a viewport's message: the first one opens the stream, and each acknowledges. -/
def onClientEntry (c : HistoryCursor) (epoch : UInt8) (ackedRows total now : ℕ) : HistoryCursor :=
  (c.activate .fresh total).onAck epoch ackedRows now total

/-- The size a viewport reports; another one than before opens another epoch. -/
def onClientSize (c : HistoryCursor) (size : ℕ × ℕ) (total : ℕ) : HistoryCursor :=
  if size = c.size then c else { c with size }.bumpEpoch total

/-- The epoch, once the stream is open. -/
def currentEpoch (c : HistoryCursor) : Option UInt8 := if c.active then some c.epoch else none

/-- The rows of this epoch at the ring's `total`. -/
def avail (c : HistoryCursor) (total : ℕ) : ℕ := c.anchorRel + (total - c.anchorAbs)

/-- The ring was renumbered at `total`: the numbers go on at the count. -/
def reanchor (c : HistoryCursor) (total : ℕ) : HistoryCursor :=
  if c.active then
    { c with
      anchorAbs := total
      anchorRel := c.avail total
      resends := 0 }
  else c

/-- The rows sent and not acknowledged. -/
def inFlight (c : HistoryCursor) : ℕ := c.sentUpto - c.ackedRows

/-- Where a fresh body starts. -/
def nextFresh (c : HistoryCursor) : ℕ := max c.sentUpto c.ackedRows

/-- Rows are in flight for `rto`. -/
def resendDue (c : HistoryCursor) (now rto : ℕ) : Bool :=
  decide (c.inFlight > 0) && decide (now - c.inFlightSince ≥ rto)

/-- When the next body is due, with `window` rows allowed in flight. -/
def nextDue (c : HistoryCursor) (total rto window : ℕ) : Option ℕ :=
  if !c.active then none
  else if c.avail total > c.nextFresh ∧ c.inFlight < window then some c.lastSend
  else if c.inFlight > 0 then some (c.inFlightSince + rto)
  else none

/-- A body is owed at `now`. -/
def wants (c : HistoryCursor) (total now rto window : ℕ) : Bool :=
  (c.nextDue total rto window).any fun due => decide (now ≥ due)

/-- The row below which no body starts. -/
def floorRel (c : HistoryCursor) (g : PrimaryRing) : ℕ :=
  max c.anchorRel (c.avail g.total - min g.len (c.avail g.total))

/-- What a viewport needs to tell eviction from loss. -/
def extent (c : HistoryCursor) (g : PrimaryRing) : Option Scrollback2Extent :=
  if c.active then
    some { epoch := c.epoch, availRows := c.avail g.total, evictedUpto := c.floorRel g }
  else none

/-- The first row of the next body, and the most rows it may have. -/
def nextSpan (c : HistoryCursor) (g : PrimaryRing) (now rto window : ℕ) : ℕ × ℕ :=
  if c.resendDue now rto then (max c.ackedRows (c.floorRel g), sb2RowsPerBody)
  else (max c.nextFresh (c.floorRel g), min sb2RowsPerBody (window - c.inFlight))

/-- The rows of the next body. -/
def bodyCount (c : HistoryCursor) (g : PrimaryRing) (now rto window : ℕ) : ℕ :=
  min (c.avail g.total - (c.nextSpan g now rto window).1) (c.nextSpan g now rto window).2

/-- **The next body and its epoch**: rows from the cursor, or from the acknowledgement when a resend is
due. -/
def nextBody (c : HistoryCursor) (g : PrimaryRing) (now rto window : ℕ) :
    HistoryCursor × (UInt8 × ℕ × List Bytes) :=
  let resend := c.resendDue now rto
  let start := (c.nextSpan g now rto window).1
  let count := c.bodyCount g now rto window
  let rows := (List.range count).map fun k =>
    -- the newest row of the epoch is the newest row of the ring
    g.dumpScrollbackRow (g.len - (c.avail g.total - (start + k)))
  ({ c with
      inFlightSince := if resend || decide (c.inFlight = 0) then now else c.inFlightSince
      resends := if resend then c.resends + 1 else c.resends
      sentUpto := start + count
      lastSend := now }, c.epoch, start, rows)

/-! ### Where a row space begins -/

/-- The cursor's row space opens at `total` in the epoch `e`, its first row numbered `first`. -/
structure Opens (c : HistoryCursor) (e : UInt8) (first total : ℕ) : Prop where
  active : c.active = true
  epoch : c.epoch = e
  anchorAbs : c.anchorAbs = total
  anchorRel : c.anchorRel = first
  ackedRows : c.ackedRows = first
  sentUpto : c.sentUpto = first

theorem opens_activate_fresh (size : ℕ × ℕ) (total : ℕ) :
    ((new size).activate .fresh total).Opens 1 0 total := ⟨rfl, rfl, rfl, rfl, rfl, rfl⟩

/-! ### What a body holds -/

variable {c : HistoryCursor} {g : PrimaryRing} {now rto window : ℕ}

theorem floorRel_le_nextSpan : c.floorRel g ≤ (c.nextSpan g now rto window).1 := by
  unfold nextSpan
  split
  case isTrue => exact Nat.le_max_right _ _
  case isFalse => exact Nat.le_max_right _ _

theorem anchorRel_le_floorRel : c.anchorRel ≤ c.floorRel g := Nat.le_max_left _ _

theorem floorRel_le_avail : c.floorRel g ≤ c.avail g.total := by
  rw [floorRel, avail]
  omega

theorem avail_sub_le_len {r : ℕ} (hr : c.floorRel g ≤ r) : c.avail g.total - r ≤ g.len := by
  rw [floorRel] at hr
  omega

theorem length_nextBody : (c.nextBody g now rto window).2.2.2.length = c.bodyCount g now rto window := by
  simp [nextBody]

/-- **Every row of a body is the ring's row of that number.** -/
theorem nextBody_row {k : ℕ} {row : Bytes} (h : (c.nextBody g now rto window).2.2.2[k]? = some row) :
    (c.nextSpan g now rto window).1 + k < c.avail g.total ∧ row = g.dumpScrollbackRow
        (g.len - (c.avail g.total - ((c.nextSpan g now rto window).1 + k))) := by
  obtain ⟨hk, hrow⟩ := List.getElem?_eq_some_iff.1 h
  rw [length_nextBody] at hk
  constructor
  · rw [bodyCount] at hk
    omega
  · simpa [nextBody] using hrow.symm

theorem nextSpan_le_avail (hsent : c.sentUpto ≤ c.avail g.total)
    (hacked : c.ackedRows ≤ c.avail g.total) : (c.nextSpan g now rto window).1 ≤ c.avail g.total := by
  have hfloor : c.floorRel g ≤ c.avail g.total := floorRel_le_avail
  unfold nextSpan
  split
  case isTrue => exact Nat.max_le.2 ⟨hacked, hfloor⟩
  case isFalse => exact Nat.max_le.2 ⟨Nat.max_le.2 ⟨hsent, hacked⟩, hfloor⟩

end HistoryCursor

end Posh
