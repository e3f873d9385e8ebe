/-
**A viewport of a session.**

A viewport is sent visible frames of a terminal: the session's, or that of the shell that is open over it.  One
that is paced is not sent a frame for every read of the terminal; it is marked, and its frame is built when there
is an opportunity to send it.  Whatever asks for a frame asks in one place.
-/

import Posh.HistoryWire
import Posh.Regeometry
import Posh.Render.Snapshot

set_option autoImplicit false

namespace Posh

open Term (Terminal GraphicsStore)
open Term.Render (Snapshot)

variable {τ σ γ : Type}

/-! ### What a terminal is to a viewport -/

/-- What the growth of the scrollback depends on. -/
def Term.Terminal.sessionTerm (t : Terminal γ) : SessionTerm where
  altScreen := t.altActive
  sbTotal := t.primaryRing.total
  ring := t.primaryRing.rows

/-! ### The rest of pacing -/

/-- The round trips of paced frames, as far as their acknowledgements were timed. -/
structure AckLatency where
  /-- when the newest acknowledgement arrived, whether it said something new or not -/
  lastAckAt : Option ℕ := none
  lastMs : Option ℕ := none
  srttMs : Option ℕ := none
  minMs : Option ℕ := none
  maxMs : ℕ := 0
  samples : ℕ := 0
  deriving DecidableEq, Repr

/-- A sample; the smoothed time moves by an eighth of it. -/
def AckLatency.record (a : AckLatency) (ms : ℕ) : AckLatency :=
  { a with
    lastMs := some ms
    srttMs := some (a.srttMs.elim ms fun s => (7 * s + ms) / 8)
    minMs := some (a.minMs.elim ms fun m => min m ms)
    maxMs := max a.maxMs ms
    samples := a.samples + 1 }

/-- What pacing keeps besides `Pacing`, while the viewport is paced. -/
structure PacedSend where
  /-- a visible frame is owed -/
  dirty : Bool := false
  acks : AckLatency := {}
  /-- the viewport asked for the extent of its history -/
  wantsExtent : Bool := false
  /-- the newest body was a visible frame -/
  lastWasScreen : Bool := false
  deriving DecidableEq, Repr

structure ViewConn (σ : Type) extends SizedConn σ where
  /-- its attachment was applied -/
  initApplied : Bool := false
  paced : PacedSend := {}

def capPaced : UInt8 := 23

/-- The version in the entry of a viewport that is paced. -/
def decodePaced (payload : Bytes) : Option UInt8 := payload.head?.filter (· != 0)

/-- The version in the entry of a viewport that asks for the extent of its history. -/
def decodeScrollback2ExtentRequest (payload : Bytes) : Option UInt8 := payload.head?.filter (· != 0)

/-- The epoch and the count of rows in a viewport's entry of the history. -/
def decodeScrollback2Client (payload : Bytes) : Option (UInt8 × ℕ) :=
  if payload.length = 10 then some (payload.getD 1 0, WordBytes.ofLe (payload.drop 2)) else none

namespace ViewConn

def isPaced (c : ViewConn σ) : Bool := c.pacing.isSome && c.producer.isSome

/-- Framed, and not paced: a visible frame is built for every read. -/
def takesPerReadFrames (c : ViewConn σ) : Bool := c.producer.isSome && !c.isPaced

/-- The viewport's cursor in the history. -/
def history (c : ViewConn σ) : Option HistoryCursor := c.pacing.bind Pacing.history

/-- What happens to the cursor. -/
def mapHistory (c : ViewConn σ) (f : HistoryCursor → HistoryCursor) : ViewConn σ :=
  { c with pacing := c.pacing.map fun p => { p with history := p.history.map f } }

/-! ### Frames of a terminal -/

/-- **A visible frame of a terminal**, for the size of the viewport. -/
def buildFrameFrom [GraphicsStore γ] (D : Display τ Snapshot) (c : ViewConn Snapshot) (src : Terminal γ) :
    Bool × ViewConn Snapshot :=
  let queued := c.toSizedConn.queueDump D (src.dumpVtMirror c.rows c.cols) (.fromTerm src) src.altActive
    (src.rows, src.cols)
  (queued.1, { c with toSizedConn := queued.2 })

/-- The rows that entered the scrollback are queued, if the viewport is due some. -/
def maybeQueueScrollback (c : ViewConn σ) (src : Terminal γ) : ViewConn σ :=
  { c with toClientConn := (c.toClientConn.maybeQueueScrollback src.sessionTerm).2 }

/-- A paced viewport is marked; any other is sent its frame by the caller. -/
def owePacedFrame (c : ViewConn σ) : Bool × ViewConn σ :=
  if c.isPaced then (true, { c with paced := { c.paced with dirty := true } }) else (false, c)

/-- **A frame of a terminal is owed**: a paced viewport is marked, a framed one is sent it. -/
def requestFrameFrom [GraphicsStore γ] (D : Display τ Snapshot) (c : ViewConn Snapshot) (src : Terminal γ) :
    Bool × ViewConn Snapshot :=
  let owed := c.owePacedFrame
  if owed.1 then owed
  else if owed.2.producer.isSome then owed.2.buildFrameFrom D src
  else (false, owed.2)

/-! ### What the viewport says -/

/-- The viewport's count of rows acknowledges. -/
def noteHistoryAck (c : ViewConn σ) (table : List Cap) (now total : ℕ) : ViewConn σ :=
  match (findCap table capScrollback2).bind fun cap => decodeScrollback2Client cap.payload with
  | some (epoch, rows) => c.mapHistory fun h => h.onAck epoch rows now total
  | none => c

/-- A table of the viewport: what it asks for is remembered. -/
def absorbClientCaps (c : ViewConn σ) (table : List Cap) (now total : ℕ) : ViewConn σ :=
  { c with toClientConn := c.toClientConn.absorbClientCaps table }.noteHistoryAck table now total

/-- The table of an attachment begins, keeps or ends pacing. -/
def notePaced (c : ViewConn σ) (table : List Cap) : ViewConn σ :=
  let wanted := ((findCap table capPaced).bind fun cap => decodePaced cap.payload).isSome
  { c with
    pacing := if wanted then some (c.pacing.getD {}) else none
    paced := if wanted && c.pacing.isSome then c.paced else {} }

/-- An attachment with its table, if it has one that can be read, at the session's total. -/
def applyInit (D : Display τ σ) (c : ViewConn σ) (table : Option (List Cap)) (rows cols now total : ℕ) :
    ViewConn σ :=
  let c := { c with toSizedConn := c.toSizedConn.applyResize rows cols, initApplied := true }
  match table with
  | some table =>
    let c := (c.notePaced table).noteHistoryAck table now total
    { c with toClientConn := c.toClientConn.applyInit D table rows cols }
  | none => c

/-- The extent of the history, as far as the viewport asked for it. -/
def refreshHistoryExtent (c : ViewConn σ) (ring : PrimaryRing) : ViewConn σ :=
  { c with
    pacing := c.pacing.map fun p =>
      { p with extent := (p.history.bind fun h => h.extent ring).filter fun _ => c.paced.wantsExtent } }

/-- A paced viewport that keeps a history gets its cursor, once: it goes on with the epoch the viewport holds. -/
def openHistory (c : ViewConn σ) (ring : PrimaryRing) : ViewConn σ :=
  match c.producer, c.pacing, (findCap c.caps capScrollback2).bind fun cap => decodeScrollback2Client cap.payload with
  | some _, some p, some (epoch, rows) =>
    if p.history.isSome then c
    else
      let start : HistoryStart := if epoch = 0 then .fresh else .continued epoch rows
      let cursor := (HistoryCursor.new (c.rows, c.cols)).activate start ring.total
      let wants := ((findCap c.caps capScrollback2Extent).bind fun cap =>
        decodeScrollback2ExtentRequest cap.payload).isSome
      { c with
        pacing := some { p with history := some cursor }
        paced := { c.paced with wantsExtent := wants } }.refreshHistoryExtent ring
  | _, _, _ => c

/-- **An attachment**: the table is applied, and a viewport that is framed now is sent only the rows that come. -/
def attach (D : Display τ σ) (c : ViewConn σ) (table : Option (List Cap)) (rows cols now : ℕ)
    (ring : PrimaryRing) : ViewConn σ :=
  let framedBefore := c.producer.isSome
  let c := c.applyInit D table rows cols now ring.total
  let c := if !framedBefore && c.producer.isSome then { c with sbFloor := ring.total } else c
  c.openHistory ring

end ViewConn

end Posh
