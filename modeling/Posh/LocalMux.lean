/-
**The sessions and references of the local mux.**

The local mux keeps one transport to a host and shares it among the invocations on this machine, each of which
has a connection to it.  A connection holds at most one reference, which keeps the mux alive and the agent
served, and at most one session, which has a channel of its own on the transport.  When the last reference is
dropped, the mux lingers for a while.

A session is opened by its connection, and ends on any of four ways: its connection closes it, its connection
is gone, the peer closes it, or the peer never answered.  Every one of them takes the session off the
connection, its channel off the routes, and drops the reference.  When the transport is given up, the sessions
stay, and the routes are built anew.
-/

import Posh.AgentMux
import Posh.FrameWire
import Posh.Lib.Registry
import Posh.MuxPair

set_option autoImplicit false

namespace Posh

open List (map_map mem_cons mem_map_of_mem)

/-! ### References and lingering -/

def defaultLingerMs : ℕ := 60000

/-- A mux waits at least so long for its first reference. -/
def spawnGraceMs : ℕ := 5000

/-- The references held, and when the mux is to end. -/
structure MuxState where
  refs : ℕ := 0
  lingerMs : ℕ
  lingerDeadline : Option ℕ
  deriving DecidableEq, Repr

namespace MuxState

def new (lingerMs now : ℕ) : MuxState where
  lingerMs
  lingerDeadline := some (now + max lingerMs spawnGraceMs)

def addRef (s : MuxState) : MuxState := { s with refs := s.refs + 1, lingerDeadline := none }

def unref (s : MuxState) (now : ℕ) : MuxState :=
  let refs := s.refs - 1
  { s with
    refs
    lingerDeadline := if refs = 0 then some (now + s.lingerMs) else s.lingerDeadline }

def serviceable (s : MuxState) : Bool := decide (s.refs > 0)

def lingering (s : MuxState) : Bool := s.lingerDeadline.isSome

def shouldExit (s : MuxState) (now : ℕ) : Bool := s.lingerDeadline.any fun d => decide (now ≥ d)

/-- The timer runs exactly without references. -/
def Timed (s : MuxState) : Prop := s.lingering = true ↔ s.refs = 0

theorem timed_addRef (s : MuxState) : s.addRef.Timed := by
  simp [Timed, addRef, lingering]

theorem Timed.unref {s : MuxState} (h : s.Timed) (now : ℕ) : (s.unref now).Timed := by
  simp only [Timed, MuxState.unref, lingering] at *
  split
  case isTrue hzero => simp [hzero]
  case isFalse hsome => exact h.trans (by omega)

end MuxState

/-! ### What is sent between the mux and a connection -/

inductive MuxConnState where
  | bootstrapping
  | connected
  | draining
  | reconnecting
  deriving DecidableEq, Repr

inductive MuxTag where
  | hello
  | helloAck
  | sessionRef
  | status
  | statusReply
  | refAck
  | sessionOpen
  | sessionOpenAck
  | sessionMsg
  | sessionFrame
  | sessionClose
  | sessionSwitched
  deriving DecidableEq, Repr

/-- A frame read from a connection. -/
structure MuxFrame where
  tag : MuxTag
  payload : Bytes
  deriving DecidableEq, Repr

def muxProtoStamp : Bytes := "mux2/1".toUTF8.toList

structure MuxHello where
  pid : ℕ
  stamp : Bytes
  deriving DecidableEq, Repr

def MuxHello.decode (payload : Bytes) : Option MuxHello :=
  if payload.length < 4 then none
  else some { pid := WordBytes.ofLe (payload.take 4), stamp := payload.drop 4 }

/-- The exit path's bytes in the payload of a close. -/
def decodeSessionClose (payload : Bytes) : Option Bytes :=
  match payload with
  | [] => none
  | origin :: rest => if origin = 0 ∨ origin = 1 then some rest else none

/-- What a connection is told. -/
inductive MuxReply where
  | helloAck (state : MuxConnState)
  | refAck
  | statusReply (refs : ℕ) (lingering : Bool)
  | openGranted (ordinal : ℕ)
  | openRefused (reason : String)
  | frame (srtt : ℕ) (body : Bytes)
  | switched (target : Bytes)
  | closed (payload : Bytes)
  deriving DecidableEq, Repr

/-- What a connection asks of its session. -/
inductive MuxSessionVerb where
  | open_ (target : Bytes)
  | msg (bytes : Bytes)
  | close (payload : Bytes)
  deriving DecidableEq, Repr

/-! ### The mux -/

def kindSession : ℕ := 0

def ChannelId.kind (c : ChannelId) : ℕ := (c.raw >>> 1) &&& 0x7f

def sessionChannel : ChannelId := .new false kindSession 1

def sessionWireData : UInt8 := 0

def sessionWireOpen : UInt8 := 1

def sessionWireClose : UInt8 := 2

def sessionWireSwitch : UInt8 := 3

def maxLocalSessionChannels : ℕ := 16

namespace LocalMux

structure IpcSession where
  chan : ChannelId
  /-- the session the next OPEN names -/
  target : Bytes
  /-- the peer was heard on the channel -/
  confirmed : Bool := false
  /-- messages that wait for the confirmation -/
  queued : List Bytes := []
  openSends : ℕ := 0
  lastOpenSend : Option ℕ := none
  resume : SessionResume := .initial
  deriving DecidableEq, Repr

/-- A CLOSE that is owed to the peer. -/
structure PendingClose where
  chan : ChannelId
  payload : Bytes
  sends : ℕ := 0
  lastSend : Option ℕ := none
  deriving DecidableEq, Repr

/-- A connection of an invocation on this machine. -/
structure IpcConn where
  connId : ℕ
  helloOk : Bool := false
  holdsRef : Bool := false
  session : Option IpcSession := none
  peerPid : Option ℕ := none
  deriving DecidableEq, Repr

/-- The channel a connection owns. -/
def IpcConn.chan (c : IpcConn) : Option ChannelId := c.session.map (·.chan)

end LocalMux

open LocalMux in
/-- The local mux, with what it told its connections and sent on the transport. -/
structure LocalMux where
  state : MuxState
  conns : List IpcConn := []
  alloc : ChannelAllocator
  /-- the connection a channel belongs to -/
  routes : ChannelId → Option ℕ := fun _ => none
  pendingCloses : List PendingClose := []
  nextConnId : ℕ := 1
  connState : MuxConnState := .connected
  /-- the transport was given up, and the next one is not there yet -/
  reconnecting : Bool := false
  told : List (ℕ × MuxReply) := []
  wire : List (ChannelId × UInt8 × Bytes) := []
  /-- how often the agent's channels were closed because the last reference was dropped -/
  agentsClosed : ℕ := 0

namespace LocalMux

/-- The first ordinal is the heartbeat's. -/
def new (lingerMs now : ℕ) : LocalMux where
  state := .new lingerMs now
  alloc := (ChannelAllocator.next { role := .client } kindSession).2

def conn (s : LocalMux) (id : ℕ) : Option IpcConn := Keyed.lookup IpcConn.connId s.conns id

/-- A connection is now `c`. -/
def put (s : LocalMux) (c : IpcConn) : LocalMux :=
  { s with conns := Keyed.updateFirst (fun d => d.connId == c.connId) (fun _ => c) s.conns }

def tell (s : LocalMux) (id : ℕ) (reply : MuxReply) : LocalMux := { s with told := s.told ++ [(id, reply)] }

def sendSessionWire (s : LocalMux) (chan : ChannelId) (kind : UInt8) (body : Bytes) : LocalMux :=
  { s with wire := s.wire ++ [(chan, kind, body)] }

def accept (s : LocalMux) : LocalMux :=
  { s with
    conns := s.conns ++ [{ connId := s.nextConnId }]
    nextConnId := s.nextConnId + 1 }

/-- A reference is dropped; with the last one the agent's channels are closed. -/
def unref (s : LocalMux) (now : ℕ) : LocalMux :=
  let state := s.state.unref now
  { s with
    state
    agentsClosed :=
      if s.state.serviceable && !state.serviceable then s.agentsClosed + 1 else s.agentsClosed }

/-- A connection drops the reference it holds. -/
def dropRef (s : LocalMux) (c : IpcConn) (now : ℕ) : LocalMux :=
  if c.holdsRef then (s.put { c with holdsRef := false }).unref now else s

/-- A session ends: it is taken off its connection and its channel off the routes, and the reference is
dropped. -/
def endSession (s : LocalMux) (c : IpcConn) (chan : ChannelId) (now : ℕ) : LocalMux :=
  let c' := { c with session := none }
  ({ s.put c' with routes := Function.update s.routes chan none }).dropRef c' now

/-- A CLOSE is owed to the peer. -/
def owe (s : LocalMux) (chan : ChannelId) (payload : Bytes) : LocalMux :=
  { s with pendingCloses := s.pendingCloses ++ [{ chan, payload }] }

/-! ### A connection is read -/

/-- A connection while its frames are processed. -/
structure IpcProgress where
  conn : IpcConn
  state : MuxState
  verbs : List MuxSessionVerb := []
  told : List (ℕ × MuxReply) := []

def IpcProgress.reply (p : IpcProgress) (r : MuxReply) : IpcProgress :=
  { p with told := p.told ++ [(p.conn.connId, r)] }

/-- A frame of a connection; `wrote` says whether the answer could be written, and the result whether the
connection stays open. -/
def processFrame (connState : MuxConnState) (p : IpcProgress) (frame : MuxFrame) (wrote : Bool) :
    Bool × IpcProgress :=
  match frame.tag with
  | .hello =>
    match MuxHello.decode frame.payload with
    | none => (false, p)
    | some hello =>
      let p := p.reply (.helloAck connState)
      if !wrote then (false, p)
      else if hello.stamp ≠ muxProtoStamp then (false, p)
      else (true, { p with conn := { p.conn with helloOk := true, peerPid := some hello.pid } })
  | .sessionRef =>
    if !p.conn.helloOk then (false, p)
    else
      let p :=
        if !p.conn.holdsRef then
          { p with conn := { p.conn with holdsRef := true }, state := p.state.addRef }
        else p
      (wrote, p.reply .refAck)
  | .status =>
    if !p.conn.helloOk then (false, p)
    else (wrote, p.reply (.statusReply p.state.refs p.state.lingering))
  | .sessionOpen =>
    if !p.conn.helloOk then (false, p)
    else (true, { p with verbs := p.verbs ++ [.open_ frame.payload] })
  | .sessionMsg =>
    if !p.conn.helloOk then (false, p)
    else (true, { p with verbs := p.verbs ++ [.msg frame.payload] })
  | .sessionClose =>
    if !p.conn.helloOk then (false, p)
    else
      (true, { p with verbs := p.verbs ++ [.close ((decodeSessionClose frame.payload).getD [])] })
  | .helloAck | .statusReply | .refAck | .sessionOpenAck | .sessionFrame | .sessionSwitched => (true, p)

def processFrames (connState : MuxConnState) : IpcProgress → List (MuxFrame × Bool) → Bool × IpcProgress
  | p, [] => (true, p)
  | p, (frame, wrote) :: rest =>
    match processFrame connState p frame wrote with
    | (true, p) => processFrames connState p rest
    | (false, p) => (false, p)

/-- Everything read from a connection; `readable` says that it is neither at its end nor broken. -/
def processIpcConn (connState : MuxConnState) (p : IpcProgress) (frames : List (MuxFrame × Bool))
    (readable : Bool) : Bool × IpcProgress :=
  let r := processFrames connState p frames
  (r.1 && readable, r.2)

def applyVerb (s : LocalMux) (id now : ℕ) (verb : MuxSessionVerb) : LocalMux :=
  match s.conn id with
  | none => s
  | some c =>
    match verb with
    | .open_ target =>
      match c.session with
      | some ss => s.tell id (.openGranted ss.chan.ordinal)
      | none =>
        if s.conns.countP (·.session.isSome) ≥ maxLocalSessionChannels then
          s.tell id (.openRefused "session channel table full")
        else
          let (chan, alloc) := s.alloc.next kindSession
          let s := { s with alloc, routes := Function.update s.routes chan (some id) }
          let state := if c.holdsRef then s.state else s.state.addRef
          ({ s.put { c with holdsRef := true, session := some { chan, target } } with state }).tell id
            (.openGranted chan.ordinal)
    | .msg bytes =>
      match c.session with
      | none => s
      | some ss =>
        if ss.confirmed then s.sendSessionWire ss.chan sessionWireData bytes
        else s.put { c with session := some { ss with queued := ss.queued ++ [bytes] } }
    | .close payload =>
      match c.session with
      | none => s
      | some ss => (s.endSession c ss.chan now).owe ss.chan payload

/-- A connection is gone. -/
def depart (s : LocalMux) (c : IpcConn) (now : ℕ) : LocalMux :=
  let s := { s with conns := s.conns.eraseP fun d => d.connId == c.connId }
  let s := match c.session with
    | some ss => { s with routes := Function.update s.routes ss.chan none }.owe ss.chan []
    | none => s
  if c.holdsRef then s.unref now else s

def readConn (s : LocalMux) (id : ℕ) (frames : List (MuxFrame × Bool)) (readable : Bool) (now : ℕ) :
    LocalMux :=
  match s.conn id with
  | none => s
  | some c =>
    let r := processIpcConn s.connState { conn := c, state := s.state } frames readable
    let s := { s.put r.2.conn with state := r.2.state, told := s.told ++ r.2.told }
    if r.1 then r.2.verbs.foldl (fun s verb => s.applyVerb id now verb) s
    else s.depart r.2.conn now

/-! ### The transport -/

/-- The peer is heard on a channel: what waited for that is sent. -/
def confirm (s : LocalMux) (c : IpcConn) (ss : IpcSession) : LocalMux × IpcSession :=
  if ss.confirmed then (s, ss)
  else
    let ss' := { ss with confirmed := true, queued := [] }
    (ss.queued.foldl (fun s m => s.sendSessionWire ss.chan sessionWireData m)
      (s.put { c with session := some ss' }), ss')

/-- The offsets of a frame that is passed on. -/
def advance (resume : SessionResume) (body : Bytes) : SessionResume :=
  match Wire.ServerFrame.decode body with
  | .ok f => resume.advanceFromFrame f.frameNum.toNat f.inputAck.toNat f.echoAck.toNat
  | _ => resume

/-- An instruction of the peer. -/
def datagram (s : LocalMux) (chan : ChannelId) (message : Bytes) (srtt now : ℕ) : LocalMux :=
  if chan.kind ≠ kindSession ∨ chan = sessionChannel then s
  else
    match (s.routes chan).bind s.conn with
    | none => s
    | some c =>
      match c.session with
      | none => s
      | some ss =>
        let (s, ss) := s.confirm c ss
        match message with
        | [] => s
        | kind :: body =>
          if kind = sessionWireData then
            (s.put { c with session := some { ss with resume := advance ss.resume body } }).tell
              c.connId (.frame srtt body)
          else if kind = sessionWireSwitch then
            (s.put { c with session := some { ss with target := body } }).tell c.connId
              (.switched body)
          else if kind = sessionWireClose then
            (s.tell c.connId (.closed body)).endSession c chan now
          else s

/-- The transport is given up: the sessions are kept, unconfirmed, and the routes built anew. -/
def verdict (s : LocalMux) : LocalMux :=
  { s with
    conns := s.conns.map fun c =>
      { c with
        session := c.session.map fun ss =>
          { ss with confirmed := false, openSends := 0, lastOpenSend := none } }
    routes := s.conns.foldl
      (fun routes c => c.session.elim routes fun ss => Function.update routes ss.chan (some c.connId))
      fun _ => none
    pendingCloses := []
    connState := .reconnecting
    reconnecting := true }

/-- A session is sent so often without an answer that it is given up. -/
def exhausted (c : IpcConn) : Bool :=
  c.session.any fun ss => !ss.confirmed && decide (ss.openSends ≥ sessionOpenRetransmitsMax)

/-- It is time to send again. -/
def elapsed (last : Option ℕ) (now rto : ℕ) : Bool := last.all fun t => decide (now - t ≥ rto)

/-- A session whose OPEN is due. -/
def openDue (now rto : ℕ) (c : IpcConn) : Option IpcSession :=
  c.session.filter fun ss =>
    !ss.confirmed && decide (ss.openSends < sessionOpenRetransmitsMax) && elapsed ss.lastOpenSend now rto

/-- Its OPEN is sent. -/
def openSent (now rto : ℕ) (c : IpcConn) : IpcConn :=
  match openDue now rto c with
  | some ss => { c with session := some { ss with openSends := ss.openSends + 1, lastOpenSend := some now } }
  | none => c

/-- The session of a connection is given up: the connection is told, and the peer is owed a CLOSE. -/
def giveUp (now : ℕ) (s : LocalMux) (id : ℕ) : LocalMux :=
  match s.conn id with
  | none => s
  | some c =>
    match c.session with
    | none => s
    | some ss =>
      ((s.owe ss.chan []).tell id
        (.closed "session open timed out (no answer from the remote peer)".toUTF8.toList)).endSession c
          ss.chan now

/-- A CLOSE that is owed is sent. -/
def closeSent (now rto : ℕ) (p : PendingClose) : PendingClose :=
  if elapsed p.lastSend now rto then { p with sends := p.sends + 1, lastSend := some now } else p

/-- What is due is sent: OPENs, then CLOSEs; sessions that were not answered are given up between them. -/
def sends (s : LocalMux) (now rto : ℕ) : LocalMux :=
  let expired := (s.conns.filter exhausted).map (·.connId)
  let opens := (s.conns.filterMap (openDue now rto)).map fun ss =>
    (ss.chan, sessionWireOpen, SessionResume.encodeOpen ss.target ss.resume)
  let s := { s with conns := s.conns.map (openSent now rto), wire := s.wire ++ opens }
  let s := expired.foldl (giveUp now) s
  let closes := (s.pendingCloses.filter fun p => elapsed p.lastSend now rto).map fun p =>
    (p.chan, sessionWireClose, p.payload)
  { s with
    wire := s.wire ++ closes
    pendingCloses := (s.pendingCloses.map (closeSent now rto)).filter fun p =>
      decide (p.sends < sessionCloseRetransmits) }

/-! ### What can happen -/

inductive Act where
  /-- an invocation connects -/
  | accept
  /-- a connection is read; for every frame it is said whether its answer could be written -/
  | ipc (id : ℕ) (frames : List (MuxFrame × Bool)) (readable : Bool) (now : ℕ)
  /-- an instruction of the peer arrives -/
  | datagram (chan : ChannelId) (message : Bytes) (srtt now : ℕ)
  /-- the transport is given up -/
  | verdict
  /-- a new transport is there -/
  | reestablish
  /-- what is due is sent -/
  | sends (now rto : ℕ)

def step (s : LocalMux) : Act → Option LocalMux
  | .accept => some s.accept
  | .ipc id frames readable now => some (s.readConn id frames readable now)
  | .datagram chan message srtt now => some (s.datagram chan message srtt now)
  | .verdict => if s.reconnecting then none else some s.verdict
  | .reestablish =>
    if s.reconnecting then some { s with reconnecting := false, connState := .connected } else none
  | .sends now rto => if s.reconnecting then none else some (s.sends now rto)

/-! ### The register of the connections -/

/-- What a connection is in the register. -/
def IpcConn.entry (c : IpcConn) : Registry.Entry ℕ ChannelId where
  id := c.connId
  holds := c.holdsRef
  owns := c.chan

def entries (s : LocalMux) : List (Registry.Entry ℕ ChannelId) := s.conns.map IpcConn.entry

/-- **What the mux keeps true.** -/
structure Inv (s : LocalMux) : Prop where
  kept : Registry.Kept s.entries s.state.refs s.routes
  timed : s.state.Timed
  below : ∀ e ∈ s.entries, e.id < s.nextConnId
  channels : ∀ e ∈ s.entries, ∀ chan, e.owns = some chan →
    chan = .new false kindSession chan.ordinal ∧ chan.ordinal < s.alloc.nextOrdinal (kindSession &&& 0x7f)
  role : s.alloc.role = .client

section Rules

variable {s s' : LocalMux} {c d : IpcConn} {id now : ℕ}

theorem Inv.congr (h : s.Inv) (hentries : s'.entries = s.entries) (hstate : s'.state = s.state)
    (hroutes : s'.routes = s.routes) (hnext : s'.nextConnId = s.nextConnId) (halloc : s'.alloc = s.alloc) :
    s'.Inv where
  kept := by rw [hentries, hstate, hroutes]; exact h.kept
  timed := hstate ▸ h.timed
  below := by rw [hentries, hnext]; exact h.below
  channels := by rw [hentries, halloc]; exact h.channels
  role := halloc ▸ h.role

theorem conn_eq_some (h : s.conn id = some c) : c ∈ s.conns ∧ c.connId = id :=
  ⟨Keyed.mem_of_lookup h, Keyed.key_of_lookup h⟩

theorem perm_entries (h : s.conn id = some c) :
    s.entries.Perm (c.entry :: (s.conns.eraseP fun x => x.connId == c.connId).map IpcConn.entry) := by
  have hid := (conn_eq_some h).2
  subst hid
  exact (Keyed.perm_eraseP h).map IpcConn.entry

theorem perm_entries_put (h : s.conn id = some c) (hid : d.connId = c.connId) :
    (s.put d).entries.Perm
      (d.entry :: (s.conns.eraseP fun x => x.connId == c.connId).map IpcConn.entry) := by
  have hcid := (conn_eq_some h).2
  subst hcid
  have hperm := (Keyed.perm_updateFirst d h).map IpcConn.entry
  rw [← hid] at hperm ⊢
  exact hperm

theorem conn_put (hs : s.Inv) (h : s.conn id = some c) (hid : d.connId = c.connId) :
    (s.put d).conn id = some d := by
  obtain ⟨hmem, hcid⟩ := conn_eq_some h
  have hnodup : (s.conns.map IpcConn.connId).Nodup := by
    have hids := hs.kept.ids
    rw [entries, map_map] at hids
    exact hids
  have hfound : s.conns.find? (fun x => x.connId == d.connId) = some c := by
    rw [hid, hcid]
    exact h
  have hput := Keyed.lookup_updateFirst IpcConn.connId (p := fun x => x.connId == d.connId)
    (f := fun _ => d) (k := id) (fun x hx => (beq_iff_eq.1 hx).symm) hnodup
  rw [hfound] at hput
  simp only [hid, hcid, if_true] at hput
  rw [conn, put]
  simpa only [hid, hcid] using hput

/-- **A connection is another one**: what is to be shown is that the counter, the timer and the routes follow
it. -/
theorem Inv.replace (h : s.Inv) (hc : s.conn id = some c) (hid : d.connId = c.connId)
    (hconns : s'.conns = (s.put d).conns) (hnext : s'.nextConnId = s.nextConnId)
    (hkept : ∀ rest, Registry.Kept (c.entry :: rest) s.state.refs s.routes →
      Registry.Kept (d.entry :: rest) s'.state.refs s'.routes)
    (htimed : s'.state.Timed) (hrole : s'.alloc.role = s.alloc.role)
    (halloc : s.alloc.nextOrdinal (kindSession &&& 0x7f) ≤ s'.alloc.nextOrdinal (kindSession &&& 0x7f))
    (hchan : ∀ chan, d.chan = some chan → chan = .new false kindSession chan.ordinal ∧
      chan.ordinal < s'.alloc.nextOrdinal (kindSession &&& 0x7f)) : s'.Inv := by
  have hperm := perm_entries hc
  have hperm' : s'.entries.Perm
      (d.entry :: (s.conns.eraseP fun x => x.connId == c.connId).map IpcConn.entry) := by
    have hentries : s'.entries = (s.put d).entries := by rw [entries, hconns]; rfl
    rw [hentries]
    exact perm_entries_put hc hid
  refine ⟨(hkept _ (h.kept.perm hperm)).perm hperm'.symm, htimed, fun e he => ?_, fun e he chan hown => ?_,
    hrole.trans h.role⟩
  · rw [hnext]
    rcases mem_cons.1 (hperm'.mem_iff.1 he) with rfl | he
    · have hbelow := h.below c.entry (hperm.mem_iff.2 (.head _))
      show d.connId < _
      rw [hid]
      exact hbelow
    · exact h.below e (hperm.mem_iff.2 (.tail _ he))
  · rcases mem_cons.1 (hperm'.mem_iff.1 he) with rfl | he
    · exact hchan chan hown
    · obtain ⟨hnew, hlt⟩ := h.channels e (hperm.mem_iff.2 (.tail _ he)) chan hown
      exact ⟨hnew, hlt.trans_le halloc⟩

theorem Inv.chan (h : s.Inv) (hc : s.conn id = some c) : ∀ chan, c.chan = some chan →
    chan = .new false kindSession chan.ordinal ∧ chan.ordinal < s.alloc.nextOrdinal (kindSession &&& 0x7f) :=
  h.channels c.entry (mem_map_of_mem (conn_eq_some hc).1)

theorem Inv.put (h : s.Inv) (hc : s.conn id = some c) (hid : d.connId = c.connId)
    (hholds : d.holdsRef = c.holdsRef) (hchan : d.chan = c.chan) : (s.put d).Inv := by
  have hentry : d.entry = c.entry := by rw [IpcConn.entry, IpcConn.entry, hid, hholds, hchan]
  refine h.replace hc hid rfl rfl (fun rest hk => ?_) h.timed rfl (Nat.le_refl _) ?_
  · rw [hentry]
    exact hk
  · rw [hchan]
    exact h.chan hc

theorem Inv.dropRef (h : s.Inv) (hc : s.conn id = some c) (now : ℕ) : (s.dropRef c now).Inv := by
  unfold LocalMux.dropRef
  split
  case isFalse => exact h
  case isTrue hholds =>
    exact h.replace (d := { c with holdsRef := false }) hc rfl rfl rfl (fun rest hk => hk.drop hholds)
      (h.timed.unref now) rfl (Nat.le_refl _) fun chan hown => h.chan hc chan hown

/-- **A session ends.** -/
theorem Inv.endSession (h : s.Inv) (hc : s.conn id = some c) {chan : ChannelId} (hchan : c.chan = some chan)
    (now : ℕ) : (s.endSession c chan now).Inv := by
  have hput : ({ s.put { c with session := none } with
      routes := Function.update s.routes chan none } : LocalMux).Inv :=
    h.replace (d := { c with session := none }) hc rfl rfl rfl (fun rest hk => hk.disown hchan) h.timed rfl
      (Nat.le_refl _) nofun
  exact hput.dropRef (conn_put h hc rfl) now

theorem Inv.accept (h : s.Inv) : s.accept.Inv := by
  have hperm : s.accept.entries.Perm ({ id := s.nextConnId } :: s.entries) := by
    rw [entries, LocalMux.accept, List.map_append]
    exact List.perm_append_singleton _ _
  have hnew : s.nextConnId ∉ s.entries.map (·.id) := by
    intro hmem
    obtain ⟨e, he, hid⟩ := List.mem_map.1 hmem
    exact absurd (h.below e he) (by omega)
  refine ⟨(h.kept.arrive hnew).perm hperm.symm, h.timed, fun e he => ?_, fun e he chan hown => ?_, h.role⟩
  · show e.id < s.nextConnId + 1
    rcases mem_cons.1 (hperm.mem_iff.1 he) with rfl | he
    · exact Nat.lt_succ_self _
    · exact (h.below e he).trans (Nat.lt_succ_self _)
  · rcases mem_cons.1 (hperm.mem_iff.1 he) with rfl | he
    · cases hown
    · exact h.channels e he chan hown

theorem depart_fields (s : LocalMux) (c : IpcConn) (now : ℕ) :
    (s.depart c now).conns = (s.conns.eraseP fun x => x.connId == c.connId) ∧
      (s.depart c now).state = (if c.holdsRef then s.state.unref now else s.state) ∧
      (s.depart c now).routes = c.chan.elim s.routes (fun chan => Function.update s.routes chan none) ∧
      (s.depart c now).nextConnId = s.nextConnId ∧ (s.depart c now).alloc = s.alloc := by
  unfold LocalMux.depart IpcConn.chan
  cases c.session <;> cases c.holdsRef <;> exact ⟨rfl, rfl, rfl, rfl, rfl⟩

theorem Inv.depart (h : s.Inv) (hc : s.conn id = some c) (now : ℕ) : (s.depart c now).Inv := by
  obtain ⟨hconns, hstate, hroutes, hnext, halloc⟩ := depart_fields s c now
  have hperm := perm_entries hc
  have hkept := (h.kept.perm hperm).release
  have hrefs : (if c.entry.holds then s.state.refs - 1 else s.state.refs) = (s.depart c now).state.refs := by
    rw [hstate]
    cases hholds : c.holdsRef <;> simp [IpcConn.entry, hholds, MuxState.unref]
  have hsub : ∀ e ∈ (s.depart c now).entries, e ∈ s.entries := by
    intro e he
    rw [entries, hconns] at he
    exact hperm.mem_iff.2 (.tail _ he)
  refine ⟨?_, ?_, fun e he => hnext ▸ h.below e (hsub e he), fun e he => ?_, halloc ▸ h.role⟩
  · rw [entries, hconns, hroutes, ← hrefs]
    exact hkept
  · rw [hstate]
    split
    · exact h.timed.unref now
    · exact h.timed
  · rw [halloc]
    exact h.channels e (hsub e he)

/-! ### A connection is read -/

/-- While a connection is read, the counter and the timer follow it. -/
structure Follows (c : IpcConn) (rest : List (Registry.Entry ℕ ChannelId)) (routes : ChannelId → Option ℕ)
    (p : IpcProgress) : Prop where
  connId : p.conn.connId = c.connId
  session : p.conn.session = c.session
  kept : Registry.Kept (p.conn.entry :: rest) p.state.refs routes
  timed : p.state.Timed

section Follows

variable {rest : List (Registry.Entry ℕ ChannelId)} {routes : ChannelId → Option ℕ} {p : IpcProgress}

theorem Follows.congr {p' : IpcProgress} (h : Follows c rest routes p) (hid : p'.conn.connId = p.conn.connId)
    (hsession : p'.conn.session = p.conn.session) (hholds : p'.conn.holdsRef = p.conn.holdsRef)
    (hstate : p'.state = p.state) : Follows c rest routes p' where
  connId := hid.trans h.connId
  session := hsession.trans h.session
  kept := by
    have hentry : p'.conn.entry = p.conn.entry := by
      rw [IpcConn.entry, IpcConn.entry, IpcConn.chan, IpcConn.chan, hid, hsession, hholds]
    rw [hentry, hstate]
    exact h.kept
  timed := hstate ▸ h.timed

/-- **A frame keeps the counter true.** -/
theorem follows_processFrame (h : Follows c rest routes p) (connState : MuxConnState) (frame : MuxFrame)
    (wrote : Bool) : Follows c rest routes (processFrame connState p frame wrote).2 := by
  unfold processFrame
  split
  case h_1 =>
    split
    · exact h
    · simp only
      split
      · exact h.congr rfl rfl rfl rfl
      · split <;> exact h.congr rfl rfl rfl rfl
  case h_2 =>
    split
    · exact h
    · simp only
      split
      case isTrue hholds =>
        rw [Bool.not_eq_true'] at hholds
        exact ⟨h.connId, h.session, h.kept.hold hholds, MuxState.timed_addRef _⟩
      case isFalse => exact h.congr rfl rfl rfl rfl
  all_goals first
    | exact h
    | (split <;> exact h.congr rfl rfl rfl rfl)

theorem follows_processFrames (connState : MuxConnState) :
    ∀ (frames : List (MuxFrame × Bool)) {p : IpcProgress}, Follows c rest routes p →
      Follows c rest routes (processFrames connState p frames).2 := by
  intro frames
  induction frames with
  | nil => exact fun h => h
  | cons frame frames ih =>
    intro p h
    have hframe := follows_processFrame h connState frame.1 frame.2
    unfold processFrames
    split
    case h_1 p' hp' =>
      rw [hp'] at hframe
      exact ih hframe
    case h_2 p' hp' =>
      rw [hp'] at hframe
      exact hframe

end Follows

theorem Inv.progress (h : s.Inv) (hc : s.conn id = some c) (frames : List (MuxFrame × Bool)) (told : List (ℕ × MuxReply)) :
    ∀ p, p = (processFrames s.connState { conn := c, state := s.state } frames).2 →
      ({ s.put p.conn with state := p.state, told } : LocalMux).Inv ∧
        ({ s.put p.conn with state := p.state, told } : LocalMux).conn id = some p.conn := by
  intro p hp
  have hfollows : ∀ rest, Registry.Kept (c.entry :: rest) s.state.refs s.routes →
      Follows c rest s.routes p := by
    intro rest hk
    rw [hp]
    exact follows_processFrames s.connState frames ⟨rfl, rfl, hk, h.timed⟩
  have hp := hfollows _ (h.kept.perm (perm_entries hc))
  refine ⟨h.replace hc hp.connId rfl rfl (fun rest hk => (hfollows rest hk).kept) hp.timed rfl
    (Nat.le_refl _) fun chan hown => h.chan hc chan ?_, conn_put h hc hp.connId⟩
  rw [IpcConn.chan, hp.session] at hown
  exact hown

theorem next_spec (h : s.Inv) : (s.alloc.next kindSession).1 =
      .new false kindSession (s.alloc.next kindSession).1.ordinal ∧
    (s.alloc.next kindSession).1.ordinal = s.alloc.nextOrdinal (kindSession &&& 0x7f) ∧
      (s.alloc.next kindSession).2.nextOrdinal (kindSession &&& 0x7f) =
        s.alloc.nextOrdinal (kindSession &&& 0x7f) + 1 := by
  obtain ⟨hordinal, hnext⟩ := s.alloc.next_ordinal kindSession
  refine ⟨?_, hordinal, hnext⟩
  rw [hordinal, ChannelAllocator.next]
  simp only [h.role]
  rfl

theorem routes_next (h : s.Inv) : s.routes (s.alloc.next kindSession).1 = none := by
  rw [Option.eq_none_iff_forall_ne_some]
  intro id hroute
  obtain ⟨e, he, _, hown⟩ := (h.kept.routes _ _).1 hroute
  have hlt := (h.channels e he _ hown).2
  rw [(next_spec h).2.1] at hlt
  exact absurd hlt (Nat.lt_irrefl _)

/-- **A verb keeps the books.** -/
theorem Inv.applyVerb (h : s.Inv) (id now : ℕ) (verb : MuxSessionVerb) : (s.applyVerb id now verb).Inv := by
  unfold LocalMux.applyVerb
  split
  case h_1 => exact h
  case h_2 c hc =>
    cases verb with
    | open_ target =>
      simp only
      split
      case h_1 => exact h.congr rfl rfl rfl rfl rfl
      case h_2 hnone =>
        split
        · exact h.congr rfl rfl rfl rfl rfl
        · obtain ⟨hnew, hordinal, hnext⟩ := next_spec h
          have hfree := routes_next h
          have hchan : c.chan = none := by rw [IpcConn.chan, hnone]; rfl
          obtain rfl := (conn_eq_some hc).2
          refine h.replace (d := { c with
            holdsRef := true
            session := some { chan := (s.alloc.next kindSession).1, target } }) hc rfl rfl rfl
            (fun rest hk => ?_) ?_ rfl ?_ fun chan hown => ?_
          · have howned : Registry.Kept
                ({ id := c.connId, holds := c.holdsRef, owns := some (s.alloc.next kindSession).1 } :: rest)
                s.state.refs (Function.update s.routes (s.alloc.next kindSession).1 (some c.connId)) :=
              hk.own hchan hfree
            cases hholds : c.holdsRef with
            | true =>
              rw [hholds] at howned
              exact howned
            | false =>
              rw [hholds] at howned
              exact howned.hold rfl
          · show (if c.holdsRef then s.state else s.state.addRef).Timed
            split
            · exact h.timed
            · exact MuxState.timed_addRef _
          · show _ ≤ (s.alloc.next kindSession).2.nextOrdinal (kindSession &&& 0x7f)
            rw [hnext]
            exact Nat.le_succ _
          · obtain rfl : (s.alloc.next kindSession).1 = chan := Option.some.inj hown
            refine ⟨hnew, ?_⟩
            show _ < (s.alloc.next kindSession).2.nextOrdinal (kindSession &&& 0x7f)
            rw [hnext, hordinal]
            exact Nat.lt_succ_self _
    | msg bytes =>
      simp only
      split
      case h_1 => exact h
      case h_2 ss hss =>
        split
        · exact h.congr rfl rfl rfl rfl rfl
        · exact h.put hc rfl rfl (by rw [IpcConn.chan, IpcConn.chan, hss]; rfl)
    | close payload =>
      simp only
      split
      case h_1 => exact h
      case h_2 ss hss =>
        have hchan : c.chan = some ss.chan := by rw [IpcConn.chan, hss]; rfl
        exact (h.endSession hc hchan now).congr rfl rfl rfl rfl rfl

theorem Inv.applyVerbs (id now : ℕ) : ∀ (verbs : List MuxSessionVerb) {s : LocalMux}, s.Inv →
    (verbs.foldl (fun s verb => s.applyVerb id now verb) s).Inv := by
  intro verbs
  induction verbs with
  | nil => exact fun h => h
  | cons verb verbs ih => exact fun h => ih (h.applyVerb id now verb)

/-- **Reading a connection keeps the books.** -/
theorem Inv.readConn (h : s.Inv) (id : ℕ) (frames : List (MuxFrame × Bool)) (readable : Bool) (now : ℕ) :
    (s.readConn id frames readable now).Inv := by
  unfold LocalMux.readConn
  split
  case h_1 => exact h
  case h_2 c hc =>
    obtain ⟨hread, hconn⟩ := h.progress hc frames (s.told ++ (processFrames s.connState
      { conn := c, state := s.state } frames).2.told) _ rfl
    dsimp only
    split
    · exact Inv.applyVerbs id now _ hread
    · exact hread.depart hconn now

/-! ### The transport -/

theorem Inv.confirm (h : s.Inv) (hc : s.conn id = some c) {ss : IpcSession} (hss : c.session = some ss) :
    (s.confirm c ss).1.Inv ∧ (s.confirm c ss).2.chan = ss.chan ∧
      (s.confirm c ss).1.conn id = some { c with session := some (s.confirm c ss).2 } := by
  have hwire : ∀ (queued : List Bytes) (s : LocalMux), s.Inv →
      (queued.foldl (fun s m => s.sendSessionWire ss.chan sessionWireData m) s).Inv ∧
        (queued.foldl (fun s m => s.sendSessionWire ss.chan sessionWireData m) s).conns = s.conns := by
    intro queued
    induction queued with
    | nil => exact fun s h => ⟨h, rfl⟩
    | cons m queued ih => exact fun s h => ih _ (h.congr rfl rfl rfl rfl rfl)
  unfold LocalMux.confirm
  split
  case isTrue =>
    refine ⟨h, rfl, hc.trans ?_⟩
    rw [← hss]
  case isFalse =>
    have hput := h.put (d := { c with session := some { ss with confirmed := true, queued := [] } }) hc rfl
      rfl (by rw [IpcConn.chan, IpcConn.chan, hss]; rfl)
    obtain ⟨hsent, hconns⟩ := hwire ss.queued _ hput
    refine ⟨hsent, rfl, ?_⟩
    have hfound := conn_put h hc
      (d := { c with session := some { ss with confirmed := true, queued := [] } }) rfl
    rw [conn] at hfound ⊢
    simp only [hconns]
    exact hfound

/-- **An instruction of the peer keeps the books.** -/
theorem Inv.datagram (h : s.Inv) (chan : ChannelId) (message : Bytes) (srtt now : ℕ) :
    (s.datagram chan message srtt now).Inv := by
  unfold LocalMux.datagram
  split
  case isTrue => exact h
  case isFalse =>
    split
    case h_1 => exact h
    case h_2 c hroute =>
      obtain ⟨id, hroute, hc⟩ := Option.bind_eq_some_iff.1 hroute
      split
      case h_1 => exact h
      case h_2 ss hss =>
        obtain ⟨hconf, hchan, hconn⟩ := h.confirm hc hss
        -- the route leads to the connection whose session has the channel
        have hown : c.chan = some chan := by
          obtain ⟨e, he, hid, hown⟩ := (h.kept.routes chan id).1 hroute
          have heq : e = c.entry := h.kept.eq_of_id he (mem_map_of_mem (conn_eq_some hc).1)
            (hid.trans (conn_eq_some hc).2.symm)
          rw [heq] at hown
          exact hown
        have hsschan : ss.chan = chan := by
          rw [IpcConn.chan, hss] at hown
          exact Option.some.inj hown
        simp only
        generalize s.confirm c ss = r at *
        have hput : ∀ ss' : IpcSession, ss'.chan = r.2.chan →
            (r.1.put { c with session := some ss' }).Inv := by
          intro ss' hss'
          exact hconf.put (d := { c with session := some ss' }) hconn rfl rfl
            (by simp only [IpcConn.chan, Option.map_some, hss'])
        split
        case h_1 => exact hconf
        case h_2 kind body =>
          split
          · exact (hput { r.2 with resume := advance r.2.resume body } rfl).congr rfl rfl rfl rfl rfl
          · split
            · exact (hput { r.2 with target := body } rfl).congr rfl rfl rfl rfl rfl
            · split
              · have htold : (r.1.tell c.connId (.closed body)).Inv := hconf.congr rfl rfl rfl rfl rfl
                exact htold.endSession (c := { c with session := some r.2 }) hconn
                  (by simp only [IpcConn.chan, Option.map_some, hchan, hsschan]) now
              · exact hconf

/-- **When the transport is given up, the routes are built anew**, as they were. -/
theorem Inv.verdict (h : s.Inv) : s.verdict.Inv := by
  have hentries : s.verdict.entries = s.entries := by
    rw [entries, LocalMux.verdict, map_map]
    refine List.map_congr_left fun c _ => ?_
    cases hss : c.session <;> simp [IpcConn.entry, IpcConn.chan, hss]
  have hroutes : s.verdict.routes = s.routes := by
    rw [← h.kept.rebuilt, Registry.routesOf, entries, List.foldl_map]
    show s.conns.foldl _ _ = _
    congr 1
    funext routes c
    cases hss : c.session <;> simp [IpcConn.entry, IpcConn.chan, hss]
  exact h.congr hentries rfl hroutes rfl rfl

theorem Inv.giveUp (h : s.Inv) (now id : ℕ) : (s.giveUp now id).Inv := by
  unfold LocalMux.giveUp
  split
  case h_1 => exact h
  case h_2 c hc =>
    split
    case h_1 => exact h
    case h_2 ss hss =>
      have htold : ((s.owe ss.chan []).tell id
          (.closed "session open timed out (no answer from the remote peer)".toUTF8.toList)).Inv :=
        h.congr rfl rfl rfl rfl rfl
      exact htold.endSession hc (by rw [IpcConn.chan, hss]; rfl) now

theorem Inv.giveUps (now : ℕ) : ∀ (ids : List ℕ) {s : LocalMux}, s.Inv →
    (ids.foldl (LocalMux.giveUp now) s).Inv := by
  intro ids
  induction ids with
  | nil => exact fun h => h
  | cons id ids ih => exact fun h => ih (h.giveUp now id)

/-- **Sending what is due keeps the books.** -/
theorem Inv.sends (h : s.Inv) (now rto : ℕ) : (s.sends now rto).Inv := by
  have hentry : ∀ c : IpcConn, (openSent now rto c).entry = c.entry := by
    intro c
    unfold openSent
    split
    case h_2 => rfl
    case h_1 ss hss =>
      have hsession := (Option.filter_eq_some_iff.1 hss).1
      simp [IpcConn.entry, IpcConn.chan, hsession]
  have hentries : (s.conns.map (openSent now rto)).map IpcConn.entry = s.entries := by
    rw [map_map]
    exact List.map_congr_left fun c _ => hentry c
  have hsent : ∀ wire, ({ s with conns := s.conns.map (openSent now rto), wire } : LocalMux).Inv :=
    fun wire => h.congr hentries rfl rfl rfl rfl
  unfold LocalMux.sends
  exact (Inv.giveUps now _ (hsent _)).congr rfl rfl rfl rfl rfl

/-- **Every step keeps the books.** -/
theorem kept_step {a : Act} (h : s.Inv) (hstep : step s a = some s') : s'.Inv := by
  cases a with
  | accept =>
    cases hstep
    exact h.accept
  | ipc id frames readable now =>
    cases hstep
    exact h.readConn id frames readable now
  | datagram chan message srtt now =>
    cases hstep
    exact h.datagram chan message srtt now
  | verdict =>
    simp only [step] at hstep
    split at hstep
    · cases hstep
    · cases hstep
      exact h.verdict
  | reestablish =>
    simp only [step] at hstep
    split at hstep
    · cases hstep
      exact h.congr rfl rfl rfl rfl rfl
    · cases hstep
  | sends now rto =>
    simp only [step] at hstep
    split at hstep
    · cases hstep
    · cases hstep
      exact h.sends now rto

theorem inv_new (lingerMs now : ℕ) : (new lingerMs now).Inv where
  kept := Registry.kept_nil
  timed := by simp [new, MuxState.new, MuxState.Timed, MuxState.lingering]
  below := nofun
  channels := nofun
  role := rfl

/-! ### The books -/

/-- **The books of the mux.** -/
structure Books (s : LocalMux) : Prop where
  /-- the references are counted -/
  refs : s.state.refs = s.conns.countP (·.holdsRef)
  /-- the timer runs exactly when there are none -/
  linger : s.state.lingering = true ↔ s.state.refs = 0
  /-- the channel of a session leads to its connection -/
  routed : ∀ c ∈ s.conns, ∀ ss, c.session = some ss → s.routes ss.chan = some c.connId
  /-- a route leads to the connection of a session with that channel -/
  routes : ∀ chan id, s.routes chan = some id →
    ∃ c ∈ s.conns, c.connId = id ∧ ∃ ss, c.session = some ss ∧ ss.chan = chan
  /-- no two sessions have one ordinal -/
  ordinals : s.conns.Pairwise fun c d =>
    ∀ ss tt, c.session = some ss → d.session = some tt → ss.chan.ordinal ≠ tt.chan.ordinal

theorem Inv.books (h : s.Inv) : s.Books where
  refs := by
    rw [h.kept.count, entries, List.countP_map]
    rfl
  linger := h.timed
  routed := by
    intro c hc ss hss
    have hown : c.entry.owns = some ss.chan := by
      rw [IpcConn.entry, IpcConn.chan, hss]
      rfl
    exact (h.kept.routes _ _).2 ⟨c.entry, mem_map_of_mem hc, rfl, hown⟩
  routes := by
    intro chan id hroute
    obtain ⟨e, he, hid, hown⟩ := (h.kept.routes chan id).1 hroute
    obtain ⟨c, hc, rfl⟩ := List.mem_map.1 he
    exact ⟨c, hc, hid, Option.map_eq_some_iff.1 hown⟩
  ordinals := by
    have hids : s.conns.Pairwise fun c d => c.connId ≠ d.connId := by
      have hnodup := h.kept.ids
      rw [entries, map_map] at hnodup
      exact List.pairwise_map.1 hnodup
    refine hids.imp_of_mem fun {c d} hc hd hne ss tt hss htt heq => hne ?_
    have hcown : c.entry.owns = some ss.chan := by
      rw [IpcConn.entry, IpcConn.chan, hss]
      rfl
    have hdown : d.entry.owns = some tt.chan := by
      rw [IpcConn.entry, IpcConn.chan, htt]
      rfl
    -- a channel of a session is known by its ordinal
    have hchan : ss.chan = tt.chan := by
      rw [(h.channels _ (mem_map_of_mem hc) _ hcown).1, heq,
        ← (h.channels _ (mem_map_of_mem hd) _ hdown).1]
    rw [← hchan] at hdown
    exact congrArg Registry.Entry.id
      (h.kept.eq_of_owns (mem_map_of_mem hc) (mem_map_of_mem hd) hcown hdown)

end Rules

/-- **In every run the books are kept.** -/
theorem books_kept (lingerMs now : ℕ) (as : List Act) {s : LocalMux}
    (h : Runs.exec step (new lingerMs now) as = some s) : s.Books :=
  (Runs.exec_invariant (fun _ _ _ => kept_step) (inv_new lingerMs now) h).books

/-- An invocation opens a session, which the peer answers and then closes, while another one holds a
reference. -/
theorem books_kept_closed : ∃ s, Runs.exec step (new 1000 0)
      [.accept, .accept,
        .ipc 1 [(⟨.hello, [7, 0, 0, 0] ++ muxProtoStamp⟩, true), (⟨.sessionOpen, [97]⟩, true)] true 10,
        .ipc 2 [(⟨.hello, [8, 0, 0, 0] ++ muxProtoStamp⟩, true), (⟨.sessionRef, []⟩, true)] true 11,
        .sends 12 50, .datagram (.new false kindSession 2) [sessionWireClose] 0 20] = some s ∧
    s.state.refs = 1 ∧ s.routes (.new false kindSession 2) = none ∧ s.Books := by
  have hrun : (Runs.exec step (new 1000 0)
      [.accept, .accept,
        .ipc 1 [(⟨.hello, [7, 0, 0, 0] ++ muxProtoStamp⟩, true), (⟨.sessionOpen, [97]⟩, true)] true 10,
        .ipc 2 [(⟨.hello, [8, 0, 0, 0] ++ muxProtoStamp⟩, true), (⟨.sessionRef, []⟩, true)] true 11,
        .sends 12 50, .datagram (.new false kindSession 2) [sessionWireClose] 0 20]).map
        (fun s => (s.state.refs, s.routes (.new false kindSession 2))) = some (1, none) := by
    decide +kernel
  obtain ⟨s, hs, hsummary⟩ := Option.map_eq_some_iff.1 hrun
  simp only [Prod.mk.injEq] at hsummary
  exact ⟨s, hs, hsummary.1, hsummary.2, books_kept 1000 0 _ hs⟩

end LocalMux

end Posh
