/-
**The roaming synchronisation loop.**

The server's frame production and the client's frame application, with everything ever sent between
them: a frame or a message, once sent, can arrive at any later moment and any number of times.  The
session prints what it likes, overlays come and go, clocks tick, and the client may ask for a
keyframe at any moment.

The history the claims about the loop are stated over is carried along: the log of the dump recorded
for each frame number, and the list of the frame numbers the client moved to with the dump it showed
at that moment.

The scrollback slots are where the loop can go wrong.  A slot inherits the dump of the frame
acknowledged when it is made; when it is sent again later, its base is the frame acknowledged *then*.
If the two dumps differ, a client at the newer base takes the slot's number with the newer dump,
and the acknowledgement of that number makes the server diff against the older one.  A run in which
no slot is sent again on a base with another dump (`RoamingLoop.ReanchorsSoundly`) keeps the two ends
in agreement.
-/

import Posh.RoamingClient
import Posh.RoamingServer

set_option autoImplicit false

namespace Posh

open ServerLoop (nudge_producer sendCurrent)
open ServerLoop
open FrameProducer

variable {τ σ : Type}

/-- How a loop starts: the size, the session's screen and terminal at that moment, the bound of the
client's ring, and whether the client verifies bases. -/
structure LoopConfig (σ : Type) where
  rows : ℕ
  cols : ℕ
  src : Screen σ
  term : SessionTerm := {}
  ringCapacity : ℕ := 1
  baseSums : Bool

/-- The two ends and everything in flight. -/
structure RoamingLoop (τ σ : Type) where
  server : ServerLoop σ
  client : ClientState τ
  /-- every frame sent -/
  frames : List ServerFrame := []
  /-- every client message sent -/
  messages : List ClientMessage := []
  /-- history: the kind and the dump recorded for each frame number -/
  log : List LoggedFrame := initialLog
  /-- history: the frame numbers the client moved to, each with the dump shown at that moment -/
  landed : List (ℕ × Bytes) := [(0, [])]

namespace RoamingLoop

/-- Both ends at the shared empty frame 0. -/
def init (D : Display τ σ) (c : LoopConfig σ) : RoamingLoop τ σ where
  server := .new D c.src c.term c.rows c.cols
  client :=
    { rows := c.rows
      cols := c.cols
      applier := .dumpDiff
      serverTerm := D.withScrollback c.rows c.cols 0
      history := { scrollback := .new c.ringCapacity } }

/-- What can happen.  Frames and messages are named by their position in the order of sending. -/
inductive Act (σ : Type) where
  /-- the session prints: the screen broadcast and the session's terminal move on -/
  | screen (src : Screen σ) (term : SessionTerm)
  /-- an overlay shell comes up or goes away, and a frame is forced -/
  | overlay (up : Bool) (src : Screen σ)
  /-- the session ends: the handshake starts with a forced frame -/
  | sessionEnded
  /-- one iteration's production -/
  | serve (t : Opportunity)
  /-- the `i`-th message arrives at the server -/
  | deliverMessage (i : ℕ)
  /-- the client wants a keyframe (the user or a watchdog asks) -/
  | requestResync
  /-- the client sends a message -/
  | send (shutdown scrollback : Bool)
  /-- the `i`-th frame arrives at the client -/
  | deliverFrame (i : ℕ)

/-- The log after a production: a fresh slot is recorded. -/
def logAfter (log : List LoggedFrame) (s s' : ServerLoop σ) : List LoggedFrame :=
  if s'.producer.currentNum = s.producer.currentNum then log
  else log ++ [⟨!s'.currentIsSb, s'.producer.current.data⟩]

def serve (D : Display τ σ) (s : RoamingLoop τ σ) (t : Opportunity) : RoamingLoop τ σ :=
  let r := s.server.produce D t
  { s with
    server := r.2
    frames := s.frames ++ r.1.toList
    log := logAfter s.log s.server r.2 }

/-- The client's message of this moment; the keyframe request rides it once. -/
def clientMessage (c : LoopConfig σ) (st : ClientState τ) (shutdown scrollback : Bool) :
    ClientMessage where
  flagShutdown := shutdown
  flagResync := st.resync
  capScrollback := scrollback
  capMorph := st.applier.advertisesMorph
  capBaseSum := c.baseSums
  ackedFrame := st.appliedNum

/-- A frame arrives at the client. -/
def receive (D : Display τ σ) (s : RoamingLoop τ σ) (f : ServerFrame) : RoamingLoop τ σ :=
  let st := (s.client.applyFrame D f).1
  { s with
    client := st
    landed :=
      if st.appliedNum = s.client.appliedNum then s.landed
      else s.landed ++ [(st.appliedNum, st.appliedData)] }

def step (D : Display τ σ) (c : LoopConfig σ) (s : RoamingLoop τ σ) : Act σ → Option (RoamingLoop τ σ)
  | .screen src term => some { s with server := { s.server with src, term } }
  | .overlay up src =>
    some { s with server := { s.server with overlay := up, src, forceFrame := true } }
  | .sessionEnded =>
    some { s with
      server := { s.server with shutdown := true, forceFrame := true, overlay := false } }
  | .serve t => some (s.serve D t)
  | .deliverMessage i =>
    s.messages[i]?.map fun m => { s with server := s.server.onClientMessage m }
  | .requestResync => some { s with client := { s.client with resync := true } }
  | .send shutdown scrollback =>
    some { s with
      client := { s.client with resync := false }
      messages := s.messages ++ [clientMessage c s.client shutdown scrollback] }
  | .deliverFrame i => s.frames[i]?.map fun f => s.receive D f

/-! ### The log of a run -/

/-- The dump recorded for frame `n`. -/
def dumpAt (log : List LoggedFrame) (n : ℕ) : Option Dump := (log[n]?).map LoggedFrame.dump

variable {n : ℕ} {d : Dump}

theorem dumpAt_append {log : List LoggedFrame} (h : dumpAt log n = some d)
    (g : LoggedFrame) : dumpAt (log ++ [g]) n = some d :=
  map_getElem?_log_append h g

theorem dumpAt_of_getElem? {log : List LoggedFrame} {v : Bool}
    (h : log[n]? = some ⟨v, d⟩) : dumpAt log n = some d := by
  rw [dumpAt, h, Option.map_some]

/-! ### The producer and the log, in every run -/

/-- What holds of the server's end in every run: the producer agrees with the log, the kind of the
current slot is the one logged, and the peer never takes escapes. -/
structure Base (log : List LoggedFrame) (s : ServerLoop σ) : Prop where
  tracks : FrameProducer.Tracks log s.producer
  kind : log[s.producer.current.num]? = some ⟨!s.currentIsSb, s.producer.current.data⟩
  noMorph : s.peerWantsMorph = false

variable {log : List LoggedFrame} {s : ServerLoop σ} {f : ServerFrame} (D : Display τ σ)

theorem base_init (c : LoopConfig σ) :
    Base initialLog (init D c).server where
  tracks := tracks_new D c.rows c.cols
  kind := rfl
  noMorph := rfl

theorem Base.nudge (h : Base log s) : Base log s.nudge := by
  refine ⟨?_, ?_, ?_⟩
  · rw [nudge_producer]
    exact h.tracks
  · rw [nudge_producer, nudge_currentIsSb]
    exact h.kind
  · rw [nudge_peerWantsMorph]
    exact h.noMorph

theorem Base.advanceVisible (h : Base log s) :
    Base (log ++ [⟨true, s.src.dump⟩]) s.advanceVisible where
  tracks := h.tracks.advanceVisible _ _ _ _ _
  kind := h.tracks.getElem?_new _
  noMorph := h.noMorph

theorem Base.advanceScrollback (h : Base log s) :
    Base (log ++ [⟨false, s.advanceScrollback.producer.current.data⟩]) s.advanceScrollback := by
  refine ⟨h.tracks.advanceScrollback s.term.sbTotal, ?_, h.noMorph⟩
  have hcur : s.advanceScrollback.producer.current.num = s.producer.current.num + 1 :=
    s.producer.advanceScrollback_currentNum s.term.sbTotal
  rw [hcur]
  exact h.tracks.getElem?_new _

theorem Base.onClientMessage (h : Base log s) {m : ClientMessage} (hm : m.capMorph = false) :
    Base log (s.onClientMessage m) := by
  have hack := h.tracks.ack m.ackedFrame
  have hcur : (s.producer.ack m.ackedFrame).2.current = s.producer.current := by
    rcases s.producer.ack_cases m.ackedFrame with ⟨-, heq⟩ | ⟨-, -, heq⟩ <;> rw [heq]
  refine ⟨?_, ?_, ?_⟩
  · rw [onClientMessage_producer]
    split
    · exact hack.dropAckedBase
    · exact hack
  · rw [onClientMessage_producer, onClientMessage_currentIsSb]
    have hk : log[(s.producer.ack m.ackedFrame).2.current.num]? =
        some ⟨!s.currentIsSb, (s.producer.ack m.ackedFrame).2.current.data⟩ := by
      rw [hcur]
      exact h.kind
    split <;> exact hk
  · rw [onClientMessage_peerWantsMorph, hm]

theorem logAfter_advanceVisible (log : List LoggedFrame) (s : ServerLoop σ) :
    logAfter log s s.nudge.advanceVisible = log ++ [⟨true, s.nudge.src.dump⟩] := by
  have hne : s.nudge.advanceVisible.producer.currentNum ≠ s.producer.currentNum := by
    show s.nudge.producer.current.num + 1 ≠ s.producer.current.num
    rw [nudge_producer]
    omega
  rw [logAfter, if_neg hne]
  rfl

theorem logAfter_advanceScrollback (log : List LoggedFrame) (s : ServerLoop σ) :
    logAfter log s s.nudge.advanceScrollback =
      log ++ [⟨false, s.nudge.advanceScrollback.producer.current.data⟩] := by
  have hne : s.nudge.advanceScrollback.producer.currentNum ≠ s.producer.currentNum := by
    show (s.nudge.producer.advanceScrollback s.nudge.term.sbTotal).current.num ≠
      s.producer.current.num
    rw [advanceScrollback_currentNum, nudge_producer]
    omega
  rw [logAfter, if_neg hne]
  rfl

theorem logAfter_nudge (log : List LoggedFrame) (s : ServerLoop σ) : logAfter log s s.nudge = log := by
  rw [logAfter, nudge_producer, if_pos rfl]

/-- **What an iteration does to the loop**: a fresh slot is logged and sent, or the current slot is
sent again, or an empty frame is, or nothing. -/
inductive Served (D : Display τ σ) (s : RoamingLoop τ σ) (t : Opportunity) : RoamingLoop τ σ → Prop
  | visible : Served D s t
      { s with
        server := s.server.nudge.advanceVisible
        frames := s.frames ++ [s.server.nudge.advanceVisible.frame t (s.server.nudge.advanceVisible.body D)]
        log := s.log ++ [⟨true, s.server.nudge.src.dump⟩] }
  | scrollback (hbase : s.server.producer.hasAckedBase = true) : Served D s t
      { s with
        server := s.server.nudge.advanceScrollback
        frames := s.frames ++
          [s.server.nudge.advanceScrollback.frame t (s.server.nudge.advanceScrollback.body D)]
        log := s.log ++ [⟨false, s.server.nudge.advanceScrollback.producer.current.data⟩] }
  | again (hre : s.server.retransmits t = true) : Served D s t
      { s with
        server := s.server.nudge
        frames := s.frames ++ [s.server.nudge.frame t (s.server.nudge.body D)] }
  | empty : Served D s t
      { s with
        server := s.server.nudge
        frames := s.frames ++ [s.server.nudge.frame t .empty] }
  | nothing : Served D s t { s with server := s.server.nudge }

theorem serve_served (s : RoamingLoop τ σ) (t : Opportunity) : Served D s t (s.serve D t) := by
  unfold serve
  rcases s.server.produce_cases D t with h | ⟨hbase, h⟩ | ⟨hre, h⟩ | h | h
  · simp only [h, sendCurrent, logAfter_advanceVisible, Option.toList_some]
    exact .visible
  · simp only [h, sendCurrent, logAfter_advanceScrollback, Option.toList_some]
    exact .scrollback hbase
  · simp only [h, sendCurrent, logAfter_nudge, Option.toList_some]
    exact .again hre
  · simp only [h, logAfter_nudge, Option.toList_some]
    exact .empty
  · simp only [h, logAfter_nudge, Option.toList_none, List.append_nil]
    exact .nothing

/-! ### Agreement of the two ends -/

/-- The bytes recorded for frame `n`. -/
def bytesAt (log : List LoggedFrame) (n : ℕ) : Option Bytes := (dumpAt log n).map Dump.bytes

theorem bytesAt_of_dumpAt {log : List LoggedFrame} (h : dumpAt log n = some d) : bytesAt log n = some d.bytes := by
  rw [bytesAt, h, Option.map_some]

theorem bytesAt_append {log : List LoggedFrame} {b : Bytes} (h : bytesAt log n = some b)
    (g : LoggedFrame) : bytesAt (log ++ [g]) n = some b := by
  obtain ⟨d, hd, rfl⟩ := Option.map_eq_some_iff.1 h
  exact bytesAt_of_dumpAt (dumpAt_append hd g)

/-- A body in flight is what its frame number and its base are logged as. -/
def Fits (log : List LoggedFrame) (num : ℕ) : FrameBody → Prop
  | .full bytes => bytesAt log num = some bytes
  | .diff base _ diff =>
    ∃ b d, dumpAt log base = some b ∧ dumpAt log num = some d ∧ diff = makeDiff b.bytes d.bytes
  | .scrollback base _ => ∃ d, dumpAt log base = some d ∧ dumpAt log num = some d
  | .empty => True
  | _ => False

theorem Fits.append {log : List LoggedFrame} {num : ℕ} {body : FrameBody} (h : Fits log num body)
    (g : LoggedFrame) : Fits (log ++ [g]) num body := by
  cases body with
  | full bytes => exact bytesAt_append h g
  | diff base sum diff =>
    obtain ⟨b, d, hb, hd, heq⟩ := h
    exact ⟨b, d, dumpAt_append hb g, dumpAt_append hd g, heq⟩
  | scrollback base rows =>
    obtain ⟨d, hb, hd⟩ := h
    exact ⟨d, dumpAt_append hb g, dumpAt_append hd g⟩
  | empty => trivial
  | morph | scrollback2 => exact h.elim

/-- The state shown, and every retained dump, is what its frame number is logged as. -/
structure ShownFits (log : List LoggedFrame) (v : Shown) : Prop where
  data : bytesAt log v.num = some v.data
  history : ∀ b ∈ v.history, bytesAt log b.1 = some b.2

theorem ShownFits.append {log : List LoggedFrame} {v : Shown} (h : ShownFits log v)
    (g : LoggedFrame) : ShownFits (log ++ [g]) v :=
  ⟨bytesAt_append h.data g, fun b hb => bytesAt_append (h.history b hb) g⟩

/-- **A fitting body takes a fitting state to a fitting state.** -/
theorem ShownFits.landing {log : List LoggedFrame} {v v' : Shown}
    (h : ShownFits log v) (hf : Fits log f.frameNum f.body) (hl : Landing v f v') : ShownFits log v' := by
  have hhistory : ∀ {dump : Bytes} {history : List (ℕ × Bytes)},
      bytesAt log f.frameNum = some dump → Remembers v.history history f.frameNum dump →
        ∀ b ∈ history, bytesAt log b.1 = some b.2 := by
    intro dump history hdump hmem b hb
    rcases hmem b hb with hb | rfl
    · exact h.history b hb
    · exact hdump
  cases hl with
  | rejected => exact h
  | scrollback rows hbody hnew =>
    rw [hbody] at hf
    obtain ⟨d, hb, hd⟩ := hf
    refine ⟨?_, h.history⟩
    have hdata := h.data
    rw [bytesAt_of_dumpAt hb] at hdata
    show bytesAt log f.frameNum = some v.data
    rw [bytesAt_of_dumpAt hd, hdata]
  | full dump history hbody hnew hmem =>
    rw [hbody] at hf
    exact ⟨hf, hhistory hf hmem⟩
  | diff base sum diff held dump history hbody hnew hheld hsum happly hmem =>
    rw [hbody] at hf
    obtain ⟨b, d, hb, hd, rfl⟩ := hf
    -- whichever dump the base names, it is the one logged for the base's number
    have hbase : bytesAt log base = some held := by
      rcases hheld with ⟨rfl, rfl⟩ | hmem
      · exact h.data
      · exact h.history _ hmem
    rw [bytesAt_of_dumpAt hb, Option.some.injEq] at hbase
    rw [← hbase, applyDiff_dump, Option.some.injEq] at happly
    have hdump : bytesAt log f.frameNum = some dump := by rw [bytesAt_of_dumpAt hd, happly]
    exact ⟨hdump, hhistory hdump hmem⟩
  | morph base sum escapes hbody hnew =>
    rw [hbody] at hf
    exact hf.elim

/-- **The agreement of the two ends.** -/
structure Agrees (s : RoamingLoop τ σ) : Prop where
  base : Base s.log s.server
  codec : s.client.applier = .dumpDiff
  /-- the client shows what is logged for the number it is at -/
  shown : ShownFits s.log s.client.shown
  /-- and so it did at every number it was at -/
  landed : ∀ l ∈ s.landed, bytesAt s.log l.1 = some l.2
  landed_shown : (s.client.appliedNum, s.client.appliedData) ∈ s.landed
  /-- the acknowledged frame is one the client was at -/
  acked : ∃ b, (s.server.producer.ackedNum, b) ∈ s.landed
  /-- every message in flight acknowledges a frame the client was at -/
  messages : ∀ m ∈ s.messages, m.capMorph = false ∧ ∃ b, (m.ackedFrame, b) ∈ s.landed
  /-- every frame in flight fits the log -/
  frames : ∀ f ∈ s.frames, Fits s.log f.frameNum f.body

theorem agrees_init (c : LoopConfig σ) : Agrees (init D c) where
  base := base_init D c
  codec := rfl
  shown := ⟨rfl, by intro b hb; simp [init, ClientState.shown] at hb⟩
  landed := by
    intro l hl
    rw [show (init D c).landed = [(0, [])] from rfl, List.mem_singleton] at hl
    subst hl
    rfl
  landed_shown := List.mem_singleton_self _
  acked := ⟨[], List.mem_singleton_self _⟩
  messages := by intro m hm; simp [init] at hm
  frames := by intro f hf; simp [init] at hf

theorem Agrees.extend {s : RoamingLoop τ σ} (h : Agrees s) {server : ServerLoop σ}
    {g : LoggedFrame} (hbase : Base (s.log ++ [g]) server)
    (hacked : server.producer.ackedNum = s.server.producer.ackedNum)
    (hf : Fits (s.log ++ [g]) f.frameNum f.body) :
    Agrees { s with server, frames := s.frames ++ [f], log := s.log ++ [g] } where
  base := hbase
  codec := h.codec
  shown := h.shown.append g
  landed := fun l hl => bytesAt_append (h.landed l hl) g
  landed_shown := h.landed_shown
  acked := by
    obtain ⟨b, hb⟩ := h.acked
    exact ⟨b, hacked ▸ hb⟩
  messages := h.messages
  frames := by
    intro f' hf'
    rcases List.mem_append.1 hf' with hf' | hf'
    · exact (h.frames f' hf').append g
    · rw [List.mem_singleton.1 hf']
      exact hf

theorem Agrees.server {s : RoamingLoop τ σ} (h : Agrees s) {server : ServerLoop σ}
    (hbase : Base s.log server) (hacked : server.producer.ackedNum = s.server.producer.ackedNum) :
    Agrees { s with server } :=
  { h with base := hbase, acked := by obtain ⟨b, hb⟩ := h.acked; exact ⟨b, hacked ▸ hb⟩ }

theorem Agrees.push {s : RoamingLoop τ σ} (h : Agrees s)
    (hf : Fits s.log f.frameNum f.body) : Agrees { s with frames := s.frames ++ [f] } := by
  refine { h with frames := ?_ }
  intro f' hf'
  rcases List.mem_append.1 hf' with hf' | hf'
  · exact h.frames f' hf'
  · rw [List.mem_singleton.1 hf']
    exact hf

theorem fits_visible {log : List LoggedFrame} {s : ServerLoop σ}
    (h : Base log s) (hkind : s.currentIsSb = false) : Fits log s.producer.currentNum (s.body D) := by
  have hcur : dumpAt log s.producer.current.num = some s.producer.current.data :=
    h.tracks.current_dump
  rw [body, hkind, h.noMorph]
  simp only [Bool.false_eq_true, if_false]
  rcases s.producer.encodeVisible_cases D with henc | ⟨d, hd, -, henc⟩
  · rw [henc, stampBaseSum_full]
    exact bytesAt_of_dumpAt hcur
  · rw [henc, ackedDump, hd, stampBaseSum_diff]
    exact ⟨d, _, h.tracks.acked_dump d hd, hcur, rfl⟩

theorem fits_advanceScrollback {log : List LoggedFrame} {s : ServerLoop σ}
    (h : Base log s) (hbase : s.producer.hasAckedBase = true) :
    Fits (log ++ [⟨false, s.advanceScrollback.producer.current.data⟩])
      s.advanceScrollback.producer.currentNum (s.advanceScrollback.body D) := by
  obtain ⟨d, hd⟩ := Option.isSome_iff_exists.1 hbase
  have hheld : s.producer.ackedBaseline.isSome = true := h.tracks.baseline_iff.trans hbase
  have hinherit : s.advanceScrollback.producer.current.data = d :=
    advanceScrollback_data hd hheld _
  have hnum : s.advanceScrollback.producer.ackedNum = s.producer.ackedNum :=
    s.producer.advanceScrollback_ackedNum _
  have hcur := h.advanceScrollback.tracks.current_dump
  refine ⟨d, ?_, hinherit ▸ hcur⟩
  rw [hnum]
  exact dumpAt_append (h.tracks.acked_dump d hd) _

/-! ### The condition on the steps -/

/-- A scrollback slot that an iteration sends again is sent on a base with the dump the slot
inherited. -/
def ReanchorsSoundly (s : RoamingLoop τ σ) : Act σ → Prop
  | .serve t => s.server.retransmits t = true → s.server.currentIsSb = true →
      dumpAt s.log s.server.producer.ackedNum = dumpAt s.log s.server.producer.currentNum
  | _ => True

instance (s : RoamingLoop τ σ) (a : Act σ) : Decidable (ReanchorsSoundly s a) := by
  unfold ReanchorsSoundly
  split <;> infer_instance

theorem fits_again {s : RoamingLoop τ σ} {t : Opportunity}
    (h : Base s.log s.server) (hok : ReanchorsSoundly s (.serve t)) (hre : s.server.retransmits t = true) :
    Fits s.log s.server.nudge.producer.currentNum (s.server.nudge.body D) := by
  have hnudge := h.nudge
  cases hkind : s.server.nudge.currentIsSb with
  | false => exact fits_visible D hnudge hkind
  | true =>
    have hcur := hnudge.tracks.current_dump
    rw [body, hkind, if_pos rfl]
    refine ⟨_, ?_, hcur⟩
    rw [nudge_currentIsSb] at hkind
    rw [nudge_producer] at hcur ⊢
    rw [hok hre hkind]
    exact hcur

/-- **An iteration keeps the agreement.** -/
theorem agrees_serve {s : RoamingLoop τ σ} {t : Opportunity} (h : Agrees s)
    (hok : ReanchorsSoundly s (.serve t)) : Agrees (s.serve D t) := by
  have hnudge := h.base.nudge
  have hserver : Agrees { s with server := s.server.nudge } :=
    h.server hnudge (by rw [nudge_producer])
  have hserved := serve_served D s t
  generalize s.serve D t = s' at hserved
  cases hserved with
  | visible =>
    refine h.extend hnudge.advanceVisible ?_ (fits_visible D hnudge.advanceVisible rfl)
    show s.server.nudge.producer.ackedNum = _
    rw [nudge_producer]
  | scrollback hbase =>
    rw [← nudge_producer] at hbase
    refine h.extend hnudge.advanceScrollback ?_ (fits_advanceScrollback D hnudge hbase)
    show (s.server.nudge.producer.advanceScrollback _).ackedNum = _
    rw [advanceScrollback_ackedNum, nudge_producer]
  | again hre => exact hserver.push (fits_again D h.base hok hre)
  | empty => exact hserver.push trivial
  | nothing => exact hserver

/-- **A message's arrival keeps the agreement**: it acknowledges a frame the client was at. -/
theorem agrees_onClientMessage {s : RoamingLoop τ σ} (h : Agrees s) {m : ClientMessage}
    (hm : m ∈ s.messages) : Agrees { s with server := s.server.onClientMessage m } := by
  obtain ⟨hmorph, b, hb⟩ := h.messages m hm
  refine { h with base := h.base.onClientMessage hmorph, acked := ?_ }
  have hacked : (s.server.onClientMessage m).producer.ackedNum = s.server.producer.ackedNum ∨
      (s.server.onClientMessage m).producer.ackedNum = m.ackedFrame := by
    rw [onClientMessage_producer]
    rcases s.server.producer.ack_cases m.ackedFrame with ⟨-, heq⟩ | ⟨-, -, heq⟩
    · rw [heq]
      split <;> exact .inl rfl
    · rw [heq]
      split <;> exact .inr rfl
  rcases hacked with heq | heq
  · rw [heq]
    exact h.acked
  · exact ⟨b, heq ▸ hb⟩

/-- **A frame's arrival keeps the agreement.** -/
theorem agrees_receive {s : RoamingLoop τ σ} (h : Agrees s)
    (hf : Fits s.log f.frameNum f.body) : Agrees (s.receive D f) := by
  have hshown : ShownFits s.log (s.client.applyFrame D f).1.shown :=
    h.shown.landing hf (s.client.applyFrame_landing D f)
  have hdata : bytesAt s.log (s.client.applyFrame D f).1.appliedNum =
      some (s.client.applyFrame D f).1.appliedData := hshown.data
  have hsub : ∀ l ∈ s.landed, l ∈ (s.receive D f).landed := by
    intro l hl
    simp only [receive]
    split
    · exact hl
    · exact List.mem_append_left _ hl
  refine
    { base := h.base
      codec := (s.client.applyFrame_applier D f).trans h.codec
      shown := hshown
      landed := ?_
      landed_shown := ?_
      acked := by obtain ⟨b, hb⟩ := h.acked; exact ⟨b, hsub _ hb⟩
      messages := fun m hm =>
        ⟨(h.messages m hm).1, by obtain ⟨b, hb⟩ := (h.messages m hm).2; exact ⟨b, hsub _ hb⟩⟩
      frames := h.frames }
  · intro l hl
    simp only [receive] at hl
    split at hl
    · exact h.landed l hl
    · rcases List.mem_append.1 hl with hl | hl
      · exact h.landed l hl
      · rw [List.mem_singleton.1 hl]
        exact hdata
  · show ((s.client.applyFrame D f).1.appliedNum, (s.client.applyFrame D f).1.appliedData) ∈
      (s.receive D f).landed
    simp only [receive]
    split
    case isTrue heq =>
      -- the number did not move, and the dump shown is the one logged for it
      have hold := h.shown.data
      have heq' : s.client.shown.num = (s.client.applyFrame D f).1.appliedNum := heq.symm
      rw [heq', hdata, Option.some.injEq] at hold
      rw [heq, hold]
      exact h.landed_shown
    case isFalse => exact List.mem_append_right _ (List.mem_singleton_self _)

/-- **A step that meets the condition keeps the agreement.** -/
theorem agrees_step (c : LoopConfig σ) {s s' : RoamingLoop τ σ} {a : Act σ}
    (h : Agrees s) (hok : ReanchorsSoundly s a) (hstep : step D c s a = some s') : Agrees s' := by
  cases a with
  | screen src term | overlay up src | sessionEnded =>
    rw [step, Option.some.injEq] at hstep
    subst hstep
    exact h.server ⟨h.base.tracks, h.base.kind, h.base.noMorph⟩ rfl
  | serve t =>
    rw [step, Option.some.injEq] at hstep
    exact hstep ▸ agrees_serve D h hok
  | deliverMessage i =>
    rw [step, Option.map_eq_some_iff] at hstep
    obtain ⟨m, hm, rfl⟩ := hstep
    exact agrees_onClientMessage h (List.mem_of_getElem? hm)
  | requestResync =>
    rw [step, Option.some.injEq] at hstep
    subst hstep
    exact ⟨h.base, h.codec, h.shown, h.landed, h.landed_shown, h.acked, h.messages, h.frames⟩
  | send shutdown scrollback =>
    rw [step, Option.some.injEq] at hstep
    subst hstep
    refine ⟨h.base, h.codec, h.shown, h.landed, h.landed_shown, h.acked, ?_, h.frames⟩
    intro m hm
    rcases List.mem_append.1 hm with hm | hm
    · exact h.messages m hm
    · rw [List.mem_singleton.1 hm]
      refine ⟨?_, _, h.landed_shown⟩
      show s.client.applier.advertisesMorph = false
      rw [h.codec]
      rfl
  | deliverFrame i =>
    rw [step, Option.map_eq_some_iff] at hstep
    obtain ⟨f, hf, rfl⟩ := hstep
    exact agrees_receive D h (h.frames f (List.mem_of_getElem? hf))

/-! ### Visible frame synchronisation -/

/-- **Visible frame synchronisation**: an acknowledged base that the server holds is what the client
showed when it came to that frame, and a diff the client accepts leaves it with the dump recorded
for the diff's frame. -/
structure VisibleSync (D : Display τ σ) (s : RoamingLoop τ σ) : Prop where
  /-- the held base for frame `n` is the client's dump at the moment its number became `n` -/
  base_eq : ∀ d, s.server.producer.ackedDump = some d → (s.server.producer.ackedNum, d.bytes) ∈ s.landed ∧
      ∀ b, (s.server.producer.ackedNum, b) ∈ s.landed → b = d.bytes
  /-- an accepted diff shows the dump recorded for its frame -/
  diff_eq : ∀ f ∈ s.frames, ∀ base sum diff, f.body = .diff base sum diff →
    (s.client.applyFrame D f).1.appliedNum ≠ s.client.appliedNum →
      (s.client.applyFrame D f).1.appliedNum = f.frameNum ∧
        bytesAt s.log f.frameNum = some (s.client.applyFrame D f).1.appliedData

theorem visibleSync_of_agrees {s : RoamingLoop τ σ} (h : Agrees s) :
    VisibleSync D s where
  base_eq := by
    intro d hd
    have hdump : bytesAt s.log s.server.producer.ackedNum = some d.bytes :=
      bytesAt_of_dumpAt (h.base.tracks.acked_dump d hd)
    have huniq : ∀ b, (s.server.producer.ackedNum, b) ∈ s.landed → b = d.bytes := by
      intro b hb
      have hb' := h.landed _ hb
      rw [hdump, Option.some.injEq] at hb'
      exact hb'.symm
    obtain ⟨b, hb⟩ := h.acked
    exact ⟨huniq b hb ▸ hb, huniq⟩
  diff_eq := by
    intro f hf base sum diff hbody hmoved
    have hl := s.client.applyFrame_landing D f
    have hshown := h.shown.landing (h.frames f hf) hl
    have hnum : (s.client.applyFrame D f).1.shown.num = f.frameNum := by
      generalize (s.client.applyFrame D f).1 = st at hl hmoved
      generalize hv : st.shown = v at hl
      cases hl with
      | rejected =>
        have hsame : st.appliedNum = s.client.appliedNum := congrArg Shown.num hv
        exact absurd hsame hmoved
      | scrollback _ _ _ | full _ _ _ _ _ | diff _ _ _ _ _ _ _ _ _ _ _ _ | morph _ _ _ _ _ => rfl
    exact ⟨hnum, hnum ▸ hshown.data⟩

/-- **Visible frame synchronisation, for the runs whose steps meet the condition**: whatever the
session prints, and whatever is lost, duplicated or reordered. -/
theorem visible_sync_of_reanchorsSoundly (D : Display τ σ) (c : LoopConfig σ) (as : List (Act σ))
    {s : RoamingLoop τ σ} (hok : Runs.AllOk ReanchorsSoundly (step D c) (init D c) as)
    (hrun : Runs.exec (step D c) (init D c) as = some s) : VisibleSync D s :=
  visibleSync_of_agrees D <|
    Runs.exec_invariant_of_allOk (fun _ _ _ h hok hstep => agrees_step D c h hok hstep)
      (agrees_init D c) hok hrun

/-! ### A slot sent again on another base -/

/-- A screen of twenty blanks and one letter. -/
def sampleScreen (generation : ℕ) (letter : UInt8) : Screen Unit where
  generation := generation
  dump := ⟨List.replicate 20 32 ++ [letter], by simp⟩
  snapshot := ()
  dims := (24, 80)

/-- A loop over an empty screen, without checksums. -/
def sampleConfig : LoopConfig Unit where
  rows := 24
  cols := 80
  src := { generation := 0, dump := .empty, snapshot := (), dims := (24, 80) }
  baseSums := false

/-- Frames 1 and 2 are shown and a scrollback slot is made in between, while 1 is the acknowledged
frame; the slot is lost, 2 is acknowledged, and the slot is sent again. -/
def leapRun : List (Act Unit) :=
  [.send false true, .deliverMessage 0,
    .screen (sampleScreen 1 65) {}, .serve { paced := true }, .deliverFrame 0,
    .send false true, .deliverMessage 1, .screen (sampleScreen 2 66) {}, .serve { paced := true },
    .screen (sampleScreen 2 66) { sbTotal := 1, ring := [[97]] }, .serve { paced := true },
    .deliverFrame 1, .send false true, .deliverMessage 2,
    .serve { paced := false, rtoDue := true }, .deliverFrame 3, .send false true, .deliverMessage 3]

/-- **Synchronisation fails in that run**: the base held for frame 3 is the dump of frame 1, and the
client came to frame 3 showing that of frame 2. -/
theorem visible_sync_fails :
    ∃ s, Runs.exec (step nullDisplay sampleConfig) (init nullDisplay sampleConfig) leapRun = some s ∧
      ¬ VisibleSync nullDisplay s := by
  refine ⟨_, rfl, ?_⟩
  intro h
  have hmem := (h.base_eq _ rfl).1
  revert hmem
  decide

/-- A run with a slot sent again that meets the condition. -/
def reanchorRun : List (Act Unit) :=
  [.send false true, .deliverMessage 0,
    .screen (sampleScreen 1 65) {}, .serve { paced := true }, .deliverFrame 0,
    .send false true, .deliverMessage 1,
    .screen (sampleScreen 1 65) { sbTotal := 1, ring := [[97]] }, .serve { paced := true },
    .serve { paced := false, rtoDue := true }, .deliverFrame 2, .send false true, .deliverMessage 2]

theorem visible_sync_reanchorRun :
    ∃ s, Runs.exec (step nullDisplay sampleConfig) (init nullDisplay sampleConfig) reanchorRun =
        some s ∧ VisibleSync nullDisplay s ∧ s.server.producer.ackedNum = 2 :=
  ⟨_, rfl, visible_sync_of_reanchorsSoundly nullDisplay sampleConfig reanchorRun
    (by decide) rfl, rfl⟩

end RoamingLoop

end Posh
