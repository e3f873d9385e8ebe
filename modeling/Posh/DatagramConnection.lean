/-
**Roaming follows the newest datagram.**

A connection carries sealed datagrams between two sockets.  The server learns where its peer is from the
datagrams that arrive, and so the address follows a peer that moves.  Datagrams may be late: one that is
within the anti-replay window still delivers its payload, but only a datagram newer than all before it may
set the peer's address, the time stamp to echo or the round trip estimate.

A datagram that arrives is any byte string from any address.
-/

import Posh.DatagramSession

set_option autoImplicit false

namespace Posh

theorem Session.sealDatagram_replay (c : Aead) (s : Session) (plaintext : Bytes) :
    (s.sealDatagram c plaintext).2.replay = s.replay := by
  rw [sealDatagram]
  split <;> rfl

/-! ### Time stamps and the round trip -/

/-- The time stamp that says there is none. -/
def tsNone : UInt16 := 0xffff

/-- The clock in sixteen bits. -/
def timestamp16 (now : UInt64) : UInt16 :=
  let ts := UInt16.ofNat (now.toNat % 65536)
  if ts = tsNone then 0 else ts

def timestampDiff (tsnew tsold : UInt16) : UInt16 := tsnew - tsold

/-- The smoothed round trip time. -/
structure RttEstimator where
  srtt : Float := 1000.0
  rttvar : Float := 500.0
  hit : Bool := false

/-- One measurement; wild ones are passed over, and the first one is taken as it is. -/
def RttEstimator.sample (e : RttEstimator) (r : Float) : RttEstimator :=
  if r ≥ 5000.0 then e
  else if !e.hit then { srtt := r, rttvar := r / 2.0, hit := true }
  else
    let alpha : Float := 1.0 / 8.0
    let beta : Float := 1.0 / 4.0
    { e with
      rttvar := (1.0 - beta) * e.rttvar + beta * (e.srtt - r).abs
      srtt := (1.0 - alpha) * e.srtt + alpha * r }

/-! ### Connections -/

/-- The most bytes that are read of a datagram. -/
def recvBufferLen : ℕ := 2048

/-- One end of a connection; `α` are the addresses. -/
structure Connection (α : Type) where
  session : Session
  isServer : Bool
  remote : Option α
  /-- the peer's time stamp, and when it arrived -/
  savedTimestamp : Option (UInt16 × UInt64) := none
  rtt : RttEstimator := {}
  /-- only a datagram with this number or a later one is the newest -/
  expectedReceiverSeq : UInt64 := 0
  bytesTx : ℕ := 0
  bytesRx : ℕ := 0

namespace Connection

variable {α : Type}

/-- The server, which no datagram has reached. -/
def server : Connection α where
  session := { sendDir := .toClient }
  isServer := true
  remote := none

/-- The client of a server's address. -/
def client (remote : α) : Connection α where
  session := { sendDir := .toServer }
  isServer := false
  remote := some remote

/-- The number in two bytes of a text. -/
def u16At (plaintext : Bytes) (pos : ℕ) : UInt16 :=
  UInt16.ofNat (WordBytes.ofBe ((plaintext.drop pos).take 2))

/-- What the newest datagram tells. -/
def learn (conn : Connection α) (seq : UInt64) (plaintext : Bytes) (source : α) (now : UInt64) :
    Connection α :=
  let ts := u16At plaintext 0
  let reply := u16At plaintext 2
  { conn with
    expectedReceiverSeq := seq + 1
    savedTimestamp := if ts ≠ tsNone then some (ts, now) else conn.savedTimestamp
    rtt :=
      if reply ≠ tsNone then
        conn.rtt.sample (timestampDiff (timestamp16 now) reply).toNat.toFloat
      else conn.rtt
    remote := if conn.isServer then some source else conn.remote }

/-- Receives one datagram; nothing comes of one that is refused. -/
def recv (c : Aead) (conn : Connection α) (datagram : Bytes) (source : α) (now : UInt64) :
    Connection α × Option Bytes :=
  let buf := datagram.take recvBufferLen
  let conn := { conn with bytesRx := conn.bytesRx + buf.length }
  match conn.session.openDatagram c buf with
  | (.error _, session) => ({ conn with session }, none)
  | (.ok (seq, plaintext), session) =>
    let conn := { conn with session }
    if plaintext.length < 4 then (conn, none)
    else if seq ≥ conn.expectedReceiverSeq then
      (conn.learn seq plaintext source now, some (plaintext.drop 4))
    else (conn, some (plaintext.drop 4))

/-- The time stamp to echo, advanced by how long it was held, is used up; one held too long stays. -/
def takeReply (saved : Option (UInt16 × UInt64)) (now : UInt64) :
    UInt16 × Option (UInt16 × UInt64) :=
  match saved with
  | some (ts, since) =>
    if now.toNat - since.toNat < 1000 then (ts + UInt16.ofNat (now - since).toNat, none)
    else (tsNone, saved)
  | none => (tsNone, none)

/-- Seals and sends one payload to the peer, if there is one. -/
def transmit (c : Aead) (conn : Connection α) (payload : Bytes) (now : UInt64) :
    Connection α × Except SessionError (Option (α × Bytes)) :=
  match conn.remote with
  | none => (conn, .ok none)
  | some remote =>
    let (reply, savedTimestamp) := takeReply conn.savedTimestamp now
    let packet := WordBytes.be 2 (timestamp16 now).toNat ++ WordBytes.be 2 reply.toNat ++ payload
    match conn.session.sealDatagram c packet with
    | (.error e, session) => ({ conn with session, savedTimestamp }, .error e)
    | (.ok dgram, session) =>
      ({ conn with session, savedTimestamp, bytesTx := conn.bytesTx + dgram.length },
        .ok (some (remote, dgram)))

/-! ### One datagram -/

variable {c : Aead} {conn : Connection α} {datagram : Bytes} {source : α} {now : UInt64} {opened : List UInt64}

/-- What is taken of a datagram: its number and its text, if it opens and has room for the stamps. -/
def taken (c : Aead) (conn : Connection α) (datagram : Bytes) : Option (UInt64 × Bytes) :=
  match conn.session.openDatagram c (datagram.take recvBufferLen) with
  | (.ok (seq, plaintext), _) => if plaintext.length < 4 then none else some (seq, plaintext)
  | (.error _, _) => none

/-- The number of a datagram that opens. -/
def openedSeq (c : Aead) (conn : Connection α) (datagram : Bytes) : Option UInt64 :=
  (conn.session.openDatagram c (datagram.take recvBufferLen)).1.toOption.map Prod.fst

/-- Nothing that only the newest datagram may set is changed. -/
structure Unmoved (conn conn' : Connection α) : Prop where
  remote : conn'.remote = conn.remote
  savedTimestamp : conn'.savedTimestamp = conn.savedTimestamp
  rtt : conn'.rtt = conn.rtt
  expectedReceiverSeq : conn'.expectedReceiverSeq = conn.expectedReceiverSeq

/-- **What one datagram does**: a refused one nothing, a late one delivers, and the newest one is learned
from as well. -/
theorem recv_spec (c : Aead) (conn : Connection α) (datagram : Bytes) (source : α) (now : UInt64) :
    (conn.recv c datagram source now).1.session =
        (conn.session.openDatagram c (datagram.take recvBufferLen)).2 ∧
      (conn.recv c datagram source now).1.isServer = conn.isServer ∧ match conn.taken c datagram with
      | none => (conn.recv c datagram source now).2 = none ∧ Unmoved conn (conn.recv c datagram source now).1
      | some (seq, plaintext) => (conn.recv c datagram source now).2 = some (plaintext.drop 4) ∧
          if seq < conn.expectedReceiverSeq then Unmoved conn (conn.recv c datagram source now).1
          else (conn.recv c datagram source now).1.expectedReceiverSeq = seq + 1 ∧
            (conn.recv c datagram source now).1.remote =
              if conn.isServer then some source else conn.remote := by
  rw [recv, taken]
  rcases conn.session.openDatagram c (datagram.take recvBufferLen) with ⟨opened | ⟨seq, plaintext⟩, session⟩
  · exact ⟨rfl, rfl, rfl, rfl, rfl, rfl, rfl⟩
  · dsimp only
    by_cases hshort : plaintext.length < 4
    · rw [if_pos hshort, if_pos hshort]
      exact ⟨rfl, rfl, rfl, rfl, rfl, rfl, rfl⟩
    · rw [if_neg hshort, if_neg hshort]
      by_cases hlate : seq < conn.expectedReceiverSeq
      · have hnot : ¬seq ≥ conn.expectedReceiverSeq := UInt64.not_le.mpr hlate
        rw [if_neg hnot]
        refine ⟨rfl, rfl, rfl, ?_⟩
        rw [if_pos hlate]
        exact ⟨rfl, rfl, rfl, rfl⟩
      · have hge : seq ≥ conn.expectedReceiverSeq := UInt64.not_lt.mp hlate
        rw [if_pos hge]
        refine ⟨rfl, rfl, rfl, ?_⟩
        rw [if_neg hlate]
        exact ⟨rfl, rfl⟩

/-- A datagram is from the peer: it is long enough, of the other direction, and authentic. -/
def FromPeer (c : Aead) (conn : Connection α) (datagram : Bytes) (seq : UInt64) (plaintext : Bytes) :
    Prop :=
  let buf := datagram.take recvBufferLen
  sealOverhead ≤ buf.length ∧ directionOf (nonceVal buf) ≠ conn.session.sendDir ∧
    c.decrypt (nonceBytes (nonceVal buf)) (buf.drop 8) = some plaintext ∧ seq = nonceVal buf &&& sequenceMask

/-- **A datagram opens exactly when it is from the peer and fresh**, and its number is then known. -/
theorem open_cases (h : conn.session.replay.Tracks opened) (c : Aead) (datagram : Bytes) :
    (∃ seq plaintext session, conn.session.openDatagram c (datagram.take recvBufferLen) =
        (.ok (seq, plaintext), session) ∧ session.replay.Tracks (seq :: opened) ∧
        FromPeer c conn datagram seq plaintext ∧ ReplayWindow.Fresh opened seq) ∨
      (∃ e, conn.session.openDatagram c (datagram.take recvBufferLen) = (.error e, conn.session)) ∧
        ∀ seq plaintext, FromPeer c conn datagram seq plaintext → ¬ReplayWindow.Fresh opened seq := by
  obtain ⟨buf, hbuf⟩ : ∃ buf, datagram.take recvBufferLen = buf := ⟨_, rfl⟩
  rw [Session.openDatagram]
  simp only [FromPeer, hbuf]
  by_cases hshort : buf.length < sealOverhead
  · rw [if_pos hshort]
    exact .inr ⟨⟨_, rfl⟩, fun _ _ hpeer => absurd hpeer.1 (Nat.not_le.mpr hshort)⟩
  · rw [if_neg hshort]
    by_cases hdir : directionOf (nonceVal buf) = conn.session.sendDir
    · rw [if_pos hdir]
      exact .inr ⟨⟨_, rfl⟩, fun _ _ hpeer => absurd hdir hpeer.2.1⟩
    · rw [if_neg hdir]
      cases hdecrypt : c.decrypt (nonceBytes (nonceVal buf)) (buf.drop 8) with
      | none =>
        refine .inr ⟨⟨_, rfl⟩, fun _ _ hpeer => ?_⟩
        cases hpeer.2.2.1
      | some plaintext =>
        rcases h.check (nonceVal buf &&& sequenceMask) with ⟨hfresh, w, hw, htracks⟩ | ⟨hstale, e, he⟩
        · refine .inl ⟨_, plaintext, { conn.session with replay := w }, ?_, htracks,
            ⟨Nat.le_of_not_lt hshort, hdir, rfl, rfl⟩, hfresh⟩
          simp only [hw]
        · refine .inr ⟨⟨.replay e, by simp only [he]⟩, fun seq _ hpeer => ?_⟩
          rw [hpeer.2.2.2]
          exact hstale

variable {plaintext : Bytes} {seq : UInt64}

/-- **Which datagrams are taken**: those from the peer that are fresh and have room for the stamps. -/
theorem taken_iff (h : conn.session.replay.Tracks opened) : conn.taken c datagram = some (seq, plaintext) ↔
      FromPeer c conn datagram seq plaintext ∧ ReplayWindow.Fresh opened seq ∧ 4 ≤ plaintext.length := by
  rw [taken]
  rcases open_cases h c datagram with ⟨s, pt, session, hopen, -, hpeer, hfresh⟩ | ⟨⟨e, hopen⟩, hnone⟩
  · rw [hopen]
    dsimp only
    constructor
    · intro htaken
      split at htaken
      · cases htaken
      · cases htaken
        exact ⟨hpeer, hfresh, Nat.le_of_not_lt ‹_›⟩
    · rintro ⟨hpeer', -, hlong⟩
      have hpt : pt = plaintext := Option.some.inj (hpeer.2.2.1.symm.trans hpeer'.2.2.1)
      have hseq : s = seq := hpeer.2.2.2.trans hpeer'.2.2.2.symm
      rw [hpt, hseq, if_neg (Nat.not_lt.mpr hlong)]
  · rw [hopen]
    constructor
    · intro htaken
      cases htaken
    · rintro ⟨hpeer, hfresh, -⟩
      exact absurd hfresh (hnone seq plaintext hpeer)

theorem FromPeer.seq_lt (h : FromPeer c conn datagram seq plaintext) : seq.toNat < 2 ^ 63 := by
  rw [h.2.2.2, UInt64.toNat_and]
  exact Nat.lt_of_le_of_lt Nat.and_le_right (by decide)

theorem transmit_keeps (c : Aead) (conn : Connection α) (payload : Bytes) (now : UInt64) :
    (conn.transmit c payload now).1.remote = conn.remote ∧
      (conn.transmit c payload now).1.isServer = conn.isServer ∧
      (conn.transmit c payload now).1.expectedReceiverSeq = conn.expectedReceiverSeq ∧
      (conn.transmit c payload now).1.session.replay = conn.session.replay := by
  rw [transmit]
  cases hremote : conn.remote with
  | none => exact ⟨hremote, rfl, rfl, rfl⟩
  | some remote =>
    dsimp only
    split
    case h_1 e session heq =>
      refine ⟨rfl, rfl, rfl, ?_⟩
      rw [← Session.sealDatagram_replay c conn.session, heq]
    case h_2 dgram session heq =>
      refine ⟨rfl, rfl, rfl, ?_⟩
      rw [← Session.sealDatagram_replay c conn.session, heq]

end Connection

/-! ### Runs -/

/-- A datagram that was taken: its number, and where it was from. -/
structure Arrival (α : Type) where
  seq : UInt64
  source : α
  deriving DecidableEq, Repr

/-- A connection, the numbers it opened and the datagrams it took, newest arrival first. -/
structure ConnectionRun (α : Type) where
  conn : Connection α
  opened : List UInt64 := []
  taken : List (Arrival α) := []

inductive ConnectionAct (α : Type) where
  | recv (datagram : Bytes) (source : α) (now : UInt64)
  | transmit (payload : Bytes) (now : UInt64)

namespace ConnectionRun

variable {α : Type} {c : Aead} {s : ConnectionRun α} {conn : Connection α}

/-- One datagram arrives or is sent, and the books are kept. -/
def step (c : Aead) (s : ConnectionRun α) : ConnectionAct α → ConnectionRun α
  | .recv datagram source now =>
    { conn := (s.conn.recv c datagram source now).1
      opened := (s.conn.openedSeq c datagram).toList ++ s.opened
      taken := ((s.conn.taken c datagram).map fun t => ⟨t.1, source⟩).toList ++ s.taken }
  | .transmit payload now => { s with conn := (s.conn.transmit c payload now).1 }

/-- A server after some datagrams. -/
def run (c : Aead) (as : List (ConnectionAct α)) : ConnectionRun α :=
  as.foldl (step c) { conn := .server }

/-- **The address and the expected number are the newest datagram's**, the one with the highest number of
those that were taken. -/
def FollowsNewest (s : ConnectionRun α) : Prop :=
  match s.taken with
  | [] => s.conn.remote = none ∧ s.conn.expectedReceiverSeq = 0
  | _ => ∃ x ∈ s.taken, (∀ y ∈ s.taken, y ≠ x → y.seq < x.seq) ∧ s.conn.remote = some x.source ∧
      s.conn.expectedReceiverSeq.toNat = x.seq.toNat + 1

/-- What the books of a run say of its connection. -/
structure Books (s : ConnectionRun α) : Prop where
  isServer : s.conn.isServer = true
  window : s.conn.session.replay.Tracks s.opened
  opened : ∀ x ∈ s.taken, x.seq ∈ s.opened
  expected : ∀ x ∈ s.taken, x.seq.toNat < s.conn.expectedReceiverSeq.toNat
  newest : s.FollowsNewest

theorem books_initial : Books ({ conn := .server } : ConnectionRun α) where
  isServer := rfl
  window := ReplayWindow.tracks_new
  opened := List.forall_mem_nil _
  expected := List.forall_mem_nil _
  newest := ⟨rfl, rfl⟩

theorem Books.pass (h : s.Books) {opened : List UInt64}
    (hserver : conn.isServer = s.conn.isServer) (hunmoved : s.conn.Unmoved conn)
    (hwindow : conn.session.replay.Tracks opened) (hsub : ∀ n ∈ s.opened, n ∈ opened) :
    Books { s with conn, opened } where
  isServer := hserver.trans h.isServer
  window := hwindow
  opened := fun x hx => hsub _ (h.opened x hx)
  expected := fun x hx => by
    rw [hunmoved.expectedReceiverSeq]
    exact h.expected x hx
  newest := by
    have hnewest := h.newest
    rw [FollowsNewest] at hnewest ⊢
    rw [hunmoved.remote, hunmoved.expectedReceiverSeq]
    exact hnewest

theorem Books.late (h : s.Books) {seq : UInt64} (hlate : seq < s.conn.expectedReceiverSeq)
    (hfresh : seq ∉ s.opened) (source : α) (hunmoved : s.conn.Unmoved conn) :
    FollowsNewest { s with conn, taken := ⟨seq, source⟩ :: s.taken } := by
  have hnewest := h.newest
  rw [FollowsNewest] at hnewest ⊢
  have hpos : 0 < s.conn.expectedReceiverSeq.toNat :=
    Nat.lt_of_le_of_lt (Nat.zero_le _) (UInt64.lt_iff_toNat_lt.mp hlate)
  split at hnewest
  · rw [hnewest.2] at hpos
    cases hpos
  · obtain ⟨x, hx, hlt, hremote, hexpected⟩ := hnewest
    refine ⟨x, List.mem_cons_of_mem _ hx, fun y hy hne => ?_, hunmoved.remote.trans hremote, ?_⟩
    · rcases List.mem_cons.mp hy with rfl | hy
      · -- the number is at most the newest one's, which is not fresh
        have hne' : seq ≠ x.seq := fun heq => hfresh (heq ▸ h.opened x hx)
        have hne'' : seq.toNat ≠ x.seq.toNat := fun heq => hne' (UInt64.toNat_inj.mp heq)
        have hle := UInt64.lt_iff_toNat_lt.mp hlate
        exact UInt64.lt_iff_toNat_lt.mpr (by show seq.toNat < _; omega)
      · exact hlt y hy hne
    · rw [hunmoved.expectedReceiverSeq]
      exact hexpected

/-- **One datagram keeps the books.** -/
theorem Books.recv (h : s.Books) (datagram : Bytes) (source : α) (now : UInt64) :
    Books (s.step c (.recv datagram source now)) := by
  obtain ⟨hsession, hserver, htaken⟩ := s.conn.recv_spec c datagram source now
  rw [step, Connection.openedSeq]
  rcases Connection.open_cases h.window c datagram with
    ⟨seq, plaintext, session, hopen, hwindow, hpeer, hfresh⟩ | ⟨⟨e, hopen⟩, -⟩
  · have hsub : ∀ n ∈ s.opened, n ∈ seq :: s.opened := fun n hn => List.mem_cons_of_mem _ hn
    rw [hopen] at hsession ⊢
    have hwindow' : (s.conn.recv c datagram source now).1.session.replay.Tracks (seq :: s.opened) := by
      rw [hsession]
      exact hwindow
    rw [Connection.taken, hopen] at htaken ⊢
    dsimp only at htaken ⊢
    by_cases hshort : plaintext.length < 4
    · rw [if_pos hshort] at htaken ⊢
      exact h.pass hserver htaken.2 hwindow' hsub
    · rw [if_neg hshort] at htaken ⊢
      dsimp only at htaken
      by_cases hlate : seq < s.conn.expectedReceiverSeq
      · rw [if_pos hlate] at htaken
        have hpass := h.pass hserver htaken.2 hwindow' hsub
        refine ⟨hpass.isServer, hwindow', ?_, ?_, h.late hlate hfresh.1 source htaken.2⟩
        · exact List.forall_mem_cons.mpr ⟨List.mem_cons_self, hpass.opened⟩
        · refine List.forall_mem_cons.mpr ⟨?_, hpass.expected⟩
          show seq.toNat < (s.conn.recv c datagram source now).1.expectedReceiverSeq.toNat
          rw [htaken.2.expectedReceiverSeq]
          exact UInt64.lt_iff_toNat_lt.mp hlate
      · rw [if_neg hlate, h.isServer, if_pos rfl] at htaken
        obtain ⟨-, hexpected, hremote⟩ := htaken
        have hlt := hpeer.seq_lt
        have hnext : (s.conn.recv c datagram source now).1.expectedReceiverSeq.toNat = seq.toNat + 1 := by
          rw [hexpected, UInt64.toNat_add]
          exact Nat.mod_eq_of_lt (by show seq.toNat + 1 < 2 ^ 64; omega)
        have hge : s.conn.expectedReceiverSeq.toNat ≤ seq.toNat :=
          UInt64.le_iff_toNat_le.mp (UInt64.not_lt.mp hlate)
        have hbelow : ∀ x ∈ s.taken, x.seq.toNat < seq.toNat := fun x hx =>
          Nat.lt_of_lt_of_le (h.expected x hx) hge
        refine ⟨hserver.trans h.isServer, hwindow', ?_, ?_, ?_⟩
        · exact List.forall_mem_cons.mpr ⟨List.mem_cons_self, fun x hx => hsub _ (h.opened x hx)⟩
        · show ∀ x ∈ (⟨seq, source⟩ : Arrival α) :: s.taken, x.seq.toNat <
            (s.conn.recv c datagram source now).1.expectedReceiverSeq.toNat
          rw [hnext]
          exact List.forall_mem_cons.mpr ⟨Nat.lt_succ_self _, fun x hx =>
            Nat.lt_succ_of_lt (hbelow x hx)⟩
        · refine ⟨⟨seq, source⟩, List.mem_cons_self, fun y hy hne => ?_, hremote, hnext⟩
          rcases List.mem_cons.mp hy with rfl | hy
          · exact absurd rfl hne
          · exact UInt64.lt_iff_toNat_lt.mpr (hbelow y hy)
  · rw [hopen] at hsession ⊢
    have hwindow : (s.conn.recv c datagram source now).1.session.replay.Tracks s.opened := by
      rw [hsession]
      exact h.window
    rw [Connection.taken, hopen] at htaken ⊢
    exact h.pass hserver htaken.2 hwindow fun n hn => hn

theorem Books.transmit (h : s.Books) (payload : Bytes) (now : UInt64) :
    Books (s.step c (.transmit payload now)) := by
  obtain ⟨hremote, hserver, hexpected, hreplay⟩ := s.conn.transmit_keeps c payload now
  refine ⟨hserver.trans h.isServer, ?_, h.opened, ?_, ?_⟩
  · show (s.conn.transmit c payload now).1.session.replay.Tracks s.opened
    rw [hreplay]
    exact h.window
  · intro x hx
    show _ < (s.conn.transmit c payload now).1.expectedReceiverSeq.toNat
    rw [hexpected]
    exact h.expected x hx
  · have hnewest := h.newest
    rw [FollowsNewest] at hnewest
    show FollowsNewest { s with conn := (s.conn.transmit c payload now).1 }
    rw [FollowsNewest, hremote, hexpected]
    exact hnewest

theorem books_run (c : Aead) (as : List (ConnectionAct α)) : (run c as).Books := by
  induction as using List.reverseRecOn with
  | nil => exact books_initial
  | append_singleton as a ih =>
    rw [run, List.foldl_append, List.foldl_cons, List.foldl_nil]
    cases a with
    | recv datagram source now => exact ih.recv datagram source now
    | transmit payload now => exact ih.transmit payload now

/-- **The peer's address is the source of the newest datagram**: after any datagrams that arrived at a
server and were sent by it, its peer's address and the number it expects are those of the taken datagram
with the highest number.  A datagram is taken when it is from the peer, fresh and long enough; one that is
not taken gives nothing and changes nothing of the address, the time stamp and the round trip, and one that
is late gives its payload and changes nothing either. -/
theorem roaming (c : Aead) (as : List (ConnectionAct α)) :
    (run c as).FollowsNewest ∧
      (∀ datagram seq plaintext, (run c as).conn.taken c datagram = some (seq, plaintext) ↔
        (run c as).conn.FromPeer c datagram seq plaintext ∧
          ReplayWindow.Fresh (run c as).opened seq ∧ 4 ≤ plaintext.length) ∧
      ∀ (datagram : Bytes) (source : α) (now : UInt64),
        let after := (run c as).conn.recv c datagram source now
        match (run c as).conn.taken c datagram with
        | none => after.2 = none ∧ (run c as).conn.Unmoved after.1
        | some (seq, plaintext) => after.2 = some (plaintext.drop 4) ∧
            (seq < (run c as).conn.expectedReceiverSeq → (run c as).conn.Unmoved after.1) := by
  have hbooks := books_run c as
  refine ⟨hbooks.newest, fun datagram seq plaintext => Connection.taken_iff hbooks.window, ?_⟩
  intro datagram source now
  obtain ⟨-, -, hspec⟩ := (run c as).conn.recv_spec c datagram source now
  dsimp only
  cases htaken : (run c as).conn.taken c datagram with
  | none =>
    rw [htaken] at hspec
    exact hspec
  | some t =>
    rw [htaken] at hspec
    refine ⟨hspec.1, fun hlate => ?_⟩
    have hthen := hspec.2
    rw [if_pos hlate] at hthen
    exact hthen

end ConnectionRun

end Posh
