/-
**Sealed datagrams between two sessions.**

A session seals what it sends under its key, with a nonce that packs its direction and a sequence number,
and opens what arrives: it refuses its own direction, then what does not authenticate, and only then
asks the anti-replay window.  The two sessions of a connection share one key, so their nonces must differ
although each counts for itself.

The cipher is a pair of functions about which nothing is assumed.  The network is any: an action of the
system hands any byte string to either session.  That the cipher opens only what one of the two sessions
sealed is the condition `Authentic` on the actions.
-/

import Mathlib.Data.List.Nodup
import Posh.InputStream
import Posh.Lib.WordBytes
import Posh.ReplayWindow

set_option autoImplicit false

namespace Posh

/-! ### Nonces -/

/-- The direction a session seals in. -/
inductive Direction where
  | toServer
  | toClient
  deriving DecidableEq, Repr

def directionMask : UInt64 := (1 : UInt64) <<< (63 : UInt64)

def sequenceMask : UInt64 := ~~~directionMask

/-- The direction in a nonce value's top bit. -/
def Direction.bit : Direction → UInt64
  | toClient => directionMask
  | toServer => 0

/-- The direction that a nonce value carries. -/
def directionOf (val : UInt64) : Direction :=
  if val &&& directionMask ≠ 0 then .toClient else .toServer

/-- A nonce value, padded with zeros to 96 bits. -/
def nonceBytes (val : UInt64) : Bytes := List.replicate 4 0 ++ WordBytes.be 8 val.toNat

/-- The nonce value at the front of a datagram. -/
def nonceVal (datagram : Bytes) : UInt64 := UInt64.ofNat (WordBytes.ofBe (datagram.take 8))

/-! ### Sessions -/

/-- An authenticated cipher under a fixed key: what it makes of a nonce and a text. -/
structure Aead where
  encrypt : Bytes → Bytes → Option Bytes
  decrypt : Bytes → Bytes → Option Bytes

/-- A cipher that shows the text and tags it with the nonce. -/
def taggingAead : Aead where
  encrypt nonce plaintext := some (plaintext ++ nonce ++ List.replicate 4 0)
  decrypt nonce ct :=
    let plaintext := ct.take (ct.length - 16)
    if ct = plaintext ++ nonce ++ List.replicate 4 0 then some plaintext else none

/-- Why a session gives nothing. -/
inductive SessionError where
  | encryptionFailed
  | tooShort
  | wrongDirection
  | authenticationFailed
  | replay (e : ReplayError)
  deriving DecidableEq, Repr

/-- The text of an error. -/
def SessionError.message : SessionError → String
  | encryptionFailed => "encryption failed"
  | tooShort => "datagram too short"
  | wrongDirection => "wrong packet direction"
  | authenticationFailed => "authentication failed"
  | replay e => e.message

/-- The nonce prefix and the tag. -/
def sealOverhead : ℕ := 8 + 16

/-- One end of a connection. -/
structure Session where
  sendDir : Direction
  nextSeq : UInt64 := 0
  replay : ReplayWindow := {}
  deriving DecidableEq, Repr

namespace Session

/-- The nonce value of the next datagram. -/
def sealVal (s : Session) : UInt64 := s.sendDir.bit ||| (s.nextSeq &&& sequenceMask)

/-- Encrypts a text; the number is used up even if that fails. -/
def sealDatagram (c : Aead) (s : Session) (plaintext : Bytes) :
    Except SessionError Bytes × Session :=
  let s' := { s with nextSeq := s.nextSeq + 1 }
  match c.encrypt (nonceBytes s.sealVal) plaintext with
  | some ct => (.ok (WordBytes.be 8 s.sealVal.toNat ++ ct), s')
  | none => (.error .encryptionFailed, s')

/-- Authenticates and decrypts a datagram from the peer: its number and its text.  The window is asked
only about what is authentic. -/
def openDatagram (c : Aead) (s : Session) (datagram : Bytes) :
    Except SessionError (UInt64 × Bytes) × Session :=
  if datagram.length < sealOverhead then (.error .tooShort, s)
  else
    let val := nonceVal datagram
    if directionOf val = s.sendDir then (.error .wrongDirection, s)
    else
      match c.decrypt (nonceBytes val) (datagram.drop 8) with
      | none => (.error .authenticationFailed, s)
      | some pt =>
        let seq := val &&& sequenceMask
        match s.replay.check seq with
        | .ok w => (.ok (seq, pt), { s with replay := w })
        | .error e => (.error (.replay e), s)

end Session

/-- **What opening does**: nothing, or it delivers a datagram of the other direction whose number the
window takes. -/
theorem Session.openDatagram_cases (c : Aead) (s : Session) (datagram : Bytes) :
    (∃ e, s.openDatagram c datagram = (.error e, s)) ∨ ∃ pt w, directionOf (nonceVal datagram) ≠ s.sendDir ∧
        c.decrypt (nonceBytes (nonceVal datagram)) (datagram.drop 8) = some pt ∧
        s.replay.check (nonceVal datagram &&& sequenceMask) = .ok w ∧ s.openDatagram c datagram =
          (.ok (nonceVal datagram &&& sequenceMask, pt), { s with replay := w }) := by
  rw [openDatagram]
  split
  · exact .inl ⟨_, rfl⟩
  · dsimp only
    split
    · exact .inl ⟨_, rfl⟩
    · rename_i hdir
      split
      · exact .inl ⟨_, rfl⟩
      · rename_i pt hpt
        split
        · rename_i w hw
          exact .inr ⟨pt, w, hdir, hpt, hw, rfl⟩
        · exact .inl ⟨_, rfl⟩

/-! ### What a nonce packs -/

variable {i : ℕ}

theorem bitOf_directionMask (hi : i < 64) : bitOf directionMask i = decide (i = 63) :=
  bitOf_one_shiftLeft (k := 63) (by decide) hi

theorem bitOf_sequenceMask (hi : i < 64) : bitOf sequenceMask i = decide (i ≠ 63) := by
  have hnot : bitOf sequenceMask i = !bitOf directionMask i := by
    simp [bitOf, sequenceMask, hi]
  rw [hnot, bitOf_directionMask hi, decide_not]

theorem eq_of_bits {m n : UInt64} (h : ∀ i < 64, bitOf m i = bitOf n i) : m = n :=
  UInt64.eq_of_toBitVec_eq (BitVec.eq_of_getLsbD_eq fun i hi => h i hi)

theorem directionOf_eq_toClient (val : UInt64) : directionOf val = .toClient ↔ bitOf val 63 = true := by
  have hbit : val &&& directionMask ≠ 0 ↔ bitOf val 63 = true :=
    and_bit_ne_zero (k := 63) val (by decide)
  rw [directionOf]
  split
  · rename_i h
    exact iff_of_true rfl (hbit.mp h)
  · rename_i h
    exact iff_of_false (fun hd => by cases hd) (mt hbit.mpr h)

theorem Direction.bitOf_bit (d : Direction) (hi : i < 64) :
    bitOf d.bit i = (decide (i = 63) && decide (d = .toClient)) := by
  cases d with
  | toServer => simp [Direction.bit]
  | toClient => simp [Direction.bit, bitOf_directionMask hi]

/-- **The direction and the number that a nonce packs.** -/
theorem Session.sealVal_spec (s : Session) :
    directionOf s.sealVal = s.sendDir ∧ s.sealVal &&& sequenceMask = s.nextSeq &&& sequenceMask := by
  constructor
  · have htop : directionOf s.sealVal = .toClient ↔ s.sendDir = .toClient := by
      rw [directionOf_eq_toClient, sealVal, bitOf_or, s.sendDir.bitOf_bit (by decide), bitOf_and,
        bitOf_sequenceMask (by decide)]
      simp
    cases hd : s.sendDir with
    | toClient => exact htop.mpr hd
    | toServer =>
      cases hv : directionOf s.sealVal with
      | toServer => rfl
      | toClient =>
        rw [hd] at htop
        cases htop.mp hv
  · refine eq_of_bits fun i hi => ?_
    rw [sealVal, bitOf_and, bitOf_or, bitOf_and, s.sendDir.bitOf_bit hi, bitOf_sequenceMask hi]
    by_cases h63 : i = 63 <;> simp [h63]

theorem and_sequenceMask {n : UInt64} (h : n.toNat < 2 ^ 63) : n &&& sequenceMask = n := by
  refine eq_of_bits fun i hi => ?_
  rw [bitOf_and, bitOf_sequenceMask hi]
  by_cases h63 : i = 63
  · have htop : bitOf n 63 = false := Nat.testBit_lt_two_pow h
    rw [h63, htop, Bool.false_and]
  · rw [decide_eq_true h63, Bool.and_true]

theorem nonceVal_append (val : UInt64) (ct : Bytes) : nonceVal (WordBytes.be 8 val.toNat ++ ct) = val := by
  have hlt : val.toNat < 256 ^ 8 := val.toNat_lt
  rw [nonceVal, List.take_append_of_le_length (by simp), List.take_of_length_le (by simp),
    WordBytes.ofBe_be, Nat.mod_eq_of_lt hlt, UInt64.ofNat_toNat]

theorem nonceBytes_inj {a b : UInt64} (h : nonceBytes a = nonceBytes b) : a = b := by
  have ha := nonceVal_append a []
  have hb := nonceVal_append b []
  have hbe : WordBytes.be 8 a.toNat = WordBytes.be 8 b.toNat := List.append_cancel_left h
  rw [← ha, ← hb, hbe]

/-! ### The pair -/

structure Sealing where
  dir : Direction
  val : UInt64
  plaintext : Bytes
  /-- what was sent, if the cipher gave anything -/
  datagram : Option Bytes
  deriving DecidableEq, Repr

/-- A datagram that a session opened. -/
structure Delivery where
  datagram : Bytes
  seq : UInt64
  plaintext : Bytes
  deriving DecidableEq, Repr

/-- The server's session, which seals to the client, and the client's; what they sealed; and what each
of them delivered, newest first. -/
structure SessionPair where
  server : Session := { sendDir := .toClient }
  client : Session := { sendDir := .toServer }
  sealings : List Sealing := []
  atServer : List Delivery := []
  atClient : List Delivery := []
  deriving DecidableEq, Repr

/-- What the two ends and the network do. -/
inductive SessionAct where
  /-- the session that sends in this direction seals a text -/
  | sealText (d : Direction) (plaintext : Bytes)
  /-- the network hands any bytes to the session that sends in this direction -/
  | receive (d : Direction) (datagram : Bytes)
  deriving DecidableEq, Repr

namespace SessionPair

/-- The session that sends in a direction. -/
def session (p : SessionPair) : Direction → Session
  | .toClient => p.server
  | .toServer => p.client

def setSession (p : SessionPair) (s : Session) : Direction → SessionPair
  | .toClient => { p with server := s }
  | .toServer => { p with client := s }

/-- What the session that sends in a direction delivered. -/
def delivered (p : SessionPair) : Direction → List Delivery
  | .toClient => p.atServer
  | .toServer => p.atClient

def deliver (p : SessionPair) (x : Delivery) : Direction → SessionPair
  | .toClient => { p with atServer := x :: p.atServer }
  | .toServer => { p with atClient := x :: p.atClient }

/-- A session seals, and the call is booked. -/
def sealText (c : Aead) (p : SessionPair) (d : Direction) (plaintext : Bytes) : SessionPair :=
  let s := p.session d
  let (sent, s') := s.sealDatagram c plaintext
  let entry : Sealing := { dir := s.sendDir, val := s.sealVal, plaintext, datagram := sent.toOption }
  { p.setSession s' d with sealings := p.sealings ++ [entry] }

/-- A session is handed bytes, and what it delivers is booked. -/
def receive (c : Aead) (p : SessionPair) (d : Direction) (datagram : Bytes) : SessionPair :=
  match (p.session d).openDatagram c datagram with
  | (.ok (seq, plaintext), s) => (p.setSession s d).deliver ⟨datagram, seq, plaintext⟩ d
  | (.error _, s) => p.setSession s d

/-- Every action is possible. -/
def step (c : Aead) (p : SessionPair) : SessionAct → Option SessionPair
  | .sealText d plaintext => some (p.sealText c d plaintext)
  | .receive d datagram => some (p.receive c d datagram)

/-- The cipher opens only what one of the two sessions sealed, and to the text that was sealed. -/
def Authentic (c : Aead) (p : SessionPair) : SessionAct → Prop
  | .sealText _ _ => True
  | .receive _ datagram => ∀ pt, c.decrypt (nonceBytes (nonceVal datagram)) (datagram.drop 8) = some pt →
      ∃ e ∈ p.sealings, e.datagram = some datagram ∧ e.plaintext = pt

instance decidableAuthentic (c : Aead) (p : SessionPair) : ∀ a, Decidable (Authentic c p a)
  | .sealText _ _ => isTrue trivial
  | .receive _ datagram =>
    match h : c.decrypt (nonceBytes (nonceVal datagram)) (datagram.drop 8) with
    | none => isTrue fun pt hpt => by rw [h] at hpt; cases hpt
    | some pt =>
      decidable_of_iff (∃ e ∈ p.sealings, e.datagram = some datagram ∧ e.plaintext = pt)
        ⟨fun hex pt' hpt' => by rw [h, Option.some.injEq] at hpt'; exact hpt' ▸ hex, fun hall => hall pt h⟩

/-! ### Reading the pair -/

section

variable (p : SessionPair) (s : Session) (x : Delivery)

@[simp] theorem session_setSession (d e : Direction) :
    (p.setSession s d).session e = if e = d then s else p.session e := by
  cases d <;> cases e <;> rfl

@[simp] theorem sealings_setSession (d : Direction) : (p.setSession s d).sealings = p.sealings := by
  cases d <;> rfl

@[simp] theorem delivered_setSession (d e : Direction) : (p.setSession s d).delivered e = p.delivered e := by
  cases d <;> cases e <;> rfl

@[simp] theorem session_deliver (d e : Direction) : (p.deliver x d).session e = p.session e := by
  cases d <;> cases e <;> rfl

@[simp] theorem sealings_deliver (d : Direction) : (p.deliver x d).sealings = p.sealings := by
  cases d <;> rfl

@[simp] theorem delivered_deliver (d e : Direction) :
    (p.deliver x d).delivered e = if e = d then x :: p.delivered e else p.delivered e := by
  cases d <;> cases e <;> rfl

end

/-! ### The books -/

/-- What was sealed: every call used a number of its own, and what was sent carries it. -/
structure SealBooks (p : SessionPair) : Prop where
  dirs : ∀ d, (p.session d).sendDir = d
  counts : ∀ d, (p.session d).nextSeq.toNat = (p.sealings.filter fun e => e.dir = d).length
  vals : ∀ e ∈ p.sealings, directionOf e.val = e.dir ∧
    (e.val &&& sequenceMask).toNat < (p.session e.dir).nextSeq.toNat
  nodup : (p.sealings.map Sealing.val).Nodup

/-- What was delivered: the window of a session knows the numbers it delivered, each of them once, from
the other direction only. -/
structure OpenBooks (p : SessionPair) : Prop where
  dirs : ∀ d, (p.session d).sendDir = d
  sent : ∀ e ∈ p.sealings, ∀ x, e.datagram = some x → nonceVal x = e.val ∧ directionOf e.val = e.dir
  window : ∀ d, (p.session d).replay.Tracks ((p.delivered d).map Delivery.seq)
  nodup : ∀ d, ((p.delivered d).map Delivery.seq).Nodup
  numbers : ∀ d, ∀ x ∈ p.delivered d, x.seq = nonceVal x.datagram &&& sequenceMask
  foreign : ∀ d, ∀ x ∈ p.delivered d, directionOf (nonceVal x.datagram) ≠ d
  genuine : ∀ d, ∀ x ∈ p.delivered d,
    ∃ e ∈ p.sealings, e.datagram = some x.datagram ∧ e.plaintext = x.plaintext

variable {c : Aead} {p : SessionPair} {q : SessionPair} {a : SessionAct}

theorem sealBooks_initial : SealBooks {} where
  dirs := by intro d; cases d <;> rfl
  counts := by intro d; cases d <;> rfl
  vals := List.forall_mem_nil _
  nodup := List.nodup_nil

theorem openBooks_initial : OpenBooks {} where
  dirs := by intro d; cases d <;> rfl
  sent := List.forall_mem_nil _
  window := by intro d; cases d <;> exact ReplayWindow.tracks_new
  nodup := by intro d; cases d <;> exact List.nodup_nil
  numbers := by intro d; cases d <;> exact List.forall_mem_nil _
  foreign := by intro d; cases d <;> exact List.forall_mem_nil _
  genuine := by intro d; cases d <;> exact List.forall_mem_nil _

theorem session_sealText (c : Aead) (p : SessionPair) (d e : Direction) (pt : Bytes) :
    (p.sealText c d pt).session e =
      if e = d then { p.session d with nextSeq := (p.session d).nextSeq + 1 } else p.session e := by
  have hs : ((p.session d).sealDatagram c pt).2 =
      { p.session d with nextSeq := (p.session d).nextSeq + 1 } := by
    rw [Session.sealDatagram]
    dsimp only
    split <;> rfl
  rw [← hs]
  exact session_setSession p _ d e

theorem delivered_sealText (c : Aead) (p : SessionPair) (d e : Direction) (pt : Bytes) :
    (p.sealText c d pt).delivered e = p.delivered e :=
  delivered_setSession p _ d e

theorem sealings_sealText (c : Aead) (p : SessionPair) (d : Direction) (pt : Bytes) :
    ∃ e : Sealing, (p.sealText c d pt).sealings = p.sealings ++ [e] ∧
      e.dir = (p.session d).sendDir ∧ e.val = (p.session d).sealVal ∧
      ∀ x, e.datagram = some x → nonceVal x = e.val := by
  refine ⟨_, rfl, rfl, rfl, fun x hx => ?_⟩
  simp only at hx
  split at hx
  · rw [← Option.some.inj hx]
    exact nonceVal_append _ _
  · cases hx

/-- **Sealing uses a new number**, while there are any. -/
theorem SealBooks.sealText (h : p.SealBooks) (hlt : p.sealings.length + 1 < 2 ^ 63) (d : Direction)
    (pt : Bytes) : (p.sealText c d pt).SealBooks := by
  obtain ⟨e, hsealings, hdir, hval, -⟩ := sealings_sealText c p d pt
  have hed : e.dir = d := hdir.trans (h.dirs d)
  obtain ⟨htop, hlow⟩ := (p.session d).sealVal_spec
  have hcount := h.counts d
  have hle : (p.sealings.filter fun e => e.dir = d).length ≤ p.sealings.length :=
    List.length_filter_le _ _
  have hsmall : (p.session d).nextSeq.toNat + 1 < 2 ^ 63 := by omega
  have hnext : ((p.session d).nextSeq + 1).toNat = (p.session d).nextSeq.toNat + 1 := by
    rw [UInt64.toNat_add, show (1 : UInt64).toNat = 1 from rfl]
    exact Nat.mod_eq_of_lt (by omega)
  have hnum : e.val &&& sequenceMask = (p.session d).nextSeq := by
    rw [hval, hlow, and_sequenceMask (by omega)]
  refine ⟨fun d' => ?_, fun d' => ?_, ?_, ?_⟩
  · rw [session_sealText]
    split
    · rename_i heq
      rw [heq]
      exact h.dirs d
    · exact h.dirs d'
  · rw [session_sealText, hsealings, List.filter_append, List.length_append, List.filter_singleton, hed]
    split
    · rename_i heq
      rw [heq, hnext, hcount, decide_eq_true rfl]
      rfl
    · rename_i hne
      rw [h.counts d', decide_eq_false (Ne.symm hne)]
      rfl
  · rw [hsealings]
    refine List.forall_mem_append.mpr ⟨fun x hx => ?_, List.forall_mem_singleton.mpr ?_⟩
    · obtain ⟨hxdir, hxlt⟩ := h.vals x hx
      refine ⟨hxdir, ?_⟩
      rw [session_sealText]
      split
      · rename_i heq
        rw [heq] at hxlt
        rw [hnext]
        omega
      · exact hxlt
    · refine ⟨by rw [hval, htop, hdir], ?_⟩
      rw [session_sealText, if_pos hed, hnum, hnext]
      exact Nat.lt_succ_self _
  · rw [hsealings, List.map_append, List.nodup_append]
    refine ⟨h.nodup, List.nodup_singleton _, fun v hv w hw hvw => ?_⟩
    obtain ⟨x, hx, rfl⟩ := List.mem_map.mp hv
    rw [List.map_singleton, List.mem_singleton] at hw
    obtain ⟨hxdir, hxlt⟩ := h.vals x hx
    have hsame : x.val = e.val := hvw.trans hw
    rw [hsame] at hxdir hxlt
    rw [hval, htop, h.dirs d] at hxdir
    rw [hnum, ← hxdir] at hxlt
    exact Nat.lt_irrefl _ hxlt

theorem receive_cases (c : Aead) (p : SessionPair) (d : Direction) (datagram : Bytes) :
    p.receive c d datagram = p.setSession (p.session d) d ∨
      ∃ pt w, directionOf (nonceVal datagram) ≠ (p.session d).sendDir ∧
        c.decrypt (nonceBytes (nonceVal datagram)) (datagram.drop 8) = some pt ∧
        (p.session d).replay.check (nonceVal datagram &&& sequenceMask) = .ok w ∧ p.receive c d datagram =
          (p.setSession { p.session d with replay := w } d).deliver
            ⟨datagram, nonceVal datagram &&& sequenceMask, pt⟩ d := by
  rw [receive]
  rcases (p.session d).openDatagram_cases c datagram with ⟨e, he⟩ | ⟨pt, w, hdir, hpt, hw, hopen⟩
  · rw [he]
    exact .inl rfl
  · rw [hopen]
    exact .inr ⟨pt, w, hdir, hpt, hw, rfl⟩

theorem setSession_self (p : SessionPair) (d : Direction) : p.setSession (p.session d) d = p := by
  cases d <;> rfl

theorem SealBooks.receive (h : p.SealBooks) (d : Direction) (datagram : Bytes) :
    (p.receive c d datagram).SealBooks := by
  rcases receive_cases c p d datagram with heq | ⟨pt, w, -, -, -, heq⟩
  · rw [heq, setSession_self]
    exact h
  · have hsend : ∀ e, ((p.receive c d datagram).session e).sendDir = (p.session e).sendDir ∧
        ((p.receive c d datagram).session e).nextSeq = (p.session e).nextSeq := by
      intro e
      rw [heq, session_deliver, session_setSession]
      split
      · rename_i hed
        rw [hed]
        exact ⟨rfl, rfl⟩
      · exact ⟨rfl, rfl⟩
    have hsealings : (p.receive c d datagram).sealings = p.sealings := by
      rw [heq, sealings_deliver, sealings_setSession]
    refine ⟨fun e => (hsend e).1.trans (h.dirs e), fun e => ?_, fun e he => ?_, ?_⟩
    · rw [(hsend e).2, hsealings]
      exact h.counts e
    · rw [hsealings] at he
      rw [(hsend e.dir).2]
      exact h.vals e he
    · rw [hsealings]
      exact h.nodup

theorem OpenBooks.sealText (h : p.OpenBooks) (d : Direction) (pt : Bytes) : (p.sealText c d pt).OpenBooks := by
  obtain ⟨e, hsealings, hdir, hval, hnonce⟩ := sealings_sealText c p d pt
  refine ⟨fun d' => ?_, ?_, fun d' => ?_, fun d' => ?_, fun d' => ?_, fun d' => ?_, fun d' => ?_⟩
  · rw [session_sealText]
    split
    · rename_i heq
      rw [heq]
      exact h.dirs d
    · exact h.dirs d'
  · rw [hsealings]
    refine List.forall_mem_append.mpr ⟨h.sent, List.forall_mem_singleton.mpr fun x hx => ?_⟩
    exact ⟨hnonce x hx, by rw [hval, (p.session d).sealVal_spec.1, hdir]⟩
  · have hreplay : ((p.sealText c d pt).session d').replay = (p.session d').replay := by
      rw [session_sealText]
      split
      · rename_i heq
        rw [heq]
      · rfl
    rw [hreplay, delivered_sealText]
    exact h.window d'
  · rw [delivered_sealText]
    exact h.nodup d'
  · rw [delivered_sealText]
    exact h.numbers d'
  · rw [delivered_sealText]
    exact h.foreign d'
  · rw [delivered_sealText, hsealings]
    intro x hx
    obtain ⟨f, hf, hfx⟩ := h.genuine d' x hx
    exact ⟨f, List.mem_append_left _ hf, hfx⟩

/-- **A delivery is new, foreign and genuine.** -/
theorem OpenBooks.receive (h : p.OpenBooks) (d : Direction) (datagram : Bytes)
    (hauth : Authentic c p (.receive d datagram)) : (p.receive c d datagram).OpenBooks := by
  rcases receive_cases c p d datagram with heq | ⟨pt, w, hdir, hpt, hw, heq⟩
  · rw [heq, setSession_self]
    exact h
  · have hfresh : ReplayWindow.Fresh ((p.delivered d).map Delivery.seq)
        (nonceVal datagram &&& sequenceMask) ∧
        w.Tracks ((nonceVal datagram &&& sequenceMask) :: (p.delivered d).map Delivery.seq) := by
      rcases (h.window d).check (nonceVal datagram &&& sequenceMask) with ⟨hfresh, w', hw', ht⟩ |
        ⟨-, e, he⟩
      · rw [hw, Except.ok.injEq] at hw'
        exact ⟨hfresh, hw' ▸ ht⟩
      · rw [hw] at he
        cases he
    have hsealings : (p.receive c d datagram).sealings = p.sealings := by
      rw [heq, sealings_deliver, sealings_setSession]
    have hdelivered : ∀ d', (p.receive c d datagram).delivered d' =
        if d' = d then ⟨datagram, nonceVal datagram &&& sequenceMask, pt⟩ :: p.delivered d'
        else p.delivered d' := by
      intro d'
      rw [heq, delivered_deliver, delivered_setSession]
    have hsession : ∀ d', (p.receive c d datagram).session d' =
        if d' = d then { p.session d with replay := w } else p.session d' := by
      intro d'
      rw [heq, session_deliver, session_setSession]
    refine ⟨fun d' => ?_, ?_, fun d' => ?_, fun d' => ?_, fun d' => ?_, fun d' => ?_, fun d' => ?_⟩
    · rw [hsession]
      split
      · rename_i hd
        rw [hd]
        exact h.dirs d
      · exact h.dirs d'
    · rw [hsealings]
      exact h.sent
    · rw [hsession, hdelivered]
      split
      · rename_i hd
        rw [hd]
        exact hfresh.2
      · exact h.window d'
    · rw [hdelivered]
      split
      · rename_i hd
        rw [hd, List.map_cons, List.nodup_cons]
        exact ⟨hfresh.1.1, h.nodup d⟩
      · exact h.nodup d'
    · rw [hdelivered]
      split
      · exact List.forall_mem_cons.mpr ⟨rfl, h.numbers d'⟩
      · exact h.numbers d'
    · rw [hdelivered]
      split
      · rename_i hd
        refine List.forall_mem_cons.mpr ⟨?_, h.foreign d'⟩
        rw [h.dirs d] at hdir
        rw [hd]
        exact hdir
      · exact h.foreign d'
    · rw [hdelivered, hsealings]
      split
      · exact List.forall_mem_cons.mpr ⟨hauth pt hpt, h.genuine d'⟩
      · exact h.genuine d'

/-! ### Runs -/

theorem length_sealings_le (h : step c p a = some q) : p.sealings.length ≤ q.sealings.length := by
  cases a with
  | sealText d pt =>
    rw [← Option.some.inj h]
    obtain ⟨e, he, -⟩ := sealings_sealText c p d pt
    rw [he, List.length_append]
    omega
  | receive d datagram =>
    rw [← Option.some.inj h]
    rcases receive_cases c p d datagram with heq | ⟨pt, w, -, -, -, heq⟩
    · rw [heq, setSession_self]
    · rw [heq, sealings_deliver, sealings_setSession]

/-- **A step keeps the books of both sessions.** -/
theorem books_step (h : (p.sealings.length < 2 ^ 63 → p.SealBooks) ∧ p.OpenBooks) (hauth : Authentic c p a)
    (hstep : step c p a = some q) : (q.sealings.length < 2 ^ 63 → q.SealBooks) ∧ q.OpenBooks := by
  have hle := length_sealings_le hstep
  cases a with
  | sealText d pt =>
    cases hstep
    refine ⟨fun hlt => ?_, h.2.sealText d pt⟩
    obtain ⟨e, he, -⟩ := sealings_sealText c p d pt
    rw [he, List.length_append, List.length_singleton] at hlt
    exact (h.1 (by omega)).sealText hlt d pt
  | receive d datagram =>
    cases hstep
    exact ⟨fun hlt => (h.1 (by omega)).receive d datagram, h.2.receive d datagram hauth⟩

/-- **Replay protection.**  A window accepts a number exactly if it never accepted it before and the
number is greater than the highest accepted one less 64.  So between two sessions that share a key, over
any network and with a cipher that opens only what was sealed, no two of fewer than `2 ^ 63` calls seal
under the same nonce, and each session opens a datagram at most once, to the text that the other one
sealed, and never one that was sealed in its own direction. -/
theorem replay_protection :
    (∀ (seqs : List UInt64) (seq : UInt64), ((ReplayWindow.run seqs).1.check seq).isOk = true ↔
        seq ∉ (ReplayWindow.run seqs).2 ∧ ∀ s ∈ (ReplayWindow.run seqs).2, s.toNat < seq.toNat + 64) ∧
      ∀ (c : Aead) (as : List SessionAct) (p : SessionPair),
        Runs.exec (step c) {} as = some p → Runs.AllOk (Authentic c) (step c) {} as →
        p.sealings.length < 2 ^ 63 → (p.sealings.map fun e => nonceBytes e.val).Nodup ∧
          ∀ d, ((p.delivered d).map Delivery.datagram).Nodup ∧ ∀ x ∈ p.delivered d,
              (∃ e ∈ p.sealings, e.dir ≠ d ∧ e.datagram = some x.datagram ∧ e.plaintext = x.plaintext) ∧
              ∀ e ∈ p.sealings, e.dir = d → e.datagram ≠ some x.datagram := by
  refine ⟨fun seqs seq => (ReplayWindow.tracks_run seqs).check_ok_iff seq, ?_⟩
  intro c as p hexec hauth hlt
  obtain ⟨hseal, hopen⟩ := Runs.exec_invariant_of_allOk
    (fun _ _ _ h hok hstep => books_step h hok hstep)
    ⟨fun _ => sealBooks_initial, openBooks_initial⟩ hauth hexec
  refine ⟨?_, fun d => ⟨?_, fun x hx => ?_⟩⟩
  · have hnonces := (hseal hlt).nodup.map fun _ _ => nonceBytes_inj
    rwa [List.map_map] at hnonces
  · -- a datagram's number is read off it, and the numbers are all different
    refine List.Nodup.of_map (fun datagram => nonceVal datagram &&& sequenceMask) ?_
    rw [List.map_map]
    have hseqs := hopen.nodup d
    rwa [List.map_congr_left (hopen.numbers d)] at hseqs
  · have hown : ∀ e ∈ p.sealings, e.datagram = some x.datagram → e.dir ≠ d := by
      intro e he hex
      obtain ⟨hval, hdir⟩ := hopen.sent e he x.datagram hex
      rw [← hdir, ← hval]
      exact hopen.foreign d x hx
    obtain ⟨e, he, hex, hpt⟩ := hopen.genuine d x hx
    exact ⟨⟨e, he, hown e he hex, hex, hpt⟩, fun f hf hfd hfx => hown f hf hfx hfd⟩

/-- A text sealed by the server, which arrives twice and comes back to the server once. -/
def echoedRun : List SessionAct :=
  let datagram := WordBytes.be 8 (2 ^ 63) ++ [104, 105] ++ nonceBytes directionMask ++ List.replicate 4 0
  [.sealText .toClient [104, 105], .receive .toServer datagram, .receive .toServer datagram,
    .receive .toClient datagram]

theorem replay_protection_echoed :
    ∃ p, Runs.exec (step taggingAead) {} echoedRun = some p ∧ p.atClient.length = 1 ∧
      (p.sealings.map fun e => nonceBytes e.val).Nodup ∧
      ((p.delivered .toServer).map Delivery.datagram).Nodup := by
  obtain ⟨p, hp, hlen, hsealings⟩ : ∃ p, Runs.exec (step taggingAead) {} echoedRun = some p ∧
      p.atClient.length = 1 ∧ p.sealings.length = 1 := ⟨_, rfl, rfl, rfl⟩
  obtain ⟨hnonces, hdelivered⟩ := replay_protection.2 taggingAead echoedRun p hp (by decide)
    (by rw [hsealings]; decide)
  exact ⟨p, hp, hlen, hnonces, (hdelivered .toServer).1⟩

end SessionPair

end Posh
