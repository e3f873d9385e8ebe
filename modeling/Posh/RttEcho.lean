/-
**The round trip measured from an echoed time stamp.**

A packet carries the sender's clock in sixteen bits, and the peer's next packet gives it back, advanced by
how long the peer held it.  The sender subtracts it from its clock.  The value `0xffff` says that there is
no stamp: a clock that shows it sends zero instead, and a stamp that is advanced to it is not read.  Each
of the two stamps of a measurement may be off by one for that reason, and never by more.
-/

import Posh.DatagramConnection

set_option autoImplicit false

namespace Posh

open WordBytes

/-! ### The clock in sixteen bits -/

theorem toNat_timestamp16 (now : UInt64) :
    (timestamp16 now).toNat = if now.toNat % 65536 = 65535 then 0 else now.toNat % 65536 := by
  have hlow : (UInt16.ofNat (now.toNat % 65536)).toNat = now.toNat % 65536 := by
    rw [UInt16.toNat_ofNat']
    exact Nat.mod_eq_of_lt (Nat.mod_lt _ (by decide))
  have hiff : UInt16.ofNat (now.toNat % 65536) = tsNone ↔ now.toNat % 65536 = 65535 := by
    rw [← UInt16.toNat_inj, hlow]
    rfl
  rw [timestamp16]
  by_cases h : now.toNat % 65536 = 65535
  · rw [if_pos (hiff.2 h), if_pos h]
    rfl
  · rw [if_neg (mt hiff.1 h), if_neg h, hlow]

theorem timestamp16_ne_none (now : UInt64) : timestamp16 now ≠ tsNone := by
  intro h
  have htwo := congrArg UInt16.toNat h
  rw [toNat_timestamp16] at htwo
  have hnone : tsNone.toNat = 65535 := rfl
  split at htwo <;> omega

theorem toNat_timestampDiff (tsnew tsold : UInt16) :
    (timestampDiff tsnew tsold).toNat = (65536 - tsold.toNat + tsnew.toNat) % 65536 :=
  UInt16.toNat_sub tsnew tsold

namespace Connection

variable {α : Type} {c c' : Aead} {conn sender peer : Connection α}

/-! ### The stamps of a packet -/

/-- A packet: the sender's clock, the echo and the payload. -/
def stamped (now : UInt64) (reply : UInt16) (payload : Bytes) : Bytes :=
  WordBytes.be 2 (timestamp16 now).toNat ++ WordBytes.be 2 reply.toNat ++ payload

theorem u16At_be {v w : Bytes} (n : UInt16) : u16At (v ++ be 2 n.toNat ++ w) v.length = n := by
  have hword : ((v ++ be 2 n.toNat ++ w).drop v.length).take 2 = be 2 n.toNat := by
    rw [List.append_assoc, List.drop_left]
    exact List.take_left' (length_be 2 _)
  have hfits : n.toNat % 256 ^ 2 = n.toNat := Nat.mod_eq_of_lt n.toNat_lt
  rw [u16At, hword, ofBe_be, hfits, UInt16.ofNat_toNat]

theorem u16At_stamped (now : UInt64) (reply : UInt16) (payload : Bytes) :
    u16At (stamped now reply payload) 0 = timestamp16 now ∧ u16At (stamped now reply payload) 2 = reply := by
  constructor
  · rw [stamped, List.append_assoc]
    exact u16At_be (v := []) (timestamp16 now)
  · have hlen : (be 2 (timestamp16 now).toNat).length = 2 := length_be 2 _
    have hread := u16At_be (v := be 2 (timestamp16 now).toNat) (w := payload) reply
    rw [hlen] at hread
    exact hread

/-- What the newest datagram gives the estimator to sample. -/
def roundTrip (plaintext : Bytes) (now : UInt64) : Option UInt16 :=
  if u16At plaintext 2 ≠ tsNone then some (timestampDiff (timestamp16 now) (u16At plaintext 2)) else none

theorem learn_rtt (seq : UInt64) (plaintext : Bytes) (source : α) (now : UInt64) :
    (conn.learn seq plaintext source now).rtt =
      (roundTrip plaintext now).elim conn.rtt fun v => conn.rtt.sample v.toNat.toFloat := by
  rw [learn, roundTrip]
  dsimp only
  split <;> rfl

theorem learn_savedTimestamp (seq : UInt64) (sent now : UInt64) (reply : UInt16) (payload : Bytes)
    (source : α) : (conn.learn seq (stamped sent reply payload) source now).savedTimestamp =
      some (timestamp16 sent, now) := by
  rw [learn]
  dsimp only
  rw [(u16At_stamped sent reply payload).1, if_pos (timestamp16_ne_none sent)]

/-! ### One measurement -/

theorem takeReply_held (ts : UInt16) {since sent : UInt64} {h : ℕ} (hh : h < 1000)
    (hhold : sent.toNat = since.toNat + h) :
    (takeReply (some (ts, since)) sent).1.toNat = (ts.toNat + h) % 65536 := by
  have hless : sent.toNat - since.toNat < 1000 := by omega
  have hheld : (sent - since).toNat = h := by
    rw [UInt64.toNat_sub_of_le _ _ (UInt64.le_iff_toNat_le.2 (by omega))]
    omega
  rw [takeReply, if_pos hless, hheld, UInt16.toNat_add, UInt16.toNat_ofNat', Nat.add_mod_mod]

/-- **The error of one measurement.**  The stamp of `sent` comes back after the round trip `r` and the
hold `h`.  What is sampled is then off by at most one, unless it is too large to count. -/
theorem roundTrip_of_echo {sent now : UInt64} {reply : UInt16} {plaintext : Bytes} {h r : ℕ}
    (hr : r < 4999) (hround : now.toNat = sent.toNat + h + r)
    (hreply : reply.toNat = ((timestamp16 sent).toNat + h) % 65536) (hread : u16At plaintext 2 = reply) :
    ∀ v ∈ roundTrip plaintext now, v.toNat < 5000 → v.toNat + 1 = r ∨ v.toNat = r ∨ v.toNat = r + 1 := by
  intro v hv hcounts
  rw [roundTrip, hread] at hv
  split at hv
  case isTrue hsome =>
    cases hv
    have hsent := toNat_timestamp16 sent
    have hnow := toNat_timestamp16 now
    rw [toNat_timestampDiff] at hcounts ⊢
    -- the four ways in which the two stamps may stand for the reserved value
    split at hsent <;> split at hnow <;> omega
  case isFalse => cases hv

theorem recv_of_newest {datagram plaintext : Bytes} {seq : UInt64} (source : α) (now : UInt64)
    (htaken : conn.taken c datagram = some (seq, plaintext)) (hnewest : conn.expectedReceiverSeq ≤ seq) :
    ∃ early : Connection α, early.savedTimestamp = conn.savedTimestamp ∧ early.rtt = conn.rtt ∧
      (conn.recv c datagram source now).1 = early.learn seq plaintext source now := by
  rw [taken] at htaken
  rw [recv]
  dsimp only
  rcases hopen : conn.session.openDatagram c (datagram.take recvBufferLen) with
    ⟨_ | ⟨s, pt⟩, session⟩
  · rw [hopen] at htaken
    cases htaken
  · rw [hopen] at htaken
    dsimp only at htaken ⊢
    by_cases hshort : pt.length < 4
    · rw [if_pos hshort] at htaken
      cases htaken
    · rw [if_neg hshort] at htaken
      cases htaken
      rw [if_neg hshort, if_pos hnewest]
      exact ⟨{ conn with bytesRx := conn.bytesRx + (datagram.take recvBufferLen).length, session },
        rfl, rfl, rfl⟩

/-- **The round trip is measured to within a millisecond.**  A packet that the sender stamped at `sent`
reaches the peer as its newest; the peer's packet after `h < 1000` milliseconds echoes it and reaches the
sender as its newest, `r < 4999` milliseconds and the hold after it left.  The estimator is given nothing,
or a value that differs from `r` by at most one, or one that it passes over. -/
theorem recv_samples_round_trip {datagram₁ datagram₂ payload₁ payload₂ : Bytes} {source₁ source₂ : α}
    {seq₁ seq₂ sent since reply now : UInt64} {echoed : UInt16} {h r : ℕ}
    (hfirst : peer.taken c datagram₁ = some (seq₁, stamped sent echoed payload₁))
    (hnewest₁ : peer.expectedReceiverSeq ≤ seq₁)
    (hsecond : sender.taken c' datagram₂ = some (seq₂, stamped reply
      (takeReply (peer.recv c datagram₁ source₁ since).1.savedTimestamp reply).1 payload₂))
    (hnewest₂ : sender.expectedReceiverSeq ≤ seq₂) (hh : h < 1000)
    (hhold : reply.toNat = since.toNat + h) (hr : r < 4999) (hround : now.toNat = sent.toNat + h + r) :
    ∃ fed : Option UInt16, fed = roundTrip (stamped reply
        (takeReply (peer.recv c datagram₁ source₁ since).1.savedTimestamp reply).1 payload₂) now ∧
      (sender.recv c' datagram₂ source₂ now).1.rtt =
        fed.elim sender.rtt (fun v => sender.rtt.sample v.toNat.toFloat) ∧
      ∀ v ∈ fed, v.toNat < 5000 → v.toNat + 1 = r ∨ v.toNat = r ∨ v.toNat = r + 1 := by
  obtain ⟨early₁, -, -, hlearn₁⟩ := recv_of_newest source₁ since hfirst hnewest₁
  obtain ⟨early₂, -, hrtt, hlearn₂⟩ := recv_of_newest source₂ now hsecond hnewest₂
  refine ⟨_, rfl, ?_, ?_⟩
  · rw [hlearn₂, learn_rtt, hrtt]
  · have hsaved : (peer.recv c datagram₁ source₁ since).1.savedTimestamp =
        some (timestamp16 sent, since) := by
      rw [hlearn₁]
      exact learn_savedTimestamp seq₁ sent since echoed payload₁ source₁
    have hreply := takeReply_held (timestamp16 sent) hh hhold
    rw [← hsaved] at hreply
    exact roundTrip_of_echo hr hround hreply (u16At_stamped reply _ payload₂).2

/-- The stamp that would be the reserved value, held for three milliseconds of five. -/
theorem samples_over_the_reserved_value :
    ∃ fed, fed = roundTrip (stamped 10 3 []) 65540 ∧ ((client 1 : Connection ℕ).recv taggingAead
        ([128, 0, 0, 0, 0, 0, 0, 0] ++ [0, 10, 0, 3] ++ List.replicate 4 0 ++
          [128, 0, 0, 0, 0, 0, 0, 0] ++ List.replicate 4 0) 1 65540).1.rtt =
        fed.elim ({} : RttEstimator) (fun v => ({} : RttEstimator).sample v.toNat.toFloat) ∧
      ∀ v ∈ fed, v.toNat < 5000 → v.toNat + 1 = 2 ∨ v.toNat = 2 ∨ v.toNat = 2 + 1 := by
  have hfirst : (server : Connection ℕ).taken taggingAead
      (List.replicate 8 0 ++ [0, 0, 255, 255] ++ List.replicate 16 0) =
        some (0, stamped 65535 tsNone []) := by decide +kernel
  have hsecond : (client 1 : Connection ℕ).taken taggingAead
      ([128, 0, 0, 0, 0, 0, 0, 0] ++ [0, 10, 0, 3] ++ List.replicate 4 0 ++
        [128, 0, 0, 0, 0, 0, 0, 0] ++ List.replicate 4 0) =
        some (0, stamped 10 (takeReply ((server : Connection ℕ).recv taggingAead
          (List.replicate 8 0 ++ [0, 0, 255, 255] ++ List.replicate 16 0) 0 7).1.savedTimestamp 10).1
          []) := by decide +kernel
  have hmeasured := @recv_samples_round_trip ℕ taggingAead taggingAead (client 1) server
    _ _ _ _ 0 1 _ _ 65535 7 10 65540 _ 3 2 hfirst (by decide +kernel) hsecond (by decide +kernel)
    (by decide) (by decide) (by decide) (by decide)
  have hreply : (takeReply ((server : Connection ℕ).recv taggingAead
      (List.replicate 8 0 ++ [0, 0, 255, 255] ++ List.replicate 16 0) 0 7).1.savedTimestamp 10).1 = 3 := by
    decide +kernel
  rw [hreply] at hmeasured
  exact hmeasured

end Connection

end Posh
