/-
**The anti-replay window.**

A receiver must accept every sequence number at most once, while datagrams arrive out of order.  It
keeps the highest number accepted and a word of 64 bits, bit `i` of which says whether the number `i`
below the highest was accepted; what lies further back is refused.

The abstract window is the list of the numbers accepted.  `ReplayWindow.Tracks` says that the word and
the highest number are what can be seen of that list from the highest number down, and every call keeps
it, whatever number it is given: the word is shifted by the distance a new highest number jumps, which
may be past its end.
-/

import Mathlib.Tactic.Common

set_option autoImplicit false

namespace Posh

/-! ### Bits of a word -/

/-- Bit `i` of a word. -/
def bitOf (m : UInt64) (i : ℕ) : Bool := m.toBitVec.getLsbD i

@[simp] theorem bitOf_zero (i : ℕ) : bitOf 0 i = false := by simp [bitOf]

@[simp] theorem bitOf_one (i : ℕ) : bitOf 1 i = decide (i = 0) := by simp [bitOf]

@[simp] theorem bitOf_or (m n : UInt64) (i : ℕ) : bitOf (m ||| n) i = (bitOf m i || bitOf n i) := by
  simp [bitOf]

@[simp] theorem bitOf_and (m n : UInt64) (i : ℕ) : bitOf (m &&& n) i = (bitOf m i && bitOf n i) := by
  simp [bitOf]

variable {k : UInt64}

theorem bitOf_shiftLeft (m : UInt64) (hk : k.toNat < 64) {i : ℕ} (hi : i < 64) :
    bitOf (m <<< k) i = (decide (k.toNat ≤ i) && bitOf m (i - k.toNat)) := by
  have hmod : k.toNat % 64 = k.toNat := Nat.mod_eq_of_lt hk
  by_cases hle : k.toNat ≤ i
  · rw [bitOf, bitOf, BitVec.getLsbD_eq_getElem (show i - k.toNat < 64 by omega)]
    simp [hmod, hi, hle, Nat.not_lt.mpr hle]
  · simp [bitOf, hmod, hi, hle, Nat.lt_of_not_le hle]

theorem bitOf_one_shiftLeft (hk : k.toNat < 64) {i : ℕ} (hi : i < 64) :
    bitOf (1 <<< k) i = decide (i = k.toNat) := by
  rw [bitOf_shiftLeft 1 hk hi, bitOf_one, Bool.eq_iff_iff, Bool.and_eq_true]
  simp only [decide_eq_true_eq]
  omega

theorem eq_zero_of_bits {m : UInt64} (h : ∀ i < 64, bitOf m i = false) : m = 0 := by
  refine UInt64.eq_of_toBitVec_eq (BitVec.eq_of_getLsbD_eq fun i hi => ?_)
  rw [show m.toBitVec.getLsbD i = false from h i hi]
  exact (bitOf_zero i).symm

theorem and_bit_ne_zero (m : UInt64) (hk : k.toNat < 64) : m &&& (1 <<< k) ≠ 0 ↔ bitOf m k.toNat = true := by
  constructor
  · intro hne
    by_contra hbit
    refine hne (eq_zero_of_bits fun i hi => ?_)
    rw [bitOf_and, bitOf_one_shiftLeft hk hi]
    by_cases heq : i = k.toNat
    · rw [heq, Bool.not_eq_true _ |>.mp hbit, Bool.false_and]
    · rw [decide_eq_false heq, Bool.and_false]
  · intro hbit hzero
    have hset : bitOf (m &&& (1 <<< k)) k.toNat = true := by
      rw [bitOf_and, hbit, bitOf_one_shiftLeft hk hk, decide_eq_true rfl, Bool.and_true]
    rw [hzero, bitOf_zero] at hset
    cases hset

/-! ### The window -/

/-- Why a sequence number is refused. -/
inductive ReplayError where
  | tooOld
  | replayed
  deriving DecidableEq, Repr

/-- The text of a refusal. -/
def ReplayError.message : ReplayError → String
  | tooOld => "sequence number too old"
  | replayed => "replayed sequence number"

/-- The highest number accepted, and which of the numbers below it were. -/
structure ReplayWindow where
  highest : UInt64 := 0
  bitmap : UInt64 := 0
  initialized : Bool := false
  deriving DecidableEq, Repr

namespace ReplayWindow

/-- Tests a number and accounts for it. -/
def check (w : ReplayWindow) (seq : UInt64) : Except ReplayError ReplayWindow :=
  if !w.initialized then .ok { highest := seq, bitmap := 1, initialized := true }
  else if seq > w.highest then
    let shift := seq - w.highest
    let bitmap := if shift ≥ 64 then 0 else w.bitmap <<< shift
    .ok { w with bitmap := bitmap ||| 1, highest := seq }
  else
    let diff := w.highest - seq
    if diff ≥ 64 then .error .tooOld
    else if w.bitmap &&& (1 <<< diff) ≠ 0 then .error .replayed
    else .ok { w with bitmap := w.bitmap ||| (1 <<< diff) }

/-! ### What the window knows -/

/-- The window is what can be seen of the numbers accepted. -/
structure Tracks (w : ReplayWindow) (accepted : List UInt64) : Prop where
  initialized : w.initialized = true ↔ accepted ≠ []
  highest_mem : accepted ≠ [] → w.highest ∈ accepted
  le_highest : ∀ s ∈ accepted, s ≤ w.highest
  bits : accepted ≠ [] → ∀ s : UInt64, s ≤ w.highest → w.highest.toNat - s.toNat < 64 →
    (bitOf w.bitmap (w.highest.toNat - s.toNat) = true ↔ s ∈ accepted)

/-- A number that was never accepted and is less than 64 below the highest one. -/
def Fresh (accepted : List UInt64) (seq : UInt64) : Prop :=
  seq ∉ accepted ∧ ∀ s ∈ accepted, s.toNat < seq.toNat + 64

theorem tracks_new : Tracks {} [] where
  initialized := by simp
  highest_mem := fun h => absurd rfl h
  le_highest := List.forall_mem_nil _
  bits := fun h => absurd rfl h

variable {w : ReplayWindow} {accepted : List UInt64} {a b : UInt64} {seq : UInt64}

theorem toNat_lt_iff : a < b ↔ a.toNat < b.toNat := UInt64.lt_iff_toNat_lt

theorem toNat_le_iff : a ≤ b ↔ a.toNat ≤ b.toNat := UInt64.le_iff_toNat_le

theorem Tracks.jump (h : w.Tracks accepted) (hne : accepted ≠ []) (hlt : w.highest < seq) {bitmap : UInt64}
    (hbitmap : bitmap = if seq - w.highest ≥ 64 then 0 else w.bitmap <<< (seq - w.highest)) :
    Tracks { w with bitmap := bitmap ||| 1, highest := seq } (seq :: accepted) := by
  have hlt' := toNat_lt_iff.mp hlt
  have hshift : (seq - w.highest).toNat = seq.toNat - w.highest.toNat :=
    UInt64.toNat_sub_of_le _ _ (UInt64.le_of_lt hlt)
  refine ⟨⟨fun _ => List.cons_ne_nil _ _, fun _ => h.initialized.mpr hne⟩,
    fun _ => List.mem_cons_self, ?_, ?_⟩
  · intro s hs
    rcases List.mem_cons.mp hs with rfl | hs
    · exact UInt64.le_refl _
    · exact UInt64.le_trans (h.le_highest s hs) (UInt64.le_of_lt hlt)
  · intro _ s hs hwin
    dsimp only at hs hwin ⊢
    have hs' := toNat_le_iff.mp hs
    rw [bitOf_or, bitOf_one, Bool.or_eq_true, decide_eq_true_eq, List.mem_cons]
    by_cases htop : s = seq
    · rw [htop, Nat.sub_self]
      exact ⟨fun _ => .inl rfl, fun _ => .inr rfl⟩
    · have hbelow : s.toNat < seq.toNat :=
        Nat.lt_of_le_of_ne hs' fun heq => htop (UInt64.toNat_inj.mp heq)
      have hzero : ¬ seq.toNat - s.toNat = 0 := by omega
      simp only [htop, hzero, false_or, or_false]
      by_cases habove : s ≤ w.highest
      · -- an old number: its bit moved by the jump, or out of the word
        have habove' := toNat_le_iff.mp habove
        have hk : (seq - w.highest).toNat < 64 := by omega
        have hnot : ¬ seq - w.highest ≥ 64 := by
          rw [ge_iff_le, toNat_le_iff, show (64 : UInt64).toNat = 64 from rfl]
          omega
        rw [hbitmap, if_neg hnot, bitOf_shiftLeft _ hk hwin, hshift, Bool.and_eq_true,
          decide_eq_true_eq, show seq.toNat - s.toNat - (seq.toNat - w.highest.toNat) =
            w.highest.toNat - s.toNat by omega, h.bits hne s habove (by omega)]
        exact and_iff_right (by omega)
      · -- a number that was jumped over
        have hout : s ∉ accepted := fun hmem => habove (h.le_highest s hmem)
        rw [toNat_le_iff] at habove
        refine iff_of_false (fun hbit => ?_) hout
        rw [hbitmap] at hbit
        split at hbit
        · rw [bitOf_zero] at hbit
          cases hbit
        · rename_i hnot
          rw [ge_iff_le, toNat_le_iff, show (64 : UInt64).toNat = 64 from rfl] at hnot
          rw [bitOf_shiftLeft _ (by omega) hwin, hshift, Bool.and_eq_true, decide_eq_true_eq] at hbit
          omega

theorem Tracks.fill (h : w.Tracks accepted) (hne : accepted ≠ [])
    (hle : seq ≤ w.highest) (hwin : w.highest.toNat - seq.toNat < 64) :
    Tracks { w with bitmap := w.bitmap ||| (1 <<< (w.highest - seq)) } (seq :: accepted) := by
  have hle' := toNat_le_iff.mp hle
  have hdiff : (w.highest - seq).toNat = w.highest.toNat - seq.toNat := UInt64.toNat_sub_of_le _ _ hle
  refine ⟨⟨fun _ => List.cons_ne_nil _ _, fun _ => h.initialized.mpr hne⟩,
    fun _ => List.mem_cons_of_mem _ (h.highest_mem hne), ?_, ?_⟩
  · intro s hs
    rcases List.mem_cons.mp hs with rfl | hs
    · exact hle
    · exact h.le_highest s hs
  · intro _ s hs hswin
    dsimp only at hs hswin ⊢
    have hs' := toNat_le_iff.mp hs
    rw [bitOf_or, Bool.or_eq_true, h.bits hne s hs hswin, bitOf_one_shiftLeft (by omega) hswin,
      decide_eq_true_eq, hdiff, List.mem_cons, or_comm]
    refine or_congr ⟨fun heq => UInt64.toNat_inj.mp (by omega), fun heq => by rw [heq]⟩ Iff.rfl

/-! ### The calls -/

/-- **What a call does**: a new number inside the window is accepted and accounted for, any other is
refused. -/
theorem Tracks.check (h : w.Tracks accepted) (seq : UInt64) :
    (Fresh accepted seq ∧ ∃ w', w.check seq = .ok w' ∧ w'.Tracks (seq :: accepted)) ∨
      (¬ Fresh accepted seq ∧ ∃ e, w.check seq = .error e) := by
  rw [ReplayWindow.check]
  by_cases hne : accepted = []
  · -- nothing was accepted yet
    have hinit : w.initialized = false := by
      rw [← Bool.not_eq_true, h.initialized, hne]
      exact fun hn => hn rfl
    rw [hinit, hne]
    refine .inl ⟨⟨List.not_mem_nil, List.forall_mem_nil _⟩, _, rfl, ?_⟩
    refine ⟨⟨fun _ => List.cons_ne_nil _ _, fun _ => rfl⟩, fun _ => List.mem_cons_self, ?_, ?_⟩
    · intro s hs
      rw [List.mem_singleton.mp hs]
      exact UInt64.le_refl _
    · intro _ s hs _
      have hs' := toNat_le_iff.mp hs
      dsimp only at hs' ⊢
      rw [bitOf_one, decide_eq_true_eq, List.mem_singleton]
      exact ⟨fun heq => UInt64.toNat_inj.mp (by omega), fun heq => by rw [heq, Nat.sub_self]⟩
  · rw [if_neg (by rw [h.initialized.mpr hne]; decide)]
    split
    · -- a new highest number
      rename_i hgt
      have hgt' := toNat_lt_iff.mp hgt
      refine .inl ⟨⟨fun hmem => ?_, fun s hs => ?_⟩, _, rfl, h.jump hne hgt rfl⟩
      · exact absurd (h.le_highest seq hmem) (UInt64.not_le.mpr hgt)
      · have := toNat_le_iff.mp (h.le_highest s hs)
        omega
    · rename_i hgt
      have hle : seq ≤ w.highest := UInt64.not_lt.mp hgt
      have hle' := toNat_le_iff.mp hle
      have hdiff : (w.highest - seq).toNat = w.highest.toNat - seq.toNat :=
        UInt64.toNat_sub_of_le _ _ hle
      have hwide : w.highest - seq ≥ 64 ↔ seq.toNat + 64 ≤ w.highest.toNat := by
        rw [ge_iff_le, toNat_le_iff, show (64 : UInt64).toNat = 64 from rfl, hdiff]
        omega
      dsimp only
      split
      · -- too far back
        rename_i hold
        refine .inr ⟨fun hfresh => ?_, _, rfl⟩
        have := hfresh.2 w.highest (h.highest_mem hne)
        have := hwide.mp hold
        omega
      · rename_i hold
        have hwin : w.highest.toNat - seq.toNat < 64 := by
          have := mt hwide.mpr hold
          omega
        have hbit : w.bitmap &&& (1 <<< (w.highest - seq)) ≠ 0 ↔ seq ∈ accepted := by
          rw [and_bit_ne_zero _ (by omega), hdiff, h.bits hne seq hle hwin]
        split
        · rename_i hset
          exact .inr ⟨fun hfresh => hfresh.1 (hbit.mp hset), _, rfl⟩
        · rename_i hset
          refine .inl ⟨⟨fun hmem => hset (hbit.mpr hmem), fun s hs => ?_⟩, _, rfl, h.fill hne hle hwin⟩
          have := toNat_le_iff.mp (h.le_highest s hs)
          omega

theorem Tracks.check_ok_iff (h : w.Tracks accepted) (seq : UInt64) :
    (w.check seq).isOk = true ↔ Fresh accepted seq := by
  rcases h.check seq with ⟨hfresh, w', hw', -⟩ | ⟨hnot, e, he⟩
  · rw [hw']
    exact iff_of_true rfl hfresh
  · rw [he]
    exact iff_of_false (by simp [Except.isOk, Except.toBool]) hnot

/-- A call, with the numbers accepted so far, newest first. -/
def call (s : ReplayWindow × List UInt64) (seq : UInt64) : ReplayWindow × List UInt64 :=
  match s.1.check seq with
  | .ok w => (w, seq :: s.2)
  | .error _ => s

/-- A sequence of calls. -/
def run (seqs : List UInt64) : ReplayWindow × List UInt64 := seqs.foldl call ({}, [])

theorem tracks_call {s : ReplayWindow × List UInt64} (h : s.1.Tracks s.2) (seq : UInt64) :
    (call s seq).1.Tracks (call s seq).2 := by
  rw [call]
  rcases h.check seq with ⟨-, w', hw', htracks⟩ | ⟨-, e, he⟩
  · rw [hw']
    exact htracks
  · rw [he]
    exact h

/-- **After any sequence of calls the window is exact.** -/
theorem tracks_run (seqs : List UInt64) : (run seqs).1.Tracks (run seqs).2 := by
  have key : ∀ s : ReplayWindow × List UInt64, s.1.Tracks s.2 →
      (seqs.foldl call s).1.Tracks (seqs.foldl call s).2 := by
    induction seqs with
    | nil => exact fun _ h => h
    | cons seq seqs ih => exact fun s h => ih _ (tracks_call h seq)
  exact key _ tracks_new

example : (run [3, 1, 3, 70, 5, 6]).2 = [70, 1, 3] := by decide

end ReplayWindow

end Posh
