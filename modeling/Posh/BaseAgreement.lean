/-
**Bases agree with the frames they name.**

A frame producer may be driven in any order: frames of either kind, acknowledgements of any number, encodings,
and lost bases.  The record of a run has each frame as it was when it was produced, by number.  Whatever
base the producer holds is the recorded frame that was acknowledged, so a diff it sends is against that
frame's dump.

The dumps here are of any length.  The length fields of a diff are 32 bits wide, and a diff is only
promised to apply to a base that they can measure.
-/

import Posh.FrameProducer

set_option autoImplicit false

namespace Posh

open FrameProducer
open Splice

variable {τ σ : Type}

/-- What a producer is asked to do. -/
inductive ProducerOp (σ : Type) where
  | advanceVisible (dump : Bytes) (snapshot : σ) (alt : Bool) (dims : ℕ × ℕ) (sbTotal : ℕ)
  | advanceScrollback (sbTotal : ℕ)
  | advanceScrollbackAfterVisible (sbTotal : ℕ)
  | ack (n : ℕ)
  | encodeVisible (useMorph : Bool)
  | dropAckedBase

/-- A producer, with its frames as they were when they were produced, by number. -/
structure ProducerRun (σ : Type) where
  producer : FrameProducer σ Bytes
  record : List (ProducedFrame σ Bytes)

namespace ProducerRun

def new (D : Display τ σ) (rows cols : ℕ) : ProducerRun σ where
  producer := .new D rows cols
  record := [(FrameProducer.new D rows cols).current]

/-- A producer with a new frame, which is recorded. -/
def produce (s : ProducerRun σ) (p : FrameProducer σ Bytes) : ProducerRun σ where
  producer := p
  record := s.record ++ [p.current]

def step (s : ProducerRun σ) : ProducerOp σ → ProducerRun σ
  | .advanceVisible dump snapshot alt dims sbTotal =>
    s.produce (s.producer.advanceVisible dump snapshot alt dims sbTotal)
  | .advanceScrollback sbTotal => s.produce (s.producer.advanceScrollback sbTotal)
  | .advanceScrollbackAfterVisible sbTotal =>
    s.produce (s.producer.advanceScrollbackAfterVisible sbTotal)
  | .ack n => { s with producer := (s.producer.ack n).2 }
  -- an encoding changes nothing that is kept
  | .encodeVisible _ => s
  | .dropAckedBase => { s with producer := s.producer.dropAckedBase }

def run (D : Display τ σ) (rows cols : ℕ) (ops : List (ProducerOp σ)) : ProducerRun σ :=
  ops.foldl step (new D rows cols)

/-! ### The agreement -/

/-- A base of a producer is a frame: its dump, its snapshot, its screen and its size. -/
def IsBase (f : ProducedFrame σ Bytes) (p : FrameProducer σ Bytes) : Prop :=
  p.ackedData = some f.data ∧ p.ackedBaseline = some (f.snapshot, f.altScreen, f.dims)

/-- **Everything the producer holds agrees with the record.** -/
structure Agrees (s : ProducerRun σ) : Prop where
  /-- the frames are numbered one after another, the newest last -/
  length_eq : s.record.length = s.producer.current.num + 1
  num_eq : ∀ (n : ℕ) (f : ProducedFrame σ Bytes), s.record[n]? = some f → f.num = n
  current : s.record[s.producer.current.num]? = some s.producer.current
  /-- the retained frames are recorded ones, and at most eight -/
  outstanding : ∀ f ∈ s.producer.outstanding, s.record[f.num]? = some f
  outstanding_le : s.producer.outstanding.length ≤ 8
  acked_le : s.producer.ackedNum ≤ s.producer.current.num
  /-- a base is held as a whole, and is the frame acknowledged -/
  base : (s.producer.ackedData = none ∧ s.producer.ackedBaseline = none) ∨
    ∃ f, s.record[s.producer.ackedNum]? = some f ∧ IsBase f s.producer

variable {s : ProducerRun σ} (D : Display τ σ) {p : FrameProducer σ Bytes}

theorem agrees_new (rows cols : ℕ) : Agrees (new D rows cols) where
  length_eq := rfl
  num_eq := by
    intro n f hf
    rcases n with _ | n
    · rw [← Option.some.inj hf]
      rfl
    · cases hf
  current := rfl
  outstanding := fun f hf => absurd hf List.not_mem_nil
  outstanding_le := Nat.zero_le 8
  acked_le := Nat.le_refl 0
  base := .inr ⟨_, rfl, rfl, rfl⟩

theorem getElem?_record_append {n : ℕ} {f : ProducedFrame σ Bytes} (h : s.record[n]? = some f)
    (g : ProducedFrame σ Bytes) : (s.record ++ [g])[n]? = some f := by
  obtain ⟨hlt, -⟩ := List.getElem?_eq_some_iff.mp h
  rw [List.getElem?_append_left hlt, h]

theorem Agrees.produce (h : Agrees s) {next : ProducedFrame σ Bytes}
    (hcurrent : p.current = next) (hnum : next.num = s.producer.current.num + 1)
    (hout : p.outstanding = (s.producer.rotateCurrent next).outstanding)
    (hacked : p.ackedNum = s.producer.ackedNum) (hdata : p.ackedData = s.producer.ackedData)
    (hbaseline : p.ackedBaseline = s.producer.ackedBaseline) : Agrees (s.produce p) where
  length_eq := by
    show (s.record ++ [p.current]).length = p.current.num + 1
    rw [List.length_append, h.length_eq, hcurrent, hnum]
    rfl
  num_eq := by
    intro n f hf
    have hf' : (s.record ++ [p.current])[n]? = some f := hf
    by_cases hlt : n < s.record.length
    · rw [List.getElem?_append_left hlt] at hf'
      exact h.num_eq n f hf'
    · have hn : n = s.record.length := by
        have hlen := (List.getElem?_eq_some_iff.mp hf').1
        rw [List.length_append, List.length_singleton] at hlen
        omega
      rw [hn, List.getElem?_concat_length, Option.some.injEq] at hf'
      rw [← hf', hcurrent, hnum, hn, h.length_eq]
  current := by
    show (s.record ++ [p.current])[p.current.num]? = some p.current
    have hlast : p.current.num = s.record.length := by rw [hcurrent, hnum, h.length_eq]
    rw [hlast, List.getElem?_concat_length]
  outstanding := by
    intro f hf
    have hmem : f ∈ (s.producer.rotateCurrent next).outstanding := hout ▸ hf
    rcases mem_rotateCurrent hmem with hold | rfl
    · exact getElem?_record_append (h.outstanding f hold) _
    · exact getElem?_record_append h.current _
  outstanding_le := by
    have hle := h.outstanding_le
    have hlen : (s.producer.outstanding ++ [s.producer.current]).length =
        s.producer.outstanding.length + 1 := by rw [List.length_append, List.length_singleton]
    show p.outstanding.length ≤ 8
    rw [hout]
    simp only [rotateCurrent]
    split
    · rw [List.length_drop, hlen]
      omega
    · omega
  acked_le := by
    have hle := h.acked_le
    show p.ackedNum ≤ p.current.num
    rw [hacked, hcurrent, hnum]
    omega
  base := by
    rcases h.base with ⟨hd, hb⟩ | ⟨f, hf, hd, hb⟩
    · exact .inl ⟨hdata.trans hd, hbaseline.trans hb⟩
    · refine .inr ⟨f, ?_, hdata.trans hd, hbaseline.trans hb⟩
      show (s.record ++ [p.current])[p.ackedNum]? = some f
      rw [hacked]
      exact getElem?_record_append hf _

theorem Agrees.ack (h : Agrees s) (n : ℕ) : Agrees { s with producer := (s.producer.ack n).2 } := by
  rcases s.producer.ack_cases n with ⟨-, heq⟩ | ⟨-, hle, heq⟩
  · rw [heq]
    exact h
  · rw [heq]
    refine ⟨h.length_eq, h.num_eq, h.current, ?_, ?_, hle, ?_⟩
    · exact fun f hf => h.outstanding f (List.mem_of_mem_filter hf)
    · exact Nat.le_trans (List.length_filter_le _ _) h.outstanding_le
    · cases hf : s.producer.retained n with
      | none => exact .inl ⟨rfl, rfl⟩
      | some f =>
        refine .inr ⟨f, ?_, rfl, rfl⟩
        obtain ⟨rfl, rfl | hmem⟩ := retained_mem hf
        · exact h.current
        · exact h.outstanding f hmem

/-- **Every operation keeps the agreement.** -/
theorem Agrees.step (h : Agrees s) (op : ProducerOp σ) : Agrees (s.step op) := by
  cases op with
  | advanceVisible dump snapshot alt dims sbTotal =>
    exact h.produce rfl rfl rfl rfl rfl rfl
  | advanceScrollback sbTotal =>
    obtain ⟨next, heq, hnum⟩ := s.producer.advanceScrollback_eq sbTotal
    have hrotated : s.step (.advanceScrollback sbTotal) = s.produce (s.producer.rotateCurrent next) :=
      congrArg s.produce heq
    rw [hrotated]
    exact h.produce rfl hnum rfl rfl rfl rfl
  | advanceScrollbackAfterVisible sbTotal =>
    exact h.produce rfl rfl rfl rfl rfl rfl
  | ack n => exact h.ack n
  | encodeVisible useMorph => exact h
  | dropAckedBase =>
    exact ⟨h.length_eq, h.num_eq, h.current, h.outstanding, h.outstanding_le, h.acked_le, .inl ⟨rfl, rfl⟩⟩

theorem agrees_run (rows cols : ℕ) (ops : List (ProducerOp σ)) : Agrees (run D rows cols ops) := by
  induction ops using List.reverseRecOn with
  | nil => exact agrees_new D rows cols
  | append_singleton ops op ih =>
    rw [run, List.foldl_append]
    exact ih.step op

theorem step_nums (s : ProducerRun σ) (op : ProducerOp σ) :
    s.producer.ackedNum ≤ (s.step op).producer.ackedNum ∧ ((s.step op).producer.current = s.producer.current ∨
        (s.step op).producer.current.num = s.producer.current.num + 1) := by
  cases op with
  | advanceVisible dump snapshot alt dims sbTotal => exact ⟨Nat.le_refl _, .inr rfl⟩
  | advanceScrollback sbTotal =>
    obtain ⟨next, heq, hnum⟩ := s.producer.advanceScrollback_eq sbTotal
    have hproducer : (s.step (.advanceScrollback sbTotal)).producer = s.producer.rotateCurrent next := heq
    rw [hproducer]
    exact ⟨Nat.le_refl _, .inr hnum⟩
  | advanceScrollbackAfterVisible sbTotal => exact ⟨Nat.le_refl _, .inr rfl⟩
  | ack n =>
    refine ⟨?_, .inl (s.producer.ack_current n).1⟩
    show s.producer.ackedNum ≤ (s.producer.ack n).2.ackedNum
    rcases s.producer.ack_cases n with ⟨-, heq⟩ | ⟨hlt, -, heq⟩
    · rw [heq]
    · rw [heq]
      exact Nat.le_of_lt hlt
  | encodeVisible useMorph => exact ⟨Nat.le_refl _, .inl rfl⟩
  | dropAckedBase => exact ⟨Nat.le_refl _, .inl rfl⟩

/-! ### What is encoded -/

theorem encodeVisible_of_no_base (p : FrameProducer σ Bytes) (useMorph : Bool)
    (h : p.hasAckedBase = false) : p.encodeVisible D useMorph = .full p.current.data := by
  have hnone : p.baseline = none := by
    rw [hasAckedBase, Option.isSome_eq_false_iff, Option.isNone_iff_eq_none] at h
    rw [baseline, h]
  rw [encodeVisible, hnone]
  cases useMorph <;> rfl

theorem encodeVisible_diff {useMorph : Bool} {base : ℕ} {baseSum : Option UInt32} {diff : Bytes}
    (h : p.encodeVisible D useMorph = .diff base baseSum diff) :
    base = p.ackedNum ∧ ∃ d, p.ackedData = some d ∧ diff = makeDiff d p.current.data := by
  cases useMorph with
  | true =>
    rw [encodeVisible, if_pos rfl] at h
    cases hb : p.baseline with
    | none =>
      rw [hb] at h
      cases h
    | some b =>
      rw [hb] at h
      simp only [MorphDelta.encode] at h
      split at h <;> cases h
  | false =>
    rw [encodeVisible, if_neg Bool.false_ne_true] at h
    rcases DumpDiff.encode_cases p.baseline p.currentFrame with hfull | ⟨b, hb, -, hdiff⟩
    · rw [hfull] at h
      cases h
    · rw [hdiff] at h
      rw [baseline] at hb
      split at hb
      case h_2 => cases hb
      case h_1 dump snapshot alt dims hdata _ =>
        rw [← Option.some.inj hb] at h
        cases h
        exact ⟨rfl, dump, hdata, rfl⟩

/-- **Bases agree with the frames they name.**  In every run the frames are numbered one after another, at
most eight are outstanding, and only a frame that was sent is acknowledged; a step never takes the
acknowledged number back.  A base that is held is the frame acknowledged as it was recorded when it was
produced.  So a diff names the frame acknowledged, and applied to the dump recorded for it gives the newest
frame's dump, if the length fields of a diff can measure that base.  With no base the whole dump is sent. -/
theorem base_agreement (D : Display τ σ) (rows cols : ℕ) (ops : List (ProducerOp σ)) :
    let s := run D rows cols ops
    Agrees s ∧ (∀ op, s.producer.ackedNum ≤ (s.step op).producer.ackedNum ∧
      ((s.step op).producer.current = s.producer.current ∨
        (s.step op).producer.current.num = s.producer.current.num + 1)) ∧
    (∀ useMorph base baseSum diff, s.producer.encodeVisible D useMorph = .diff base baseSum diff →
      base = s.producer.ackedNum ∧ ∃ f, s.record[s.producer.ackedNum]? = some f ∧
        (f.data.length < 2 ^ 32 → applyDiff f.data diff = some s.producer.current.data)) ∧
    ∀ useMorph, s.producer.hasAckedBase = false →
      s.producer.encodeVisible D useMorph = .full s.producer.current.data := by
  intro s
  have hagrees : Agrees s := agrees_run D rows cols ops
  refine ⟨hagrees, step_nums s, ?_, fun useMorph => encodeVisible_of_no_base D _ useMorph⟩
  intro useMorph base baseSum diff hdiff
  obtain ⟨hbase, d, hd, rfl⟩ := encodeVisible_diff D hdiff
  refine ⟨hbase, ?_⟩
  rcases hagrees.base with ⟨hnone, -⟩ | ⟨f, hf, hdata, -⟩
  · rw [hnone] at hd
    cases hd
  · refine ⟨f, hf, fun hlen => ?_⟩
    rw [hdata, Option.some.injEq] at hd
    rw [hd] at hlen ⊢
    exact applyDiff_makeDiff _ hlen

/-! ### A base too long for the length fields -/

theorem commonPrefix_append (base t : Bytes) : commonPrefix base (base ++ t) = base.length := by
  induction base with
  | nil => exact commonPrefix_nil_left _
  | cons b base ih =>
    rw [List.cons_append, commonPrefix, if_pos rfl, ih, List.length_cons]

theorem makeDiff_append (base : Bytes) (b : UInt8) :
    makeDiff base (base ++ [b]) = WordBytes.le 4 base.length ++ WordBytes.le 4 0 ++ [b] := by
  have hmin : min base.length (base ++ [b]).length - base.length = 0 := by
    rw [List.length_append]
    omega
  have hmiddle : middle base.length 0 (base ++ [b]) = [b] := by
    rw [middle, Nat.sub_zero, List.take_length, List.drop_left]
  simp only [makeDiff, commonPrefix_append, hmin, commonSuffix, Nat.min_zero, hmiddle]

/-- A base with as many bytes as the length fields cannot tell from none: the diff that is sent does not
give the newest dump. -/
theorem base_agreement_long :
    ∃ ops, ∃ diff, let s := run nullDisplay 24 80 ops
      s.producer.encodeVisible nullDisplay false = .diff s.producer.ackedNum none diff ∧
      ∃ f, s.record[s.producer.ackedNum]? = some f ∧
        applyDiff f.data diff ≠ some s.producer.current.data := by
  obtain ⟨base, hbase⟩ : ∃ base : Bytes, base.length = 2 ^ 32 :=
    ⟨List.replicate (2 ^ 32) 0, List.length_replicate⟩
  refine ⟨[.advanceVisible base () false (24, 80) 0, .ack 1,
    .advanceVisible (base ++ [1]) () false (24, 80) 0], makeDiff base (base ++ [1]), ?_, _, rfl, ?_⟩
  · have hwin : (makeDiff base (base ++ [1])).length + 8 < (base ++ [1]).length := by
      rw [makeDiff_append, List.length_append, List.length_append, WordBytes.length_le,
        WordBytes.length_le, List.length_append, hbase]
      decide
    exact if_pos hwin
  · intro heq
    have hparts := makeDiff_parts base.length 0 [(1 : UInt8)]
    rw [← makeDiff_append] at hparts
    obtain ⟨hlen, hpre, hsuffix, hmid⟩ := hparts
    have heq' : applyDiff base (makeDiff base (base ++ [1])) = some (base ++ [1]) := heq
    have hzero : (2 : ℕ) ^ 32 % 256 ^ 4 = 0 := by decide
    rw [applyDiff, if_neg (by rw [hlen]; simp), hpre, hsuffix, hmid, hbase, hzero] at heq'
    simp only [Nat.zero_mod, Nat.add_zero, Nat.not_lt_zero, gt_iff_lt, if_false, Splice.splice,
      List.take_zero, List.nil_append, Nat.sub_zero, List.drop_length, List.append_nil,
      Option.some.injEq] at heq'
    have hcount := congrArg List.length heq'
    rw [List.length_append, hbase] at hcount
    simp at hcount

end ProducerRun

end Posh
