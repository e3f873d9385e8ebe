/-
**Decompression of hostile input.**

Whatever the bytes are, decompression ends, and on the way every table, symbol and output index is in range
and every sum fits its width: an incomplete code is walked only to the symbols it has, a run of code lengths
that overshoots is refused, a copy goes back no further than the output.  What comes out is within the limit
and has the checksum of the stream.
-/

import Mathlib.Data.List.Induction
import Mathlib.Tactic.Linarith
import Posh.Term.HuffmanTables

set_option autoImplicit false

namespace Posh.Term

open ByteCursor Checked
open ByteCursor.Outcome (bind_ok)
open Huffman

variable {data : List UInt8} {limit : ℕ} {s : Inflation} {start : ℕ} {n : ℕ} {lit dist : Huffman} {ls ds : List ℕ}

/-! ### Transmitted codes -/

theorem readClen_meets (symbols : List ℕ) : ∀ {lengths : List ℕ} {pos : ℕ},
    (∀ s ∈ symbols, s < lengths.length) → pos ≤ 8 * data.length →
    (readClen data symbols lengths pos).Meets fun r =>
      r.1.length = lengths.length ∧ pos ≤ r.2 ∧ r.2 ≤ 8 * data.length := by
  induction symbols with
  | nil => exact fun _ hpos => ⟨rfl, Nat.le_refl _, hpos⟩
  | cons s symbols ih =>
    intro lengths pos hs hpos
    rw [readClen]
    refine (readBits_meets 3 hpos).bind ?_
    rintro ⟨l, pos'⟩ ⟨-, hnext, hin⟩
    dsimp only at hnext hin ⊢
    rw [set_eq (hs s List.mem_cons_self), bind_ok]
    have hrest : ∀ t ∈ symbols, t < (lengths.set s l).length := fun t ht => by
      rw [List.length_set]
      exact hs t (List.mem_cons_of_mem _ ht)
    refine (ih hrest hin).mono fun r hr => ⟨?_, by omega, hr.2.2⟩
    rw [hr.1, List.length_set]

theorem repeatLength_meets (prev n : ℕ) : ∀ {i : ℕ} {lengths : List ℕ},
    (repeatLength prev n i lengths).Meets fun r => r.2.length = lengths.length := by
  induction n with
  | zero => exact rfl
  | succ n ih =>
    intro i lengths
    rw [repeatLength]
    split
    · exact ih.mono fun r hr => hr.trans (List.length_set ..)
    · trivial

/-- What a symbol of the code length code means is stored in range. -/
theorem readLength_meets (sym : ℕ) {s : ReadingLengths} (hi : s.i < s.lengths.length)
    (hpos : s.pos ≤ 8 * data.length) : (readLength data sym s).Meets fun t =>
      t.lengths.length = s.lengths.length ∧ s.pos ≤ t.pos ∧ t.pos ≤ 8 * data.length := by
  rw [readLength]
  split
  · rw [set_eq hi, bind_ok]
    exact ⟨List.length_set .., Nat.le_refl _, hpos⟩
  · split
    · split
      · trivial
      · refine (get_meets (by omega)).bind fun prev _ => ?_
        refine (readBits_meets 2 hpos).bind ?_
        rintro ⟨n, pos⟩ ⟨-, hnext, hin⟩
        refine (repeatLength_meets prev (3 + n)).bind fun r hr => ?_
        exact ⟨hr, Nat.le.intro hnext.symm, hin⟩
    · split
      · refine (readBits_meets 3 hpos).bind ?_
        rintro ⟨n, pos⟩ ⟨-, hnext, hin⟩
        exact ⟨rfl, Nat.le.intro hnext.symm, hin⟩
      · split
        · refine (readBits_meets 7 hpos).bind ?_
          rintro ⟨n, pos⟩ ⟨-, hnext, hin⟩
          exact ⟨rfl, Nat.le.intro hnext.symm, hin⟩
        · trivial

/-- The loop over the code lengths ends, with as many as it was to read. -/
theorem readLengths_meets {lengths : List ℕ} {clen : Huffman} (htable : clen.IsTable lengths)
    {s : ReadingLengths} (hpos : s.pos ≤ 8 * data.length) :
    (readLengths data clen s).Meets fun t =>
      t.lengths.length = s.lengths.length ∧ s.pos ≤ t.pos ∧ t.pos ≤ 8 * data.length := by
  refine loop_meets (I := fun t => t.lengths.length = s.lengths.length ∧ s.pos ≤ t.pos ∧
    t.pos ≤ 8 * data.length) (fun t ht => ?_) s ⟨rfl, Nat.le_refl _, hpos⟩
  obtain ⟨hlength, hfrom, hin⟩ := ht
  rw [readLengthsTurn]
  split
  · next hi =>
      refine (decodeSymbol_meets htable hin).bind ?_
      rintro ⟨sym, pos⟩ ⟨hnext, hin'⟩
      refine (readLength_meets sym (s := { t with pos }) hi hin').bind fun u hu => ?_
      dsimp only at hnext hin' hu
      split
      · trivial
      · refine ⟨⟨hu.1.trans hlength, by omega, hu.2.2⟩, ?_⟩
        show bitsLeft data u.pos < bitsLeft data t.pos
        rw [bitsLeft, bitsLeft]
        omega
  · exact ⟨hlength, hfrom, hin⟩

/-- The two transmitted codes are the tables of their lengths. -/
theorem dynamicTables_meets {pos : ℕ} (hpos : pos ≤ 8 * data.length) :
    (dynamicTables data pos).Meets fun r => (∃ ls, r.1.IsTable ls) ∧ (∃ ls, r.2.1.IsTable ls) ∧
      pos ≤ r.2.2 ∧ r.2.2 ≤ 8 * data.length := by
  rw [dynamicTables]
  refine (readBits_meets 5 hpos).bind ?_
  rintro ⟨n₁, p₁⟩ ⟨hn₁, hp₁, hin₁⟩
  refine (readBits_meets 5 hin₁).bind ?_
  rintro ⟨n₂, p₂⟩ ⟨hn₂, hp₂, hin₂⟩
  refine (readBits_meets 4 hin₂).bind ?_
  rintro ⟨n₃, p₃⟩ ⟨-, hp₃, hin₃⟩
  dsimp only at *
  have horder : ∀ s ∈ clenOrder, s < 19 := by decide
  have hclen : ∀ s ∈ clenOrder.take (n₃ + 4), s < (List.replicate 19 0).length := fun s hs => by
    rw [List.length_replicate]
    exact horder s (List.mem_of_mem_take hs)
  refine (readClen_meets _ hclen hin₃).bind ?_
  rintro ⟨clenLengths, p₄⟩ ⟨hlen₄, hp₄, hin₄⟩
  dsimp only at *
  rw [List.length_replicate] at hlen₄
  refine (new_meets (by omega)).bind fun clen hclen => ?_
  refine (readLengths_meets hclen hin₄).bind fun s hs => ?_
  obtain ⟨hlength, hp₅, hin₅⟩ := hs
  dsimp only at hlength hp₅
  rw [List.length_replicate] at hlength
  refine (get_meets (by omega)).bind fun eob _ => ?_
  split
  · trivial
  · rw [split_eq (by omega), bind_ok]
    have hlit : (s.lengths.take (n₁ + 257)).length < 2 ^ 16 := by
      rw [List.length_take]
      omega
    have hdist : (s.lengths.drop (n₁ + 257)).length < 2 ^ 16 := by
      rw [List.length_drop]
      omega
    refine (new_meets hlit).bind fun lit hlit => ?_
    refine (new_meets hdist).bind fun dist hdist => ?_
    exact ⟨⟨_, hlit⟩, ⟨_, hdist⟩, by show pos ≤ s.pos; omega, hin₅⟩

theorem fixedLiterals_eq : ∃ h, fixedLiterals = .ok h ∧ h.IsTable fixedLiteralLengths := by
  obtain ⟨h, hnew, htable⟩ := (@new_spec fixedLiteralLengths
    (by decide +kernel)).1 (by decide +kernel)
  refine ⟨h, ?_, htable⟩
  rw [fixedLiterals, hnew]
  rfl

theorem fixedDistances_eq : ∃ h, fixedDistances = .ok h ∧ h.IsTable fixedDistanceLengths := by
  obtain ⟨h, hnew, htable⟩ := (@new_spec fixedDistanceLengths (by decide)).1 (by decide +kernel)
  refine ⟨h, ?_, htable⟩
  rw [fixedDistances, hnew]
  rfl

/-! ### Blocks -/

/-- The reader is in the input, from `start` on, and the output is within the limit. -/
structure Inflation.Within (data : List UInt8) (limit start : ℕ) (s : Inflation) : Prop where
  start_le : start ≤ s.pos
  pos_le : s.pos ≤ 8 * data.length
  length_le : s.out.length ≤ limit

theorem copyBack_meets {d : ℕ} (hd : 0 < d) (n : ℕ) : ∀ {out : List UInt8}, d ≤ out.length →
    (copyBack d n out).Meets fun o => o.length = out.length + n := by
  induction n with
  | zero => exact fun _ => rfl
  | succ n ih =>
    intro out hle
    rw [copyBack, sub_eq hle, bind_ok]
    refine (get_meets (by omega)).bind fun b _ => ?_
    have hlen : (out ++ [b]).length = out.length + 1 := List.length_append
    refine (ih (by omega)).mono fun o ho => ?_
    rw [ho, hlen]
    omega

theorem readExtra_meets {bases extras : List ℕ} {row pos : ℕ} (hbase : row < bases.length)
    (hextra : row < extras.length) (hpos : pos ≤ 8 * data.length) :
    (readExtra data bases extras row pos).Meets fun r =>
      (∃ b ∈ bases, b ≤ r.1) ∧ pos ≤ r.2 ∧ r.2 ≤ 8 * data.length := by
  rw [readExtra]
  refine (get_meets hbase).bind fun b hb => ?_
  refine (get_meets hextra).bind fun bits _ => ?_
  refine (readBits_meets bits hpos).bind ?_
  rintro ⟨n, pos'⟩ ⟨-, hnext, hin⟩
  exact ⟨⟨b, List.mem_of_getElem? hb, Nat.le_add_right _ _⟩, Nat.le.intro hnext.symm, hin⟩

theorem compressedTurn_meets (hlit : lit.IsTable ls)
    (hdist : dist.IsTable ds) (h : s.Within data limit start) :
    (compressedTurn data limit lit dist s).Meets (Turned (Inflation.Within data limit start)
      (Inflation.Within data limit start) (fun t => bitsLeft data t.pos) s) := by
  have hfrom := h.start_le
  have hin := h.pos_le
  rw [compressedTurn]
  refine (decodeSymbol_meets hlit hin).bind ?_
  rintro ⟨sym, p₁⟩ ⟨hp₁, hin₁⟩
  dsimp only at hp₁ hin₁ ⊢
  by_cases hbyte : sym ≤ 255
  · rw [if_pos hbyte]
    split
    · trivial
    · next hroom =>
        have hlen : (s.out ++ [UInt8.ofNat sym]).length = s.out.length + 1 := List.length_append
        refine ⟨⟨by show start ≤ p₁; omega, hin₁, ?_⟩, ?_⟩
        · show (s.out ++ [UInt8.ofNat sym]).length ≤ limit
          omega
        · show bitsLeft data p₁ < bitsLeft data s.pos
          rw [bitsLeft, bitsLeft]
          omega
  · rw [if_neg hbyte]
    by_cases hend : sym = 256
    · rw [if_pos hend]
      exact ⟨by show start ≤ p₁; omega, hin₁, h.length_le⟩
    · rw [if_neg hend]
      split
      · -- a copy: the rows are in the tables, and a distance is at least one
        have hrows : lengthBase.length = 29 ∧ lengthExtra.length = 29 := ⟨rfl, rfl⟩
        refine (readExtra_meets (by omega) (by omega) hin₁).bind ?_
        rintro ⟨len, p₂⟩ ⟨-, hp₂, hin₂⟩
        refine (decodeSymbol_meets hdist hin₂).bind ?_
        rintro ⟨dsym, p₃⟩ ⟨hp₃, hin₃⟩
        dsimp only at hp₂ hin₂ hp₃ hin₃ ⊢
        split
        · trivial
        · have hdrows : distBase.length = 30 ∧ distExtra.length = 30 := ⟨rfl, rfl⟩
          refine (readExtra_meets (by omega) (by omega) hin₃).bind ?_
          rintro ⟨d, p₄⟩ ⟨⟨b, hb, hbd⟩, hp₄, hin₄⟩
          dsimp only at hbd hp₄ hin₄ ⊢
          have hpos : 0 < d := by
            have hbases : ∀ b ∈ distBase, 0 < b := by decide
            exact Nat.lt_of_lt_of_le (hbases b hb) hbd
          split
          · trivial
          · split
            · trivial
            · refine (copyBack_meets hpos len (by omega)).bind fun out hout => ?_
              refine ⟨⟨by show start ≤ p₄; omega, hin₄, by show out.length ≤ limit; omega⟩, ?_⟩
              show bitsLeft data p₄ < bitsLeft data s.pos
              rw [bitsLeft, bitsLeft]
              omega
      · trivial

theorem inflateCompressed_meets (hlit : lit.IsTable ls) (hdist : dist.IsTable ds) (h : s.Within data limit start) :
    (inflateCompressed data limit lit dist s).Meets (Inflation.Within data limit start) :=
  loop_meets (I := Inflation.Within data limit start)
    (fun _ ht => compressedTurn_meets hlit hdist ht) s h

theorem inflateStored_meets (h : s.Within data limit start) :
    (inflateStored data limit s).Meets (Inflation.Within data limit start) := by
  have hfrom := h.start_le
  have hin := h.pos_le
  rw [inflateStored]
  dsimp only
  refine (readBits_meets 16 (by omega)).bind ?_
  rintro ⟨len, p₁⟩ ⟨-, hp₁, hin₁⟩
  refine (readBits_meets 16 hin₁).bind ?_
  rintro ⟨nlen, p₂⟩ ⟨-, hp₂, hin₂⟩
  dsimp only at hp₁ hin₁ hp₂ hin₂ ⊢
  split
  · trivial
  · split
    · trivial
    · split
      · trivial
      · next bytes hbytes =>
          rw [getRange] at hbytes
          split at hbytes
          · next hrange =>
              cases hbytes
              have hlen : ((data.drop (p₂ / 8)).take (p₂ / 8 + len - p₂ / 8)).length = len := by
                rw [List.length_take, List.length_drop]
                omega
              refine ⟨by show start ≤ p₂ + len * 8; omega, by show p₂ + len * 8 ≤ _; omega, ?_⟩
              rw [List.length_append, hlen]
              omega
          · cases hbytes

theorem inflateBlock_meets (kind : ℕ) (h : s.Within data limit s.pos) :
    (inflateBlock data limit kind s).Meets (Inflation.Within data limit s.pos) := by
  match kind with
  | 0 =>
    rw [inflateBlock]
    exact inflateStored_meets h
  | 1 =>
    obtain ⟨lit, hlit, hlitTable⟩ := fixedLiterals_eq
    obtain ⟨dist, hdist, hdistTable⟩ := fixedDistances_eq
    rw [inflateBlock, hlit, bind_ok, hdist, bind_ok]
    exact inflateCompressed_meets hlitTable hdistTable h
  | 2 =>
    rw [inflateBlock]
    refine (dynamicTables_meets h.pos_le).bind ?_
    rintro ⟨lit, dist, p₃⟩ ⟨⟨ls, hlit⟩, ⟨ds, hdist⟩, hp₃, hin₃⟩
    exact inflateCompressed_meets hlit hdist ⟨hp₃, hin₃, h.length_le⟩
  | k + 3 => trivial

theorem inflateTurn_meets (h : s.Within data limit 0) :
    (inflateTurn data limit s).Meets (Turned (Inflation.Within data limit 0)
      (fun r => r.1.length ≤ limit ∧ r.2 ≤ data.length) (fun t => bitsLeft data t.pos) s) := by
  have hin := h.pos_le
  rw [inflateTurn]
  refine (readBits_meets 1 hin).bind ?_
  rintro ⟨bfinal, p₁⟩ ⟨-, hp₁, hin₁⟩
  refine (readBits_meets 2 hin₁).bind ?_
  rintro ⟨kind, p₂⟩ ⟨-, hp₂, hin₂⟩
  dsimp only at hp₁ hin₁ hp₂ hin₂ ⊢
  -- a block leaves the reader behind its header
  refine (inflateBlock_meets kind (s := { s with pos := p₂ })
    ⟨Nat.le_refl _, hin₂, h.length_le⟩).bind fun t ht => ?_
  have hpos := ht.pos_le
  have hnext := ht.start_le
  dsimp only at hnext
  split
  · exact ⟨ht.length_le, by show (t.pos + 7) / 8 ≤ _; omega⟩
  · refine ⟨⟨Nat.zero_le _, hpos, ht.length_le⟩, ?_⟩
    show bitsLeft data t.pos < bitsLeft data s.pos
    rw [bitsLeft, bitsLeft]
    omega

/-- **A stream is decompressed within the limit, or refused.** -/
theorem inflate_meets (data : List UInt8) (limit : ℕ) :
    (inflate data limit).Meets fun r => r.1.length ≤ limit ∧ r.2 ≤ data.length :=
  loop_meets (I := Inflation.Within data limit 0) (fun _ hs => inflateTurn_meets hs) _
    ⟨Nat.le_refl _, Nat.zero_le _, Nat.zero_le _⟩

/-! ### The checksum -/

/-- One byte of the checksum, as the format defines it: the sum of the bytes, and the sum of these sums. -/
def adlerStep (s : ℕ × ℕ) (byte : UInt8) : ℕ × ℕ :=
  ((s.1 + byte.toNat) % adlerMod, (s.2 + (s.1 + byte.toNat)) % adlerMod)

/-- The checksum of a byte string, as the format defines it. -/
def adlerOf (bytes : List UInt8) : ℕ :=
  (bytes.foldl adlerStep (1, 0)).2 * 65536 + (bytes.foldl adlerStep (1, 0)).1

/-- Both sums of a pair, reduced. -/
def adlerReduced (s : ℕ × ℕ) : ℕ × ℕ := (s.1 % adlerMod, s.2 % adlerMod)

theorem adlerStep_reduced (a b : ℕ) (byte : UInt8) :
    adlerStep (adlerReduced (a, b)) byte = adlerReduced (a + byte.toNat, b + (a + byte.toNat)) := by
  rw [adlerStep, adlerReduced, adlerReduced]
  refine Prod.ext ?_ ?_
  · exact Nat.mod_add_mod a adlerMod byte.toNat
  · show (b % adlerMod + (a % adlerMod + byte.toNat)) % adlerMod = (b + (a + byte.toNat)) % adlerMod
    rw [Nat.mod_add_mod, ← Nat.add_assoc, Nat.add_right_comm, Nat.add_mod_mod, Nat.add_right_comm,
      Nat.add_assoc]

/-- Twice the bound of the second sum after `n` more bytes. -/
def adlerBound (n : ℕ) (s : ℕ × ℕ) : ℕ := 2 * s.2 + n * (2 * s.1 + 255 * (n + 1))

theorem adlerBound_step (n a b : ℕ) (byte : UInt8) :
    adlerBound n (a + byte.toNat, b + (a + byte.toNat)) ≤ adlerBound (n + 1) (a, b) := by
  have hbyte : byte.toNat ≤ 255 := Nat.le_of_lt_succ byte.toNat_lt
  have hmul : (n + 1) * byte.toNat ≤ (n + 1) * 255 := Nat.mul_le_mul_left _ hbyte
  show 2 * (b + (a + byte.toNat)) + n * (2 * (a + byte.toNat) + 255 * (n + 1)) ≤
    2 * b + (n + 1) * (2 * a + 255 * (n + 1 + 1))
  nlinarith

theorem adlerBytes_eq (bytes : List UInt8) : ∀ {s : ℕ × ℕ}, adlerBound bytes.length s < 2 ^ 33 →
    ∃ t, adlerBytes bytes s = .ok t ∧ adlerReduced t = bytes.foldl adlerStep (adlerReduced s) := by
  induction bytes with
  | nil => exact fun _ => ⟨_, rfl, rfl⟩
  | cons byte bytes ih =>
    rintro ⟨a, b⟩ hroom
    have hnext := Nat.lt_of_le_of_lt (adlerBound_step bytes.length a b byte) hroom
    have hsum : 2 * (b + (a + byte.toNat)) ≤
        adlerBound bytes.length (a + byte.toNat, b + (a + byte.toNat)) := Nat.le_add_right _ _
    obtain ⟨t, ht, hreduced⟩ := ih hnext
    refine ⟨t, ?_, ?_⟩
    · rw [adlerBytes, fits_eq (by omega), bind_ok, fits_eq (by omega), bind_ok, ht]
    · rw [hreduced, List.foldl_cons, adlerStep_reduced]

theorem adlerReduced_idem (s : ℕ × ℕ) : adlerReduced (adlerReduced s) = adlerReduced s :=
  Prod.ext (Nat.mod_mod _ _) (Nat.mod_mod _ _)

theorem adlerBound_chunk (hn : n ≤ adlerChunk) (s : ℕ × ℕ) : adlerBound n (adlerReduced s) < 2 ^ 33 := by
  have ha : s.1 % adlerMod ≤ 65520 := Nat.le_of_lt_succ (Nat.mod_lt _ (by decide))
  have hb : s.2 % adlerMod ≤ 65520 := Nat.le_of_lt_succ (Nat.mod_lt _ (by decide))
  have hle : n * (2 * (s.1 % adlerMod) + 255 * (n + 1)) ≤ 5552 * (2 * 65520 + 255 * (5552 + 1)) :=
    Nat.mul_le_mul hn (by rw [adlerChunk] at hn; omega)
  show 2 * (s.2 % adlerMod) + n * (2 * (s.1 % adlerMod) + 255 * (n + 1)) < 2 ^ 33
  omega

theorem adlerChunks_eq {cs : List (List UInt8)} (hcs : ∀ c ∈ cs, c.length ≤ adlerChunk) :
    ∀ s, adlerChunks cs (adlerReduced s) = .ok (cs.flatten.foldl adlerStep (adlerReduced s)) := by
  induction cs with
  | nil => exact fun _ => rfl
  | cons c cs ih =>
    intro s
    obtain ⟨t, ht, hreduced⟩ := adlerBytes_eq c (adlerBound_chunk (hcs c List.mem_cons_self) s)
    rw [adlerReduced_idem] at hreduced
    rw [adlerChunks, ht, bind_ok, List.flatten_cons, List.foldl_append, ← hreduced]
    exact ih (fun d hd => hcs d (List.mem_cons_of_mem _ hd)) t

theorem flatten_chunks {α : Type} (hn : 0 < n) (xs : List α) : (chunks n xs).flatten = xs := by
  induction hk : xs.length using Nat.strong_induction_on generalizing xs with
  | _ k ih =>
    rw [chunks]
    by_cases hnil : xs = []
    · rw [dif_neg fun h => h.1 hnil, hnil, List.flatten_nil]
    · have hpos := List.length_pos_iff.2 hnil
      rw [dif_pos ⟨hnil, hn⟩, List.flatten_cons,
        ih (xs.drop n).length (by rw [List.length_drop]; omega) _ rfl, List.take_append_drop]

theorem length_chunks_le {α : Type} (xs : List α) : ∀ c ∈ chunks n xs, c.length ≤ n := by
  induction hk : xs.length using Nat.strong_induction_on generalizing xs with
  | _ k ih =>
    rw [chunks]
    split
    · next h =>
        have hpos := List.length_pos_iff.2 h.1
        have hn := h.2
        refine List.forall_mem_cons.2 ⟨List.length_take_le _ _, ?_⟩
        exact ih (xs.drop n).length (by rw [List.length_drop]; omega) _ rfl
    · exact List.forall_mem_nil _

theorem adlerStep_lt (s : ℕ × ℕ) (byte : UInt8) :
    (adlerStep s byte).1 < adlerMod ∧ (adlerStep s byte).2 < adlerMod :=
  ⟨Nat.mod_lt _ (by decide), Nat.mod_lt _ (by decide)⟩

theorem foldl_adlerStep_lt (bytes : List UInt8) :
    (bytes.foldl adlerStep (1, 0)).1 < adlerMod ∧ (bytes.foldl adlerStep (1, 0)).2 < adlerMod := by
  induction bytes using List.reverseRecOn with
  | nil => decide
  | append_singleton bytes byte ih =>
    rw [List.foldl_append]
    exact adlerStep_lt _ byte

/-- **The lazily reduced sums are the checksum of the format**, and no sum leaves 32 bits. -/
theorem adler32_eq (bytes : List UInt8) : adler32 bytes = .ok (adlerOf bytes) := by
  have hsums := adlerChunks_eq (length_chunks_le (n := adlerChunk) bytes) (1, 0)
  have hone : adlerReduced (1, 0) = (1, 0) := rfl
  rw [flatten_chunks (by decide), hone] at hsums
  obtain ⟨ha, hb⟩ := foldl_adlerStep_lt bytes
  rw [adlerMod] at ha hb
  have hshift : (bytes.foldl adlerStep (1, 0)).2 <<< 16 % 2 ^ 32 =
      (bytes.foldl adlerStep (1, 0)).2 <<< 16 := by
    rw [Nat.shiftLeft_eq]
    omega
  rw [adler32, hsums, bind_ok]
  refine congrArg Outcome.ok ?_
  rw [hshift, ← Nat.shiftLeft_add_eq_or_of_lt (by omega), Nat.shiftLeft_eq]
  rfl

/-! ### The stream -/

/-- No step of decompression goes wrong, and an output is within the limit and has the checksum behind it. -/
theorem zlibDecompress_meets (data : List UInt8) (limit : ℕ) :
    (zlibDecompress data limit).Meets fun out => out.length ≤ limit ∧
      ∃ used, inflate (data.drop 2) limit = .ok (out, used) ∧ used + 4 ≤ (data.drop 2).length ∧
        WordBytes.ofBe (((data.drop 2).drop used).take 4) = adlerOf out := by
  match data with
  | [] => trivial
  | [_] => trivial
  | cmf :: flg :: rest =>
    rw [zlibDecompress]
    dsimp only
    split
    · trivial
    · have hmeets := inflate_meets rest limit
      cases hinflate : inflate rest limit with
      | error e => trivial
      | outOfRange =>
        rw [hinflate] at hmeets
        exact hmeets.elim
      | ok r =>
        obtain ⟨out, used⟩ := r
        rw [hinflate] at hmeets
        rw [bind_ok]
        dsimp only
        split
        · trivial
        · next trailer htrailer =>
            rw [adler32_eq, bind_ok]
            rw [getRange] at htrailer
            split at htrailer
            · next hrange =>
                cases htrailer
                split
                · trivial
                · next hsum =>
                    refine ⟨hmeets.1, used, hinflate, hrange.2, ?_⟩
                    rw [Nat.add_sub_cancel_left] at hsum
                    exact (not_not.1 hsum).symm
            · cases htrailer

/-- **Decompression of any bytes is safe**: it ends without an access out of range and without a sum that
does not fit.  An output is within the limit and has the checksum that follows the compressed stream; and
the checksum of every byte string is the one the format defines. -/
theorem zlibDecompress_safe (data : List UInt8) (limit : ℕ) :
    ((zlibDecompress data limit).Meets fun out => out.length ≤ limit ∧
      ∃ used, inflate (data.drop 2) limit = .ok (out, used) ∧ used + 4 ≤ (data.drop 2).length ∧
        WordBytes.ofBe (((data.drop 2).drop used).take 4) = adlerOf out) ∧
      ∀ bytes, adler32 bytes = .ok (adlerOf bytes) :=
  ⟨zlibDecompress_meets data limit, adler32_eq⟩

end Posh.Term
