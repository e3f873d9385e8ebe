/-
**Decompression inverts the format.**

A cursor stands before the bits of a token, of a run of code lengths, of a block; each is read as what it
is, and the cursor stands behind it.  A stream of blocks is therefore decompressed to its output, whatever
follows it.
-/

import Posh.Term.Deflate
import Posh.Term.InflateSafe
import Mathlib.Data.Nat.Bitwise

set_option autoImplicit false

namespace Posh.Term

open ByteCursor Checked CanonicalCode
open ByteCursor.Outcome (bind_ok)
open Bits (length_lsb lsb value)
open List (append_assoc append_nil flatMap_cons getD_eq_getElem?_getD length_append length_replicate range replicate)
open LengthRun
open Bits

variable {data : List UInt8} {limit pos : ℕ} {rest : List Bool} {done : List ℕ} {n : ℕ} {out : List UInt8}

/-! ### Copies -/

/-- The byte that a copy repeats at its `k`-th place. -/
def repeated (out : List UInt8) (d k : ℕ) : UInt8 := (out.drop (out.length - d)).getD (k % d) 0

/-- **Copying byte by byte repeats the last bytes**; `k` of them are there. -/
theorem copyBack_from {d : ℕ} (hd : 0 < d) (hle : d ≤ out.length) (n : ℕ) :
    ∀ k, copyBack d n (out ++ (range k).map (repeated out d)) =
      .ok (out ++ (range (k + n)).map (repeated out d)) := by
  induction n with
  | zero => exact fun _ => rfl
  | succ n ih =>
    intro k
    have hlen : (out ++ (range k).map (repeated out d)).length = out.length + k := by
      rw [length_append, List.length_map, List.length_range]
    have hbyte : (out ++ (range k).map (repeated out d))[out.length + k - d]? =
        some (repeated out d k) := by
      rcases Nat.lt_or_ge k d with hk | hk
      · -- the byte is of the old output
        have hin : out.length + k - d < out.length := by omega
        have hshift : out.length - d + k = out.length + k - d := by omega
        rw [List.getElem?_append_left hin, repeated, Nat.mod_eq_of_lt hk, getD_eq_getElem?_getD,
          List.getElem?_drop, hshift, List.getElem?_eq_getElem hin]
        rfl
      · -- the byte is of the copy
        have hin : k - d < k := by omega
        have hshift : out.length + k - d - out.length = k - d := by omega
        have hmod : (k - d) % d = k % d := by
          rw [← Nat.add_mod_right (k - d) d, Nat.sub_add_cancel hk]
        rw [List.getElem?_append_right (by omega), hshift, List.getElem?_map,
          List.getElem?_range hin, Option.map_some, repeated, hmod]
        rfl
    rw [copyBack, sub_eq (by omega), bind_ok, hlen, get_eq hbyte, bind_ok,
      append_assoc, ← List.map_singleton, ← List.map_append, ← List.range_succ, ih (k + 1)]
    rw [Nat.add_assoc, Nat.add_comm 1]

theorem copyBack_eq {d : ℕ} (hd : 0 < d) (hle : d ≤ out.length) (n : ℕ) :
    copyBack d n out = .ok (out ++ (range n).map (repeated out d)) := by
  have hcopy := copyBack_from hd hle n 0
  rw [List.range_zero, List.map_nil, append_nil, Nat.zero_add] at hcopy
  exact hcopy

/-! ### Numbers with extra bits -/

theorem readExtra_eq {bases extras : List ℕ} {n b e : ℕ} (hb : bases[extraRow bases n]? = some b)
    (he : extras[extraRow bases n]? = some e) (hle : b ≤ n) (hlt : n - b < 2 ^ e)
    (hcur : Bits.At data pos (extraBits bases extras n ++ rest)) :
    readExtra data bases extras (extraRow bases n) pos = .ok (n, pos + (extraBits bases extras n).length) := by
  have hbits : extraBits bases extras n = lsb e (n - b) := by
    rw [extraBits, getD_eq_getElem?_getD, getD_eq_getElem?_getD, hb, he]
    rfl
  rw [hbits] at hcur ⊢
  rw [readExtra, get_eq hb, bind_ok, get_eq he, bind_ok, readBits_lsb hlt hcur, bind_ok, length_lsb]
  exact congrArg Outcome.ok (Prod.ext (Nat.add_sub_cancel' hle) rfl)

theorem lengthRow_spec (hlow : 3 ≤ n) (hhigh : n ≤ 258) :
    ∃ b e, lengthBase[extraRow lengthBase n]? = some b ∧ lengthExtra[extraRow lengthBase n]? = some e ∧
      b ≤ n ∧ n - b < 2 ^ e :=
  extraRow_spec 259 rfl (show lengthBase[0]? = some 3 from rfl) hlow (by decide)
    (Nat.lt_succ_of_le hhigh)

theorem distRow_spec (hlow : 1 ≤ n) (hhigh : n ≤ 32768) :
    ∃ b e, distBase[extraRow distBase n]? = some b ∧ distExtra[extraRow distBase n]? = some e ∧
      b ≤ n ∧ n - b < 2 ^ e :=
  extraRow_spec 32769 rfl (show distBase[0]? = some 1 from rfl) hlow (by decide)
    (Nat.lt_succ_of_le hhigh)

/-! ### Tokens -/

section

variable {lit dist : Huffman} {ls ds : List ℕ}

/-- **A token is read.** -/
theorem compressedTurn_token (hlit : lit.IsTable ls) (hdist : dist.IsTable ds)
    (hls : Huffman.Short ls ∧ Fits ls 15) (hds : Huffman.Short ds ∧ Fits ds 15) {out : List UInt8}
    {t : DeflateToken} (hrange : t.InRange out) (hcoded : t.Coded ls ds)
    (hlimit : (t.apply out).length ≤ limit) (hcur : Bits.At data pos (t.bits ls ds ++ rest)) :
    compressedTurn data limit lit dist { pos, out } =
      .ok (.inl { pos := pos + (t.bits ls ds).length, out := t.apply out }) := by
  cases t with
  | literal b =>
    have hb := b.toNat_lt
    have hroom : out.length + 1 ≤ limit := by
      rw [DeflateToken.apply, length_append] at hlimit
      exact hlimit
    rw [compressedTurn, decodeSymbol_codeword hlit hls.2 hcoded (hls.1.lengthOf_le _) hcur, bind_ok]
    dsimp only
    rw [if_pos (by omega), if_neg (by omega), UInt8.ofNat_toNat]
    rfl
  | copy length distance =>
    obtain ⟨hlow, hhigh, hone, hfar, hback⟩ := hrange
    obtain ⟨b, e, hb, he, hle, hlt⟩ := lengthRow_spec hlow hhigh
    obtain ⟨b', e', hb', he', hle', hlt'⟩ := distRow_spec hone hfar
    have hrow : extraRow lengthBase length < 29 := (List.getElem?_eq_some_iff.1 hb).1
    have hdrow : extraRow distBase distance < 30 := (List.getElem?_eq_some_iff.1 hb').1
    have hroom : out.length + length ≤ limit := by
      rw [DeflateToken.apply, length_append, List.length_map, List.length_range] at hlimit
      exact hlimit
    have hsym : 257 + extraRow lengthBase length - 257 = extraRow lengthBase length := by omega
    -- the four parts of the token, one after the other
    rw [DeflateToken.bits, append_assoc, append_assoc, append_assoc] at hcur
    have hcur₁ := hcur.advance
    have hcur₂ := hcur₁.advance
    have hcur₃ := hcur₂.advance
    rw [compressedTurn, decodeSymbol_codeword hlit hls.2 hcoded.1 (hls.1.lengthOf_le _) hcur, bind_ok]
    dsimp only
    rw [if_neg (by omega), if_neg (by omega), if_pos (by omega), hsym, readExtra_eq hb he hle hlt hcur₁,
      bind_ok]
    dsimp only
    rw [decodeSymbol_codeword hdist hds.2 hcoded.2 (hds.1.lengthOf_le _) hcur₂, bind_ok]
    dsimp only
    rw [if_neg (by omega), readExtra_eq hb' he' hle' hlt' hcur₃, bind_ok]
    dsimp only
    rw [if_neg (by omega), if_neg (by omega), copyBack_eq hone hback, bind_ok,
      DeflateToken.bits, length_append, length_append, length_append]
    simp only [Nat.add_assoc]
    rfl

/-- **The tokens of a block are read.** -/
theorem inflateCompressed_tokens (hlit : lit.IsTable ls) (hdist : dist.IsTable ds)
    (hls : Huffman.Short ls ∧ Fits ls 15) (hds : Huffman.Short ds ∧ Fits ds 15) (hend : Used ls 256)
    (ts : List DeflateToken) : ∀ {out : List UInt8} {pos : ℕ}, TokensValid ls ds out ts →
      (applyTokens out ts).length ≤ limit → Bits.At data pos (tokensBits ls ds ts ++ rest) →
      inflateCompressed data limit lit dist { pos, out } =
        .ok { pos := pos + (tokensBits ls ds ts).length, out := applyTokens out ts } := by
  induction ts with
  | nil =>
    intro out pos _ _ hcur
    refine loop_done ?_
    rw [compressedTurn, decodeSymbol_codeword hlit hls.2 hend (hls.1.lengthOf_le _) hcur, bind_ok]
    rfl
  | cons t ts ih =>
    intro out pos hvalid hlimit hcur
    obtain ⟨hrange, hcoded, hvalid⟩ := hvalid
    have hbits : tokensBits ls ds (t :: ts) = t.bits ls ds ++ tokensBits ls ds ts := by
      rw [tokensBits, flatMap_cons, append_assoc]
      rfl
    rw [hbits, append_assoc] at hcur
    have hfirst : (t.apply out).length ≤ limit := Nat.le_trans (length_applyTokens ts _) hlimit
    have hturn := compressedTurn_token hlit hdist hls hds hrange hcoded hfirst hcur
    have hpos : 0 < (t.bits ls ds).length := t.bits_pos hcoded
    have hmeasure : bitsLeft data (pos + (t.bits ls ds).length) < bitsLeft data pos := by
      have hle := hcur.advance.le_length
      rw [bitsLeft, bitsLeft]
      omega
    rw [inflateCompressed, loop_next hturn hmeasure]
    refine (ih hvalid hlimit hcur.advance).trans ?_
    rw [hbits, length_append, Nat.add_assoc]
    rfl

end

/-! ### Transmitted codes -/

/-- The lengths of the code length code are read into their places. -/
theorem readClen_eq {clen : List ℕ} (hclen : ∀ l ∈ clen, l ≤ 7) (symbols : List ℕ) :
    ∀ {lengths : List ℕ} {pos : ℕ}, (∀ s ∈ symbols, s < lengths.length) →
      Bits.At data pos (symbols.flatMap (fun s => lsb 3 (clen.getD s 0)) ++ rest) →
      ∃ read, readClen data symbols lengths pos =
          .ok (read, pos + (symbols.flatMap fun s => lsb 3 (clen.getD s 0)).length) ∧
        read.length = lengths.length ∧
        ∀ s, read.getD s 0 = if s ∈ symbols then clen.getD s 0 else lengths.getD s 0 := by
  induction symbols with
  | nil => exact fun _ _ => ⟨_, rfl, rfl, fun s => (if_neg List.not_mem_nil).symm⟩
  | cons s symbols ih =>
    intro lengths pos hin hcur
    have hs := hin s List.mem_cons_self
    have hsmall : clen.getD s 0 < 2 ^ 3 := by
      rw [getD_eq_getElem?_getD]
      cases hl : clen[s]? with
      | none => decide
      | some l => exact Nat.lt_succ_of_le (hclen l (List.mem_of_getElem? hl))
    rw [flatMap_cons, append_assoc] at hcur
    have hnext := hcur.advance
    rw [length_lsb] at hnext
    have hrest : ∀ t ∈ symbols, t < (lengths.set s (clen.getD s 0)).length := fun t ht => by
      rw [List.length_set]
      exact hin t (List.mem_cons_of_mem _ ht)
    obtain ⟨read, hread, hlen, hget⟩ := ih hrest hnext
    refine ⟨read, ?_, hlen.trans (List.length_set ..), fun t => ?_⟩
    · rw [readClen, readBits_lsb hsmall hcur, bind_ok]
      dsimp only
      rw [set_eq hs, bind_ok, hread, flatMap_cons, length_append, length_lsb, Nat.add_assoc]
    · by_cases hts : s = t
      · have hset : (lengths.set s (clen.getD s 0)).getD t 0 = clen.getD t 0 := by
          rw [← hts, getD_eq_getElem?_getD, List.getElem?_set_self hs]
          rfl
        have hmem : t ∈ s :: symbols := by
          rw [hts]
          exact List.mem_cons_self
        rw [hget t, hset, if_pos hmem]
        split <;> rfl
      · have hset : (lengths.set s (clen.getD s 0)).getD t 0 = lengths.getD t 0 := by
          rw [getD_eq_getElem?_getD, List.getElem?_set_ne hts, ← getD_eq_getElem?_getD]
        rw [hget t, hset]
        refine if_congr ?_ rfl rfl
        rw [List.mem_cons]
        exact ⟨.inr, fun h => h.resolve_left (Ne.symm hts)⟩

/-- The transmitted lengths of a code length code are all there are. -/
theorem readClen_codes (c : TransmittedCodes) {pos : ℕ} (hcur : Bits.At data pos
      ((clenOrder.take c.hclen).flatMap (fun s => lsb 3 (c.clen.getD s 0)) ++ rest)) :
    readClen data (clenOrder.take c.hclen) (replicate 19 0) pos =
      .ok (c.clen, pos + ((clenOrder.take c.hclen).flatMap
        fun s => lsb 3 (c.clen.getD s 0)).length) := by
  have horder : ∀ s ∈ clenOrder, s < 19 := by decide
  have hall : ∀ s < 19, s ∈ clenOrder := by decide
  have hin : ∀ s ∈ clenOrder.take c.hclen, s < (replicate 19 0).length := fun s hs => by
    rw [length_replicate]
    exact horder s (List.mem_of_mem_take hs)
  obtain ⟨read, hread, hlen, hget⟩ := readClen_eq c.clen_good.1 _ hin hcur
  rw [length_replicate] at hlen
  have heq : read = c.clen := by
    refine List.ext_getElem (hlen.trans c.length_clen.symm) fun s hs hs' => ?_
    have hs19 : s < 19 := hlen ▸ hs
    have hvalue := hget s
    rw [List.getD_eq_getElem _ _ hs] at hvalue
    rw [hvalue, ← List.getD_eq_getElem _ 0 hs']
    by_cases hsent : s ∈ clenOrder.take c.hclen
    · rw [if_pos hsent]
    · have hdrop : s ∈ clenOrder.drop c.hclen := by
        have hmem := hall s hs19
        rw [← List.take_append_drop c.hclen clenOrder, List.mem_append] at hmem
        exact hmem.resolve_left hsent
      rw [if_neg hsent, c.clen_rest s hdrop, getD_eq_getElem?_getD, List.getElem?_replicate, if_pos hs19]
      rfl
  rw [hread, heq]

/-- Some lengths with zeros up to `n`. -/
def padded (n : ℕ) (done : List ℕ) : List ℕ := done ++ List.replicate (n - done.length) 0

theorem length_padded (h : done.length ≤ n) : (padded n done).length = n := by
  rw [padded, length_append, length_replicate]
  omega

theorem padded_self (h : done.length = n) : padded n done = done := by
  rw [padded, h, Nat.sub_self]
  exact append_nil done

theorem set_padded (h : done.length < n) (l : ℕ) : (padded n done).set done.length l = padded n (done ++ [l]) := by
  obtain ⟨k, hk⟩ : ∃ k, n - done.length = k + 1 := ⟨n - done.length - 1, by omega⟩
  have hk' : n - (done ++ [l]).length = k := by
    rw [length_append, List.length_singleton]
    omega
  rw [padded, padded, hk, hk', List.replicate_succ, List.set_append_right _ _ (Nat.le_refl _),
    Nat.sub_self, List.set_cons_zero, append_assoc]
  rfl

theorem padded_zeros {n k : ℕ} (h : done.length + k ≤ n) : padded n (done ++ replicate k 0) = padded n done := by
  have hk : n - done.length = k + (n - (done.length + k)) := by omega
  rw [padded, padded, length_append, length_replicate, hk, ← List.replicate_append_replicate,
    append_assoc]

theorem repeatLength_eq (prev k : ℕ) : ∀ {n : ℕ} {done : List ℕ}, done.length + k ≤ n →
    repeatLength prev k done.length (padded n done) =
      .ok (done.length + k, padded n (done ++ replicate k prev)) := by
  induction k with
  | zero =>
    intro n done _
    rw [repeatLength, List.replicate_zero, append_nil, Nat.add_zero]
  | succ k ih =>
    intro n done h
    have hlen : (done ++ [prev]).length = done.length + 1 := length_append
    have hnext := @ih n (done ++ [prev]) (by omega)
    rw [hlen] at hnext
    rw [repeatLength, length_padded (by omega), if_pos (by omega), set_padded (by omega), hnext,
      append_assoc, List.replicate_succ]
    refine congrArg Outcome.ok (Prod.ext (by show done.length + 1 + k = _; omega) rfl)

/-- **A run of code lengths is read.** -/
theorem readLength_run {r : LengthRun} (hrange : r.InRange done)
    (hroom : (r.expand done).length ≤ n) (hcur : Bits.At data pos (r.extra ++ rest)) :
    readLength data r.symbol { pos, i := done.length, lengths := padded n done } =
      .ok { pos := pos + r.extra.length, i := (r.expand done).length,
            lengths := padded n (r.expand done) } := by
  cases r with
  | one l =>
    have hl : l ≤ 15 := hrange
    rw [expand, length_append, List.length_singleton] at hroom
    have hin : done.length < (padded n done).length := by
      rw [length_padded (by omega)]
      omega
    rw [symbol, readLength, if_pos hl]
    dsimp only
    rw [set_eq hin, bind_ok, set_padded (by omega), expand, length_append]
    rfl
  | again k =>
    obtain ⟨hne, hlow, hhigh⟩ := hrange
    rw [expand, length_append, length_replicate] at hroom
    have hpos := List.length_pos_iff.2 hne
    have hlast : (padded n done)[done.length - 1]? = some (done.getLastD 0) := by
      rw [padded, List.getElem?_append_left (by omega), ← List.getLast?_eq_getElem?,
        List.getLastD_eq_getLast?, List.getLast?_eq_getLast_of_ne_nil hne]
      rfl
    have hadd : 3 + (k - 3) = k := by omega
    rw [symbol, readLength, if_neg (by decide), if_pos rfl]
    dsimp only
    rw [if_neg (by omega), get_eq hlast, bind_ok, readBits_lsb (by omega) hcur, bind_ok]
    dsimp only
    rw [hadd, repeatLength_eq _ _ hroom, bind_ok, expand, extra,
      length_lsb, length_append, length_replicate]
  | zeros k =>
    obtain ⟨hlow, hhigh⟩ := hrange
    rw [expand, length_append, length_replicate] at hroom
    rw [symbol, extra] at *
    by_cases hten : k ≤ 10
    · have hadd : 3 + (k - 3) = k := by omega
      rw [if_pos hten] at hcur
      rw [if_pos hten, if_pos hten, readLength, if_neg (by decide), if_neg (by decide), if_pos rfl]
      dsimp only
      rw [readBits_lsb (by omega) hcur, bind_ok]
      dsimp only
      rw [hadd, expand, padded_zeros hroom, length_lsb, length_append, length_replicate]
    · have hadd : 11 + (k - 11) = k := by omega
      rw [if_neg hten] at hcur
      rw [if_neg hten, if_neg hten, readLength, if_neg (by decide), if_neg (by decide),
        if_neg (by decide), if_pos rfl]
      dsimp only
      rw [readBits_lsb (by omega) hcur, bind_ok]
      dsimp only
      rw [hadd, expand, padded_zeros hroom, length_lsb, length_append, length_replicate]

/-- **Runs of code lengths are read**, until all are there. -/
theorem readLengths_runs {clen : Huffman} {cs : List ℕ} (htable : clen.IsTable cs)
    (hcs : Huffman.Short cs ∧ Fits cs 15) (rs : List LengthRun) :
    ∀ {done : List ℕ} {pos : ℕ}, RunsValid cs done rs → (rs.foldl expand done).length = n →
      Bits.At data pos (rs.flatMap (bits cs) ++ rest) →
      readLengths data clen { pos, i := done.length, lengths := padded n done } =
        .ok { pos := pos + (rs.flatMap (bits cs)).length, i := n,
              lengths := rs.foldl expand done } := by
  induction rs with
  | nil =>
    intro done pos _ hlen hcur
    have hall : done.length = n := hlen
    have hdone : readLengthsTurn data clen { pos, i := done.length, lengths := padded n done } =
        .ok (.inr { pos, i := done.length, lengths := padded n done }) := by
      have hnot : ¬done.length < (padded n done).length := by
        rw [length_padded hall.le]
        omega
      rw [readLengthsTurn]
      exact if_neg hnot
    rw [readLengths, loop_done hdone, padded_self hall, hall]
    rfl
  | cons r rs ih =>
    intro done pos hvalid hlen hcur
    obtain ⟨hrange, hused, hvalid⟩ := hvalid
    rw [List.foldl_cons] at hlen
    have hgrow := r.length_expand hrange
    have hroom : (r.expand done).length ≤ n := hlen ▸ length_expandAll rs _
    rw [flatMap_cons, append_assoc, bits, append_assoc] at hcur
    have hcur₁ := hcur.advance
    have hcur₂ := hcur₁.advance
    have hturn : readLengthsTurn data clen { pos, i := done.length, lengths := padded n done } =
        .ok (.inl { pos := pos + (r.bits cs).length, i := (r.expand done).length,
                    lengths := padded n (r.expand done) }) := by
      rw [readLengthsTurn]
      dsimp only
      rw [if_pos (by rw [length_padded (by omega)]; omega),
        decodeSymbol_codeword htable hcs.2 hused (hcs.1.lengthOf_le _) hcur, bind_ok]
      dsimp only
      rw [readLength_run hrange hroom hcur₁, bind_ok]
      dsimp only
      rw [if_neg (by rw [length_padded hroom]; omega), bits, length_append, Nat.add_assoc]
    have hmeasure : bitsLeft data (pos + (r.bits cs).length) < bitsLeft data pos := by
      have hle := hcur₂.le_length
      have hword : 0 < (codeword cs r.symbol).length := by
        rw [codeword, length_msb]
        exact hused
      rw [bitsLeft, bitsLeft, bits, length_append]
      omega
    have hcur₃ : Bits.At data (pos + (r.bits cs).length) (rs.flatMap (bits cs) ++ rest) := by
      rw [bits, length_append, ← Nat.add_assoc]
      exact hcur₂
    rw [readLengths, loop_next hturn hmeasure]
    refine (ih hvalid hlen hcur₃).trans ?_
    rw [flatMap_cons, length_append, Nat.add_assoc]
    rfl

/-- **Two transmitted codes are read.** -/
theorem dynamicTables_codes (c : TransmittedCodes) {pos : ℕ} (hcur : Bits.At data pos (c.bits ++ rest)) :
    ∃ lit dist, dynamicTables data pos = .ok (lit, dist, pos + c.bits.length) ∧
      lit.IsTable c.lit ∧ dist.IsTable c.dist := by
  obtain ⟨hlitLow, hlitHigh⟩ := c.length_lit
  obtain ⟨hdistLow, hdistHigh⟩ := c.length_dist
  obtain ⟨hclenLow, hclenHigh⟩ := c.hclen_range
  have hclenShort : Huffman.Short c.clen := fun l hl => Nat.le_trans (c.clen_good.1 l hl) (by decide)
  have hclenLen := c.length_clen
  obtain ⟨clen, hclen, hclenTable⟩ := (@Huffman.new_spec c.clen (by omega)).1 ⟨hclenShort, c.clen_good.2⟩
  obtain ⟨lit, hlit, hlitTable⟩ := (@Huffman.new_spec c.lit (by omega)).1 c.lit_good
  obtain ⟨dist, hdist, hdistTable⟩ := (@Huffman.new_spec c.dist (by omega)).1 c.dist_good
  refine ⟨lit, dist, ?_, hlitTable, hdistTable⟩
  -- the parts of the header, one after the other
  rw [TransmittedCodes.bits, append_assoc, append_assoc, append_assoc, append_assoc] at hcur
  have hcur₁ := hcur.advance
  have hcur₂ := hcur₁.advance
  have hcur₃ := hcur₂.advance
  have hcur₄ := hcur₃.advance
  simp only [length_lsb] at hcur₁ hcur₂ hcur₃ hcur₄
  have hlitAdd : c.lit.length - 257 + 257 = c.lit.length := by omega
  have hdistAdd : c.dist.length - 1 + 1 = c.dist.length := by omega
  have hclenAdd : c.hclen - 4 + 4 = c.hclen := by omega
  have hexpand := c.runs_expand
  have hexpandLen : (c.runs.foldl expand []).length = c.lit.length + c.dist.length := by
    rw [hexpand, length_append]
  have hruns := readLengths_runs hclenTable ⟨hclenShort, c.clen_good.2⟩ c.runs c.runs_valid hexpandLen hcur₄
  have hend : (c.lit ++ c.dist)[256]? = some (lengthOf c.lit 256) := by
    rw [List.getElem?_append_left c.end_coded.lt_length, c.end_coded.getElem?]
  have hused : lengthOf c.lit 256 ≠ 0 := Nat.pos_iff_ne_zero.1 c.end_coded
  rw [dynamicTables, readBits_lsb (by omega) hcur, bind_ok]
  dsimp only
  rw [readBits_lsb (by omega) hcur₁, bind_ok]
  dsimp only
  rw [readBits_lsb (by omega) hcur₂, bind_ok]
  dsimp only
  rw [hlitAdd, hdistAdd, hclenAdd, readClen_codes c hcur₃, bind_ok]
  dsimp only
  rw [hclen, bind_ok]
  refine Eq.trans (congrArg (fun o => Outcome.bind o _) hruns) ?_
  rw [bind_ok]
  dsimp only
  rw [hexpand, get_eq hend, bind_ok, if_neg hused, split_eq (by rw [length_append]; omega), bind_ok]
  dsimp only
  rw [List.take_left, List.drop_left, hlit, bind_ok, hdist, bind_ok, TransmittedCodes.bits]
  simp only [length_append, length_lsb, Nat.add_assoc]

/-! ### Stored blocks -/

theorem value_xor_not (w : List Bool) : value w ^^^ value (w.map not) = 2 ^ w.length - 1 := by
  induction w with
  | nil => rfl
  | cons b w ih =>
    have hbit : ∀ (b : Bool) (n : ℕ), b.toNat + 2 * n = Nat.bit b n := by
      intro b n
      cases b
      · exact Nat.zero_add _
      · exact Nat.add_comm 1 (2 * n)
    have hdiff : bne b (!b) = true := by cases b <;> rfl
    have hpow := Nat.two_pow_pos w.length
    rw [List.map_cons, value, value, hbit, hbit, Nat.xor_bit, ih, hdiff, ← hbit,
      List.length_cons, Nat.pow_succ]
    show 1 + 2 * (2 ^ w.length - 1) = 2 ^ w.length * 2 - 1
    omega

/-- **A stored block is read**, wherever it begins. -/
theorem inflateStored_bytes {fill : List Bool} {bytes out : List UInt8} (h : bytes.length < 2 ^ 16)
    (hlimit : (out ++ bytes).length ≤ limit)
    (hcur : Bits.At data pos ((DeflateBlock.stored fill bytes h).body pos ++ rest)) :
    inflateStored data limit { pos, out } =
      .ok { pos := pos + ((DeflateBlock.stored fill bytes h).body pos).length, out := out ++ bytes } := by
  have hfilling : (DeflateBlock.filling fill pos).length = (8 - pos % 8) % 8 := by
    rw [DeflateBlock.filling]
    refine List.length_take_of_le ?_
    rw [length_append, length_replicate]
    omega
  have halign : (pos + 7) / 8 * 8 = pos + (DeflateBlock.filling fill pos).length := by
    rw [hfilling]
    omega
  rw [DeflateBlock.body, append_assoc, append_assoc, append_assoc] at hcur
  have hcur₁ := hcur.advance
  have hcur₂ := hcur₁.advance
  have hcur₃ := hcur₂.advance
  rw [length_lsb] at hcur₂ hcur₃
  have hlen : (lsb 16 bytes.length).length = 16 := length_lsb 16 _
  have hnot : ((lsb 16 bytes.length).map not).length = 16 := by rw [List.length_map, hlen]
  have hsecond := readBits_eq hcur₂
  rw [hnot] at hsecond hcur₃
  have hxor := value_xor_not (lsb 16 bytes.length)
  rw [hlen, value_lsb, Nat.mod_eq_of_lt h] at hxor
  have hones : 2 ^ 16 - 1 = 65535 := rfl
  rw [hones] at hxor
  rw [length_append] at hlimit
  obtain ⟨p, hp⟩ : ∃ p, pos + (DeflateBlock.filling fill pos).length + 16 + 16 = p := ⟨_, rfl⟩
  rw [hp] at hcur₃
  -- the bytes are whole bytes of the input
  have hp8 : 8 * (p / 8) = p := by omega
  have hrange : getRange data (p / 8) (p / 8 + bytes.length) = some bytes := by
    have hroom := hcur₃.length_eq
    rw [length_append, length_ofBytes] at hroom
    have hdrop := hcur₃.drop_eq
    rw [← hp8, drop_ofBytes] at hdrop
    have hbytes : ofBytes ((data.drop (p / 8)).take bytes.length) = ofBytes bytes := by
      have htake := congrArg (List.take (8 * bytes.length)) hdrop
      rw [take_ofBytes, ← length_ofBytes bytes, List.take_left] at htake
      exact htake
    rw [getRange, if_pos ⟨Nat.le_add_right _ _, by omega⟩, Nat.add_sub_cancel_left,
      ofBytes_injective hbytes]
  rw [inflateStored]
  dsimp only
  rw [halign, readBits_lsb h hcur₁, bind_ok]
  dsimp only
  rw [hsecond, bind_ok]
  dsimp only
  rw [if_neg (not_not.2 hxor), if_neg (by omega), hp, hrange]
  refine congrArg Outcome.ok ?_
  rw [DeflateBlock.body]
  simp only [length_append, hlen, hnot, length_ofBytes, ← Nat.add_assoc, hp,
    Nat.mul_comm bytes.length 8]

/-! ### Streams -/

/-- **The body of a block is read.** -/
theorem inflateBlock_body (b : DeflateBlock) (hvalid : b.Valid out)
    (hlimit : (b.apply out).length ≤ limit) (hcur : Bits.At data pos (b.body pos ++ rest)) :
    inflateBlock data limit b.kind { pos, out } =
      .ok { pos := pos + (b.body pos).length, out := b.apply out } := by
  cases b with
  | stored fill bytes h =>
    rw [DeflateBlock.kind, inflateBlock]
    exact inflateStored_bytes h hlimit hcur
  | fixed tokens =>
    obtain ⟨lit, hlit, hlitTable⟩ := fixedLiterals_eq
    obtain ⟨dist, hdist, hdistTable⟩ := fixedDistances_eq
    rw [DeflateBlock.kind, inflateBlock, hlit, bind_ok, hdist, bind_ok]
    exact inflateCompressed_tokens hlitTable hdistTable (by decide +kernel) (by decide +kernel)
      (by decide +kernel) tokens hvalid hlimit hcur
  | transmitted codes tokens =>
    rw [DeflateBlock.body, append_assoc] at hcur
    obtain ⟨lit, dist, htables, hlit, hdist⟩ := dynamicTables_codes codes hcur
    rw [DeflateBlock.kind, inflateBlock]
    dsimp only
    rw [htables, bind_ok]
    dsimp only
    rw [inflateCompressed_tokens hlit hdist codes.lit_good codes.dist_good codes.end_coded tokens hvalid
      hlimit hcur.advance, DeflateBlock.body, length_append, Nat.add_assoc]
    rfl

/-- **A block is read**, with its header. -/
theorem inflateTurn_block (b : DeflateBlock) (final : Bool) (hvalid : b.Valid out)
    (hlimit : (b.apply out).length ≤ limit) (hcur : Bits.At data pos (b.bits final pos ++ rest)) :
    inflateTurn data limit { pos, out } =
      .ok (if final then .inr (b.apply out, (pos + (b.bits final pos).length + 7) / 8)
        else .inl { pos := pos + (b.bits final pos).length, out := b.apply out }) := by
  have hkind : b.kind < 2 ^ 2 := b.kind_lt
  have hlen : (b.bits final pos).length = 1 + (2 + (b.body (pos + 3)).length) := by
    rw [DeflateBlock.bits, length_append, List.length_cons, length_lsb]
    omega
  rw [DeflateBlock.bits, append_assoc, List.cons_append] at hcur
  have hcur₁ := hcur.next
  have hcur₂ := hcur₁.advance
  rw [length_lsb] at hcur₂
  have hbody := inflateBlock_body b hvalid hlimit hcur₂
  rw [inflateTurn]
  dsimp only
  rw [readBits_one hcur, bind_ok]
  dsimp only
  rw [readBits_lsb hkind hcur₁, bind_ok]
  dsimp only
  rw [hbody, bind_ok, hlen]
  cases final with
  | true => simp only [Bool.toNat_true, if_pos, Nat.add_assoc]
  | false => simp only [Bool.toNat_false, Nat.add_assoc]; rfl

/-- **A stream is read**, whatever follows it. -/
theorem inflate_blocks (bs : List DeflateBlock) (hne : bs ≠ []) :
    ∀ {out : List UInt8} {pos : ℕ}, BlocksValid out bs → (decodedOutput out bs).length ≤ limit →
      Bits.At data pos (encodeBlocks pos bs ++ rest) →
      Checked.loop (fun s => bitsLeft data s.pos) (inflateTurn data limit) { pos, out } =
        .ok (decodedOutput out bs, (pos + (encodeBlocks pos bs).length + 7) / 8) := by
  induction bs with
  | nil => exact absurd rfl hne
  | cons b bs ih =>
    intro out pos hvalid hlimit hcur
    obtain ⟨hvalid, hrest⟩ := hvalid
    have hfirst : (b.apply out).length ≤ limit := Nat.le_trans (length_decodedOutput bs _) hlimit
    rw [encodeBlocks, append_assoc] at hcur
    have hturn := inflateTurn_block b bs.isEmpty hvalid hfirst hcur
    have hnext := hcur.advance
    cases bs with
    | nil =>
      refine (loop_done hturn).trans ?_
      rw [encodeBlocks, encodeBlocks, append_nil]
      rfl
    | cons b' bs =>
      have hpos : 0 < (b.bits false pos).length := Nat.succ_pos _
      have hmeasure : bitsLeft data (pos + (b.bits false pos).length) < bitsLeft data pos := by
        have hle := hnext.le_length
        rw [List.isEmpty_cons] at hle
        rw [bitsLeft, bitsLeft]
        omega
      refine (loop_next hturn hmeasure).trans ?_
      refine (ih (List.cons_ne_nil b' bs) hrest hlimit hnext).trans ?_
      have hbits : encodeBlocks pos (b :: b' :: bs) = b.bits false pos ++
          encodeBlocks (pos + (b.bits false pos).length) (b' :: bs) := rfl
      rw [hbits, length_append, ← Nat.add_assoc pos]
      rfl

/-- **Decompression inverts the format.**  Where the bits of an input begin with a stream of blocks, it is
decompressed to the output of the blocks, and takes as many bytes as the stream occupies: so for every input
that goes on in any way, and for the bytes that the stream is packed into, with any bytes behind them. -/
theorem inflate_inverts (bs : List DeflateBlock) (hne : bs ≠ []) (limit : ℕ) (hvalid : BlocksValid [] bs)
    (hlimit : (decodedOutput [] bs).length ≤ limit) :
    (∀ data, encodeBlocks 0 bs <+: Bits.ofBytes data →
      inflate data limit = .ok (decodedOutput [] bs, ((encodeBlocks 0 bs).length + 7) / 8)) ∧
    ∀ trailing, inflate (Bits.pack (encodeBlocks 0 bs) ++ trailing) limit =
      .ok (decodedOutput [] bs, (Bits.pack (encodeBlocks 0 bs)).length) := by
  have hread : ∀ data, encodeBlocks 0 bs <+: Bits.ofBytes data →
      inflate data limit = .ok (decodedOutput [] bs, ((encodeBlocks 0 bs).length + 7) / 8) := by
    rintro data ⟨rest, hrest⟩
    have hcur := Bits.at_zero data
    rw [← hrest] at hcur
    have hloop := inflate_blocks bs hne hvalid hlimit hcur
    rw [Nat.zero_add] at hloop
    exact hloop
  refine ⟨hread, fun trailing => ?_⟩
  obtain ⟨k, hk⟩ := Bits.ofBytes_pack (encodeBlocks 0 bs)
  rw [hread, Bits.length_pack]
  rw [Bits.ofBytes_append, hk, List.append_assoc]
  exact List.prefix_append _ _

/-- Codes for a single letter and the end of a block. -/
def letterCodes : TransmittedCodes where
  lit := List.replicate 97 0 ++ [1] ++ List.replicate 158 0 ++ [1]
  dist := [1]
  clen := [0, 1, 0, 0, 0, 0, 0, 0, 0, 0, 0, 0, 0, 0, 0, 0, 0, 0, 1]
  hclen := 18
  runs := [.zeros 97, .one 1, .zeros 138, .zeros 20, .one 1, .one 1]
  length_lit := by decide +kernel
  length_dist := by decide
  lit_good := by decide +kernel
  dist_good := by decide +kernel
  end_coded := by decide +kernel
  length_clen := rfl
  clen_good := by decide +kernel
  hclen_range := by decide
  clen_rest := by decide
  runs_valid := by decide +kernel
  runs_expand := by decide +kernel

def letterBlocks : List DeflateBlock :=
  [.stored [true] [104, 105] (by decide), .fixed [.literal 97, .copy 4 1],
    .transmitted letterCodes [.literal 97]]

/-- A stream with a block of each kind, and a byte behind it. -/
theorem inflate_inverts_letterBlocks :
    inflate (Bits.pack (encodeBlocks 0 letterBlocks) ++ [7]) 8 =
      .ok ([104, 105, 97, 97, 97, 97, 97, 97], (Bits.pack (encodeBlocks 0 letterBlocks)).length) := by
  have hvalid : BlocksValid [] letterBlocks :=
    ⟨trivial, (by decide +kernel : TokensValid Huffman.fixedLiteralLengths Huffman.fixedDistanceLengths
      [104, 105] [.literal 97, .copy 4 1]),
      (by decide +kernel : TokensValid letterCodes.lit letterCodes.dist [104, 105, 97, 97, 97, 97, 97]
        [.literal 97]), trivial⟩
  have houtput : decodedOutput [] letterBlocks = [104, 105, 97, 97, 97, 97, 97, 97] := by decide +kernel
  have hread := (inflate_inverts letterBlocks (List.cons_ne_nil _ _) 8 hvalid
    (by rw [houtput]; decide)).2 [7]
  rw [houtput] at hread
  exact hread

end Posh.Term
