/-
**The DEFLATE format.**

What the format says a stream is: blocks of stored bytes or of tokens, each token a literal or a copy of
earlier output, written in the words of two canonical codes that are fixed or precede the block.  Only
the tables of the format are shared with the decompressor.
-/

import Mathlib.Data.List.GetD
import Posh.Term.HuffmanTables

set_option autoImplicit false

namespace Posh.Term

open CanonicalCode
open List (length_append)

/-! ### Numbers with extra bits -/

/-- The row of a number in a table of increasing bases: the last one that is not above it. -/
def extraRow (bases : List ℕ) (n : ℕ) : ℕ := bases.findIdx (fun b => n < b) - 1

/-- The bits that follow the symbol of a number's row. -/
def extraBits (bases extras : List ℕ) (n : ℕ) : List Bool :=
  Bits.lsb (extras.getD (extraRow bases n) 0) (n - bases.getD (extraRow bases n) 0)

/-- **Every number has its row**, if the rows leave no gap up to the number `top` behind the last. -/
theorem extraRow_spec {bases extras : List ℕ} {n first : ℕ} (top : ℕ) (hlen : extras.length = bases.length)
    (hfirst : bases[0]? = some first) (hle : first ≤ n)
    (hgap : ∀ i < bases.length, bases.getD (i + 1) top ≤ bases.getD i 0 + 2 ^ extras.getD i 0)
    (htop : n < top) : ∃ b e, bases[extraRow bases n]? = some b ∧ extras[extraRow bases n]? = some e ∧
      b ≤ n ∧ n - b < 2 ^ e := by
  obtain ⟨k, hk⟩ : ∃ k, bases.findIdx (fun b => n < b) = k := ⟨_, rfl⟩
  have hkle : k ≤ bases.length := hk ▸ List.findIdx_le_length
  have hbelow : ∀ i (hi : i < bases.length), i < k → bases[i] ≤ n := by
    intro i hi hik
    have hnot := List.not_of_lt_findIdx (hk.symm ▸ hik : i < bases.findIdx fun b => n < b)
    simpa using hnot
  have habove : n < bases.getD k top := by
    rcases Nat.lt_or_ge k bases.length with hlt | hge
    · have hfound := @List.findIdx_getElem _ (fun b => decide (n < b)) bases (hk ▸ hlt)
      rw [List.getD_eq_getElem _ _ hlt]
      simpa [hk] using hfound
    · rw [List.getD_eq_default _ _ hge]
      exact htop
  cases k with
  | zero =>
    rw [List.getD_eq_getElem?_getD, hfirst] at habove
    exact absurd habove (Nat.not_lt.2 hle)
  | succ k =>
    have hklt : k < bases.length := hkle
    have hkextra : k < extras.length := by omega
    have hrow : extraRow bases n = k := by
      rw [extraRow, hk]
      rfl
    have hstep := hgap k hklt
    rw [List.getD_eq_getElem _ _ hklt, List.getD_eq_getElem _ _ hkextra] at hstep
    have hbase := hbelow k hklt (Nat.lt_succ_self k)
    refine ⟨bases[k], extras[k], ?_, ?_, hbase, ?_⟩
    · rw [hrow, List.getElem?_eq_getElem hklt]
    · rw [hrow, List.getElem?_eq_getElem hkextra]
    · omega

/-! ### Tokens -/

/-- A literal, or a copy of `length` bytes from `distance` bytes back. -/
inductive DeflateToken where
  | literal (b : UInt8)
  | copy (length distance : ℕ)
  deriving DecidableEq, Repr

namespace DeflateToken

/-- What a token adds to the output: a copy repeats the last bytes, over and over if it is longer. -/
def apply (out : List UInt8) : DeflateToken → List UInt8
  | literal b => out ++ [b]
  | copy length distance =>
    out ++ (List.range length).map fun k => (out.drop (out.length - distance)).getD (k % distance) 0

/-- The lengths and distances of the format; a copy does not begin before the output. -/
def InRange (out : List UInt8) : DeflateToken → Prop
  | literal _ => True
  | copy length distance => 3 ≤ length ∧ length ≤ 258 ∧ 1 ≤ distance ∧ distance ≤ 32768 ∧
      distance ≤ out.length

instance decidableInRange (out : List UInt8) : ∀ t, Decidable (InRange out t)
  | literal _ => isTrue trivial
  | copy _ _ => inferInstanceAs (Decidable (_ ∧ _))

/-- The symbols of a token have words in the two codes. -/
def Coded (lit dist : List ℕ) : DeflateToken → Prop
  | literal b => Used lit b.toNat
  | copy length distance => Used lit (257 + extraRow lengthBase length) ∧ Used dist (extraRow distBase distance)

instance decidableCoded (lit dist : List ℕ) : ∀ t, Decidable (Coded lit dist t)
  | literal _ => inferInstanceAs (Decidable (Used _ _))
  | copy _ _ => inferInstanceAs (Decidable (_ ∧ _))

/-- A token in the words of two codes. -/
def bits (lit dist : List ℕ) : DeflateToken → List Bool
  | literal b => codeword lit b.toNat
  | copy length distance =>
    codeword lit (257 + extraRow lengthBase length) ++ extraBits lengthBase lengthExtra length ++
      codeword dist (extraRow distBase distance) ++ extraBits distBase distExtra distance

theorem bits_pos {lit dist : List ℕ} {t : DeflateToken} (h : t.Coded lit dist) : 0 < (t.bits lit dist).length := by
  have hword : ∀ {s : ℕ}, Used lit s → 0 < (codeword lit s).length := fun hs => by
    rw [codeword, Bits.length_msb]
    exact hs
  cases t with
  | literal b => exact hword h
  | copy length distance =>
    have hpos := hword h.1
    rw [bits, length_append, length_append, length_append]
    omega

theorem length_apply (out : List UInt8) (t : DeflateToken) : out.length ≤ (t.apply out).length := by
  cases t with
  | literal b => exact length_append ▸ Nat.le_add_right _ _
  | copy length distance => exact length_append ▸ Nat.le_add_right _ _

end DeflateToken

/-- What tokens add to the output. -/
def applyTokens (out : List UInt8) (ts : List DeflateToken) : List UInt8 := ts.foldl DeflateToken.apply out

/-- Tokens that can follow the output, in the words of two codes. -/
def TokensValid (lit dist : List ℕ) : List UInt8 → List DeflateToken → Prop
  | _, [] => True
  | out, t :: ts => t.InRange out ∧ t.Coded lit dist ∧ TokensValid lit dist (t.apply out) ts

instance decidableTokensValid (lit dist : List ℕ) : ∀ out ts, Decidable (TokensValid lit dist out ts)
  | _, [] => isTrue trivial
  | out, t :: ts =>
    have := decidableTokensValid lit dist (t.apply out) ts
    inferInstanceAs (Decidable (_ ∧ _ ∧ _))

/-- Tokens and the end of their block, in the words of two codes. -/
def tokensBits (lit dist : List ℕ) (ts : List DeflateToken) : List Bool :=
  ts.flatMap (DeflateToken.bits lit dist) ++ codeword lit 256

/-! ### Codes on the wire -/

/-- A run of code lengths: one of them, the last one again, or zeros. -/
inductive LengthRun where
  | one (l : ℕ)
  | again (n : ℕ)
  | zeros (n : ℕ)
  deriving DecidableEq, Repr

namespace LengthRun

/-- The symbol of a run in the code length code. -/
def symbol : LengthRun → ℕ
  | one l => l
  | again _ => 16
  | zeros n => if n ≤ 10 then 17 else 18

/-- The bits that follow the symbol. -/
def extra : LengthRun → List Bool
  | one _ => []
  | again n => Bits.lsb 2 (n - 3)
  | zeros n => if n ≤ 10 then Bits.lsb 3 (n - 3) else Bits.lsb 7 (n - 11)

/-- What a run adds to the lengths. -/
def expand (done : List ℕ) : LengthRun → List ℕ
  | one l => done ++ [l]
  | again n => done ++ List.replicate n (done.getLastD 0)
  | zeros n => done ++ List.replicate n 0

/-- The runs of the format. -/
def InRange (done : List ℕ) : LengthRun → Prop
  | one l => l ≤ 15
  | again n => done ≠ [] ∧ 3 ≤ n ∧ n ≤ 6
  | zeros n => 3 ≤ n ∧ n ≤ 138

instance decidableInRange (done : List ℕ) : ∀ r, Decidable (InRange done r)
  | one _ => inferInstanceAs (Decidable (_ ≤ _))
  | again _ => inferInstanceAs (Decidable (_ ∧ _ ∧ _))
  | zeros _ => inferInstanceAs (Decidable (_ ∧ _))

/-- A run in the words of the code length code. -/
def bits (clen : List ℕ) (r : LengthRun) : List Bool := codeword clen r.symbol ++ r.extra

theorem length_expand {done : List ℕ} {r : LengthRun} (h : r.InRange done) :
    done.length < (r.expand done).length := by
  cases r with
  | one l => exact length_append ▸ Nat.lt_succ_self _
  | again n =>
    rw [expand, length_append, List.length_replicate]
    have := h.2.1
    omega
  | zeros n =>
    rw [expand, length_append, List.length_replicate]
    have := h.1
    omega

theorem length_le_expand (done : List ℕ) (r : LengthRun) : done.length ≤ (r.expand done).length := by
  cases r <;> exact length_append ▸ Nat.le_add_right _ _

end LengthRun

theorem length_expandAll (rs : List LengthRun) :
    ∀ done : List ℕ, done.length ≤ (rs.foldl LengthRun.expand done).length := by
  induction rs with
  | nil => exact fun _ => Nat.le_refl _
  | cons r rs ih => exact fun done => Nat.le_trans (r.length_le_expand done) (ih _)

/-- Runs that can follow the lengths in `done`, in the words of the code length code. -/
def RunsValid (clen : List ℕ) : List ℕ → List LengthRun → Prop
  | _, [] => True
  | done, r :: rs => r.InRange done ∧ Used clen r.symbol ∧ RunsValid clen (r.expand done) rs

instance decidableRunsValid (clen : List ℕ) : ∀ done rs, Decidable (RunsValid clen done rs)
  | _, [] => isTrue trivial
  | done, r :: rs =>
    have := decidableRunsValid clen (r.expand done) rs
    inferInstanceAs (Decidable (_ ∧ _ ∧ _))

/-- Two codes as they are transmitted: their lengths in runs, which are in the words of a third code. -/
structure TransmittedCodes where
  lit : List ℕ
  dist : List ℕ
  clen : List ℕ
  /-- how many lengths of the third code are transmitted -/
  hclen : ℕ
  runs : List LengthRun
  length_lit : 257 ≤ lit.length ∧ lit.length ≤ 288
  length_dist : 1 ≤ dist.length ∧ dist.length ≤ 32
  lit_good : Huffman.Short lit ∧ Fits lit 15
  dist_good : Huffman.Short dist ∧ Fits dist 15
  /-- the end of a block has a word -/
  end_coded : Used lit 256
  length_clen : clen.length = 19
  clen_good : (∀ l ∈ clen, l ≤ 7) ∧ Fits clen 15
  hclen_range : 4 ≤ hclen ∧ hclen ≤ 19
  /-- the lengths that are not transmitted are zero -/
  clen_rest : ∀ s ∈ clenOrder.drop hclen, clen.getD s 0 = 0
  runs_valid : RunsValid clen [] runs
  runs_expand : runs.foldl LengthRun.expand [] = lit ++ dist

/-- Two codes on the wire. -/
def TransmittedCodes.bits (c : TransmittedCodes) : List Bool :=
  Bits.lsb 5 (c.lit.length - 257) ++ Bits.lsb 5 (c.dist.length - 1) ++ Bits.lsb 4 (c.hclen - 4) ++
    (clenOrder.take c.hclen).flatMap (fun s => Bits.lsb 3 (c.clen.getD s 0)) ++
    c.runs.flatMap (LengthRun.bits c.clen)

/-! ### Blocks -/

/-- A block: stored bytes, behind filling bits that mean nothing, or tokens. -/
inductive DeflateBlock where
  | stored (fill : List Bool) (bytes : List UInt8) (h : bytes.length < 2 ^ 16)
  | fixed (tokens : List DeflateToken)
  | transmitted (codes : TransmittedCodes) (tokens : List DeflateToken)

namespace DeflateBlock

/-- As many filling bits as there are to the next byte. -/
def filling (fill : List Bool) (pos : ℕ) : List Bool :=
  (fill ++ List.replicate 7 false).take ((8 - pos % 8) % 8)

/-- The type of a block. -/
def kind : DeflateBlock → ℕ
  | stored .. => 0
  | fixed _ => 1
  | transmitted .. => 2

theorem kind_lt (b : DeflateBlock) : b.kind < 4 := by
  cases b with
  | stored => exact Nat.succ_pos 3
  | fixed => exact Nat.one_lt_succ_succ 2
  | transmitted => exact Nat.lt_add_of_pos_right Nat.two_pos

/-- What follows the header of a block; `pos` is where. -/
def body (pos : ℕ) : DeflateBlock → List Bool
  | stored fill bytes _ =>
    filling fill pos ++ Bits.lsb 16 bytes.length ++ (Bits.lsb 16 bytes.length).map not ++ Bits.ofBytes bytes
  | fixed tokens => tokensBits Huffman.fixedLiteralLengths Huffman.fixedDistanceLengths tokens
  | transmitted codes tokens => codes.bits ++ tokensBits codes.lit codes.dist tokens

/-- A block on the wire; `pos` is where, and `final` says that it is the last. -/
def bits (final : Bool) (pos : ℕ) (b : DeflateBlock) : List Bool :=
  final :: Bits.lsb 2 b.kind ++ b.body (pos + 3)

/-- What a block adds to the output. -/
def apply (out : List UInt8) : DeflateBlock → List UInt8
  | stored _ bytes _ => out ++ bytes
  | fixed tokens => applyTokens out tokens
  | transmitted _ tokens => applyTokens out tokens

/-- A block that can follow the output. -/
def Valid (out : List UInt8) : DeflateBlock → Prop
  | stored .. => True
  | fixed tokens => TokensValid Huffman.fixedLiteralLengths Huffman.fixedDistanceLengths out tokens
  | transmitted codes tokens => TokensValid codes.lit codes.dist out tokens

end DeflateBlock

/-- A stream of blocks from `pos` on; the last is marked. -/
def encodeBlocks : ℕ → List DeflateBlock → List Bool
  | _, [] => []
  | pos, b :: bs =>
    b.bits bs.isEmpty pos ++ encodeBlocks (pos + (b.bits bs.isEmpty pos).length) bs

def decodedOutput (out : List UInt8) (bs : List DeflateBlock) : List UInt8 := bs.foldl DeflateBlock.apply out

/-- Blocks that can follow the output. -/
def BlocksValid : List UInt8 → List DeflateBlock → Prop
  | _, [] => True
  | out, b :: bs => b.Valid out ∧ BlocksValid (b.apply out) bs

/-! ### The output only grows -/

theorem length_applyTokens (ts : List DeflateToken) :
    ∀ out : List UInt8, out.length ≤ (applyTokens out ts).length := by
  induction ts with
  | nil => exact fun _ => Nat.le_refl _
  | cons t ts ih => exact fun out => Nat.le_trans (t.length_apply out) (ih _)

theorem DeflateBlock.length_apply (out : List UInt8) (b : DeflateBlock) : out.length ≤ (b.apply out).length := by
  cases b with
  | stored fill bytes h => exact length_append ▸ Nat.le_add_right _ _
  | fixed tokens => exact length_applyTokens tokens out
  | transmitted codes tokens => exact length_applyTokens tokens out

theorem length_decodedOutput (bs : List DeflateBlock) :
    ∀ out : List UInt8, out.length ≤ (decodedOutput out bs).length := by
  induction bs with
  | nil => exact fun _ => Nat.le_refl _
  | cons b bs ih => exact fun out => Nat.le_trans (b.length_apply out) (ih _)

end Posh.Term
