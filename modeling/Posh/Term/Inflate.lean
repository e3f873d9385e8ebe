/-
**Decompression, as the terminal's graphics need it.**

A DEFLATE stream is a list of blocks, stored or compressed under a fixed or a transmitted pair of canonical
codes; a zlib stream is a header, a DEFLATE stream and a checksum.  What is decompressed is cut off at a
limit, so that a small stream cannot grow without bound.  Every table access, every stored symbol and every
sum in a fixed width is checked, and so is that every loop reads on.
-/

import Posh.Lib.Checked

set_option autoImplicit false

namespace Posh.Term

open ByteCursor

/-- Why a stream is refused. -/
inductive InflateError where
  /-- the input ended before the stream was complete -/
  | truncated
  /-- a bad zlib header, or one that asks for a preset dictionary -/
  | badHeader
  /-- the reserved block type -/
  | badBlockType
  /-- the length of a stored block and its complement do not match -/
  | badStoredLength
  /-- code lengths that are too long or leave too little room -/
  | badHuffman
  /-- a code without a symbol, or a symbol without a meaning -/
  | badSymbol
  /-- a copy from before the beginning -/
  | badDistance
  | badChecksum
  /-- more output than the caller allows -/
  | tooLarge
  deriving DecidableEq, Repr

/-- The steps of the decompression. -/
abbrev Inflating (α : Type) := Outcome InflateError α

/-! ### Tables of the format -/

/-- The base lengths of the length codes, from symbol 257 on. -/
def lengthBase : List ℕ :=
  [3, 4, 5, 6, 7, 8, 9, 10, 11, 13, 15, 17, 19, 23, 27, 31, 35, 43, 51, 59, 67, 83, 99, 115, 131, 163, 195,
    227, 258]

/-- The extra bits of the length codes. -/
def lengthExtra : List ℕ :=
  [0, 0, 0, 0, 0, 0, 0, 0, 1, 1, 1, 1, 2, 2, 2, 2, 3, 3, 3, 3, 4, 4, 4, 4, 5, 5, 5, 5, 0]

def distBase : List ℕ :=
  [1, 2, 3, 4, 5, 7, 9, 13, 17, 25, 33, 49, 65, 97, 129, 193, 257, 385, 513, 769, 1025, 1537, 2049, 3073,
    4097, 6145, 8193, 12289, 16385, 24577]

/-- The extra bits of the distance codes. -/
def distExtra : List ℕ :=
  [0, 0, 0, 0, 1, 1, 2, 2, 3, 3, 4, 4, 5, 5, 6, 6, 7, 7, 8, 8, 9, 9, 10, 10, 11, 11, 12, 12, 13, 13]

/-- The order in which the lengths of the code length code are transmitted. -/
def clenOrder : List ℕ := [16, 17, 18, 0, 8, 7, 9, 6, 10, 5, 11, 4, 12, 3, 13, 2, 14, 1, 15]

/-! ### Decoding tables -/

/-- How many symbols each code length has, and the symbols sorted by length and number. -/
structure Huffman where
  counts : List ℕ
  symbols : List ℕ
  deriving DecidableEq, Repr

namespace Huffman

/-- Counts the lengths, in sixteen bits each. -/
def countLengths : List ℕ → List ℕ → Inflating (List ℕ)
  | [], counts => .ok counts
  | l :: ls, counts =>
    if 15 < l then .error .badHuffman
    else
      (Checked.get counts l).bind fun n =>
      (Checked.fits (2 ^ 16) (n + 1)).bind fun n =>
      (Checked.set counts l n).bind fun counts => countLengths ls counts

/-- Refuses lengths that need more words than there are.  Words that are left over are tolerated. -/
def checkRoom : List ℕ → ℤ → Inflating Unit
  | [], _ => .ok ()
  | count :: counts, left =>
    (Checked.fitsSigned 32 (2 * left - count)).bind fun left =>
    if left < 0 then .error .badHuffman else checkRoom counts left

/-- Where the symbols of each length begin. -/
def sumOffsets (counts : List ℕ) : List ℕ → List ℕ → Inflating (List ℕ)
  | [], offsets => .ok offsets
  | len :: lens, offsets =>
    (Checked.get offsets len).bind fun o =>
    (Checked.get counts len).bind fun n =>
    (Checked.fits (2 ^ 16) (o + n)).bind fun o =>
    (Checked.set offsets (len + 1) o).bind fun offsets => sumOffsets counts lens offsets

/-- Puts every symbol with a word in its place; `sym` is the symbol of the first of the lengths. -/
def placeSymbols : ℕ → List ℕ → List ℕ → List ℕ → Inflating (List ℕ)
  | _, [], _, symbols => .ok symbols
  | sym, l :: ls, offsets, symbols =>
    if l ≠ 0 then
      (Checked.get offsets l).bind fun o =>
      (Checked.set symbols o (sym % 2 ^ 16)).bind fun symbols =>
      (Checked.fits (2 ^ 16) (o + 1)).bind fun o =>
      (Checked.set offsets l o).bind fun offsets => placeSymbols (sym + 1) ls offsets symbols
    else placeSymbols (sym + 1) ls offsets symbols

/-- The decoding table of a list of code lengths. -/
@[irreducible] def new (lengths : List ℕ) : Inflating Huffman :=
  (countLengths lengths (List.replicate 16 0)).bind fun counts =>
  (Checked.set counts 0 0).bind fun counts =>
  (checkRoom (counts.drop 1) 1).bind fun _ =>
  (sumOffsets counts (List.range' 1 14) (List.replicate 16 0)).bind fun offsets =>
  (placeSymbols 0 lengths offsets
    (List.replicate (lengths.filter (fun l => l ≠ 0)).length 0)).bind fun symbols =>
  .ok { counts, symbols }

def fixedLiteralLengths : List ℕ :=
  List.replicate 144 8 ++ List.replicate 112 9 ++ List.replicate 24 7 ++ List.replicate 8 8

def fixedDistanceLengths : List ℕ := List.replicate 30 5

/-- A table that is known to be right; anything else stops the program. -/
def expect : Inflating Huffman → Inflating Huffman
  | .error _ => .outOfRange
  | h => h

def fixedLiterals : Inflating Huffman := expect (new fixedLiteralLengths)

def fixedDistances : Inflating Huffman := expect (new fixedDistanceLengths)

end Huffman

/-! ### The bit reader -/

/-- Reads `n` more bits at `pos` into `out`, of which `i` bits are there. -/
def readBitsInto (data : List UInt8) : ℕ → ℕ → ℕ → ℕ → Inflating (ℕ × ℕ)
  | 0, _, out, pos => .ok (out, pos)
  | n + 1, i, out, pos =>
    match data[pos / 8]? with
    | none => .error .truncated
    | some byte => readBitsInto data n (i + 1) (out ||| ((byte.toNat >>> (pos % 8)) % 2) <<< i) (pos + 1)

/-- Reads `n` bits at `pos`, least significant first: the number, and where they end. -/
def readBits (data : List UInt8) (n pos : ℕ) : Inflating (ℕ × ℕ) := readBitsInto data n 0 0 pos

/-- Walks the code a bit at a time, through the lengths `lens`. -/
def decodeFrom (data : List UInt8) (h : Huffman) : List ℕ → ℕ → ℕ → ℕ → ℕ → Inflating (ℕ × ℕ)
  | [], _, _, _, _ => .error .badSymbol
  | len :: lens, code, first, index, pos =>
    (readBits data 1 pos).bind fun (bit, pos) =>
    let code := code ||| bit
    (Checked.get h.counts len).bind fun count =>
    if code < first + count then
      (Checked.sub (index + code) first).bind fun place =>
      (Checked.get h.symbols place).bind fun sym => .ok (sym, pos)
    else decodeFrom data h lens (code <<< 1) ((first + count) <<< 1) (index + count) pos

/-- Reads the symbol of the word at `pos`. -/
def decodeSymbol (data : List UInt8) (h : Huffman) (pos : ℕ) : Inflating (ℕ × ℕ) :=
  decodeFrom data h (List.range' 1 15) 0 0 0 pos

/-- How many bits there are from `pos` on. -/
def bitsLeft (data : List UInt8) (pos : ℕ) : ℕ := 8 * data.length - pos

/-! ### Transmitted codes -/

/-- Reads the lengths of the code length code. -/
def readClen (data : List UInt8) : List ℕ → List ℕ → ℕ → Inflating (List ℕ × ℕ)
  | [], lengths, pos => .ok (lengths, pos)
  | symbol :: symbols, lengths, pos =>
    (readBits data 3 pos).bind fun (l, pos) =>
    (Checked.set lengths symbol l).bind fun lengths => readClen data symbols lengths pos

/-- Repeats the length before `i`; there must be room. -/
def repeatLength (prev : ℕ) : ℕ → ℕ → List ℕ → Inflating (ℕ × List ℕ)
  | 0, i, lengths => .ok (i, lengths)
  | n + 1, i, lengths =>
    if i < lengths.length then repeatLength prev n (i + 1) (lengths.set i prev) else .error .badHuffman

/-- The state of reading code lengths. -/
structure ReadingLengths where
  pos : ℕ
  /-- how many of the lengths are known -/
  i : ℕ
  lengths : List ℕ
  deriving DecidableEq, Repr

/-- What a symbol of the code length code means. -/
def readLength (data : List UInt8) (sym : ℕ) (s : ReadingLengths) : Inflating ReadingLengths :=
  if sym ≤ 15 then
    (Checked.set s.lengths s.i sym).bind fun lengths => .ok { s with i := s.i + 1, lengths }
  else if sym = 16 then
    if s.i = 0 then .error .badHuffman
    else
      (Checked.get s.lengths (s.i - 1)).bind fun prev =>
      (readBits data 2 s.pos).bind fun (n, pos) =>
      (repeatLength prev (3 + n) s.i s.lengths).bind fun (i, lengths) => .ok { pos, i, lengths }
  else if sym = 17 then
    (readBits data 3 s.pos).bind fun (n, pos) => .ok { s with pos, i := s.i + (3 + n) }
  else if sym = 18 then
    (readBits data 7 s.pos).bind fun (n, pos) => .ok { s with pos, i := s.i + (11 + n) }
  else .error .badHuffman

/-- A turn of the loop that reads the code lengths. -/
def readLengthsTurn (data : List UInt8) (clen : Huffman) (s : ReadingLengths) :
    Inflating (ReadingLengths ⊕ ReadingLengths) :=
  if s.i < s.lengths.length then
    (decodeSymbol data clen s.pos).bind fun (sym, pos) =>
    (readLength data sym { s with pos }).bind fun s =>
    if s.lengths.length < s.i then .error .badHuffman else .ok (.inl s)
  else .ok (.inr s)

def readLengths (data : List UInt8) (clen : Huffman) : ReadingLengths → Inflating ReadingLengths :=
  Checked.loop (fun s => bitsLeft data s.pos) (readLengthsTurn data clen)

/-- Reads the two codes of a block that transmits them; the end of a block must have a word. -/
def dynamicTables (data : List UInt8) (pos : ℕ) : Inflating (Huffman × Huffman × ℕ) :=
  (readBits data 5 pos).bind fun (n, pos) =>
  let hlit := n + 257
  (readBits data 5 pos).bind fun (n, pos) =>
  let hdist := n + 1
  (readBits data 4 pos).bind fun (n, pos) =>
  let hclen := n + 4
  (readClen data (clenOrder.take hclen) (List.replicate 19 0) pos).bind fun (clenLengths, pos) =>
  (Huffman.new clenLengths).bind fun clen =>
  (readLengths data clen { pos, i := 0, lengths := List.replicate (hlit + hdist) 0 }).bind fun s =>
  (Checked.get s.lengths 256).bind fun eob =>
  if eob = 0 then .error .badHuffman
  else
    (Checked.split s.lengths hlit).bind fun (litLengths, distLengths) =>
    (Huffman.new litLengths).bind fun lit =>
    (Huffman.new distLengths).bind fun dist => .ok (lit, dist, s.pos)

/-! ### Blocks -/

/-- Where a block is read, and what was decompressed so far. -/
structure Inflation where
  pos : ℕ
  out : List UInt8
  deriving DecidableEq, Repr

/-- Copies `n` bytes from `d` back, one by one: they may be bytes of the copy. -/
def copyBack (d : ℕ) : ℕ → List UInt8 → Inflating (List UInt8)
  | 0, out => .ok out
  | n + 1, out =>
    (Checked.sub out.length d).bind fun i =>
    (Checked.get out i).bind fun b => copyBack d n (out ++ [b])

/-- A number with extra bits, by its row in the tables of the format. -/
def readExtra (data : List UInt8) (bases extras : List ℕ) (row pos : ℕ) : Inflating (ℕ × ℕ) :=
  (Checked.get bases row).bind fun b =>
  (Checked.get extras row).bind fun bits =>
  (readBits data bits pos).bind fun (n, pos) => .ok (b + n, pos)

/-- A turn of the loop over a compressed block. -/
def compressedTurn (data : List UInt8) (limit : ℕ) (lit dist : Huffman) (s : Inflation) :
    Inflating (Inflation ⊕ Inflation) :=
  (decodeSymbol data lit s.pos).bind fun (sym, pos) =>
  if sym ≤ 255 then
    if limit ≤ s.out.length then .error .tooLarge
    else .ok (.inl { pos, out := s.out ++ [UInt8.ofNat sym] })
  else if sym = 256 then .ok (.inr { s with pos })
  else if sym ≤ 285 then
    (readExtra data lengthBase lengthExtra (sym - 257) pos).bind fun (len, pos) =>
    (decodeSymbol data dist pos).bind fun (dsym, pos) =>
    if 30 ≤ dsym then .error .badSymbol
    else
      (readExtra data distBase distExtra dsym pos).bind fun (d, pos) =>
      if s.out.length < d then .error .badDistance
      else if limit < s.out.length + len then .error .tooLarge
      else (copyBack d len s.out).bind fun out => .ok (.inl { pos, out })
  else .error .badSymbol

/-- Decompresses a compressed block. -/
def inflateCompressed (data : List UInt8) (limit : ℕ) (lit dist : Huffman) : Inflation → Inflating Inflation :=
  Checked.loop (fun s => bitsLeft data s.pos) (compressedTurn data limit lit dist)

/-- A stored block: a length, its complement, and that many bytes, from the next byte on. -/
def inflateStored (data : List UInt8) (limit : ℕ) (s : Inflation) : Inflating Inflation :=
  let pos := (s.pos + 7) / 8 * 8
  (readBits data 16 pos).bind fun (len, pos) =>
  (readBits data 16 pos).bind fun (nlen, pos) =>
  if len ^^^ nlen ≠ 0xFFFF then .error .badStoredLength
  else if limit < s.out.length + len then .error .tooLarge
  else
    match getRange data (pos / 8) (pos / 8 + len) with
    | none => .error .truncated
    | some bytes => .ok { pos := pos + len * 8, out := s.out ++ bytes }

/-- Decompresses a block of a kind, behind its header. -/
def inflateBlock (data : List UInt8) (limit kind : ℕ) (s : Inflation) : Inflating Inflation :=
  match kind with
  | 0 => inflateStored data limit s
  | 1 =>
    Huffman.fixedLiterals.bind fun lit =>
    Huffman.fixedDistances.bind fun dist => inflateCompressed data limit lit dist s
  | 2 =>
    (dynamicTables data s.pos).bind fun (lit, dist, pos) =>
    inflateCompressed data limit lit dist { s with pos }
  | _ => .error .badBlockType

/-- A turn of the loop over the blocks. -/
def inflateTurn (data : List UInt8) (limit : ℕ) (s : Inflation) :
    Inflating (Inflation ⊕ (List UInt8 × ℕ)) :=
  (readBits data 1 s.pos).bind fun (bfinal, pos) =>
  (readBits data 2 pos).bind fun (kind, pos) =>
  (inflateBlock data limit kind { s with pos }).bind fun s =>
  if bfinal = 1 then .ok (.inr (s.out, (s.pos + 7) / 8)) else .ok (.inl s)

/-- Decompresses a DEFLATE stream: the output, and how many bytes of the input it takes. -/
def inflate (data : List UInt8) (limit : ℕ) : Inflating (List UInt8 × ℕ) :=
  Checked.loop (fun s => bitsLeft data s.pos) (inflateTurn data limit) { pos := 0, out := [] }

/-! ### The checksum and the stream around it -/

/-- The modulus of the checksum. -/
def adlerMod : ℕ := 65521

/-- The most bytes whose sums fit 32 bits. -/
def adlerChunk : ℕ := 5552

/-- A list in pieces of `n`; the last may be shorter. -/
def chunks {α : Type} (n : ℕ) (xs : List α) : List (List α) :=
  if _h : xs ≠ [] ∧ 0 < n then xs.take n :: chunks n (xs.drop n) else []
termination_by xs.length
decreasing_by
  have hpos := List.length_pos_iff.2 _h.1
  rw [List.length_drop]
  omega

/-- Adds the bytes of a chunk up, in 32 bits. -/
def adlerBytes : List UInt8 → ℕ × ℕ → Inflating (ℕ × ℕ)
  | [], s => .ok s
  | byte :: bytes, (a, b) =>
    (Checked.fits (2 ^ 32) (a + byte.toNat)).bind fun a =>
    (Checked.fits (2 ^ 32) (b + a)).bind fun b => adlerBytes bytes (a, b)

/-- Adds the chunks up; the sums are reduced after each. -/
def adlerChunks : List (List UInt8) → ℕ × ℕ → Inflating (ℕ × ℕ)
  | [], s => .ok s
  | chunk :: rest, s =>
    (adlerBytes chunk s).bind fun (a, b) => adlerChunks rest (a % adlerMod, b % adlerMod)

/-- The Adler-32 checksum. -/
def adler32 (data : List UInt8) : Inflating ℕ :=
  (adlerChunks (chunks adlerChunk data) (1, 0)).bind fun (a, b) => .ok ((b <<< 16) % 2 ^ 32 ||| a)

/-- Decompresses a zlib stream, and checks its header and its checksum. -/
def zlibDecompress (data : List UInt8) (limit : ℕ) : Inflating (List UInt8) :=
  match data with
  | cmf :: flg :: rest =>
    let header := cmf.toNat <<< 8 ||| flg.toNat
    if cmf.toNat % 16 ≠ 8 ∨ header % 31 ≠ 0 ∨ flg.toNat.testBit 5 then .error .badHeader
    else
      (inflate rest limit).bind fun (out, used) =>
      match getRange rest used (used + 4) with
      | none => .error .truncated
      | some trailer =>
        (adler32 out).bind fun sum =>
        if sum ≠ WordBytes.ofBe trailer then .error .badChecksum else .ok out
  | _ => .error .truncated

end Posh.Term
