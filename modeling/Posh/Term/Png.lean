/-
**Images, as the terminal decodes them.**

An image is a signature and chunks; its pixels are compressed scanlines, each behind a byte that says how its
bytes were predicted from the ones to the left and above.  The predictions are undone in place: a scanline is
moved over its filter byte and those of the scanlines before it, and then each of its bytes is added to its
prediction.
-/

import Posh.Term.Inflate

set_option autoImplicit false

namespace Posh.Term

open ByteCursor

/-- Why an image is refused. -/
inductive PngError where
  | badSignature
  /-- the input ended inside a chunk -/
  | truncated
  | badCrc
  /-- a bad header, no pixels, or too many -/
  | badHeader
  /-- interlacing, a depth other than eight bits, or an unknown kind of colour -/
  | unsupported
  /-- bad pixels, a bad filter, or a colour that is not in the palette -/
  | badData
  deriving DecidableEq, Repr

namespace Png

abbrev Decoding (α : Type) := Outcome PngError α

/-- The most bytes of pixels. -/
def maxRgbaBytes : ℕ := 320 * 1024 * 1024

/-- A decoded image: `width * height` pixels of four bytes. -/
structure DecodedPng where
  width : ℕ
  height : ℕ
  rgba : List UInt8
  deriving DecidableEq, Repr

structure Header where
  width : ℕ
  height : ℕ
  color : ℕ
  deriving DecidableEq, Repr

/-- The samples of a pixel. -/
def Header.channels (hdr : Header) : ℕ :=
  match hdr.color with
  | 0 => 1
  | 2 => 3
  | 3 => 1
  | 4 => 2
  | _ => 4

/-- Eight bits of the checksum. -/
def crcByte (crc : UInt32) (b : UInt8) : UInt32 :=
  (List.range 8).foldl (fun crc _ => (crc >>> 1) ^^^ ((crc &&& 1) * 0xEDB88320)) (crc ^^^ b.toUInt32)

/-- The checksum of a chunk. -/
def crc32 (data : List UInt8) : UInt32 := ~~~(data.foldl crcByte (~~~0))

/-- Reads the header chunk. -/
def parseIhdr (data : List UInt8) : Decoding Header :=
  match data with
  | [w₀, w₁, w₂, w₃, h₀, h₁, h₂, h₃, depth, color, compression, filter, interlace] =>
    let width := WordBytes.ofBe [w₀, w₁, w₂, w₃]
    let height := WordBytes.ofBe [h₀, h₁, h₂, h₃]
    if width = 0 ∨ height = 0 ∨ maxRgbaBytes < width * height * 4 then .error .badHeader
    else if compression ≠ 0 ∨ filter ≠ 0 then .error .badHeader
    else if depth ≠ 8 ∨ interlace ≠ 0 ∨ color.toNat ∉ [0, 2, 3, 4, 6] then .error .unsupported
    else .ok { width, height, color := color.toNat }
  | _ => .error .badHeader

/-! ### Filters -/

/-- The prediction of the fourth filter: the neighbour that is nearest to `a + b - c`. -/
def paeth (a b c : UInt8) : UInt8 :=
  let p : ℤ := a.toNat + b.toNat - c.toNat
  let pa := (p - a.toNat).natAbs
  let pb := (p - b.toNat).natAbs
  let pc := (p - c.toNat).natAbs
  if pa ≤ pb ∧ pa ≤ pc then a else if pb ≤ pc then b else c

/-- A byte and its prediction; an unknown filter is an error. -/
def undoFilter (filter x left up upLeft : UInt8) : Decoding UInt8 :=
  match filter.toNat with
  | 0 => .ok x
  | 1 => .ok (x + left)
  | 2 => .ok (x + up)
  | 3 => .ok (x + UInt8.ofNat ((left.toNat + up.toNat) / 2))
  | 4 => .ok (x + paeth left up upLeft)
  | _ => .error .badData

/-- Moves `xs[lo..hi]` to `dest`; the ranges may overlap. -/
def copyWithin (xs : List UInt8) (lo hi dest : ℕ) : Decoding (List UInt8) :=
  if lo ≤ hi ∧ hi ≤ xs.length ∧ dest + (hi - lo) ≤ xs.length then
    .ok (xs.take dest ++ (xs.drop lo).take (hi - lo) ++ xs.drop (dest + (hi - lo)))
  else .outOfRange

/-- Byte `i` of a row that begins at `cur`; the row before it begins at `outAt`. -/
def unfilterByte (filter : UInt8) (bpp row outAt cur : ℕ) (raw : List UInt8) (i : ℕ) :
    Decoding (List UInt8) :=
  (if bpp ≤ i then (Checked.sub (cur + i) bpp).bind fun k => Checked.get raw k else .ok 0).bind fun left =>
  (if 0 < row then Checked.get raw (outAt + i) else .ok 0).bind fun up =>
  (if 0 < row ∧ bpp ≤ i then (Checked.sub (outAt + i) bpp).bind fun k => Checked.get raw k
    else .ok 0).bind fun upLeft =>
  (Checked.get raw (cur + i)).bind fun x =>
  (undoFilter filter x left up upLeft).bind fun y => Checked.set raw (cur + i) y

def unfilterBytes (filter : UInt8) (bpp row outAt cur : ℕ) : List ℕ → List UInt8 → Decoding (List UInt8)
  | [], raw => .ok raw
  | i :: is, raw =>
    (unfilterByte filter bpp row outAt cur raw i).bind fun raw =>
    unfilterBytes filter bpp row outAt cur is raw

/-- A row: it is moved over the filter bytes, and its predictions are undone. -/
def unfilterRow (stride bpp row outAt : ℕ) (raw : List UInt8) : Decoding (List UInt8) :=
  let lineAt := row * (stride + 1)
  (Checked.get raw lineAt).bind fun filter =>
  (copyWithin raw (lineAt + 1) (lineAt + 1 + stride) (row * stride)).bind fun raw =>
  unfilterBytes filter bpp row outAt (row * stride) (List.range stride) raw

def unfilterRows (stride bpp : ℕ) : List ℕ → ℕ → List UInt8 → Decoding (List UInt8)
  | [], _, raw => .ok raw
  | row :: rows, outAt, raw =>
    (unfilterRow stride bpp row outAt raw).bind fun raw =>
    unfilterRows stride bpp rows (row * stride) raw

/-- Undoes the predictions of `height` scanlines in place, and drops the filter bytes. -/
def unfilter (raw : List UInt8) (width height bpp : ℕ) : Decoding (List UInt8) :=
  let stride := width * bpp
  (unfilterRows stride bpp (List.range height) 0 raw).bind fun raw => .ok (raw.take (height * stride))

/-! ### Pixels -/

/-- Pixels of three samples; one colour may be transparent. -/
def rgbPixels (key : Option (UInt8 × UInt8 × UInt8)) : List UInt8 → Decoding (List UInt8)
  | [] => .ok []
  | r :: g :: b :: samples =>
    (rgbPixels key samples).bind fun rest =>
    .ok (r :: g :: b :: (if key = some (r, g, b) then 0 else 255) :: rest)
  | _ => .error .badData

def palettePixels (plte trns : List UInt8) : List UInt8 → Decoding (List UInt8)
  | [] => .ok []
  | idx :: samples =>
    match getRange plte (idx.toNat * 3) (idx.toNat * 3 + 3) with
    | none => .error .badData
    | some rgb => (palettePixels plte trns samples).bind fun rest =>
      .ok (rgb ++ trns.getD idx.toNat 255 :: rest)

def greyAlphaPixels : List UInt8 → Decoding (List UInt8)
  | [] => .ok []
  | g :: a :: samples => (greyAlphaPixels samples).bind fun rest => .ok (g :: g :: g :: a :: rest)
  | _ => .error .badData

/-- Samples as pixels of four bytes. -/
def toRgba (hdr : Header) (samples plte trns : List UInt8) : Decoding (List UInt8) :=
  match hdr.color with
  | 0 =>
    let key := match trns with | [_, g] => some g | _ => none
    .ok (samples.flatMap fun g => [g, g, g, if key = some g then 0 else 255])
  | 2 =>
    let key := match trns with | [_, r, _, g, _, b] => some (r, g, b) | _ => none
    rgbPixels key samples
  | 3 =>
    if plte = [] ∨ plte.length % 3 ≠ 0 then .error .badData else palettePixels plte trns samples
  | 4 => greyAlphaPixels samples
  | _ => .ok samples

/-! ### Chunks -/

/-- The first bytes of an image. -/
def signature : List UInt8 := [0x89, 0x50, 0x4E, 0x47, 0x0D, 0x0A, 0x1A, 0x0A]

/-- What was read of the chunks before `pos`. -/
structure Chunks where
  pos : ℕ := 0
  hdr : Option Header := none
  idat : List UInt8 := []
  plte : List UInt8 := []
  trns : List UInt8 := []
  deriving DecidableEq, Repr

/-- What a chunk adds; the last one ends the loop. -/
def takeChunk (kind body : List UInt8) (s : Chunks) : Decoding (Chunks ⊕ Chunks) :=
  if kind = [0x49, 0x48, 0x44, 0x52] then
    (parseIhdr body).bind fun hdr => .ok (.inl { s with hdr := some hdr })
  else if kind = [0x49, 0x44, 0x41, 0x54] then .ok (.inl { s with idat := s.idat ++ body })
  else if kind = [0x50, 0x4C, 0x54, 0x45] then .ok (.inl { s with plte := body })
  else if kind = [0x74, 0x52, 0x4E, 0x53] then .ok (.inl { s with trns := body })
  else if kind = [0x49, 0x45, 0x4E, 0x44] then .ok (.inr s)
  else .ok (.inl s)

/-- `rest.get(lo..hi)`, or the input ended. -/
def slice (rest : List UInt8) (lo hi : ℕ) : Decoding (List UInt8) :=
  match getRange rest lo hi with
  | none => .error .truncated
  | some bytes => .ok bytes

/-- A turn of the loop over the chunks. -/
def chunkTurn (rest : List UInt8) (s : Chunks) : Decoding (Chunks ⊕ Chunks) :=
  (slice rest s.pos (s.pos + 8)).bind fun head =>
  let len := WordBytes.ofBe (head.take 4)
  let kind := head.drop 4
  (slice rest (s.pos + 8) (s.pos + 8 + len)).bind fun body =>
  (slice rest (s.pos + 8 + len) (s.pos + 12 + len)).bind fun crc =>
  if WordBytes.be 4 (crc32 (kind ++ body)).toNat ≠ crc then .error .badCrc
  else
    (takeChunk kind body s).bind fun
      | .inr s => .ok (.inr s)
      | .inl s =>
        if s.hdr = none then .error .badHeader
        else .ok (.inl { s with pos := s.pos + (12 + len) })

/-- Reads the chunks up to the last. -/
def readChunks (rest : List UInt8) : Chunks → Decoding Chunks :=
  Checked.loop (fun s => rest.length - s.pos) (chunkTurn rest)

def decode (data : List UInt8) : Decoding DecodedPng :=
  if data.take 8 ≠ signature then .error .badSignature
  else
    (readChunks (data.drop 8) {}).bind fun s =>
    match s.hdr with
    | none => .error .badHeader
    | some hdr =>
      let expect := hdr.height * (1 + hdr.width * hdr.channels)
      match zlibDecompress s.idat expect with
      | .error _ => .error .badData
      | .outOfRange => .outOfRange
      | .ok raw =>
        if raw.length ≠ expect then .error .badData
        else
          (unfilter raw hdr.width hdr.height hdr.channels).bind fun samples =>
          (toRgba hdr samples s.plte s.trns).bind fun rgba =>
          .ok { width := hdr.width, height := hdr.height, rgba }

end Png

end Posh.Term
