/-
**The graphics store, as it answers commands.**

The store keeps images with their animation frames and play states, and where the images are shown.  It counts
the bytes of the pixels, and lets the oldest images go when there are too many.  Every sum, every difference and
every place in a list is an outcome here that says whether it is there.

The order of the images is not the source's, which has none; nothing below depends on it, since no two images
were stored at once.
-/

import Mathlib.Data.List.MinMax
import Posh.Lib.Base64
import Posh.Lib.Keyed
import Posh.Lib.Utf8
import Posh.Term.Graphics
import Posh.Term.GraphicsCommand
import Posh.Term.Png

set_option autoImplicit false

namespace Posh.Term

open ByteCursor

abbrev Storing (α : Type) := Outcome Empty α

/-- A step that may be answered with an error. -/
abbrev Answering (α : Type) := Outcome String α

/-- How a step over numbers of `w` bits adds. -/
def add (ε : Type) (w a b : ℕ) : Outcome ε ℕ := Checked.fits (2 ^ w) (a + b)

/-- How a step over numbers of `w` bits multiplies. -/
def mul (ε : Type) (w a b : ℕ) : Outcome ε ℕ := Checked.fits (2 ^ w) (a * b)

/-- The bytes that the pixels of all images may have. -/
def quotaBytes : ℕ := 320 * 1024 * 1024

/-- The bytes that a message in pieces may have. -/
def maxPendingPayload : ℕ := 430000000

def cellW : ℕ := 10

def cellH : ℕ := 20

structure StoredImage extends Image where
  seq : ℕ
  deriving DecidableEq, Repr

/-- A message of which pieces are missing. -/
structure PendingImage where
  cmd : GraphicsCommand
  payload : List UInt8
  deriving DecidableEq, Repr

structure GraphicsState where
  images : List StoredImage := []
  placements : List Placement := []
  /-- the frames of an image, by its id -/
  frames : List (ℕ × List ImageFrame) := []
  /-- the play state of an image, by its id -/
  animations : List (ℕ × AnimationState) := []
  pending : Option PendingImage := none
  totalBytes : ℕ := 0
  nextSeq : ℕ := 0
  nextId : ℕ := 0
  deriving DecidableEq, Repr

/-- An answer to the client, and how far the cursor moves. -/
abbrev GraphicsAnswer := Option (List UInt8) × Option (ℕ × ℕ)

/-! ### Pixels that are transmitted -/

/-- Reads a file that a message names, from an offset and up to a size. -/
def loadFile (files : List Char → Option (List UInt8)) (cmd : GraphicsCommand) (payload : List UInt8) :
    Answering (List UInt8) :=
  match Base64.decode payload with
  | none => .error "EINVAL:invalid base64 payload"
  | some pathBytes =>
    let path := Utf8.lossy pathBytes
    if Utf8.encode path ≠ pathBytes then .error "EINVAL:invalid file path"
    else
      match files path with
      | none => .error "ENOENT:could not read file"
      | some contents =>
        let data := contents.drop (min cmd.fileOffset contents.length)
        let data := if cmd.fileSize ≠ 0 then data.take cmd.fileSize else data
        if quotaBytes < data.length then .error "EFBIG:file exceeds storage quota" else .ok data

/-- The bytes that a message transmits. -/
def transmitted (files : List Char → Option (List UInt8)) (cmd : GraphicsCommand) (payload : List UInt8) :
    Answering (List UInt8) :=
  if cmd.transmission = 0 ∨ cmd.transmission = byte 'd' then
    match Base64.decode payload with
    | some data => .ok data
    | none => .error "EINVAL:invalid base64 payload"
  else if cmd.transmission = byte 'f' ∨ cmd.transmission = byte 't' then loadFile files cmd payload
  else if cmd.transmission = byte 's' then .error "EUNSUPPORTED:shared memory unavailable"
  else .error "EINVAL:unsupported transmission medium"

/-- The bytes, when they were compressed. -/
def decompressed (cmd : GraphicsCommand) (data : List UInt8) : Answering (List UInt8) :=
  if cmd.compression = 0 then .ok data
  else if cmd.compression ≠ byte 'z' then .error "EINVAL:unknown compression"
  else
    match zlibDecompress data quotaBytes with
    | .ok data => .ok data
    | .error .tooLarge => .error "EFBIG:decompressed data exceeds storage quota"
    | .error _ => .error "EINVAL:invalid zlib stream"
    | .outOfRange => .outOfRange

/-- How the pixels are transmitted. -/
def imageFormat (cmd : GraphicsCommand) : Answering ImageFormat :=
  if cmd.format = 24 then .ok .rgb
  else if cmd.format = 0 ∨ cmd.format = 32 then .ok .rgba
  else if cmd.format = 100 then .ok .png
  else .error "EINVAL:unknown format"

def ImageFormat.bytesPerPixel : ImageFormat → ℕ
  | .rgb => 3
  | .rgba => 4
  | .png => 4

/-- The pixels: those of a compressed image give its size, the others must be as many as the size says. -/
def pixels (cmd : GraphicsCommand) (format : ImageFormat) (data : List UInt8) :
    Answering (GraphicsCommand × List UInt8) :=
  if format = .png then
    match Png.decode data with
    | .ok decoded => .ok ({ cmd with width := decoded.width, height := decoded.height }, decoded.rgba)
    | .error _ => .error "EBADPNG:failed to decode PNG"
    | .outOfRange => .outOfRange
  else
    (mul String 64 cmd.width cmd.height).bind fun count =>
    (mul String 64 count format.bytesPerPixel).bind fun expect =>
    if cmd.width = 0 ∨ cmd.height = 0 ∨ data.length ≠ expect then
      .error "EINVAL:payload size does not match dimensions"
    else .ok (cmd, data)

/-- The size, the format and the pixels that a message transmits. -/
def transfer (files : List Char → Option (List UInt8)) (cmd : GraphicsCommand) (payload : List UInt8) :
    Answering (GraphicsCommand × ImageFormat × List UInt8) :=
  (transmitted files cmd payload).bind fun data =>
  (decompressed cmd data).bind fun data =>
  (imageFormat cmd).bind fun format =>
  (pixels cmd format data).bind fun (cmd, data) => .ok (cmd, format, data)

/-! ### Laying pixels over each other -/

/-- Pixels of three bytes, as pixels of four. -/
def opaquePixels : List UInt8 → Storing (List UInt8)
  | r :: g :: b :: rest => (opaquePixels rest).bind fun out => .ok (r :: g :: b :: 255 :: out)
  | [] => .ok []
  | _ => .outOfRange

/-- Pixels of four bytes. -/
def asRgba (format : ImageFormat) (data : List UInt8) : Storing (List UInt8) :=
  match format with
  | .rgb => opaquePixels data
  | .rgba => .ok data
  | .png => .ok data

/-- A sample of a pixel over one below it, in 32 bits. -/
def blendSample (sa da oa s d : ℕ) : Storing UInt8 :=
  (mul Empty 32 s sa).bind fun sc =>
  (mul Empty 32 sc 255).bind fun sc =>
  (Checked.sub 255 sa).bind fun rest =>
  (mul Empty 32 d da).bind fun dc =>
  (mul Empty 32 dc rest).bind fun dc =>
  (add Empty 32 sc dc).bind fun sum =>
  if oa = 0 then .outOfRange else .ok (UInt8.ofNat (sum / oa))

/-- A pixel over one below it. -/
def blendPx (d s : List UInt8) : Storing (List UInt8) :=
  match d, s with
  | [dr, dg, db, dalpha], [sr, sg, sb, salpha] =>
    let sa := salpha.toNat
    let da := dalpha.toNat
    if sa = 255 then .ok s
    else
      (Checked.sub 255 sa).bind fun rest =>
      (mul Empty 32 sa 255).bind fun top =>
      (mul Empty 32 da rest).bind fun below =>
      -- the alpha of the result, scaled by 255
      (add Empty 32 top below).bind fun oa =>
      if oa = 0 then .ok [0, 0, 0, 0]
      else
        (blendSample sa da oa sr.toNat dr.toNat).bind fun r =>
        (blendSample sa da oa sg.toNat dg.toNat).bind fun g =>
        (blendSample sa da oa sb.toNat db.toNat).bind fun b => .ok [r, g, b, UInt8.ofNat (oa / 255)]
  | _, _ => .outOfRange

/-- Where a pixel begins: column `x` of the row that is `row` below `y`. -/
def pixelAt (y row width x : ℕ) : Storing ℕ :=
  (add Empty 64 y row).bind fun above =>
  (mul Empty 64 above width).bind fun before =>
  (add Empty 64 before x).bind fun count => mul Empty 64 count 4

/-- `xs[start..start + 4]`, with the sum. -/
def pixelSlice (xs : List UInt8) (start : ℕ) : Storing (List UInt8) :=
  (add Empty 64 start 4).bind fun stop =>
  match getRange xs start stop with
  | some px => .ok px
  | none => .outOfRange

/-- Lays one pixel over another. -/
def composePixel (src : List UInt8) (sAt dAt : ℕ) (replace : Bool) (dst : List UInt8) (col : ℕ) :
    Storing (List UInt8) :=
  (mul Empty 64 col 4).bind fun off =>
  (add Empty 64 sAt off).bind fun sAt =>
  (pixelSlice src sAt).bind fun s =>
  (add Empty 64 dAt off).bind fun dAt =>
  (pixelSlice dst dAt).bind fun d =>
  (if replace then .ok s else blendPx d s).bind fun px => .ok (dst.take dAt ++ px ++ dst.drop (dAt + 4))

/-- Lays a rectangle of `src`, from `spos`, over `dst`, at `dpos`: as much of it as both have. -/
def composeRect (dst : List UInt8) (dsize : ℕ × ℕ) (src : List UInt8) (ssize spos dpos size : ℕ × ℕ)
    (replace : Bool) : Storing (List UInt8) :=
  let w := min (min size.1 (ssize.1 - spos.1)) (dsize.1 - dpos.1)
  let h := min (min size.2 (ssize.2 - spos.2)) (dsize.2 - dpos.2)
  Checked.each (fun dst row =>
    (pixelAt spos.2 row ssize.1 spos.1).bind fun sAt =>
    (pixelAt dpos.2 row dsize.1 dpos.1).bind fun dAt =>
    Checked.each (composePixel src sAt dAt replace) dst (List.range w)) dst (List.range h)

namespace GraphicsState

/-! ### What is stored -/

def image (g : GraphicsState) (id : ℕ) : Option StoredImage := Keyed.lookup (·.id) g.images id

def framesOf (g : GraphicsState) (id : ℕ) : List ImageFrame :=
  ((Keyed.lookup Prod.fst g.frames id).map Prod.snd).getD []

/-- The play state of an image. -/
def animation (g : GraphicsState) (id : ℕ) : Option AnimationState :=
  (Keyed.lookup Prod.fst g.animations id).map Prod.snd

/-- The image that a command is about: the one with its id, or the last stored of those with its number. -/
def resolveId (g : GraphicsState) (cmd : GraphicsCommand) : Option ℕ :=
  if cmd.id ≠ 0 then (g.image cmd.id).map fun _ => cmd.id
  else if cmd.number ≠ 0 then
    ((g.images.filter fun img => img.number = cmd.number).argmax (·.seq)).map (·.id)
  else none

/-- The frame with a number, over the ones that it is drawn over; `turns` bounds how many these are. -/
def composeChain (g : GraphicsState) (img : StoredImage) (turns frameNo : ℕ) (seen : List ℕ) :
    Storing (Option (List UInt8)) :=
  if frameNo = 0 then (asRgba img.format img.data).bind fun canvas => .ok (some canvas)
  else if frameNo ∈ seen then .ok none
  else
    match (g.framesOf img.id).find? (·.number == frameNo) with
    | none => .ok none
    | some frame =>
      match turns with
      | 0 => .outOfRange
      | turns + 1 =>
        (g.composeChain img turns frame.baseFrame (frameNo :: seen)).bind fun
          | none => .ok none
          | some canvas =>
            (asRgba frame.format frame.data).bind fun px =>
            (composeRect canvas (img.width, img.height) px (frame.width, frame.height) (0, 0)
              (frame.x, frame.y) (frame.width, frame.height) frame.replace).bind fun canvas =>
            .ok (some canvas)

/-- All pixels of an animation frame, drawn over its base. -/
def composedFrame (g : GraphicsState) (id frameNo : ℕ) : Storing (Option (List UInt8)) :=
  match g.image id with
  | none => .ok none
  | some img =>
    if img.width = 0 ∨ img.height = 0 then .ok none
    else g.composeChain img (g.framesOf id).length frameNo []

/-! ### Making room -/

/-- Drops an image, its frames and its play state. -/
def removeImageData (g : GraphicsState) (id : ℕ) : Storing GraphicsState :=
  (match g.image id with
    | some img => (Checked.sub g.totalBytes img.data.length).bind fun total =>
      .ok { g with images := g.images.eraseP (·.id == id), totalBytes := total }
    | none => .ok g).bind fun g =>
  (Checked.each (fun total (frame : ImageFrame) => Checked.sub total frame.data.length) g.totalBytes
    (g.framesOf id)).bind fun total =>
  .ok { g with
    frames := g.frames.eraseP (·.1 == id)
    animations := g.animations.eraseP (·.1 == id)
    totalBytes := total }

/-- Drops the oldest images until the rest have room; `turns` bounds how many these are. -/
def evict (turns : ℕ) (g : GraphicsState) : Storing GraphicsState :=
  if g.totalBytes ≤ quotaBytes then .ok g
  else
    match g.images.argmin (·.seq) with
    | none => .ok g
    | some oldest =>
      match turns with
      | 0 => .outOfRange
      | turns + 1 =>
        (g.removeImageData oldest.id).bind fun g =>
        evict turns { g with placements := g.placements.filter fun p => p.imageId ≠ oldest.id }

def enforceQuota (g : GraphicsState) : Storing GraphicsState := evict g.images.length g

/-! ### Frames -/

def putFrames (g : GraphicsState) (id : ℕ) (frames : List ImageFrame) (totalBytes : ℕ) : GraphicsState :=
  { g with frames := (id, frames) :: g.frames.eraseP (·.1 == id), totalBytes }

/-- The number of a frame that is stored: its own, or the next one. -/
def frameNumber (cmd : GraphicsCommand) (frames : List ImageFrame) : Storing ℕ :=
  if cmd.rows ≠ 0 then .ok cmd.rows else add Empty 32 ((frames.map (·.number)).max?.getD 0) 1

def storeFrame (g : GraphicsState) (cmd : GraphicsCommand) (format : ImageFormat) (data : List UInt8) :
    Storing (GraphicsState × Option (List UInt8)) :=
  match g.resolveId cmd with
  | none => .ok (g, cmd.reply "ENOENT:no such image")
  | some id =>
    let frames := g.framesOf id
    (frameNumber cmd frames).bind fun number =>
    let frame : ImageFrame :=
      { number, gapMs := cmd.z, baseFrame := cmd.cols, x := cmd.srcX, y := cmd.srcY, format, width := cmd.width,
        height := cmd.height, data, replace := decide (cmd.cellX = 1) }
    (add Empty 64 g.totalBytes data.length).bind fun total =>
    (match frames.find? (fun f : ImageFrame => f.number == number) with
      | some existing => (Checked.sub total existing.data.length).bind fun total =>
        .ok (g.putFrames id (Keyed.updateFirst (fun f => f.number == number) (fun _ => frame) frames) total)
      | none => .ok (g.putFrames id (frames ++ [frame]) total)).bind fun g =>
    g.enforceQuota.bind fun g => .ok (g, cmd.reply "OK")

/-- Sets the play state of an image. -/
def animate (g : GraphicsState) (cmd : GraphicsCommand) : GraphicsState × Option (List UInt8) :=
  match g.resolveId cmd with
  | none => (g, cmd.reply "ENOENT:no such image")
  | some id =>
    let st := (g.animation id).getD { state := 0, loops := 0, currentFrame := 0 }
    let st := if cmd.width ≠ 0 then { st with state := cmd.width % 2 ^ 8 } else st
    let st := if cmd.height ≠ 0 then { st with loops := cmd.height } else st
    let st := if cmd.cols ≠ 0 then { st with currentFrame := cmd.cols } else st
    ({ g with animations := (id, st) :: g.animations.eraseP (·.1 == id) }, cmd.reply "OK")

/-- Lays a rectangle of one frame over another, which becomes a frame of its own. -/
def compose (g : GraphicsState) (cmd : GraphicsCommand) : Storing (GraphicsState × Option (List UInt8)) :=
  match g.resolveId cmd with
  | none => .ok (g, cmd.reply "ENOENT:no such image")
  | some id =>
    match g.image id with
    | none => .outOfRange
    | some img =>
      let stored := fun n : ℕ => n ≠ 0 ∧ (g.framesOf id).any fun f => f.number == n
      if ¬ stored cmd.rows ∨ ¬ stored cmd.cols then .ok (g, cmd.reply "ENOENT:no such frame")
      else
        (g.composedFrame id cmd.cols).bind fun src =>
        (g.composedFrame id cmd.rows).bind fun dst =>
        match src, dst with
        | some src, some dst =>
          let w := if cmd.srcW ≠ 0 then cmd.srcW else img.width
          let h := if cmd.srcH ≠ 0 then cmd.srcH else img.height
          (composeRect dst (img.width, img.height) src (img.width, img.height) (cmd.cellX, cmd.cellY)
            (cmd.srcX, cmd.srcY) (w, h) cmd.noCursorMove).bind fun dst =>
          match (g.framesOf id).find? (·.number == cmd.rows) with
          | none => .outOfRange
          | some old =>
            let frame : ImageFrame :=
              { old with
                data := dst, format := .rgba, x := 0, y := 0, width := img.width, height := img.height,
                baseFrame := 0, replace := true }
            (Checked.sub g.totalBytes old.data.length).bind fun total =>
            (add Empty 64 total dst.length).bind fun total =>
            (g.putFrames id (Keyed.updateFirst (fun f => f.number == cmd.rows) (fun _ => frame) (g.framesOf id))
              total).enforceQuota.bind fun g => .ok (g, cmd.reply "OK")
        | _, _ => .ok (g, cmd.reply "EINVAL:could not compose frame")

/-! ### Placements -/

/-- How many cells a placement covers. -/
def extent (g : GraphicsState) (p : Placement) : ℕ × ℕ :=
  let img := g.image p.imageId
  let w := if p.srcW = 0 then (img.map (·.width)).getD 0 else p.srcW
  let h := if p.srcH = 0 then (img.map (·.height)).getD 0 else p.srcH
  (if p.cols ≠ 0 then p.cols else max ((w + cellW - 1) / cellW) 1,
    if p.rows ≠ 0 then p.rows else max ((h + cellH - 1) / cellH) 1)

/-- The first placement of an image with a name; 0 is any name. -/
def findPlacement (ps : List Placement) (id name : ℕ) : Option Placement :=
  ps.find? fun p => p.imageId = id ∧ (name = 0 ∨ p.placementId = name)

/-- Whether the parents of a placement lead back to it, within so many turns. -/
def isCycle (ps : List Placement) (own : ℕ × ℕ) : ℕ → ℕ × ℕ → Bool
  | 0, _ => false
  | turns + 1, current =>
    if current = own then true
    else
      match findPlacement ps current.1 current.2 with
      | none => false
      | some p => if p.parentImage = 0 then false else isCycle ps own turns (p.parentImage, p.parentPlacement)

/-- A cell of the parent, moved by an offset and cut to 16 bits. -/
def offsetCell (cell : ℕ) (off : ℤ) : Answering ℕ :=
  (Checked.fitsSigned 32 (cell + off)).bind fun moved => .ok ((max moved 0).toNat % 2 ^ 16)

/-- The cell of a placement: that of the cursor, or one that a parent gives. -/
def anchor (ps : List Placement) (cmd : GraphicsCommand) (cursor : ℕ × ℕ) : Answering (ℕ × ℕ) :=
  if cmd.parentImage ≠ 0 then
    if isCycle ps (cmd.id, cmd.placementId) (ps.length + 1) (cmd.parentImage, cmd.parentPlacement) then
      .error "ECYCLE:relative placement cycle"
    else
      match findPlacement ps cmd.parentImage cmd.parentPlacement with
      | none => .error "ENOPARENT:no such parent placement"
      | some parent =>
        (offsetCell parent.row cmd.vOff).bind fun row =>
        (offsetCell parent.col cmd.hOff).bind fun col => .ok (row, col)
  else .ok cursor

/-- Shows an image; a placement with the same name is replaced. -/
def addPlacement (g : GraphicsState) (cmd : GraphicsCommand) (cursor : ℕ × ℕ) :
    Answering (GraphicsState × Option (ℕ × ℕ)) :=
  (anchor g.placements cmd cursor).bind fun (row, col) =>
  let placement : Placement :=
    { imageId := cmd.id, placementId := cmd.placementId, row, col, srcX := cmd.srcX, srcY := cmd.srcY,
      srcW := cmd.srcW, srcH := cmd.srcH, cols := cmd.cols, rows := cmd.rows, z := cmd.z,
      parentImage := cmd.parentImage, parentPlacement := cmd.parentPlacement, hOff := cmd.hOff, vOff := cmd.vOff,
      cellX := cmd.cellX, cellY := cmd.cellY, unicode := cmd.unicode }
  let kept := g.placements.filter fun p => ¬ (p.imageId = cmd.id ∧ p.placementId = cmd.placementId)
  let advance :=
    if cmd.noCursorMove = false ∧ cmd.unicode = false ∧ cmd.parentImage = 0 then some (g.extent placement) else none
  .ok ({ g with placements := kept ++ [placement] }, advance)

/-- The answer after an image is shown. -/
def addPlacementAnswer (g : GraphicsState) (cmd : GraphicsCommand) (cursor : ℕ × ℕ) (resp : Option (List UInt8)) :
    Storing (GraphicsState × GraphicsAnswer) :=
  match g.addPlacement cmd cursor with
  | .ok (g, advance) => .ok (g, resp, advance)
  | .error e => .ok (g, cmd.reply e, none)
  | .outOfRange => .outOfRange

/-- Shows a stored image. -/
def place (g : GraphicsState) (cmd : GraphicsCommand) (cursor : ℕ × ℕ) : Storing (GraphicsState × GraphicsAnswer) :=
  match g.resolveId cmd with
  | some id =>
    let cmd := { cmd with id }
    g.addPlacementAnswer cmd cursor (cmd.reply "OK")
  | none => .ok (g, cmd.reply "ENOENT:no such image", none)

/-! ### Deleting -/

/-- Whether a cell is one of `len` from `lo` on, with their end in 32 bits. -/
def inSpan (lo len cell : ℕ) : Storing Bool :=
  if lo ≤ cell then (add Empty 32 lo len).bind fun stop => .ok (decide (cell < stop)) else .ok false

/-- Whether a placement covers a cell. -/
def intersects (g : GraphicsState) (p : Placement) (row col : ℕ) : Storing Bool :=
  if p.unicode then .ok false
  else
    (inSpan p.row (g.extent p).2 row).bind fun hit => if hit then inSpan p.col (g.extent p).1 col else .ok false

/-- The placements of which something holds are taken out: the rest, and the images of the ones taken out. -/
def sift (hits : Placement → Storing Bool) : List Placement → Storing (List Placement × List ℕ)
  | [] => .ok ([], [])
  | p :: ps =>
    (hits p).bind fun hit =>
    (sift hits ps).bind fun (kept, touched) =>
    .ok (if hit then (kept, p.imageId :: touched) else (p :: kept, touched))

/-- Takes placements out, and with `free` the images that are shown nowhere then. -/
def deletePlacements (g : GraphicsState) (free : Bool) (hits : Placement → Storing Bool) : Storing GraphicsState :=
  (sift hits g.placements).bind fun (kept, touched) =>
  let g := { g with placements := kept }
  if free then
    Checked.each (fun g id => if kept.any (·.imageId == id) then .ok g else g.removeImageData id) g touched
  else .ok g

/-- A cell that a key names, cut to 16 bits. -/
def clampCell (v : ℕ) : ℕ := min v (2 ^ 16 - 1)

/-- Whether a placement covers the cell that `x` and `y` name, counted from one. -/
def coversCell (g : GraphicsState) (x y : ℕ) (p : Placement) : Storing Bool :=
  if 1 ≤ x ∧ 1 ≤ y then g.intersects p (clampCell (y - 1)) (clampCell (x - 1)) else .ok false

/-- Whether a placement covers the column or the row that `key` names, counted from one. -/
def coversLine (unicode : Bool) (lo len key : ℕ) : Storing Bool :=
  if key < 1 ∨ unicode then .ok false else inSpan lo len (key - 1)

/-- Whether a placement covers the column that `x` names. -/
def coversCol (g : GraphicsState) (x : ℕ) (p : Placement) : Storing Bool :=
  coversLine p.unicode p.col (g.extent p).1 x

/-- Whether a placement covers the row that `y` names. -/
def coversRow (g : GraphicsState) (y : ℕ) (p : Placement) : Storing Bool :=
  coversLine p.unicode p.row (g.extent p).2 y

/-- Deletes all placements of an image, or those with a name, and with `free` the image. -/
def deleteImage (g : GraphicsState) (free : Bool) (id : Option ℕ) (name : ℕ) : Storing GraphicsState :=
  match id with
  | none => .ok g
  | some id =>
    let g := { g with
      placements := g.placements.filter fun p => p.imageId ≠ id ∨ (name ≠ 0 ∧ p.placementId ≠ name) }
    if free then g.removeImageData id else .ok g

def isUpper (b : UInt8) : Bool := 0x41 ≤ b.toNat ∧ b.toNat ≤ 0x5A

/-- Deletes what a command says; an uppercase letter frees the images too. -/
def delete (g : GraphicsState) (cmd : GraphicsCommand) (cursor : ℕ × ℕ) : Storing GraphicsState :=
  let free := isUpper cmd.delete
  let what := if free then cmd.delete + 0x20 else cmd.delete
  if what = 0 ∨ what = byte 'a' then
    let g := { g with placements := [] }
    .ok (if free then { g with images := [], frames := [], animations := [], totalBytes := 0 } else g)
  else if what = byte 'i' then g.deleteImage free (g.resolveId cmd) cmd.placementId
  else if what = byte 'n' then g.deleteImage free (g.resolveId { cmd with id := 0 }) 0
  else if what = byte 'c' then g.deletePlacements free fun p => g.intersects p cursor.1 cursor.2
  else if what = byte 'p' then g.deletePlacements free (g.coversCell cmd.srcX cmd.srcY)
  else if what = byte 'q' then
    g.deletePlacements free fun p => if p.z = cmd.z then g.coversCell cmd.srcX cmd.srcY p else .ok false
  else if what = byte 'x' then g.deletePlacements free (g.coversCol cmd.srcX)
  else if what = byte 'y' then g.deletePlacements free (g.coversRow cmd.srcY)
  else if what = byte 'z' then g.deletePlacements free fun p => .ok (decide (p.z = cmd.z))
  else .ok g

/-! ### Commands -/

/-- Stores an image, and shows it when it is also to be shown. -/
def storeImage (g : GraphicsState) (cmd : GraphicsCommand) (format : ImageFormat) (data : List UInt8)
    (cursor : ℕ × ℕ) : Storing (GraphicsState × GraphicsAnswer) :=
  (if cmd.id = 0 then (add Empty 32 g.nextId 1).bind fun id => .ok ({ cmd with id }, { g with nextId := id })
    else .ok (cmd, { g with nextId := max g.nextId cmd.id })).bind fun (cmd, g) =>
  let resp := cmd.reply "OK"
  if cmd.action = byte 'q' then .ok (g, resp, none)
  else
    (g.removeImageData cmd.id).bind fun g =>
    (add Empty 64 g.totalBytes data.length).bind fun totalBytes =>
    (add Empty 64 g.nextSeq 1).bind fun nextSeq =>
    let img : StoredImage :=
      { id := cmd.id, number := cmd.number, format, width := cmd.width, height := cmd.height, data, seq := nextSeq }
    { g with images := img :: g.images.eraseP (·.id == cmd.id), totalBytes, nextSeq }.enforceQuota.bind fun g =>
    if cmd.action = byte 'T' then g.addPlacementAnswer cmd cursor resp else .ok (g, resp, none)

/-- Answers a message of which all pieces are there. -/
def finishTransmission (files : List Char → Option (List UInt8)) (g : GraphicsState) (cmd : GraphicsCommand)
    (payload : List UInt8) (cursor : ℕ × ℕ) : Storing (GraphicsState × GraphicsAnswer) :=
  match transfer files cmd payload with
  | .error e => .ok (g, cmd.reply e, none)
  | .outOfRange => .outOfRange
  | .ok (cmd, format, data) =>
    if cmd.action = byte 'f' then (g.storeFrame cmd format data).bind fun (g, resp) => .ok (g, resp, none)
    else g.storeImage cmd format data cursor

/-- The commands that transmit pixels. -/
def transmits (action : UInt8) : Bool :=
  action ∈ [byte 't', byte 'T', byte 'q', byte 'f', 0]

/-- Answers a message. -/
def dispatch (files : List Char → Option (List UInt8)) (g : GraphicsState) (data : List UInt8) (cursor : ℕ × ℕ) :
    Storing (GraphicsState × GraphicsAnswer) :=
  let (control, payload) := splitControl data
  match parseCommand control with
  | none => .ok (g, none, none)
  | some cmd =>
    match g.pending with
    | some pending =>
      -- another piece of a message, whatever its keys are
      (add Empty 64 pending.payload.length payload.length).bind fun length =>
      let pending :=
        if length ≤ maxPendingPayload then { pending with payload := pending.payload ++ payload } else pending
      if cmd.more = 1 then .ok ({ g with pending := some pending }, none, none)
      else finishTransmission files { g with pending := none } pending.cmd pending.payload cursor
    | none =>
      if transmits cmd.action then
        if cmd.more = 1 then .ok ({ g with pending := some { cmd, payload } }, none, none)
        else finishTransmission files g cmd payload cursor
      else if cmd.action = byte 'p' then g.place cmd cursor
      else if cmd.action = byte 'd' then (g.delete cmd cursor).bind fun g => .ok (g, none, none)
      else if cmd.action = byte 'a' then .ok ((g.animate cmd).1, (g.animate cmd).2, none)
      else if cmd.action = byte 'c' then (g.compose cmd).bind fun (g, resp) => .ok (g, resp, none)
      else .ok (g, cmd.reply "EINVAL:unknown action", none)

end GraphicsState

end Posh.Term
