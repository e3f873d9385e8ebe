/-
**The dump: a terminal's state as a byte stream.**

The stream redraws a terminal on a fresh one: colours and titles, the rows of the grid and, where
there is a scrollback, the rows above it as one continuous flow, graphics, modes and the cursor.  A
row is written cell by cell with the least changes of pen and hyperlink, so the writer threads the pen
it has left on the target.

A dump for a mirror without scrollback, of the same width and at least the same height, replays only
the newest rows of the scrollback, as many as can show.
-/

import Posh.Lib.Base64
import Posh.Term.Sgr
import Posh.Term.Terminal

set_option autoImplicit false

namespace Posh.Term

variable {γ : Type}

/-! ### Writers -/

/-- What is known of the target's pen. -/
structure EmitState where
  style : Style := {}
  hyperlink : ℕ := 0
  /-- the last row was soft-wrapped, so the target waits to wrap -/
  afterWrap : Bool := false
  deriving DecidableEq, Repr

/-- Writes bytes and moves the target's pen. -/
abbrev Writer := EmitState → List UInt8 × EmitState

namespace Writer

/-- Bytes that leave the pen alone. -/
def put (bytes : List UInt8) : Writer := fun st => (bytes, st)

/-- One writer after the other. -/
def andThen (f g : Writer) : Writer := fun st =>
  let (a, st) := f st
  let (b, st) := g st
  (a ++ b, st)

/-- Writers in order. -/
def all : List Writer → Writer
  | [] => put []
  | f :: fs => f.andThen (all fs)

/-- A writer, if a condition holds. -/
def when (c : Bool) (f : Writer) : Writer := if c then f else put []

/-- Notes whether the target waits to wrap. -/
def setAfterWrap (wrapped : Bool) : Writer := fun st => ([], { st with afterWrap := wrapped })

end Writer

/-- Carriage return and line feed. -/
def crlf : List UInt8 := [0x0D, 0x0A]

/-- The DECSCA toggle. -/
def emitProtect (isProtected : Bool) : List UInt8 :=
  csi (decimal (if isProtected then 1 else 0) ++ [0x22]) 'q'

def cellText (cell : Cell) : List UInt8 :=
  Utf8.encode ((if cell.ch = Cell.nul then ' ' else cell.ch) :: cell.extra)

def closeHyperlink : List UInt8 := oscSt (decimal 8 ++ [byte ';', byte ';'])

/-- The pen goes back to its default. -/
def resetPen : Writer := fun st =>
  let protect := if st.style.isProtected then emitProtect false else []
  let style := { st.style with isProtected := false }
  let pen := if style ≠ ({} : Style) then csi (decimal 0) 'm' else []
  let link := if st.hyperlink ≠ 0 then closeHyperlink else []
  (protect ++ pen ++ link, { st with style := {}, hyperlink := 0 })

/-- A colour in a command. -/
def spec (c : Rgb) : List UInt8 :=
  Utf8.encode ['r', 'g', 'b', ':'] ++ hex 2 c.1.toNat ++ byte '/' :: hex 2 c.2.1.toNat ++
    byte '/' :: hex 2 c.2.2.toNat

/-- How the cursor is placed: by row and column, or from the end of the scrollback flow. -/
inductive CursorAnchor where
  | absolute
  | relative
  deriving DecidableEq, Repr

/-! ### Graphics commands -/

/-- A key of a graphics command. -/
def key (k : Char) (n : ℕ) : List UInt8 := byte ',' :: byte k :: byte '=' :: decimal n

/-- A key with a signed value. -/
def keyInt (k : Char) (n : ℤ) : List UInt8 := byte ',' :: byte k :: byte '=' :: decimalInt n

/-- The action and the quiet key of a replayed command. -/
def action (a : Char) : List UInt8 := [byte 'G', byte 'a', byte '=', byte a] ++ key 'q' 2

/-- The payload bytes of one chunk. -/
def chunkSize : ℕ := 4096

/-- The chunks after the first. -/
def moreChunks : ℕ → List UInt8 → List UInt8
  | 0, _ => []
  | fuel + 1, payload =>
    if payload.isEmpty then []
    else
      let rest := payload.drop chunkSize
      apc ([byte 'G', byte 'm', byte '='] ++ decimal (if rest.isEmpty then 0 else 1) ++
          byte ';' :: payload.take chunkSize) ++ moreChunks fuel rest

/-- A command with data, cut into chunks. -/
def emitApcChunks (keys data : List UInt8) : List UInt8 :=
  let payload := Base64.encode data
  if payload.length ≤ chunkSize then apc (keys ++ byte ';' :: payload)
  else
    apc (keys ++ key 'm' 1 ++ byte ';' :: payload.take chunkSize) ++
      moreChunks payload.length (payload.drop chunkSize)

/-- The format number of stored pixels. -/
def formatKey (f : ImageFormat) : ℕ := if f = .rgb then 24 else 32

namespace Terminal

/-! ### Rows -/

/-- Opens a hyperlink, or closes the open one. -/
def emitHyperlink (t : Terminal γ) (id : ℕ) : List UInt8 :=
  match t.hyperlinks.lookup id with
  | some h =>
    if id ≠ 0 then
      let params := if h.id = [] then [] else Utf8.encode (['i', 'd', '='] ++ h.id)
      oscSt (decimal 8 ++ byte ';' :: params ++ byte ';' :: Utf8.encode h.uri)
    else closeHyperlink
  | none => closeHyperlink

/-- The protection, the pen and the hyperlink become those given. -/
def emitPen (t : Terminal γ) (style : Style) (hyperlink : ℕ) : Writer := fun st =>
  let protect := if style.isProtected ≠ st.style.isProtected then emitProtect style.isProtected else []
  let held := { st.style with isProtected := style.isProtected }
  let pen := if style ≠ held then sgrSeq style else []
  let link := if hyperlink ≠ st.hyperlink then t.emitHyperlink hyperlink else []
  (protect ++ pen ++ link, { st with style, hyperlink })

/-- One cell; a spacer is written by its head. -/
def emitCell (t : Terminal γ) (cell : Cell) : Writer :=
  if cell.width = 0 then .put []
  else .all [t.emitPen cell.style cell.hyperlink, .put (cellText cell)]

/-- A row's mark. -/
def emitMark : Option SemanticMark → List UInt8
  | none => []
  | some m =>
    let letter := match m with
      | .promptStart => 'A'
      | .inputStart => 'B'
      | .outputStart => 'C'
      | .commandEnd => 'D'
    oscSt (decimal 133 ++ [byte ';', byte letter])

/-- The cells of a row that are written: all of a wrapped row, else up to the last that shows. -/
def emittedCells (row : Row) : List Cell :=
  if row.wrapped then row.cells else row.cells.take (Screen.shownLength row.cells)

/-- One row.  After a wrapped row even an empty one prints a space, to wrap onto. -/
def emitRow (t : Terminal γ) (row : Row) : Writer := fun st =>
  let cells := emittedCells row
  Writer.all
    [.put (emitMark row.mark), .when (cells.isEmpty && st.afterWrap) (.all [resetPen, .put [byte ' ']]),
      .setAfterWrap row.wrapped, .all (cells.map t.emitCell)] st

/-- A row on its own: one that is not wrapped ends in a line end. -/
def emitTerminatedRow (t : Terminal γ) (row : Row) : Writer :=
  .all [t.emitRow row, .when (!row.wrapped) (.all [resetPen, .put crlf])]

/-- Rows separated by line ends; `reset` drops the pen before each. -/
def emitRows (t : Terminal γ) (reset : Bool) : List Row → Writer
  | [] => .put []
  | [row] => t.emitRow row
  | row :: rest =>
    .all
      [t.emitRow row, .when (!row.wrapped) (.all [.when reset resetPen, .put crlf]), emitRows t reset rest]

def drawGrid (t : Terminal γ) (grid : Screen) : Writer :=
  .all [.put (csi [] 'H'), .setAfterWrap false, t.emitRows false grid.grid]

/-! ### Colours, titles and modes -/

def dumpColors (t : Terminal γ) : List UInt8 :=
  let entry := fun (c : Rgb × ℕ) =>
    if c.1 ≠ defaultPaletteEntry c.2 then oscSt (numbers [4, c.2] ++ byte ';' :: spec c.1) else []
  let dynamic := fun (code : ℕ) (c : Option Rgb) =>
    match c with
    | some c => oscSt (decimal code ++ byte ';' :: spec c)
    | none => []
  t.palette.zipIdx.flatMap entry ++ dynamic 10 t.fgColor ++ dynamic 11 t.bgColor ++ dynamic 12 t.cursorColor

def titleOsc (code : ℕ) (title : List Char) : List UInt8 :=
  oscBel (decimal code ++ byte ';' :: Utf8.encode title)

def dumpTitles (t : Terminal γ) : List UInt8 :=
  if t.title ≠ [] ∧ t.title = t.iconTitle then titleOsc 0 t.title
  else
    (if t.title ≠ [] then titleOsc 2 t.title else []) ++
      (if t.iconTitle ≠ [] then titleOsc 1 t.iconTitle else [])

def dumpPwd (t : Terminal γ) : List UInt8 :=
  if t.pwd ≠ [] then
    oscSt (decimal 7 ++ byte ';' :: Utf8.encode (['f', 'i', 'l', 'e', ':', '/', '/'] ++ t.pwd))
  else []

/-- A keyboard stack, push by push. -/
def dumpKitty (k : KittyKeyStack) : List UInt8 :=
  k.stack.flatMap fun f => csi (byte '>' :: decimal f.toNat) 'u'

def dumpCharsets (t : Terminal γ) : List UInt8 :=
  let designate := fun (slot : Char) (c : Charset) =>
    match c with
    | .decSpecial => escSeq [byte slot] '0'
    | .uk => escSeq [byte slot] 'A'
    | .ascii => []
  designate '(' t.cursor.g0 ++ designate ')' t.cursor.g1 ++ (if t.cursor.shift = 1 then [0x0E] else [])

/-- Tab stops, when they are not the default ones. -/
def dumpTabs (t : Terminal γ) : List UInt8 :=
  if t.tabs = defaultTabs t.tabs.length then []
  else
    csi (decimal 3) 'g' ++
      t.tabs.zipIdx.flatMap fun tab => if tab.1 then cup 1 (tab.2 + 1) ++ escSeq [] 'H' else []

/-- DECCOLM first: it homes the cursor and resets the margins. -/
def dumpDeccolm (m : Modes) (cols : ℕ) : List UInt8 :=
  (if m.allowDeccolm || m.deccolm then decset 40 else []) ++ (if m.deccolm && cols = 132 then
      decset 95 ++ decset 3 ++ (if m.noClearOnDeccolm then [] else decrst 95)
    else if m.noClearOnDeccolm then decset 95
    else []) ++ (if m.deccolm && !m.allowDeccolm then decrst 40 else [])

/-- Everything that is not at its default. -/
def dumpModes (t : Terminal γ) : List UInt8 :=
  let m := t.modes
  let (top, bot) := t.region
  dumpDeccolm m t.cols ++ (if top ≠ 0 ∨ bot ≠ t.rows - 1 then csi (numbers [top + 1, bot + 1]) 'r' else []) ++
    (if m.origin then decset 6 else []) ++ t.dumpTabs ++ t.dumpCharsets ++
    (if m.cursorKeys then decset 1 else []) ++ (if m.autowrap then [] else decrst 7) ++
    (if m.reverseVideo then decset 5 else []) ++ (if m.autorepeat then [] else decrst 8) ++
    (if m.cursorBlink then decset 12 else []) ++ (if m.bracketedPaste then decset 2004 else []) ++
    (if m.focusReporting then decset 1004 else []) ++ (if m.alternateScroll then decset 1007 else []) ++
    (if m.synchronized then decset 2026 else []) ++ (if m.insert then csi (decimal 4) 'h' else []) ++
    (if m.lnm then csi (decimal 20) 'h' else []) ++ (if m.keypadApp then escSeq [] '=' else []) ++
    (m.mouseMode.decset.elim [] decset) ++ (m.mouseProtocol.decset.elim [] decset) ++ dumpKitty t.kittyStack

/-! ### The cursor -/

/-- The column the cursor is replayed at: the head of a wide character that waits to wrap. -/
def cursorPrintCol (t : Terminal γ) : ℕ :=
  let spacer := ((t.scr.cell? t.cursor.row t.cursor.col).map fun c => decide (c.width = 0)).getD false
  if t.cursor.pendingWrap ∧ t.cursor.col > 0 ∧ spacer then t.cursor.col - 1 else t.cursor.col

/-- From the end of the flow to the cursor's cell, which is saved there. -/
def saveFlowAnchoredCursor (t : Terminal γ) : List UInt8 :=
  let up := t.rows - 1 - t.cursor.row
  let printCol := t.cursorPrintCol
  [0x0D] ++ (if up > 0 then csi (decimal up) 'A' else []) ++
    (if printCol > 0 then csi (decimal (printCol + 1)) 'G' else []) ++ escSeq [] '7'

/-- Prints the last cell of a row again, to wait for the wrap; the pen is restored around it. -/
def reprint (t : Terminal γ) (pen : Style) : List UInt8 :=
  if t.cursor.pendingWrap then
    match t.scr.cell? t.cursor.row t.cursorPrintCol with
    | some cell =>
      if cell.width = 1 ∨ cell.width = 2 then
        let toggle := cell.style.isProtected ≠ pen.isProtected
        let want := { cell.style with isProtected := pen.isProtected }
        (if toggle then emitProtect cell.style.isProtected else []) ++
          (if want ≠ pen then sgrSeq cell.style else []) ++ cellText cell ++
          (if want ≠ pen then sgrSeq pen else []) ++ (if toggle then emitProtect pen.isProtected else [])
      else []
    | none => []
  else []

/-- The cursor, its style and its pen. -/
def dumpCursor (t : Terminal γ) (anchor : CursorAnchor) : Writer :=
  let top := if t.modes.origin then t.region.1 else 0
  let restore := if anchor = .relative then escSeq [] '8' ++ t.dumpCharsets else []
  let style := if t.cursorStyleRaw ≠ 0 then csi (decimal t.cursorStyleRaw ++ [byte ' ']) 'q' else []
  let place :=
    if anchor = .absolute then cup (t.cursor.row - top + 1) (t.cursorPrintCol + 1) else []
  .all
    [.put (restore ++ style), t.emitPen t.cursor.style t.cursor.hyperlink,
      fun st => (place ++ t.reprint st.style, st), .put (if t.modes.cursorVisible then [] else decrst 25)]

/-! ### Graphics -/

section Graphics

variable [GraphicsStore γ]

/-- A placement by reference to its image. -/
def dumpPlacement (t : Terminal γ) (p : Placement) : List UInt8 :=
  let parentAlive := p.parentImage ≠ 0 ∧ (GraphicsStore.placements t.graphics).any fun q =>
      q.imageId = p.parentImage && (p.parentPlacement = 0 || q.placementId = p.parentPlacement)
  (if ¬ parentAlive ∧ ¬ p.unicode then cup (p.row + 1) (p.col + 1) else []) ++
    apc (action 'p' ++ key 'i' p.imageId ++ key 'p' p.placementId ++ key 'x' p.srcX ++
      key 'y' p.srcY ++ key 'w' p.srcW ++ key 'h' p.srcH ++ key 'c' p.cols ++ key 'r' p.rows ++
      keyInt 'z' p.z ++ key 'X' p.cellX ++ key 'Y' p.cellY ++ (if parentAlive then
        key 'P' p.parentImage ++ key 'Q' p.parentPlacement ++ keyInt 'H' p.hOff ++ keyInt 'V' p.vOff
      else []) ++ (if p.unicode then key 'U' 1 else []))

def dumpPlacements (t : Terminal γ) : List UInt8 :=
  (GraphicsStore.placements t.graphics).flatMap t.dumpPlacement

/-- An animation frame of image `id`. -/
def dumpFrame (id : ℕ) (f : ImageFrame) : List UInt8 :=
  emitApcChunks
    (action 'f' ++ key 'i' id ++ key 'r' f.number ++ key 'f' (formatKey f.format) ++
      key 's' f.width ++ key 'v' f.height ++ key 'x' f.x ++ key 'y' f.y ++ keyInt 'z' f.gapMs ++
      key 'c' f.baseFrame ++ (if f.replace then key 'X' 1 else []))
    f.data

/-- An image with its frames and its play state. -/
def dumpImage (t : Terminal γ) (img : Image) : List UInt8 :=
  emitApcChunks
      (action 't' ++ key 'f' (formatKey img.format) ++ key 's' img.width ++ key 'v' img.height ++
        key 'i' img.id ++ (if img.number ≠ 0 then key 'I' img.number else []))
      img.data ++ (GraphicsStore.frames t.graphics img.id).flatMap (dumpFrame img.id) ++
    match GraphicsStore.animation t.graphics img.id with
    | some a =>
      apc (action 'a' ++ key 'i' img.id ++ key 's' a.state ++ key 'v' a.loops ++ key 'c' a.currentFrame)
    | none => []

def dumpGraphics (t : Terminal γ) : List UInt8 :=
  (GraphicsStore.images t.graphics).flatMap t.dumpImage ++ t.dumpPlacements

/-! ### The dump -/

/-- The scrollback and the primary grid as one flow. -/
def dumpFlow (t : Terminal γ) (replay : ℕ) : Writer :=
  .all
    [.all ((t.primary.scrollback.drop (t.primary.scrollback.length - replay)).map t.emitTerminatedRow),
      t.emitRows true t.primary.grid]

/-- The alternate screen over the primary one, whose cursor is parked for the switch to save. -/
def dumpAlt (t : Terminal γ) : Writer :=
  .all
    [resetPen, .put (cup (t.savedPrimary.cursor.row + 1) (t.savedPrimary.cursor.col + 1) ++
        dumpKitty t.kittyPrimary ++ decset 1049), t.drawGrid t.alt]

/-- The dump: `flat` draws the active grid alone; at most `maxScrollbackRows` rows are replayed. -/
def dumpVtImpl (t : Terminal γ) (flat : Bool) (maxScrollbackRows : ℕ) : List UInt8 :=
  let head := t.dumpColors ++ t.dumpTitles ++ t.dumpPwd ++
    -- the keyboard stack of a screen not in use
    (if !flat && !t.altActive && !t.kittyAlt.stack.isEmpty then
      decset 1049 ++ dumpKitty t.kittyAlt ++ decrst 1049
    else [])
  let replay := min t.primary.scrollback.length maxScrollbackRows
  let anchor := if replay > 0 ∧ ¬ t.altActive then CursorAnchor.relative else .absolute
  let body : Writer :=
    if flat then
      .all [t.drawGrid t.scr, .put (t.dumpGraphics ++ t.dumpModes), t.dumpCursor .absolute]
    else
      .all
        [if replay > 0 then
            .all
              [.put (if anchor = .relative ∧ t.modes.origin then decset 6 else []), t.dumpFlow replay]
          else t.drawGrid t.primary, .put (if anchor = .relative then t.saveFlowAnchoredCursor else []),
          .when t.altActive t.dumpAlt, .put (t.dumpGraphics ++ t.dumpModes), t.dumpCursor anchor]
  head ++ (body {}).1

/-- No bound on the replayed rows. -/
def usizeMax : ℕ := 2 ^ 64 - 1

/-- The dump for a target of any size. -/
def dumpVt (t : Terminal γ) : List UInt8 := t.dumpVtImpl false usizeMax

end Graphics

end Terminal

structure MirrorDump where
  bytes : List UInt8
  shapedFor : Option (ℕ × ℕ)
  source : ℕ × ℕ
  deriving DecidableEq, Repr

/-- A mirror of the source's width and at least its height gets a bounded replay. -/
def mirrorIsBounded (source : ℕ × ℕ) (mirrorRows mirrorCols : ℕ) : Bool :=
  mirrorCols = source.2 && mirrorRows ≥ source.1

/-- **The dump for a mirror without scrollback.** -/
def Terminal.dumpVtMirror [GraphicsStore γ] (t : Terminal γ) (mirrorRows mirrorCols : ℕ) :
    MirrorDump :=
  let source := (t.rows, t.cols)
  let bounded := mirrorIsBounded source mirrorRows mirrorCols
  let tail :=
    if !bounded then Terminal.usizeMax
    else if mirrorRows = t.rows then 0
    else 2 * mirrorRows - t.rows
  { bytes := t.dumpVtImpl false tail
    shapedFor := if bounded then some (mirrorRows, mirrorCols) else none
    source }

/-- The terminal that built this dump would answer another size with the same one. -/
def MirrorDump.isDumpFor (d : MirrorDump) (mirrorRows mirrorCols : ℕ) : Bool :=
  match d.shapedFor with
  | some geometry => geometry == (mirrorRows, mirrorCols)
  | none => !mirrorIsBounded d.source mirrorRows mirrorCols

/-- **A dump serves another size exactly when that size's own dump is the same**, bytes and shape. -/
theorem Terminal.isDumpFor_dumpVtMirror [GraphicsStore γ] (t : Terminal γ) (rows cols rows' cols' : ℕ) :
    (t.dumpVtMirror rows cols).isDumpFor rows' cols' = true ↔ t.dumpVtMirror rows' cols' = t.dumpVtMirror rows cols := by
  cases hb : mirrorIsBounded (t.rows, t.cols) rows cols with
  | true =>
    have hshape : (t.dumpVtMirror rows cols).shapedFor = some (rows, cols) := by simp [dumpVtMirror, hb]
    rw [MirrorDump.isDumpFor, hshape, beq_iff_eq, Prod.mk.injEq]
    constructor
    · rintro ⟨rfl, rfl⟩
      rfl
    · intro heq
      have hshape' := congrArg MirrorDump.shapedFor heq
      rw [hshape, dumpVtMirror] at hshape'
      dsimp only at hshape'
      split at hshape'
      · rw [Option.some.injEq, Prod.mk.injEq] at hshape'
        exact ⟨hshape'.1.symm, hshape'.2.symm⟩
      · cases hshape'
  | false =>
    have hshape : (t.dumpVtMirror rows cols).shapedFor = none := by simp [dumpVtMirror, hb]
    rw [MirrorDump.isDumpFor, hshape]
    show (!mirrorIsBounded (t.rows, t.cols) rows' cols') = true ↔ _
    constructor
    · intro hb'
      rw [Bool.not_eq_true'] at hb'
      simp [dumpVtMirror, hb, hb']
    · intro heq
      have hshape' := congrArg MirrorDump.shapedFor heq
      rw [hshape, dumpVtMirror] at hshape'
      dsimp only at hshape'
      split at hshape'
      · cases hshape'
      · next hno => simpa using hno

end Posh.Term
