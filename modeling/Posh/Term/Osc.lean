/-
**Operating system commands and device control strings.**

Titles, colours, hyperlinks, the clipboard and the other commands whose payload is text, and the two
queries that arrive as device control strings.  A payload is text read leniently, split at its first
semicolon into a code and the rest.

The source slices some payloads by byte offsets and stops where an offset falls inside a character;
here such a payload reads as malformed.
-/

import Posh.Lib.Base64
import Posh.Target
import Posh.Term.Sgr
import Posh.Term.Terminal

set_option autoImplicit false

namespace Posh.Term

variable {γ : Type}

/-! ### Numbers in text -/

def digitValue (radix : ℕ) (c : Char) : Option ℕ :=
  let n := c.toNat
  let v :=
    if 0x30 ≤ n ∧ n ≤ 0x39 then n - 0x30
    else if 0x41 ≤ n ∧ n ≤ 0x5A then n - 0x41 + 10
    else if 0x61 ≤ n ∧ n ≤ 0x7A then n - 0x61 + 10
    else radix
  if v < radix then some v else none

/-- The number the digits stand for, below `bound`. -/
def parseDigits (radix bound : ℕ) (acc : ℕ) : List Char → Option ℕ
  | [] => some acc
  | c :: cs =>
    match digitValue radix c with
    | some d => if acc * radix + d < bound then parseDigits radix bound (acc * radix + d) cs else none
    | none => none

/-- An unsigned number below `bound`, with an optional plus sign. -/
def parseRadix (radix bound : ℕ) (cs : List Char) : Option ℕ :=
  match cs with
  | [] => none
  | c :: rest => if c = '+' ∧ rest ≠ [] then parseDigits radix bound 0 rest
      else parseDigits radix bound 0 cs

/-- A 16-bit number in decimal. -/
def parseU16 (cs : List Char) : Option ℕ := parseRadix 10 65536 cs

/-- The text after a prefix. -/
def stripPrefix (front s : List Char) : Option (List Char) :=
  if s.take front.length = front then some (s.drop front.length) else none

/-! ### Colours -/

/-- A channel of one to four hexadecimal digits, scaled to eight bits. -/
def parseChannel (chan : List Char) : Option UInt8 :=
  let len := (Utf8.encode chan).length
  if len = 0 ∨ len > 4 then none
  else (parseRadix 16 (2 ^ 32) chan).map fun v =>
    let max := 16 ^ len - 1
    UInt8.ofNat ((v * 255 + max / 2) / max)

/-- `rgb:RR/GG/BB`, `#RGB` and `#RRGGBB`. -/
def parseColorSpec (spec : List Char) : Option Rgb :=
  match stripPrefix ['r', 'g', 'b', ':'] spec with
  | some rest =>
    match rest.splitOn '/' with
    | [r, g, b] =>
      match parseChannel r, parseChannel g, parseChannel b with
      | some r, some g, some b => some (r, g, b)
      | _, _, _ => none
    | _ => none
  | none =>
    match stripPrefix ['#'] spec with
    | some [r, g, b] =>
      match parseRadix 16 256 [r], parseRadix 16 256 [g], parseRadix 16 256 [b] with
      | some r, some g, some b =>
        some (UInt8.ofNat (r * 17), UInt8.ofNat (g * 17), UInt8.ofNat (b * 17))
      | _, _, _ => none
    | some [r₁, r₀, g₁, g₀, b₁, b₀] =>
      match parseRadix 16 256 [r₁, r₀], parseRadix 16 256 [g₁, g₀], parseRadix 16 256 [b₁, b₀] with
      | some r, some g, some b => some (UInt8.ofNat r, UInt8.ofNat g, UInt8.ofNat b)
      | _, _, _ => none
    | _ => none

/-- The end of a reply, as the command it answers was ended. -/
def oscReply (bel : Bool) (body : List UInt8) : List UInt8 := if bel then oscBel body else oscSt body

/-- A colour in a reply, sixteen bits a channel. -/
def formatRgb16 (c : Rgb) : List UInt8 :=
  let up := fun v : UInt8 => hex 4 (v.toNat * 257)
  Utf8.encode ['r', 'g', 'b', ':'] ++ up c.1 ++ byte '/' :: up c.2.1 ++ byte '/' :: up c.2.2

/-! ### Working directories -/

/-- Percent escapes replaced by their bytes. -/
def percentDecode : List UInt8 → List UInt8
  | [] => []
  | [a] => [a]
  | [a, b] => [a, b]
  | a :: b :: c :: rest =>
    match if a = byte '%' then parseRadix 16 256 [Utf8.scalar b.toNat, Utf8.scalar c.toNat]
      else none with
    | some v => UInt8.ofNat v :: percentDecode rest
    | none => a :: percentDecode (b :: c :: rest)

/-- The path of a `file://host/path` value; any other value is taken as it is. -/
def parseFileUri (value : List Char) : List Char :=
  match stripPrefix ['f', 'i', 'l', 'e', ':', '/', '/'] value with
  | none => value
  | some rest =>
    let path := if '/' ∈ rest then rest.dropWhile (· ≠ '/') else ['/']
    Utf8.lossy (percentDecode (Utf8.encode path))

namespace Terminal

/-! ### Commands -/

/-- Palette entries: pairs of a slot and a colour, or of a slot and a question mark. -/
def oscPalette (bel : Bool) : List (List Char) → Terminal γ → Terminal γ
  | idx :: spec :: parts, t =>
    let t :=
      match parseU16 idx with
      | some i =>
        if i < 256 then
          if spec = ['?'] then
            t.respond (oscReply bel
              (numbers [4, i] ++ byte ';' :: formatRgb16 (t.palette.getD i (0, 0, 0))))
          else
            match parseColorSpec spec with
            | some rgb => { t with palette := t.palette.set i rgb }.touch
            | none => t
        else t
      | none => t
    oscPalette bel parts t
  | _, t => t

/-- The foreground (10), background (11) or cursor (12) colour, set or asked for. -/
def oscDynamicColor (t : Terminal γ) (code : ℕ) (rest : List Char) (bel : Bool) : Terminal γ :=
  let slot := if code = 10 then t.fgColor else if code = 11 then t.bgColor else t.cursorColor
  if rest = ['?'] then
    let rgb := slot.getD (if code = 11 then (0, 0, 0) else (255, 255, 255))
    t.respond (oscReply bel (decimal code ++ byte ';' :: formatRgb16 rgb))
  else
    match parseColorSpec rest with
    | some rgb =>
      (if code = 10 then { t with fgColor := some rgb }
      else if code = 11 then { t with bgColor := some rgb }
      else { t with cursorColor := some rgb }).touch
    | none => t

/-- Opens or closes a hyperlink; the same id and target are the same link. -/
def oscHyperlink (t : Terminal γ) (rest : List Char) : Terminal γ :=
  let (params, uri) := (splitOnce ';' rest).getD ([], rest)
  if uri = [] then { t with cursor := { t.cursor with hyperlink := 0 } }
  else
    let id := ((params.splitOn ':').findSome? (stripPrefix ['i', 'd', '='])).getD []
    match t.hyperlinks.find? fun entry => entry.2.id = id ∧ entry.2.uri = uri with
    | some (k, _) => { t with cursor := { t.cursor with hyperlink := k } }
    | none =>
      let k := t.nextHyperlink + 1
      { t with
          nextHyperlink := k
          hyperlinks := t.hyperlinks ++ [(k, { id, uri })]
          cursor := { t.cursor with hyperlink := k } }

/-- The selection of a slot letter. -/
def selection (t : Terminal γ) (kind : Char) : List UInt8 :=
  if kind = 'p' then t.primarySelection
  else if kind = 's' then t.selectSelection
  else t.clipboard

/-- Sets the selection of a slot letter. -/
def setSelection (t : Terminal γ) (kind : Char) (data : List UInt8) : Terminal γ :=
  if kind = 'p' then { t with primarySelection := data }
  else if kind = 's' then { t with selectSelection := data }
  else { t with clipboard := data }

/-- The slot letters named in a selection parameter. -/
def slotLetters (sel : List Char) : List Char :=
  match sel.filter fun c => c = 'c' ∨ c = 'p' ∨ c = 's' with
  | [] => ['c']
  | kinds => kinds

/-- **A copy**, or a question for a selection. -/
def oscClipboard (t : Terminal γ) (rest : List Char) (bel : Bool) : Terminal γ :=
  let (sel, payload) := (splitOnce ';' rest).getD ([], rest)
  let kinds := slotLetters sel
  if payload = ['?'] then
    let kind := kinds.headD 'c'
    t.respond (oscReply bel
      (decimal 52 ++ byte ';' :: byte kind :: byte ';' :: Base64.encode (t.selection kind)))
  else
    match Base64.decode (Utf8.encode payload) with
    | some decoded =>
      let t := kinds.foldl (fun t kind => t.setSelection kind decoded) t
      { t with clipboardSeq := t.clipboardSeq + 1, clipboardKinds := kinds }.touch
    | none => t

/-- Text of a declared width. -/
def oscTextSize (t : Terminal γ) (rest : List Char) : Terminal γ :=
  let (info, text) := (splitOnce ';' rest).getD ([], rest)
  let t := { t with lastTextSize := some rest }
  if text = [] then t
  else
    let start := t.cursor.col
    let t := text.foldl print t
    let width := (info.splitOn ':').findSome? fun kv =>
      match splitOnce '=' kv with
      | some (k, v) => if k = ['w'] then parseU16 v else none
      | none => none
    let t := match width with
      | some w => if w > 0 then t.setCol (min (min (start + w) 65535) (t.cols - 1)) else t
      | none => t
    t.touch

/-- A shell-integration mark on the cursor's row. -/
def oscPromptMark (t : Terminal γ) (rest : List Char) : Terminal γ :=
  let kind := (rest.splitOn ';').headD []
  let mark :=
    if kind = ['A'] then some SemanticMark.promptStart
    else if kind = ['B'] then some .inputStart
    else if kind = ['C'] then some .outputStart
    else if kind = ['D'] then some .commandEnd
    else none
  match mark with
  | some m => (t.modifyScr fun s => s.modifyRow t.cursor.row fun r => { r with mark := some m }).touch
  | none => t

/-- Palette slots back to their defaults: those listed, or all. -/
def oscResetPalette (t : Terminal γ) (rest : List Char) : Terminal γ :=
  let palette :=
    if rest = [] then defaultPalette
    else (rest.splitOn ';').foldl (fun (palette : List Rgb) part =>
      match parseU16 part with
      | some i => if i < 256 then palette.set i (defaultPaletteEntry i) else palette
      | none => palette) t.palette
  { t with palette }.touch

def oscCommand (t : Terminal γ) (code : ℕ) (rest : List Char) (bel : Bool) : Terminal γ :=
  if code = 0 then { t with title := rest, iconTitle := rest }.touch
  else if code = 1 then { t with iconTitle := rest }.touch
  else if code = 2 then { t with title := rest }.touch
  else if code = 4 then oscPalette bel (rest.splitOn ';') t
  else if code = 7 then { t with pwd := parseFileUri rest }.touch
  else if code = 8 then t.oscHyperlink rest
  else if code = 9 then { t with lastNotification := some rest }.touch
  else if code = 10 ∨ code = 11 ∨ code = 12 then t.oscDynamicColor code rest bel
  else if code = 22 then { t with pointerShape := rest }
  else if code = 52 then t.oscClipboard rest bel
  else if code = 66 then t.oscTextSize rest
  else if code = 99 then
    { t with lastNotification := some (((splitOnce ';' rest).map Prod.snd).getD rest) }.touch
  else if code = 104 then t.oscResetPalette rest
  else if code = 110 then { t with fgColor := none }
  else if code = 111 then { t with bgColor := none }
  else if code = 112 then { t with cursorColor := none }
  else if code = 133 then t.oscPromptMark rest
  else t

/-- The code and the rest of a payload. -/
def oscParts (data : List UInt8) : List Char × List Char :=
  let s := Utf8.lossy data
  (splitOnce ';' s).getD (s, [])

/-- An operating system command. -/
def oscDispatch (t : Terminal γ) (data : List UInt8) (bel : Bool) : Terminal γ :=
  match parseU16 (oscParts data).1 with
  | some code => t.oscCommand code (oscParts data).2 bel
  | none => t

/-! ### Device control strings -/

/-- The text of bytes that are UTF-8. -/
def utf8Text (data : List UInt8) : Option (List Char) :=
  if Utf8.encode (Utf8.lossy data) = data then some (Utf8.lossy data) else none

/-- Pairs of hexadecimal digits. -/
def hexBytes : List UInt8 → Option (List UInt8)
  | [] => some []
  | [_] => none
  | a :: b :: rest =>
    match parseRadix 16 256 [Utf8.scalar a.toNat, Utf8.scalar b.toNat] with
    | some v => (hexBytes rest).map (UInt8.ofNat v :: ·)
    | none => none

/-- The name a capability query asks for. -/
def hexDecode (s : List UInt8) : Option (List Char) := (hexBytes s).bind utf8Text

/-- Bytes as pairs of upper-case digits. -/
def hexEncode (s : List UInt8) : List UInt8 :=
  let digit := fun n : ℕ => byte (Nat.digitChar n).toUpper
  s.flatMap fun b => [digit (b.toNat / 16), digit (b.toNat % 16)]

/-- The value of a terminal capability. -/
def capability (name : List Char) : Option (List Char) :=
  if name = ['c', 'o', 'l', 'o', 'r', 's'] ∨ name = ['C', 'o'] then some ['2', '5', '6']
  else if name = ['R', 'G', 'B'] ∨ name = ['T', 'c'] then some []
  else none

def capabilityReply (nameHex : List Char) : List UInt8 :=
  match hexDecode (Utf8.encode nameHex) with
  | none => dcs (Utf8.encode (['0', '+', 'r'] ++ nameHex))
  | some name =>
    let encoded := hexEncode (Utf8.encode name)
    match capability name with
    | some [] => dcs (Utf8.encode ['1', '+', 'r'] ++ encoded)
    | some value =>
      dcs (Utf8.encode ['1', '+', 'r'] ++ encoded ++ byte '=' :: hexEncode (Utf8.encode value))
    | none => dcs (Utf8.encode ['0', '+', 'r'] ++ encoded)

/-- XTGETTCAP. -/
def xtgettcap (t : Terminal γ) (data : List UInt8) : Terminal γ :=
  match utf8Text data with
  | some s => (s.splitOn ';').foldl (fun t nameHex => t.respond (capabilityReply nameHex)) t
  | none => t

/-- DECRQSS: the pen, the cursor style or the scroll region. -/
def decrqss (t : Terminal γ) (data : List UInt8) : Terminal γ :=
  let value :=
    if data = [byte 'm'] then some (sgrParams t.cursor.style ++ [byte 'm'])
    else if data = [byte ' ', byte 'q'] then
      some (decimal t.cursorStyleRaw ++ [byte ' ', byte 'q'])
    else if data = [byte 'r'] then
      some (numbers [t.region.1 + 1, t.region.2 + 1] ++ [byte 'r'])
    else none
  match value with
  | some v => t.respond (dcs (byte '1' :: byte '$' :: byte 'r' :: v))
  | none => t.respond (dcs [byte '0', byte '$', byte 'r'])

/-- A device control string. -/
def dcsDispatch (t : Terminal γ) (intermediates : List UInt8) (final : UInt8) (data : List UInt8) :
    Terminal γ :=
  if intermediates.head? = some (byte '$') ∧ final = byte 'q' then t.decrqss data
  else if intermediates.head? = some (byte '+') ∧ final = byte 'q' then t.xtgettcap data
  else t

end Terminal

end Posh.Term
