/-
**Recordings, line by line.**

A recording is a header and a list of events, each written as one line of JSON.  The writer escapes what a JSON string
must not hold, every line break among it, so a line break only ever ends a record; the reader takes the lines apart and
reads each of them back.
-/

import Posh.Recording.Json

set_option autoImplicit false

namespace Posh.Recording

open ByteCursor
open Utf8 (encode encode_append encode_cons)
open ByteCursor.Outcome (bind_ok)
open String (utf8EncodeChar)
open UInt8 (ofNat)
open List (append_assoc append_nil cons_append cons_ne_nil forall_mem_cons mem_append mem_cons nil_append)
open Nat (mod_lt toDigits)
open Checked (loop loop_done loop_next)
open Posh.Recording.Parser
open Utf8
open Value

variable {ν : Type*}

/-! ### Headers and events -/

structure Poshterity where
  v : UInt16
  emuRev : List Char
  deriving DecidableEq

structure Header where
  version : UInt16
  width : UInt16
  height : UInt16
  poshterity : Option Poshterity
  deriving DecidableEq

inductive EventCode where
  | output
  | input
  | resize
  | marker
  | unknown (c : Char)
  deriving DecidableEq

namespace EventCode

def fromLetter : List Char → EventCode
  | 'o' :: _ => output
  | 'i' :: _ => input
  | 'r' :: _ => resize
  | 'm' :: _ => marker
  | c :: _ => unknown c
  | [] => unknown '\x00'

def letter : EventCode → Char
  | output => 'o'
  | input => 'i'
  | resize => 'r'
  | marker => 'm'
  | unknown c => c

/-- A code that its letter stands for. -/
def Known (code : EventCode) : Prop := fromLetter [code.letter] = code

end EventCode

/-- One recorded event: `[time, code, data]`. -/
structure Event (ν : Type*) where
  time : ν
  code : EventCode
  data : List Char
  deriving DecidableEq

/-! ### Writing -/

/-- A digit of `{:04x}`. -/
def hexChar (d : ℕ) : Char := if d < 10 then Char.ofNat (0x30 + d) else Char.ofNat (0x57 + d)

/-- `{:04x}` of a number below `0x10000`. -/
def lowerHex4 (n : ℕ) : List Char :=
  [hexChar (n / 4096 % 16), hexChar (n / 256 % 16), hexChar (n / 16 % 16), hexChar (n % 16)]

/-- What stands for a character in a JSON string. -/
def escape (c : Char) : List Char :=
  match c with
  | '\x22' => ['\\', '\x22']
  | '\\' => ['\\', '\\']
  | '\n' => ['\\', 'n']
  | '\r' => ['\\', 'r']
  | '\t' => ['\\', 't']
  | '\x08' => ['\\', 'b']
  | '\x0c' => ['\\', 'f']
  | c => if c.toNat < 0x20 then '\\' :: 'u' :: lowerHex4 c.toNat else [c]

def jsonString (s : List Char) : List Char := '\x22' :: s.flatMap escape ++ ['\x22']

/-- A sixteen-bit number in decimal. -/
def decimal (n : UInt16) : List Char := Nat.toDigits 10 n.toNat

def writeHeader (h : Header) : List Char :=
  "\x7b\"version\":".toList ++ decimal h.version ++ ",\"width\":".toList ++ decimal h.width ++
    ",\"height\":".toList ++ decimal h.height ++ (match h.poshterity with
      | some pr =>
        ",\"poshterity\":\x7b\"v\":".toList ++ decimal pr.v ++ ",\"emu_rev\":".toList ++ jsonString pr.emuRev ++
          "\x7d".toList
      | none => []) ++ "\x7d".toList

def formatTime (N : Numbers ν) (t : ν) : List Char := N.display t

def writeEvent (N : Numbers ν) (e : Event ν) : List Char :=
  '[' :: formatTime N e.time ++ ',' :: jsonString [e.code.letter] ++ ',' :: jsonString e.data ++ [']']

/-! ### Reading -/

inductive LineFault where
  | json (f : JsonFault)
  /-- "header ‹version› is not an integer" -/
  | versionNotInteger
  /-- "unsupported asciinema version ‹version›" -/
  | unsupportedVersion (version : UInt16)
  /-- "event is not a JSON array" -/
  | notArray
  /-- "event array needs at least [time, code]" -/
  | tooShort
  /-- "event time is not a number" -/
  | timeNotNumber
  /-- "event code is not a string" -/
  | codeNotString
  deriving DecidableEq

/-- What is wrong with a recording. -/
inductive ReadFault where
  /-- "line ‹n›: ‹fault›" -/
  | line (n : ℕ) (fault : LineFault)
  /-- "empty recording: no header line" -/
  | noHeader
  deriving DecidableEq

/-- Another word for what went wrong. -/
def mapFault {ε ε' α : Type*} (f : ε → ε') : Outcome ε α → Outcome ε' α
  | .ok a => .ok a
  | .error e => .error (f e)
  | .outOfRange => .outOfRange

def parsePoshterity (N : Numbers ν) (v : Value ν) : Option Poshterity :=
  ((v.get "v".toList).bind (·.asU16 N)).bind fun n =>
    ((v.get "emu_rev".toList).bind (·.asStr)).map fun s => ⟨n, s⟩

def parseHeader (N : Numbers ν) (v : Value ν) : Outcome LineFault Header :=
  let version : Outcome LineFault UInt16 :=
    match v.get "version".toList with
    | some val =>
      match val.asU16 N with
      | some n => .ok n
      | none => .error .versionNotInteger
    | none => .ok 2
  version.bind fun version =>
    if version ≠ 2 then .error (.unsupportedVersion version)
    else .ok
      { version
        width := ((v.get "width".toList).bind (·.asU16 N)).getD 80
        height := ((v.get "height".toList).bind (·.asU16 N)).getD 24
        poshterity := (v.get "poshterity".toList).bind (parsePoshterity N) }

def parseEvent (v : Value ν) : Outcome LineFault (Event ν) :=
  match v.asArray with
  | none => .error .notArray
  | some (t :: c :: rest) =>
    match t.asF64 with
    | none => .error .timeNotNumber
    | some time =>
      match c.asStr with
      | none => .error .codeNotString
      | some code => .ok ⟨time, EventCode.fromLetter code, (rest.head?.bind (·.asStr)).getD []⟩
  | some _ => .error .tooShort

/-- White space, as `str::trim` has it. -/
def isWhitespace (c : Char) : Bool :=
  let n := c.toNat
  (0x09 ≤ n && n ≤ 0x0D) || n = 0x20 || n = 0x85 || n = 0xA0 || n = 0x1680 || (0x2000 ≤ n && n ≤ 0x200A) || n = 0x2028 ||
    n = 0x2029 || n = 0x202F || n = 0x205F || n = 0x3000

/-- A line without the carriage return at its end. -/
def stripCr (raw : List Char) : List Char := if raw.getLast? = some '\r' then raw.dropLast else raw

structure Reader where
  lines : List (List Char)
  lineNo : ℕ

namespace Reader

def new (src : List Char) : Reader := ⟨src.splitOn '\n', 0⟩

def nextLine (lineNo : ℕ) : List (List Char) → Option (List Char) × Reader
  | [] => (none, ⟨[], lineNo⟩)
  | raw :: lines =>
    if (stripCr raw).all isWhitespace then nextLine (lineNo + 1) lines else (some (stripCr raw), ⟨lines, lineNo + 1⟩)

def header (N : Numbers ν) (r : Reader) : Outcome ReadFault Header × Reader :=
  match nextLine r.lineNo r.lines with
  | (none, r) => (.error .noHeader, r)
  | (some line, r) => (mapFault (.line r.lineNo) ((mapFault .json (parse N line)).bind (parseHeader N)), r)

def nextEvent (N : Numbers ν) (r : Reader) : Option (Outcome ReadFault (Event ν)) × Reader :=
  match nextLine r.lineNo r.lines with
  | (none, r) => (none, r)
  | (some line, r) => (some (mapFault (.line r.lineNo) ((mapFault .json (parse N line)).bind parseEvent)), r)

/-- One turn over the events, of which `out` were read. -/
def turn (N : Numbers ν) : Reader × List (Event ν) → Outcome ReadFault ((Reader × List (Event ν)) ⊕ List (Event ν))
  | (r, out) =>
    match r.nextEvent N with
    | (none, _) => .ok (.inr out)
    | (some event, r) => event.bind fun e => .ok (.inl (r, out ++ [e]))

/-- The events up to the end, if none of them is refused. -/
def all (N : Numbers ν) (r : Reader) : Outcome ReadFault (List (Event ν)) :=
  Checked.loop (fun s => s.1.lines.length) (turn N) (r, [])

/-- A recording: its header and its events. -/
def document (N : Numbers ν) (src : List Char) : Outcome ReadFault (Header × List (Event ν)) :=
  ((new src).header N).1.bind fun h => (((new src).header N).2.all N).bind fun events => .ok (h, events)

end Reader

open Reader

/-! ### A string is read back -/

section Strings

variable (pos : ℕ) (rest out : List UInt8)

/-- The loop over the bytes of a string. -/
def stringLoop (s : Parser × List UInt8) : Outcome JsonFault (List UInt8 × Parser) :=
  Checked.loop (fun s => s.1.rest.length) Parser.stringTurn s

variable {pos rest out} {n : ℕ}

theorem stringTurn_plain {b : UInt8} (hquote : b ≠ 0x22) (hslash : b ≠ 0x5C) :
    stringTurn (⟨pos, b :: rest⟩, out) = .ok (.inl (⟨pos + 1, rest⟩, out ++ [b])) := by
  rw [stringTurn, bump_cons]
  dsimp only
  rw [if_neg hquote, if_neg hslash]

theorem stringTurn_short {e b : UInt8} (h : escaped e = some b) :
    stringTurn (⟨pos, 0x5C :: e :: rest⟩, out) = .ok (.inl (⟨pos + 2, rest⟩, out ++ [b])) := by
  rw [stringTurn, bump_cons]
  dsimp only
  rw [if_neg (by decide), if_pos rfl, parseEscape, bump_cons]
  dsimp only
  rw [h]
  rfl

theorem hexDigit_hexChar : ∀ d < 16, utf8EncodeChar (hexChar d) = [ofNat (hexChar d).toNat] ∧
    hexDigit (ofNat (hexChar d).toNat) = some d := by
  decide

theorem parseHex_hexChar {d : ℕ} (hd : d < 16) (v n : ℕ) :
    parseHex ⟨pos, utf8EncodeChar (hexChar d) ++ rest⟩ v (n + 1) = parseHex ⟨pos + 1, rest⟩ (v * 16 + d) n := by
  obtain ⟨hbytes, hdigit⟩ := hexDigit_hexChar d hd
  rw [hbytes, List.singleton_append, parseHex, bump_cons]
  dsimp only
  rw [hdigit]

theorem parseHex4_lowerHex4 (hn : n < 0x10000) :
    parseHex4 ⟨pos, encode (lowerHex4 n) ++ rest⟩ = .ok (n, ⟨pos + 4, rest⟩) := by
  have hvalue : (((0 * 16 + n / 4096 % 16) * 16 + n / 256 % 16) * 16 + n / 16 % 16) * 16 + n % 16 = n := by omega
  simp only [lowerHex4, encode_cons, encode_nil, append_assoc, nil_append]
  rw [parseHex4, parseHex_hexChar (mod_lt _ (by decide)), parseHex_hexChar (mod_lt _ (by decide)),
    parseHex_hexChar (mod_lt _ (by decide)), parseHex_hexChar (mod_lt _ (by decide)), hvalue]
  rfl

theorem stringTurn_unicode (hn : n < 0xD800) :
    stringTurn (⟨pos, 0x5C :: 0x75 :: (encode (lowerHex4 n) ++ rest)⟩, out) =
      .ok (.inl (⟨pos + 6, rest⟩, out ++ utf8EncodeChar (scalar n))) := by
  have hhigh : isHighSurrogate n = false := by
    simp only [isHighSurrogate, Bool.and_eq_false_iff, decide_eq_false_iff_not]
    omega
  have hlow : isLowSurrogate n = false := by
    simp only [isLowSurrogate, Bool.and_eq_false_iff, decide_eq_false_iff_not]
    omega
  have hescape : parseUnicodeEscape ⟨pos + 1 + 1, encode (lowerHex4 n) ++ rest⟩ =
      .ok (scalar n, ⟨pos + 6, rest⟩) := by
    rw [parseUnicodeEscape, parseHex4_lowerHex4 (by omega), bind_ok]
    dsimp only
    rw [hhigh, hlow]
    rfl
  rw [stringTurn, bump_cons]
  dsimp only
  rw [if_neg (by decide), if_pos rfl, parseEscape, bump_cons]
  dsimp only
  rw [show escaped 0x75 = none from rfl]
  dsimp only
  rw [if_pos rfl, hescape]
  rfl

theorem stringLoop_turn {text bytes : List UInt8} (hne : text ≠ [])
    (h : stringTurn (⟨pos, text ++ rest⟩, out) = .ok (.inl (⟨n, rest⟩, out ++ bytes))) :
    stringLoop (⟨pos, text ++ rest⟩, out) = stringLoop (⟨n, rest⟩, out ++ bytes) := by
  refine loop_next h ?_
  rw [List.length_append]
  exact Nat.lt_add_of_pos_left (List.length_pos_iff.2 hne)

theorem stringLoop_plain {text : List UInt8} (h : ∀ b ∈ text, b ≠ 0x22 ∧ b ≠ 0x5C) : ∀ (pos : ℕ) (out : List UInt8),
    ∃ n, stringLoop (⟨pos, text ++ rest⟩, out) = stringLoop (⟨n, rest⟩, out ++ text) := by
  induction text with
  | nil => exact fun pos out => ⟨pos, by rw [append_nil, nil_append]⟩
  | cons b text ih =>
    intro pos out
    obtain ⟨hb, htext⟩ := forall_mem_cons.1 h
    obtain ⟨n, hn⟩ := ih htext (pos + 1) (out ++ [b])
    refine ⟨n, ?_⟩
    have hturn := @stringLoop_turn pos (text ++ rest) out _ _ _ (cons_ne_nil b [])
      (stringTurn_plain hb.1 hb.2)
    rw [cons_append, ← List.singleton_append, hturn, hn, append_assoc]
    rfl

/-- **A character is read back.** -/
theorem stringLoop_escape (c : Char) (pos : ℕ) (rest out : List UInt8) :
    ∃ n, stringLoop (⟨pos, encode (escape c) ++ rest⟩, out) = stringLoop (⟨n, rest⟩, out ++ utf8EncodeChar c) := by
  have hshort : ∀ (e : Char) (b : UInt8), escaped (ofNat e.toNat) = some b →
      encode ['\\', e] = [0x5C, ofNat e.toNat] → utf8EncodeChar c = [b] →
      ∃ n, stringLoop (⟨pos, encode ['\\', e] ++ rest⟩, out) =
        stringLoop (⟨n, rest⟩, out ++ utf8EncodeChar c) := by
    intro e b hescaped hbytes hc
    rw [hbytes, hc]
    exact ⟨_, stringLoop_turn (cons_ne_nil _ _) (stringTurn_short hescaped)⟩
  rw [escape.eq_def]
  split
  · exact hshort '\x22' 0x22 (by decide) (by decide) (by decide)
  · exact hshort '\\' 0x5C (by decide) (by decide) (by decide)
  · exact hshort 'n' 0x0A (by decide) (by decide) (by decide)
  · exact hshort 'r' 0x0D (by decide) (by decide) (by decide)
  · exact hshort 't' 0x09 (by decide) (by decide) (by decide)
  · exact hshort 'b' 0x08 (by decide) (by decide) (by decide)
  · exact hshort 'f' 0x0C (by decide) (by decide) (by decide)
  · next hquote hslash _ _ _ _ _ =>
      split
      · next hlt =>
          have hbytes : encode ('\\' :: 'u' :: lowerHex4 c.toNat) = 0x5C :: 0x75 :: encode (lowerHex4 c.toNat) :=
            rfl
          have hturn := @stringTurn_unicode pos rest out c.toNat (by omega)
          rw [scalar_toNat] at hturn
          rw [hbytes]
          exact ⟨_, stringLoop_turn (cons_ne_nil _ _) hturn⟩
      · -- the character stands for itself
        rw [encode_cons, encode_nil, append_nil]
        refine stringLoop_plain (fun b hb => ?_) pos out
        have hno : ∀ q : Char, q.toNat < 0x80 → c ≠ q → b ≠ ofNat q.toNat := by
          rintro q hq hcq rfl
          have hn : (ofNat q.toNat).toNat = q.toNat := by
            rw [UInt8.toNat_ofNat']
            omega
          have hsame := (eq_of_mem_encodeChar hb (by omega)).2
          exact hcq (Char.toNat_inj.1 (by omega))
        exact ⟨hno '\x22' (by decide) hquote, hno '\\' (by decide) hslash⟩

/-- **A string is read back**, whatever its characters are. -/
theorem parseString_jsonString (s : List Char) (pos : ℕ) (rest : List UInt8) :
    ∃ n, parseString ⟨pos, encode (jsonString s) ++ rest⟩ = .ok (s, ⟨n, rest⟩) := by
  have hloop : ∀ (s : List Char) (pos : ℕ) (out : List UInt8), ∃ n,
      stringLoop (⟨pos, encode (s.flatMap escape) ++ 0x22 :: rest⟩, out) = .ok (out ++ encode s, ⟨n, rest⟩) := by
    intro s
    induction s with
    | nil =>
      intro pos out
      refine ⟨pos + 1, ?_⟩
      rw [encode_nil, append_nil]
      exact loop_done rfl
    | cons c s ih =>
      intro pos out
      obtain ⟨n, hn⟩ := stringLoop_escape c pos (encode (s.flatMap escape) ++ 0x22 :: rest) out
      obtain ⟨m, hm⟩ := ih n (out ++ utf8EncodeChar c)
      refine ⟨m, ?_⟩
      rw [List.flatMap_cons, encode_append, append_assoc, hn, hm, append_assoc]
      rfl
  obtain ⟨n, hn⟩ := hloop s (pos + 1) []
  have hbytes : encode (jsonString s) ++ rest = 0x22 :: (encode (s.flatMap escape) ++ 0x22 :: rest) := by
    rw [jsonString, cons_append, encode_cons, encode_append, append_assoc, append_assoc]
    rfl
  refine ⟨n, ?_⟩
  rw [hbytes, parseString, skip_mk, List.drop_succ_cons, List.drop_zero]
  refine (congrArg (fun o : Outcome JsonFault (List UInt8 × Parser) => o.bind _) hn).trans ?_
  rw [bind_ok]
  dsimp only
  rw [nil_append, fromUtf8_encode]

end Strings

/-! ### Values are read back -/

section Reads

variable {α : Type*} {N : Numbers ν} {text : List Char} {texts : List (List Char)} {t : List Char} {b : UInt8}

/-- What a value inside a record is followed by. -/
def Ended (rest : List UInt8) : Prop := ∀ b ∈ rest.head?, b = 0x2C ∨ b = 0x5D ∨ b = 0x7D

theorem ended_nil : Ended [] := nofun

theorem ended_cons (h : b = 0x2C ∨ b = 0x5D ∨ b = 0x7D) (rest : List UInt8) : Ended (b :: rest) := by
  rintro _ ⟨⟩
  exact h

/-- **The text `text` is read as `a`**, whatever ends it. -/
structure Reads (f : Parser → Outcome JsonFault (α × Parser)) (text : List Char) (a : α) : Prop where
  starts : ∃ b more, Utf8.encode text = b :: more ∧ Parser.isSpace b = false ∧ b ≠ 0x5D ∧ b ≠ 0x7D
  reads : ∀ (pos : ℕ) (rest : List UInt8), Ended rest →
    ∃ n, f ⟨pos, Utf8.encode text ++ rest⟩ = .ok (a, ⟨n, rest⟩)

theorem skipWs_cons (h : isSpace b = false) (pos : ℕ) (rest : List UInt8) :
    skipWs ⟨pos, b :: rest⟩ = ⟨pos, b :: rest⟩ := by
  rw [skipWs, skipWhile, List.takeWhile_cons_of_neg (by rw [h]; exact Bool.false_ne_true)]
  rfl

theorem skipWs_ended {rest : List UInt8} (h : Ended rest) (pos : ℕ) : skipWs ⟨pos, rest⟩ = ⟨pos, rest⟩ := by
  cases rest with
  | nil => rfl
  | cons b rest =>
    refine skipWs_cons ?_ pos rest
    rcases h b rfl with rfl | rfl | rfl <;> decide

theorem Reads.skipWs {f : Parser → Outcome JsonFault (α × Parser)} {a : α} (h : Reads f text a)
    (pos : ℕ) (rest : List UInt8) : skipWs ⟨pos, encode text ++ rest⟩ = ⟨pos, encode text ++ rest⟩ := by
  obtain ⟨b, more, heq, hspace, -⟩ := h.starts
  rw [heq, cons_append]
  exact skipWs_cons hspace pos _

/-- A number that is read back as it is shown. -/
structure Numbers.Reads (N : Numbers ν) (text : List Char) (n : ν) : Prop where
  starts : ∃ b more, Utf8.encode text = b :: more ∧ (b = 0x2D ∨ Parser.isDigit b)
  numeric : ∀ b ∈ Utf8.encode text, Parser.isNumeric b
  parse : N.parse text = some n

/-- A time that is read back as it is shown. -/
def Numbers.Shows (N : Numbers ν) (t : ν) : Prop := N.Reads (formatTime N t) t

/-- What is known of numbers: zero and the sixteen-bit numbers are read back as they are shown. -/
structure Numbers.Lawful (N : Numbers ν) : Prop where
  zero : N.Shows N.zero
  decimal : ∀ n : UInt16, ∃ x, N.parse (decimal n) = some x ∧ N.toU16 x = some n

theorem Reads.num {n : ν} (h : N.Reads text n) (depth : ℕ) : Reads (parseValue N (depth + 1)) text (.num n) := by
  obtain ⟨b, more, heq, hb⟩ := h.starts
  have hword : isSpace b = false ∧ b ≠ 0x5D ∧ b ≠ 0x7D ∧ b ≠ 0x7B ∧ b ≠ 0x5B ∧ b ≠ 0x22 ∧ ¬ (b = 0x74 ∨ b = 0x66) ∧
      b ≠ 0x6E := by
    rcases hb with rfl | hd
    · decide
    · simp only [isDigit, Bool.and_eq_true, decide_eq_true_eq] at hd
      have hne : ∀ q : UInt8, (q.toNat < 0x30 ∨ 0x39 < q.toNat) → b ≠ q := by
        rintro q hq rfl
        omega
      refine ⟨?_, hne _ (by decide), hne _ (by decide), hne _ (by decide), hne _ (by decide), hne _ (by decide), ?_,
        hne _ (by decide)⟩
      · simp only [isSpace, Bool.or_eq_false_iff, decide_eq_false_iff_not]
        exact ⟨⟨⟨hne _ (by decide), hne _ (by decide)⟩, hne _ (by decide)⟩, hne _ (by decide)⟩
      · rintro (hb | hb)
        · exact hne _ (by decide) hb
        · exact hne _ (by decide) hb
  obtain ⟨hspace, hbracket, hbrace, hobject, harray, hquote, hbool, hnull⟩ := hword
  refine ⟨⟨b, more, heq, hspace, hbracket, hbrace⟩, fun pos rest hrest => ?_⟩
  have hstop : rest.takeWhile isNumeric = [] := by
    cases rest with
    | nil => rfl
    | cons e rest =>
      refine List.takeWhile_cons_of_neg ?_
      rcases hrest e rfl with rfl | rfl | rfl <;> decide
  have hrun : (encode text ++ rest).takeWhile isNumeric = encode text := by
    rw [List.takeWhile_append_of_pos h.numeric, hstop, append_nil]
  refine ⟨pos + (encode text).length, ?_⟩
  have hpeek : peek ⟨pos, encode text ++ rest⟩ = some b := by
    rw [heq]
    rfl
  rw [parseValue, hpeek]
  dsimp only
  rw [if_neg hobject, if_neg harray, if_neg hquote, if_neg hbool, if_neg hnull, if_pos hb,
    parseNumber_eq N _ hrun.symm, h.parse]
  dsimp only
  rw [skipWhile, hrun, skip_mk, List.drop_left]

theorem starts_jsonString (s : List Char) : ∃ more, encode (jsonString s) = 0x22 :: more := ⟨_, rfl⟩

theorem Reads.str (s : List Char) (depth : ℕ) : Reads (parseValue N (depth + 1)) (jsonString s) (.str s) := by
  obtain ⟨more, heq⟩ := starts_jsonString s
  refine ⟨⟨0x22, more, heq, by decide, by decide, by decide⟩, fun pos rest _ => ?_⟩
  obtain ⟨n, hn⟩ := parseString_jsonString s pos rest
  have hpeek : peek ⟨pos, encode (jsonString s) ++ rest⟩ = some 0x22 := by
    rw [heq]
    rfl
  refine ⟨n, ?_⟩
  rw [parseValue, hpeek]
  dsimp only
  rw [if_neg (by decide), if_neg (by decide), if_pos rfl, hn]
  rfl

/-! ### Arrays and objects -/

/-- Texts with commas between them. -/
def commas (texts : List (List Char)) : List Char := [','].intercalate texts

theorem commas_cons_cons (t u : List Char) (ts : List (List Char)) : commas (t :: u :: ts) = t ++ ',' :: commas (u :: ts) := by
  rw [commas, List.intercalate_cons_cons]
  exact append_assoc t [','] _

theorem commas_singleton (t : List Char) : commas [t] = t := List.intercalate_singleton

theorem starts_commas {more : List UInt8} (h : encode t = b :: more)
    (ts : List (List Char)) : ∃ more', encode (commas (t :: ts)) = b :: more' := by
  cases ts with
  | nil => exact ⟨more, by rw [commas_singleton, h]⟩
  | cons u ts => exact ⟨_, by rw [commas_cons_cons, encode_append, h]; rfl⟩

/-- **A loop over entries with commas between them**, which `close` ends. -/
theorem commaLoop {β : Type*} {turn : Parser × List β → Outcome JsonFault ((Parser × List β) ⊕ (α × Parser))} {close : UInt8}
    (done : List β → α) {entry : List Char → β → Prop} (hnext : ∀ {t b}, entry t b → ∀ pos rest out,
      ∃ n, turn (⟨pos, encode t ++ 0x2C :: rest⟩, out) = .ok (.inl (⟨n, rest⟩, out ++ [b])))
    (hlast : ∀ {t b}, entry t b → ∀ pos rest out,
      ∃ n, turn (⟨pos, encode t ++ close :: rest⟩, out) = .ok (.inr (done (out ++ [b]), ⟨n, rest⟩)))
    {bs : List β} (h : List.Forall₂ entry texts bs) (hne : texts ≠ []) (rest : List UInt8) :
    ∀ (pos : ℕ) (out : List β),
      ∃ n, loop (fun s => s.1.rest.length) turn (⟨pos, encode (commas texts) ++ close :: rest⟩, out) =
        .ok (done (out ++ bs), ⟨n, rest⟩) := by
  induction h with
  | nil => exact absurd rfl hne
  | @cons t b ts bs ht hts ih =>
    intro pos out
    cases hts with
    | nil =>
      obtain ⟨n, hn⟩ := hlast ht pos rest out
      exact ⟨n, by rw [commas_singleton]; exact loop_done hn⟩
    | @cons u c ts cs hu hts =>
      obtain ⟨n, hn⟩ := hnext ht pos (encode (commas (u :: ts)) ++ close :: rest) out
      obtain ⟨m, hm⟩ := ih (cons_ne_nil _ _) n (out ++ [b])
      have hbytes : encode (commas (t :: u :: ts)) ++ close :: rest =
          encode t ++ 0x2C :: (encode (commas (u :: ts)) ++ close :: rest) := by
        rw [commas_cons_cons, encode_append, encode_cons, append_assoc]
        rfl
      refine ⟨m, ?_⟩
      rw [hbytes, loop_next hn, hm, append_assoc]
      · rfl
      · dsimp only
        rw [@List.length_append _ (encode t), List.length_cons]
        omega

theorem skipWs_commas {entry : List Char → α → Prop} (close : UInt8)
    (hstarts : ∀ {t a}, entry t a → ∃ b more, encode t = b :: more ∧ isSpace b = false ∧ b ≠ close)
    {as : List α} (h : List.Forall₂ entry texts as) (hne : texts ≠ []) (pos : ℕ) (rest : List UInt8) :
    skipWs ⟨pos, encode (commas texts) ++ rest⟩ = ⟨pos, encode (commas texts) ++ rest⟩ ∧
      peek ⟨pos, encode (commas texts) ++ rest⟩ ≠ some close := by
  cases h with
  | nil => exact absurd rfl hne
  | @cons t a ts as ht hts =>
    obtain ⟨b, more, heq, hspace, hclose⟩ := hstarts ht
    obtain ⟨more', heq'⟩ := starts_commas heq ts
    rw [heq', cons_append]
    exact ⟨skipWs_cons hspace pos _, fun hpeek => hclose (Option.some.inj hpeek)⟩

variable {value : Parser → Outcome JsonFault (Value ν × Parser)} {v : Value ν} {depth : ℕ} {e : Event ν}

theorem arrayTurn_next (h : Reads value t v) (pos : ℕ) (rest : List UInt8) (out : List (Value ν)) :
    ∃ n, arrayTurn value (⟨pos, encode t ++ 0x2C :: rest⟩, out) = .ok (.inl (⟨n, rest⟩, out ++ [v])) := by
  obtain ⟨n, hn⟩ := h.reads pos (0x2C :: rest) (ended_cons (.inl rfl) rest)
  refine ⟨n + 1, ?_⟩
  rw [arrayTurn, h.skipWs, hn, bind_ok]
  dsimp only
  rw [skipWs_cons (by decide), bump_cons]
  rfl

theorem arrayTurn_last (h : Reads value t v) (pos : ℕ) (rest : List UInt8) (out : List (Value ν)) :
    ∃ n, arrayTurn value (⟨pos, encode t ++ 0x5D :: rest⟩, out) = .ok (.inr (.arr (out ++ [v]), ⟨n, rest⟩)) := by
  obtain ⟨n, hn⟩ := h.reads pos (0x5D :: rest) (ended_cons (.inr (.inl rfl)) rest)
  refine ⟨n + 1, ?_⟩
  rw [arrayTurn, h.skipWs, hn, bind_ok]
  dsimp only
  rw [skipWs_cons (by decide), bump_cons]
  rfl

/-- **An array of what is read back is read back.** -/
theorem Reads.array {vs : List (Value ν)}
    (h : List.Forall₂ (Reads (parseValue N depth)) texts vs) (hne : texts ≠ []) :
    Reads (parseValue N (depth + 1)) ('[' :: commas texts ++ [']']) (.arr vs) := by
  have hbytes : ∀ rest, encode ('[' :: commas texts ++ [']']) ++ rest =
      0x5B :: (encode (commas texts) ++ 0x5D :: rest) := by
    intro rest
    rw [cons_append, encode_cons, encode_append, append_assoc, append_assoc]
    rfl
  refine ⟨⟨0x5B, _, (append_nil _).symm.trans (hbytes []), by decide, by decide, by decide⟩,
    fun pos rest _ => ?_⟩
  obtain ⟨n, hn⟩ := commaLoop arr arrayTurn_next arrayTurn_last h hne rest (pos + 1) []
  obtain ⟨hskip, hpeek⟩ := skipWs_commas 0x5D
    (fun ht => ht.starts.imp fun b => Exists.imp fun more hb => ⟨hb.1, hb.2.1, hb.2.2.1⟩) h hne (pos + 1) (0x5D :: rest)
  refine ⟨n, ?_⟩
  rw [hbytes, parseValue]
  show (if (0x5B : UInt8) = 0x7B then _ else _) = _
  rw [if_neg (by decide), if_pos rfl, parseArray, skip_mk, List.drop_succ_cons, List.drop_zero, hskip,
    if_neg hpeek, hn]
  rfl

/-- The text of a field is read as its name and its value. -/
def ReadsField (value : Parser → Outcome JsonFault (Value ν × Parser)) (text : List Char) (field : List Char × Value ν) :
    Prop :=
  ∃ t, text = jsonString field.1 ++ ':' :: t ∧ Reads value t field.2

theorem objectTurn_field {field : List Char × Value ν} (h : ReadsField value text field) (pos : ℕ)
    {e : UInt8} {rest : List UInt8} (he : Ended (e :: rest)) (out : List (List Char × Value ν)) :
    ∃ n, objectTurn value (⟨pos, encode text ++ e :: rest⟩, out) =
      match (some e, (⟨n, rest⟩ : Parser)) with
      | (some 0x2C, t) => .ok (.inl (t, out ++ [field]))
      | (some 0x7D, t) => .ok (.inr (.obj (out ++ [field]), t))
      | (other, _) => .error (.inObject other) := by
  obtain ⟨t, rfl, ht⟩ := h
  obtain ⟨more, heq⟩ := starts_jsonString field.1
  have hbytes : encode (jsonString field.1 ++ ':' :: t) ++ e :: rest =
      encode (jsonString field.1) ++ 0x3A :: (encode t ++ e :: rest) := by
    rw [encode_append, encode_cons, append_assoc]
    rfl
  obtain ⟨n, hn⟩ := parseString_jsonString field.1 pos (0x3A :: (encode t ++ e :: rest))
  obtain ⟨m, hm⟩ := ht.reads (n + 1) (e :: rest) he
  have hskip : skipWs ⟨pos, encode (jsonString field.1) ++ 0x3A :: (encode t ++ e :: rest)⟩ =
      ⟨pos, encode (jsonString field.1) ++ 0x3A :: (encode t ++ e :: rest)⟩ := by
    rw [heq, cons_append]
    exact skipWs_cons (by decide) pos _
  have hpeek : peek ⟨pos, encode (jsonString field.1) ++ 0x3A :: (encode t ++ e :: rest)⟩ = some 0x22 := by
    rw [heq]
    rfl
  refine ⟨m + 1, ?_⟩
  rw [hbytes, objectTurn, hskip, if_neg (fun hno => hno hpeek), hn, bind_ok]
  dsimp only
  rw [skipWs_cons (by decide), bump_cons]
  show (value (skipWs ⟨n + 1, encode t ++ e :: rest⟩)).bind _ = _
  rw [ht.skipWs, hm, bind_ok]
  dsimp only
  rw [skipWs_ended he]
  rfl

/-- **An object of what is read back is read back.** -/
theorem Reads.object {fields : List (List Char × Value ν)}
    (h : List.Forall₂ (ReadsField (parseValue N depth)) texts fields) (hne : texts ≠ []) :
    Reads (parseValue N (depth + 1)) ('\x7b' :: commas texts ++ ['\x7d']) (.obj fields) := by
  have hbytes : ∀ rest, encode ('\x7b' :: commas texts ++ ['\x7d']) ++ rest =
      0x7B :: (encode (commas texts) ++ 0x7D :: rest) := by
    intro rest
    rw [cons_append, encode_cons, encode_append, append_assoc, append_assoc]
    rfl
  refine ⟨⟨0x7B, _, (append_nil _).symm.trans (hbytes []), by decide, by decide, by decide⟩,
    fun pos rest _ => ?_⟩
  obtain ⟨n, hn⟩ := commaLoop obj
    (fun ht pos rest out => objectTurn_field ht pos (ended_cons (.inl rfl) rest) out)
    (fun ht pos rest out => objectTurn_field ht pos (ended_cons (.inr (.inr rfl)) rest) out) h hne rest (pos + 1) []
  have hstarts : ∀ {t : List Char} {field : List Char × Value ν}, ReadsField (parseValue N depth) t field →
      ∃ b more, encode t = b :: more ∧ isSpace b = false ∧ b ≠ 0x7D := by
    rintro t field ⟨u, rfl, -⟩
    obtain ⟨more, heq⟩ := starts_jsonString field.1
    exact ⟨0x22, _, by rw [encode_append, heq]; rfl, by decide, by decide⟩
  obtain ⟨hskip, hpeek⟩ := skipWs_commas 0x7D hstarts h hne (pos + 1) (0x7D :: rest)
  refine ⟨n, ?_⟩
  rw [hbytes, parseValue]
  show (if (0x7B : UInt8) = 0x7B then _ else _) = _
  rw [if_pos rfl, parseObject, skip_mk, List.drop_succ_cons, List.drop_zero, hskip, if_neg hpeek, hn]
  rfl

/-! ### Lines are read back -/

theorem parse_of_reads (h : Reads (parseValue N ((encode text).length + 1)) text v) : parse N text = .ok v := by
  obtain ⟨n, hn⟩ := h.reads 0 [] ended_nil
  have hskip := h.skipWs 0 []
  rw [append_nil] at hn hskip
  rw [parse]
  dsimp only
  rw [hskip, hn, bind_ok]
  dsimp only
  rw [skipWs_ended ended_nil]
  exact if_neg (not_not.2 rfl)

/-- **An event is read back.** -/
theorem parseEvent_writeEvent (htime : N.Shows e.time) (hcode : e.code.Known) :
    (mapFault LineFault.json (parse N (writeEvent N e))).bind parseEvent = .ok e := by
  obtain ⟨n, hn⟩ : ∃ n, (encode (writeEvent N e)).length = n + 1 := ⟨_, rfl⟩
  have htext : writeEvent N e =
      '[' :: commas [formatTime N e.time, jsonString [e.code.letter], jsonString e.data] ++ [']'] := by
    rw [commas_cons_cons, commas_cons_cons, commas_singleton, writeEvent]
    simp only [cons_append, append_assoc]
  have hparse : parse N (writeEvent N e) = .ok (.arr [.num e.time, .str [e.code.letter], .str e.data]) := by
    refine parse_of_reads ?_
    rw [hn]
    rw [htext]
    exact .array (.cons (.num htime n) (.cons (.str _ n) (.cons (.str _ n) .nil))) (cons_ne_nil _ _)
  rw [hparse]
  show Outcome.ok (Event.mk e.time (EventCode.fromLetter [e.code.letter]) e.data) = .ok e
  rw [hcode]

theorem encodeChar_digit {c : Char} (h : c.isDigit) : ∃ b, utf8EncodeChar c = [b] ∧ isDigit b := by
  have hrange : 0x30 ≤ c.toNat ∧ c.toNat ≤ 0x39 := Char.isDigit_iff_toNat.1 h
  have hn : (ofNat c.toNat).toNat = c.toNat := by
    rw [UInt8.toNat_ofNat']
    omega
  have hbytes := encodeChar_ascii (a := ofNat c.toNat) (by omega)
  rw [hn, scalar_toNat] at hbytes
  refine ⟨_, hbytes, ?_⟩
  simp only [isDigit, hn, Bool.and_eq_true, decide_eq_true_eq]
  exact hrange

theorem reads_digits {n : ℕ} {x : ν} (h : N.parse (toDigits 10 n) = some x) : N.Reads (toDigits 10 n) x := by
  have hdigit : ∀ c ∈ toDigits 10 n, c.isDigit := fun c hc => Nat.isDigit_of_mem_toDigits (by decide) (by decide) hc
  have hbytes : ∀ b ∈ encode (toDigits 10 n), isDigit b := by
    intro b hb
    obtain ⟨c, hc, hbc⟩ := List.mem_flatMap.1 hb
    obtain ⟨d, hd, hdigit⟩ := encodeChar_digit (hdigit c hc)
    rw [hd, List.mem_singleton] at hbc
    exact hbc ▸ hdigit
  obtain ⟨b, more, hstart⟩ : ∃ b more, encode (toDigits 10 n) = b :: more := by
    obtain ⟨c, cs, hc⟩ := List.exists_cons_of_ne_nil (Nat.toDigits_ne_nil (b := 10) (n := n))
    obtain ⟨d, hd, -⟩ := encodeChar_digit (hdigit c (by rw [hc]; exact List.mem_cons_self))
    exact ⟨d, encode cs, by rw [hc, encode_cons, hd]; rfl⟩
  refine ⟨⟨b, more, hstart, .inr (hbytes b (by rw [hstart]; exact List.mem_cons_self))⟩, fun b hb => ?_, h⟩
  simp only [isNumeric, hbytes b hb, Bool.true_or]

theorem reads_decimal (h : N.Lawful) (n : UInt16) : ∃ x, N.Reads (decimal n) x ∧ N.toU16 x = some n :=
  (h.decimal n).imp fun _ hx => ⟨reads_digits hx.1, hx.2⟩

def field (key : String) (text : List Char) : List Char := jsonString key.toList ++ ':' :: text

theorem readsField (key : String)
    (h : Reads (parseValue N depth) text v) : ReadsField (parseValue N depth) (field key text) (key.toList, v) :=
  ⟨text, rfl, h⟩

theorem reads_poshterity (h : N.Lawful) (pr : Poshterity) (depth : ℕ) : ∃ v, Reads (parseValue N (depth + 2))
        ('\x7b' :: commas [field "v" (decimal pr.v), field "emu_rev" (jsonString pr.emuRev)] ++ ['\x7d']) v ∧
      parsePoshterity N v = some pr := by
  obtain ⟨x, hx, hn⟩ := reads_decimal h pr.v
  refine ⟨_, .object (.cons (readsField "v" (.num hx depth)) (.cons (readsField "emu_rev" (.str pr.emuRev depth)) .nil))
    (cons_ne_nil _ _), ?_⟩
  show (N.toU16 x).bind _ = _
  rw [hn]
  rfl

def headerFields (h : Header) : List (List Char) :=
  [field "version" (decimal h.version), field "width" (decimal h.width), field "height" (decimal h.height)] ++
    match h.poshterity with
    | some pr =>
      [field "poshterity"
        ('\x7b' :: commas [field "v" (decimal pr.v), field "emu_rev" (jsonString pr.emuRev)] ++ ['\x7d'])]
    | none => []

theorem writeHeader_eq (h : Header) : writeHeader h = '\x7b' :: commas (headerFields h) ++ ['\x7d'] := by
  -- the texts between the values, whatever the names in them are
  have hshape : ∀ (version width height poshterity v emuRev k₁ k₂ k₃ k₄ k₅ k₆ : List Char),
      k₁ = '\x7b' :: (version ++ [':']) → k₂ = ',' :: (width ++ [':']) → k₃ = ',' :: (height ++ [':']) →
      k₄ = ',' :: (poshterity ++ ':' :: '\x7b' :: (v ++ [':'])) → k₅ = ',' :: (emuRev ++ [':']) → k₆ = ['\x7d'] →
      k₁ ++ decimal h.version ++ k₂ ++ decimal h.width ++ k₃ ++ decimal h.height ++ (match h.poshterity with
            | some pr => k₄ ++ decimal pr.v ++ k₅ ++ jsonString pr.emuRev ++ k₆
            | none => []) ++ k₆ =
        '\x7b' :: commas ([version ++ ':' :: decimal h.version, width ++ ':' :: decimal h.width,
          height ++ ':' :: decimal h.height] ++ match h.poshterity with
          | some pr => [poshterity ++ ':' ::
              ('\x7b' :: commas [v ++ ':' :: decimal pr.v, emuRev ++ ':' :: jsonString pr.emuRev] ++ ['\x7d'])]
          | none => []) ++ ['\x7d'] := by
    rintro version width height poshterity v emuRev _ _ _ _ _ _ rfl rfl rfl rfl rfl rfl
    cases h.poshterity <;>
      simp only [commas_cons_cons, commas_singleton, cons_append, append_assoc, nil_append,
        append_nil]
  exact hshape _ _ _ _ _ _ _ _ _ _ _ _ (by decide) (by decide) (by decide) (by decide) (by decide) (by decide)

/-- **A header is read back.** -/
theorem parseHeader_writeHeader (hN : N.Lawful) {h : Header} (hversion : h.version = 2) :
    (mapFault LineFault.json (parse N (writeHeader h))).bind (parseHeader N) = .ok h := by
  obtain ⟨xv, hxv, hv⟩ := reads_decimal hN h.version
  obtain ⟨xw, hxw, hw⟩ := reads_decimal hN h.width
  obtain ⟨xh, hxh, hh⟩ := reads_decimal hN h.height
  -- the line is long enough for the levels of its value
  obtain ⟨n, hn⟩ : ∃ n, (encode (writeHeader h)).length + 1 = n + 3 := by
    rw [writeHeader_eq, cons_append, encode_cons, encode_append, List.length_append, List.length_append]
    exact ⟨_, Nat.add_right_comm 1 _ 1⟩
  have hblock : ∃ fields : List (List Char × Value ν), List.Forall₂ (ReadsField (parseValue N (n + 2)))
        (match h.poshterity with
          | some pr => [field "poshterity"
              ('\x7b' :: commas [field "v" (decimal pr.v), field "emu_rev" (jsonString pr.emuRev)] ++ ['\x7d'])]
          | none => []) fields ∧
        ((obj fields).get "poshterity".toList).bind (parsePoshterity N) = h.poshterity := by
    cases h.poshterity with
    | none => exact ⟨[], .nil, rfl⟩
    | some pr =>
      obtain ⟨v, hv, hpr⟩ := reads_poshterity hN pr n
      exact ⟨[("poshterity".toList, v)], .cons (readsField "poshterity" hv) .nil, hpr⟩
  obtain ⟨fields, hfields, hpr⟩ := hblock
  have hparse : parse N (writeHeader h) = .ok (.obj (("version".toList, .num xv) :: ("width".toList, .num xw) ::
      ("height".toList, .num xh) :: fields)) := by
    refine parse_of_reads ?_
    rw [hn, writeHeader_eq, headerFields]
    exact .object (.cons (readsField "version" (.num hxv (n + 1))) (.cons (readsField "width" (.num hxw (n + 1)))
      (.cons (readsField "height" (.num hxh (n + 1))) hfields))) (cons_ne_nil _ _)
  have hget : (obj (("version".toList, .num xv) :: ("width".toList, .num xw) :: ("height".toList, .num xh) ::
      fields)).get "poshterity".toList = (obj fields).get "poshterity".toList := rfl
  rw [hparse]
  show (match N.toU16 xv with
    | some n => Outcome.ok n
    | none => .error LineFault.versionNotInteger).bind _ = _
  rw [hv]
  show (if h.version ≠ 2 then _ else Outcome.ok (Header.mk h.version ((N.toU16 xw).getD 80) ((N.toU16 xh).getD 24)
    ((get _ (.obj _)).bind _))) = _
  rw [if_neg (not_not.2 hversion), hget, hpr, hw, hh]
  rfl

/-! ### A record is one line -/

/-- A line as it is written: it is one, it is not blank, and nothing is stripped from it. -/
structure IsRecord (l : List Char) : Prop where
  oneLine : '\n' ∉ l
  starts : ∃ c cs, l = c :: cs ∧ isWhitespace c = false
  ends : l.getLast? ≠ some '\r'

theorem newline_escape (c : Char) : '\n' ∉ escape c := by
  have hdigit : ∀ d < 16, '\n' ≠ hexChar d := by decide
  rw [escape.eq_def]
  split
  · decide
  · decide
  · decide
  · decide
  · decide
  · decide
  · decide
  · next hno _ _ _ _ =>
      split
      · simp only [lowerHex4, mem_cons, List.not_mem_nil, or_false, not_or]
        exact ⟨by decide, by decide, hdigit _ (mod_lt _ (by decide)), hdigit _ (mod_lt _ (by decide)),
          hdigit _ (mod_lt _ (by decide)), hdigit _ (mod_lt _ (by decide))⟩
      · rw [List.mem_singleton]
        exact fun heq => hno heq.symm

/-- **No string holds a line break.** -/
theorem newline_jsonString (s : List Char) : '\n' ∉ jsonString s := by
  rw [jsonString, mem_append, mem_cons]
  rintro ((heq | hmem) | hmem)
  · revert heq
    decide
  · obtain ⟨c, -, hc⟩ := List.mem_flatMap.1 hmem
    exact newline_escape c hc
  · revert hmem
    decide

theorem Numbers.Reads.newline {n : ν} (h : N.Reads text n) : '\n' ∉ text := by
  intro hmem
  have hbyte : (0x0A : UInt8) ∈ encode text := List.mem_flatMap.2 ⟨'\n', hmem, by decide⟩
  exact absurd (h.numeric _ hbyte) (by decide)

theorem newline_commas (h : ∀ t ∈ texts, '\n' ∉ t) : '\n' ∉ commas texts := by
  induction texts with
  | nil => exact List.not_mem_nil
  | cons t ts ih =>
    obtain ⟨ht, hts⟩ := forall_mem_cons.1 h
    cases ts with
    | nil => rwa [commas_singleton]
    | cons u ts =>
      rw [commas_cons_cons, mem_append, mem_cons]
      rintro (hmem | heq | hmem)
      · exact ht hmem
      · revert heq
        decide
      · exact ih hts hmem

theorem isRecord_bracketed {l r : Char} (hl : isWhitespace l = false) (hr : isWhitespace r = false) {body : List Char}
    (h : '\n' ∉ body) : IsRecord (l :: body ++ [r]) := by
  have hne : ∀ c, isWhitespace c = false → ∀ d, isWhitespace d = true → d ≠ c := by
    rintro c hc _ hd rfl
    rw [hc] at hd
    cases hd
  refine ⟨?_, ⟨l, body ++ [r], rfl, hl⟩, ?_⟩
  · rw [mem_append, mem_cons, List.mem_singleton]
    rintro ((heq | hmem) | heq)
    · exact hne l hl _ (by decide) heq
    · exact h hmem
    · exact hne r hr _ (by decide) heq
  · rw [List.getLast?_concat]
    exact fun heq => hne r hr '\r' (by decide) (Option.some.inj heq).symm

/-- **An event is one line.** -/
theorem isRecord_writeEvent (htime : N.Shows e.time) : IsRecord (writeEvent N e) := by
  have htext : writeEvent N e =
      '[' :: commas [formatTime N e.time, jsonString [e.code.letter], jsonString e.data] ++ [']'] := by
    rw [commas_cons_cons, commas_cons_cons, commas_singleton, writeEvent]
    simp only [cons_append, append_assoc]
  rw [htext]
  refine isRecord_bracketed (by decide) (by decide) (newline_commas ?_)
  simp only [forall_mem_cons]
  exact ⟨htime.newline, newline_jsonString _, newline_jsonString _, List.forall_mem_nil _⟩

theorem newline_field (key : String) (h : '\n' ∉ text) : '\n' ∉ field key text := by
  rw [field, mem_append, mem_cons]
  rintro (hmem | heq | hmem)
  · exact newline_jsonString _ hmem
  · revert heq
    decide
  · exact h hmem

/-- **A header is one line.** -/
theorem isRecord_writeHeader (hN : N.Lawful) (h : Header) : IsRecord (writeHeader h) := by
  have hdecimal : ∀ n, '\n' ∉ decimal n := fun n => (reads_decimal hN n).choose_spec.1.newline
  rw [writeHeader_eq]
  refine isRecord_bracketed (by decide) (by decide) (newline_commas ?_)
  rw [headerFields]
  simp only [List.forall_mem_append, forall_mem_cons]
  refine ⟨⟨newline_field _ (hdecimal _), newline_field _ (hdecimal _), newline_field _ (hdecimal _),
    List.forall_mem_nil _⟩, ?_⟩
  cases h.poshterity with
  | none => exact List.forall_mem_nil _
  | some pr =>
    refine List.forall_mem_singleton.2 (newline_field _ ?_)
    refine (isRecord_bracketed (by decide) (by decide) (newline_commas ?_)).oneLine
    simp only [forall_mem_cons]
    exact ⟨newline_field _ (hdecimal _), newline_field _ (newline_jsonString _), List.forall_mem_nil _⟩

/-! ### A recording is read back -/

/-- The text of some records. -/
def document (ls : List (List Char)) : List Char := ls.flatMap (· ++ ['\n'])

theorem document_cons (l : List Char) (ls : List (List Char)) : document (l :: ls) = l ++ '\n' :: document ls := by
  rw [document, List.flatMap_cons, append_assoc]
  rfl

/-- **The lines of a document are its records.** -/
theorem splitOn_document {ls : List (List Char)} (h : ∀ l ∈ ls, IsRecord l) : (document ls).splitOn '\n' = ls ++ [[]] := by
  induction ls with
  | nil => exact List.splitOn_nil _
  | cons l ls ih =>
    obtain ⟨hl, hls⟩ := forall_mem_cons.1 h
    rw [document_cons, List.splitOn_append_cons_self_of_not_mem hl.oneLine, ih hls]
    rfl

theorem Reader.nextLine_record {l : List Char} (h : IsRecord l) (n : ℕ) (ls : List (List Char)) :
    nextLine n (l :: ls) = (some l, ⟨ls, n + 1⟩) := by
  have hstrip : stripCr l = l := if_neg h.ends
  obtain ⟨c, cs, rfl, hc⟩ := h.starts
  have hblank : ¬ (c :: cs).all isWhitespace = true := by
    rw [List.all_cons, hc, Bool.false_and]
    exact Bool.false_ne_true
  rw [nextLine, hstrip, if_neg hblank]

variable {events : List (Event ν)}

/-- **The events of a recording are read back.** -/
theorem Reader.all_of_lines (h : ∀ e ∈ events, N.Shows e.time ∧ e.code.Known) :
    ∀ (n : ℕ) (out : List (Event ν)),
      loop (fun s => s.1.lines.length) (turn N) (⟨events.map (writeEvent N) ++ [[]], n⟩, out) =
        .ok (out ++ events) := by
  induction events with
  | nil =>
    intro n out
    rw [append_nil]
    exact loop_done rfl
  | cons e events ih =>
    intro n out
    obtain ⟨⟨htime, hcode⟩, hevents⟩ := forall_mem_cons.1 h
    have hturn : turn N (⟨writeEvent N e :: (events.map (writeEvent N) ++ [[]]), n⟩, out) =
        .ok (.inl (⟨events.map (writeEvent N) ++ [[]], n + 1⟩, out ++ [e])) := by
      rw [turn, nextEvent, nextLine_record (isRecord_writeEvent htime)]
      dsimp only
      rw [parseEvent_writeEvent htime hcode]
      rfl
    rw [List.map_cons, cons_append, loop_next hturn (Nat.lt_succ_self _), ih hevents, append_assoc]
    rfl

/-- **A recording is read back**: its header, and its events. -/
theorem Reader.document_of_lines (hN : N.Lawful) {h : Header} (hversion : h.version = 2)
    (hevents : ∀ e ∈ events, N.Shows e.time ∧ e.code.Known) :
    document N (Recording.document (writeHeader h :: events.map (writeEvent N))) = .ok (h, events) := by
  have hrecords : ∀ l ∈ writeHeader h :: events.map (writeEvent N), IsRecord l := by
    refine forall_mem_cons.2 ⟨isRecord_writeHeader hN h, fun l hl => ?_⟩
    obtain ⟨e, he, rfl⟩ := List.mem_map.1 hl
    exact isRecord_writeEvent (hevents e he).1
  have hnew : new (Recording.document (writeHeader h :: events.map (writeEvent N))) =
      ⟨writeHeader h :: (events.map (writeEvent N) ++ [[]]), 0⟩ := by
    rw [new, splitOn_document hrecords]
    rfl
  have hheader : (new (Recording.document (writeHeader h :: events.map (writeEvent N)))).header N =
      (.ok h, ⟨events.map (writeEvent N) ++ [[]], 1⟩) := by
    rw [hnew, header, nextLine_record (isRecord_writeHeader hN h)]
    dsimp only
    rw [parseHeader_writeHeader hN hversion]
    rfl
  rw [document, hheader, bind_ok, all, all_of_lines hevents]
  rfl

end Reads

end Posh.Recording
