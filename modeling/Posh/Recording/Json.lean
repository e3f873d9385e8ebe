/-
**The JSON reader of recordings.**

A recording is read line by line, and each line is a JSON value.  The reader goes over the bytes of the line once, by
recursive descent: a value is an object, an array, a string, a number or a word, and a string may hold escapes.  It
is given a text, so what it puts into a string is a text again.

Numbers are left open: how a number is read, shown, and taken as a sixteen-bit number is a parameter.
-/

import Mathlib.Data.List.TakeWhile
import Posh.Lib.Checked
import Posh.Lib.Utf8Check

set_option autoImplicit false

namespace Posh.Recording

open ByteCursor

/-! ### Values -/

/-- Numbers: zero, reading one from its text, showing one, and taking one as a sixteen-bit number. -/
structure Numbers (ν : Type*) where
  zero : ν
  parse : List Char → Option ν
  display : ν → List Char
  toU16 : ν → Option UInt16

/-- A JSON value. -/
inductive Value (ν : Type*) where
  | null
  | bool (b : Bool)
  | num (n : ν)
  | str (s : List Char)
  | arr (a : List (Value ν))
  | obj (fields : List (List Char × Value ν))

namespace Value

variable {ν : Type*}

def asF64 : Value ν → Option ν
  | num n => some n
  | _ => none

def asU16 (N : Numbers ν) : Value ν → Option UInt16
  | num n => N.toU16 n
  | _ => none

def asStr : Value ν → Option (List Char)
  | str s => some s
  | _ => none

def asArray : Value ν → Option (List (Value ν))
  | arr a => some a
  | _ => none

/-- The first field of that name. -/
def get (key : List Char) : Value ν → Option (Value ν)
  | obj fields => (fields.find? fun f => f.1 = key).map Prod.snd
  | _ => none

end Value

/-- What a reader complains of. -/
inductive JsonFault where
  /-- "trailing data at byte ‹pos›" -/
  | trailingData (pos : ℕ)
  /-- "unexpected byte ‹b› at ‹pos›" -/
  | unexpectedByte (b : UInt8) (pos : ℕ)
  /-- "unexpected end of input" -/
  | unexpectedEnd
  /-- "expected object key at byte ‹pos›" -/
  | expectedKey (pos : ℕ)
  /-- "expected ':' after key ‹key›" -/
  | expectedColon (key : List Char)
  /-- "expected ',' or a closing brace in object, got ‹got›" -/
  | inObject (got : Option UInt8)
  /-- "expected ',' or ']' in array, got ‹got›" -/
  | inArray (got : Option UInt8)
  /-- "unterminated string" -/
  | unterminatedString
  /-- "unterminated escape" -/
  | unterminatedEscape
  /-- "invalid escape ‹b›" -/
  | invalidEscape (b : UInt8)
  /-- "invalid UTF-8 in string" -/
  | invalidUtf8
  /-- "truncated \u escape" -/
  | truncatedEscape
  /-- "invalid hex digit ‹b›" -/
  | invalidHexDigit (b : UInt8)
  /-- "invalid number ‹s›" -/
  | invalidNumber (s : List Char)
  /-- "invalid literal at byte ‹pos›" -/
  | invalidLiteral (pos : ℕ)
  deriving DecidableEq

/-! ### The bytes of a line -/

/-- The bytes that are still to be read, and how many were read. -/
structure Parser where
  pos : ℕ
  rest : List UInt8
  deriving DecidableEq

namespace Parser

/-- `n` bytes further. -/
def skip (p : Parser) (n : ℕ) : Parser := ⟨p.pos + n, p.rest.drop n⟩

def peek (p : Parser) : Option UInt8 := p.rest.head?

def bump (p : Parser) : Option UInt8 × Parser :=
  match p.peek with
  | some b => (some b, p.skip 1)
  | none => (none, p)

/-- As long as the bytes are like that. -/
def skipWhile (p : Parser) (like : UInt8 → Bool) : Parser := p.skip (p.rest.takeWhile like).length

def isSpace (b : UInt8) : Bool := b = 0x20 || b = 0x09 || b = 0x0A || b = 0x0D

def skipWs (p : Parser) : Parser := p.skipWhile isSpace

/-! ### Strings -/

/-- The value of a hexadecimal digit. -/
def hexDigit (b : UInt8) : Option ℕ :=
  if 0x30 ≤ b.toNat ∧ b.toNat ≤ 0x39 then some (b.toNat - 0x30)
  else if 0x61 ≤ b.toNat ∧ b.toNat ≤ 0x66 then some (b.toNat - 0x61 + 10)
  else if 0x41 ≤ b.toNat ∧ b.toNat ≤ 0x46 then some (b.toNat - 0x41 + 10)
  else none

/-- `n` more digits of a number that begins with `v`. -/
def parseHex (p : Parser) (v : ℕ) : ℕ → Outcome JsonFault (ℕ × Parser)
  | 0 => .ok (v, p)
  | n + 1 =>
    match p.bump with
    | (none, _) => .error .truncatedEscape
    | (some b, q) =>
      match hexDigit b with
      | some d => parseHex q (v * 16 + d) n
      | none => .error (.invalidHexDigit b)

def parseHex4 (p : Parser) : Outcome JsonFault (ℕ × Parser) := p.parseHex 0 4

def isHighSurrogate (n : ℕ) : Bool := 0xD800 ≤ n && n ≤ 0xDBFF

def isLowSurrogate (n : ℕ) : Bool := 0xDC00 ≤ n && n ≤ 0xDFFF

def parseUnicodeEscape (p : Parser) : Outcome JsonFault (Char × Parser) :=
  p.parseHex4.bind fun (hi, q) =>
    if isHighSurrogate hi then
      -- the other half has to follow at once
      if q.peek = some 0x5C ∧ q.rest[1]? = some 0x75 then
        (q.skip 2).parseHex4.bind fun (lo, r) =>
          if isLowSurrogate lo then .ok (Utf8.scalar (0x10000 + (hi - 0xD800) * 1024 + (lo - 0xDC00)), r)
          else .ok (Utf8.replacement, r)
      else .ok (Utf8.replacement, q)
    else if isLowSurrogate hi then .ok (Utf8.replacement, q)
    else .ok (Utf8.scalar hi, q)

/-- What an escape of one byte stands for. -/
def escaped (e : UInt8) : Option UInt8 :=
  match e with
  | 0x22 => some 0x22
  | 0x5C => some 0x5C
  | 0x2F => some 0x2F
  | 0x62 => some 0x08
  | 0x66 => some 0x0C
  | 0x6E => some 0x0A
  | 0x72 => some 0x0D
  | 0x74 => some 0x09
  | _ => none

/-- The bytes that an escape stands for, behind its backslash. -/
def parseEscape (p : Parser) : Outcome JsonFault (List UInt8 × Parser) :=
  match p.bump with
  | (none, _) => .error .unterminatedEscape
  | (some e, q) =>
    match escaped e with
    | some b => .ok ([b], q)
    | none =>
      if e = 0x75 then q.parseUnicodeEscape.bind fun (c, r) => .ok (String.utf8EncodeChar c, r)
      else .error (.invalidEscape e)

/-- One turn over the bytes of a string, of which `out` was read. -/
def stringTurn : Parser × List UInt8 → Outcome JsonFault ((Parser × List UInt8) ⊕ (List UInt8 × Parser))
  | (p, out) =>
    match p.bump with
    | (none, _) => .error .unterminatedString
    | (some b, q) =>
      if b = 0x22 then .ok (.inr (out, q))
      else if b = 0x5C then q.parseEscape.bind fun (bytes, r) => .ok (.inl (r, out ++ bytes))
      else .ok (.inl (q, out ++ [b]))

/-- A string, from its opening quote on. -/
def parseString (p : Parser) : Outcome JsonFault (List Char × Parser) :=
  (Checked.loop (fun s => s.1.rest.length) stringTurn (p.skip 1, [])).bind fun (out, q) =>
    match Utf8.fromUtf8 out with
    | .ok s => .ok (s, q)
    | .error _ => .error .invalidUtf8

/-! ### Numbers and words -/

variable {ν : Type*}

def isDigit (b : UInt8) : Bool := 0x30 ≤ b.toNat && b.toNat ≤ 0x39

/-- A byte of a number. -/
def isNumeric (b : UInt8) : Bool :=
  isDigit b || b = 0x2E || b = 0x65 || b = 0x45 || b = 0x2B || b = 0x2D

def parseNumber (N : Numbers ν) (p : Parser) : Outcome JsonFault (Value ν × Parser) :=
  let q := if p.peek = some 0x2D then p.skip 1 else p
  let r := q.skipWhile isNumeric
  -- the bytes are ASCII, so they are a text
  match Utf8.fromUtf8 (p.rest.take (r.pos - p.pos)) with
  | .error _ => .outOfRange
  | .ok s =>
    match N.parse s with
    | some n => .ok (.num n, r)
    | none => .error (.invalidNumber s)

def startsWith (p : Parser) (word : String) : Bool := (Utf8.encode word.toList).isPrefixOf p.rest

def parseBool (p : Parser) : Outcome JsonFault (Value ν × Parser) :=
  if p.startsWith "true" then .ok (.bool true, p.skip 4)
  else if p.startsWith "false" then .ok (.bool false, p.skip 5)
  else .error (.invalidLiteral p.pos)

def parseNull (p : Parser) : Outcome JsonFault (Value ν × Parser) :=
  if p.startsWith "null" then .ok (.null, p.skip 4) else .error (.invalidLiteral p.pos)

/-! ### Arrays and objects -/

section Containers

-- how to read what is inside
variable (value : Parser → Outcome JsonFault (Value ν × Parser))

/-- One turn over the entries of an array, of which `out` were read. -/
def arrayTurn : Parser × List (Value ν) → Outcome JsonFault ((Parser × List (Value ν)) ⊕ (Value ν × Parser))
  | (p, out) =>
    (value p.skipWs).bind fun (v, q) =>
      match q.skipWs.bump with
      | (some 0x2C, r) => .ok (.inl (r, out ++ [v]))
      | (some 0x5D, r) => .ok (.inr (.arr (out ++ [v]), r))
      | (other, _) => .error (.inArray other)

def parseArray (p : Parser) : Outcome JsonFault (Value ν × Parser) :=
  let q := (p.skip 1).skipWs
  if q.peek = some 0x5D then .ok (.arr [], q.skip 1)
  else Checked.loop (fun s => s.1.rest.length) (arrayTurn value) (q, [])

/-- One turn over the fields of an object, of which `out` were read. -/
def objectTurn : Parser × List (List Char × Value ν) →
    Outcome JsonFault ((Parser × List (List Char × Value ν)) ⊕ (Value ν × Parser))
  | (p, out) =>
    if p.skipWs.peek ≠ some 0x22 then .error (.expectedKey p.skipWs.pos)
    else p.skipWs.parseString.bind fun (key, q) =>
      match q.skipWs.bump with
      | (some 0x3A, r) =>
        (value r.skipWs).bind fun (v, s) =>
          match s.skipWs.bump with
          | (some 0x2C, t) => .ok (.inl (t, out ++ [(key, v)]))
          | (some 0x7D, t) => .ok (.inr (.obj (out ++ [(key, v)]), t))
          | (other, _) => .error (.inObject other)
      | (_, _) => .error (.expectedColon key)

def parseObject (p : Parser) : Outcome JsonFault (Value ν × Parser) :=
  let q := (p.skip 1).skipWs
  if q.peek = some 0x7D then .ok (.obj [], q.skip 1)
  else Checked.loop (fun s => s.1.rest.length) (objectTurn value) (q, [])

end Containers

/-- A value that is nested less deep than `depth`. -/
def parseValue (N : Numbers ν) : ℕ → Parser → Outcome JsonFault (Value ν × Parser)
  | 0, _ => .outOfRange
  | depth + 1, p =>
    match p.peek with
    | none => .error .unexpectedEnd
    | some b =>
      if b = 0x7B then p.parseObject (parseValue N depth)
      else if b = 0x5B then p.parseArray (parseValue N depth)
      else if b = 0x22 then p.parseString.bind fun (s, q) => .ok (.str s, q)
      else if b = 0x74 ∨ b = 0x66 then p.parseBool
      else if b = 0x6E then p.parseNull
      else if b = 0x2D ∨ isDigit b then p.parseNumber N
      else .error (.unexpectedByte b p.pos)

/-! ### Reading comes nearer to the end -/

@[simp] theorem skip_mk (pos n : ℕ) (rest : List UInt8) : skip ⟨pos, rest⟩ n = ⟨pos + n, rest.drop n⟩ := rfl

@[simp] theorem bump_cons (pos : ℕ) (b : UInt8) (rest : List UInt8) : bump ⟨pos, b :: rest⟩ = (some b, ⟨pos + 1, rest⟩) :=
  rfl

/-! ### Numbers are numbers -/

theorem skipWhile_sign (p : Parser) :
    (if p.peek = some 0x2D then p.skip 1 else p).skipWhile isNumeric = p.skipWhile isNumeric := by
  obtain ⟨pos, rest⟩ := p
  split
  · next hminus =>
      cases rest with
      | nil => cases hminus
      | cons b rest =>
        obtain rfl : b = 0x2D := Option.some.inj hminus
        have hnum : isNumeric 0x2D = true := by decide
        simp only [skipWhile, skip_mk, List.takeWhile_cons, hnum, if_true, List.length_cons, List.drop_succ_cons,
          List.drop_zero, Nat.add_comm 1, Nat.add_assoc]
  · rfl

/-- **A number is read from its bytes.** -/
theorem parseNumber_eq (N : Numbers ν) (p : Parser) {s : List Char}
    (hs : Utf8.encode s = p.rest.takeWhile isNumeric) :
    p.parseNumber N = match N.parse s with
      | some n => .ok (.num n, p.skipWhile isNumeric)
      | none => .error (.invalidNumber s) := by
  have hpos : (p.skipWhile isNumeric).pos - p.pos = (p.rest.takeWhile isNumeric).length := Nat.add_sub_cancel_left _ _
  rw [parseNumber, skipWhile_sign, hpos, ← (List.prefix_iff_eq_take.1 (List.takeWhile_prefix _)), ← hs, Utf8.fromUtf8_encode]

/-! ### Containers -/

section Containers

variable {value : Parser → Outcome JsonFault (Value ν × Parser)} {n : ℕ}

end Containers

end Parser

/-- Reading a line. -/
def parse {ν : Type*} (N : Numbers ν) (input : List Char) : Outcome JsonFault (Value ν) :=
  let p : Parser := ⟨0, Utf8.encode input⟩
  -- a value has at most as many levels as the line has bytes
  (Parser.parseValue N (p.rest.length + 1) p.skipWs).bind fun (v, q) =>
    let r := q.skipWs
    if r.rest ≠ [] then .error (.trailingData r.pos) else .ok v

end Posh.Recording
