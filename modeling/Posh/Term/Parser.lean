/-
**The escape sequence parser.**

A state machine over bytes, with incremental UTF-8 in its ground state.  Every byte yields at most a
few actions: a character to print, a control to execute, or a complete sequence to dispatch.  Strings
(OSC, DCS, APC) take bytes from `0x80` on as content and end on an escape, an OSC also on a BEL; a
string that outgrows its bound is dropped whole.
-/

import Posh.Lib.Utf8

set_option autoImplicit false

namespace Posh.Term

/-! ### Actions -/

/-- What the parser hands on. -/
inductive Action where
  | print (c : Char)
  /-- a C0 or C1 control -/
  | execute (b : UInt8)
  /-- each parameter is a list of colon-separated parts; `marker` is the private byte or 0 -/
  | csi (params : List (List ℕ)) (intermediates : List UInt8) (marker finalByte : UInt8)
  | esc (intermediates : List UInt8) (finalByte : UInt8)
  /-- `bel` when it was ended by a BEL -/
  | osc (data : List UInt8) (bel : Bool)
  | dcs (params : List (List ℕ)) (intermediates : List UInt8) (finalByte : UInt8)
      (data : List UInt8)
  | apc (data : List UInt8)
  deriving DecidableEq, Repr

inductive ParserState where
  | ground
  | escape
  | escapeIntermediate
  | csiEntry
  | csiParam
  | csiIntermediate
  | csiIgnore
  | oscString
  | dcsEntry
  | dcsParam
  | dcsIntermediate
  | dcsPassthrough
  | dcsIgnore
  | sosPmString
  | apcString
  deriving DecidableEq, Repr

structure Parser where
  state : ParserState := .ground
  /-- the bytes of an unfinished character, and how many are missing -/
  utf8 : List UInt8 := []
  utf8Need : ℕ := 0
  params : List (List ℕ) := []
  curParts : List ℕ := []
  curVal : ℕ := 0
  partSeen : Bool := false
  intermediates : List UInt8 := []
  /-- the private marker, or 0 -/
  marker : UInt8 := 0
  dcsFinal : UInt8 := 0
  stringBuf : List UInt8 := []
  stringOverflow : Bool := false
  deriving DecidableEq, Repr

namespace Parser

def maxParams : ℕ := 32
def maxSubparams : ℕ := 16
def maxIntermediates : ℕ := 2
def maxOsc : ℕ := 4 * 1024 * 1024
def maxDcs : ℕ := 64 * 1024
def maxApc : ℕ := 96 * 1024 * 1024

/-- Inside an escape or control sequence. -/
def midEscape (p : Parser) : Bool :=
  match p.state with
  | .escape | .escapeIntermediate | .csiEntry | .csiParam | .csiIntermediate => true
  | _ => false

/-- Forgets the parameters. -/
def clear (p : Parser) : Parser :=
  { p with
      params := []
      curParts := []
      curVal := 0
      partSeen := false
      intermediates := []
      marker := 0 }

def startString (p : Parser) (state : ParserState) : Parser :=
  { p with stringBuf := [], stringOverflow := false, state }

/-- Forgets an unfinished character. -/
def utf8Reset (p : Parser) : Parser := { p with utf8 := [], utf8Need := 0 }

/-! ### Ground -/

/-- A C1 control. -/
def c1 (p : Parser) (b : UInt8) : Parser × List Action :=
  if b = 0x90 then ({ p.clear with state := .dcsEntry }, [])
  else if b = 0x98 ∨ b = 0x9E then (p.startString .sosPmString, [])
  else if b = 0x9B then ({ p.clear with state := .csiEntry }, [])
  else if b = 0x9C then ({ p with state := .ground }, [])
  else if b = 0x9D then (p.startString .oscString, [])
  else if b = 0x9F then (p.startString .apcString, [])
  else (p, [.execute b])

/-- The lead byte of a character of `need` more bytes. -/
def utf8Lead (p : Parser) (b : UInt8) (need : ℕ) : Parser :=
  { p with utf8 := [b], utf8Need := need }

/-- A byte in the ground state, no character pending. -/
def groundByte (p : Parser) (b : UInt8) : Parser × List Action :=
  if b = 0x1B then ({ p with state := .escape }, [])
  else if b.toNat ≤ 0x1F then (p, [.execute b])
  else if b.toNat ≤ 0x7E then (p, [.print (Utf8.scalar b.toNat)])
  else if b = 0x7F then (p, [])
  else if b.toNat ≤ 0x9F then p.c1 b
  else if b.toNat ≤ 0xBF then (p, [.print Utf8.replacement])
  else if 0xC2 ≤ b.toNat ∧ b.toNat ≤ 0xDF then (p.utf8Lead b 1, [])
  else if 0xE0 ≤ b.toNat ∧ b.toNat ≤ 0xEF then (p.utf8Lead b 2, [])
  else if 0xF0 ≤ b.toNat ∧ b.toNat ≤ 0xF4 then (p.utf8Lead b 3, [])
  -- 0xC0, 0xC1 and 0xF5 on never begin a character
  else (p, [.print Utf8.replacement])

/-- A byte in the ground state. -/
def ground (p : Parser) (b : UInt8) : Parser × List Action :=
  if p.utf8Need > 0 then
    if Utf8.isCont b then
      let bytes := p.utf8 ++ [b]
      if p.utf8Need = 1 then
        (p.utf8Reset, [.print ((Utf8.decode? bytes).getD Utf8.replacement)])
      else ({ p with utf8 := bytes, utf8Need := p.utf8Need - 1 }, [])
    else
      let (q, out) := p.utf8Reset.groundByte b
      (q, .print Utf8.replacement :: out)
  else p.groundByte b

/-! ### Escape sequences -/

/-- The bytes that mean the same in every state but ground and strings. -/
def anywhere (p : Parser) (b : UInt8) : Option (Parser × List Action) :=
  if b = 0x1B then some ({ p with state := .escape }, [])
  else if b = 0x18 ∨ b = 0x1A then some ({ p with state := .ground }, [.execute b])
  else if 0x80 ≤ b.toNat ∧ b.toNat ≤ 0x9F then some (c1 { p with state := .ground } b)
  else none

def escape (p : Parser) (b : UInt8) : Parser × List Action :=
  match p.anywhere b with
  | some r => r
  | none =>
    if b.toNat ≤ 0x1F then (p, [.execute b])
    else if b.toNat ≤ 0x2F then
      ({ p.clear with intermediates := [b], state := .escapeIntermediate }, [])
    else if b = 0x5B then ({ p.clear with state := .csiEntry }, [])
    else if b = 0x5D then (p.startString .oscString, [])
    else if b = 0x50 then ({ p.clear with state := .dcsEntry }, [])
    else if b = 0x5F then (p.startString .apcString, [])
    else if b = 0x58 ∨ b = 0x5E then (p.startString .sosPmString, [])
    else if b.toNat ≤ 0x7E then ({ p with state := .ground }, [.esc [] b])
    else (p, [])

def escapeIntermediate (p : Parser) (b : UInt8) : Parser × List Action :=
  match p.anywhere b with
  | some r => r
  | none =>
    if b.toNat ≤ 0x1F then (p, [.execute b])
    else if b.toNat ≤ 0x2F then
      if p.intermediates.length < maxIntermediates then
        ({ p with intermediates := p.intermediates ++ [b] }, [])
      else (p, [])
    else if b.toNat ≤ 0x7E then
      ({ p with intermediates := [], state := .ground }, [.esc p.intermediates b])
    else (p, [])

/-! ### Control sequences -/

/-- A digit of a parameter; the value is capped. -/
def paramDigit (p : Parser) (b : UInt8) : Parser :=
  { p with curVal := min (p.curVal * 10 + (b.toNat - 0x30)) 65535, partSeen := true }

/-- The end of a part. -/
def paramColon (p : Parser) : Parser :=
  { p with
      curParts := if p.curParts.length < maxSubparams then p.curParts ++ [p.curVal] else p.curParts
      curVal := 0
      partSeen := true }

def paramSemicolon (p : Parser) : Parser :=
  { p with
      params := if p.params.length < maxParams then p.params ++ [p.curParts ++ [p.curVal]]
        else p.params
      curParts := []
      curVal := 0
      partSeen := true }

/-- The parameters, and the machine without them. -/
def takeParams (p : Parser) : List (List ℕ) × Parser :=
  let params :=
    if p.partSeen || !p.curParts.isEmpty then
      if p.params.length < maxParams then p.params ++ [p.curParts ++ [p.curVal]] else p.params
    else p.params
  (params, { p with params := [], curParts := [], curVal := 0, partSeen := false })

/-- The end of a control sequence. -/
def csiDispatch (p : Parser) (b : UInt8) : Parser × List Action :=
  let (params, q) := p.takeParams
  ({ q with intermediates := [], state := .ground }, [.csi params q.intermediates q.marker b])

/-- The first byte of a control sequence. -/
def csiEntry (p : Parser) (b : UInt8) : Parser × List Action :=
  match p.anywhere b with
  | some r => r
  | none =>
    if b.toNat ≤ 0x1F then (p, [.execute b])
    else if b.toNat ≤ 0x2F then
      ({ p with intermediates := p.intermediates ++ [b], state := .csiIntermediate }, [])
    else if b.toNat ≤ 0x39 then ({ p.paramDigit b with state := .csiParam }, [])
    else if b = 0x3A then ({ p.paramColon with state := .csiParam }, [])
    else if b = 0x3B then ({ p.paramSemicolon with state := .csiParam }, [])
    else if b.toNat ≤ 0x3F then ({ p with marker := b, state := .csiParam }, [])
    else if b.toNat ≤ 0x7E then p.csiDispatch b
    else (p, [])

def csiParam (p : Parser) (b : UInt8) : Parser × List Action :=
  match p.anywhere b with
  | some r => r
  | none =>
    if b.toNat ≤ 0x1F then (p, [.execute b])
    else if b.toNat ≤ 0x2F then
      let intermediates :=
        if p.intermediates.length < maxIntermediates then p.intermediates ++ [b]
        else p.intermediates
      ({ p with intermediates, state := .csiIntermediate }, [])
    else if b.toNat ≤ 0x39 then (p.paramDigit b, [])
    else if b = 0x3A then (p.paramColon, [])
    else if b = 0x3B then (p.paramSemicolon, [])
    else if b.toNat ≤ 0x3F then ({ p with state := .csiIgnore }, [])
    else if b.toNat ≤ 0x7E then p.csiDispatch b
    else (p, [])

def csiIntermediate (p : Parser) (b : UInt8) : Parser × List Action :=
  match p.anywhere b with
  | some r => r
  | none =>
    if b.toNat ≤ 0x1F then (p, [.execute b])
    else if b.toNat ≤ 0x2F then
      if p.intermediates.length < maxIntermediates then
        ({ p with intermediates := p.intermediates ++ [b] }, [])
      else (p, [])
    else if b.toNat ≤ 0x3F then ({ p with state := .csiIgnore }, [])
    else if b.toNat ≤ 0x7E then p.csiDispatch b
    else (p, [])

/-- In a control sequence that is ignored. -/
def csiIgnore (p : Parser) (b : UInt8) : Parser × List Action :=
  match p.anywhere b with
  | some r => r
  | none =>
    if b.toNat ≤ 0x1F then (p, [.execute b])
    else if 0x40 ≤ b.toNat ∧ b.toNat ≤ 0x7E then ({ p.clear with state := .ground }, [])
    else (p, [])

/-! ### Strings -/

/-- Content of a string of at most `cap` bytes. -/
def pushStringByte (p : Parser) (b : UInt8) (cap : ℕ) : Parser :=
  if p.stringBuf.length < cap then { p with stringBuf := p.stringBuf ++ [b] }
  else { p with stringOverflow := true }

/-- The end of an OSC string. -/
def finishOsc (p : Parser) (bel : Bool) : Parser × List Action :=
  ({ p with stringBuf := [], stringOverflow := false, state := .ground },
    if p.stringOverflow then [] else [.osc p.stringBuf bel])

/-- In an OSC string. -/
def oscString (p : Parser) (b : UInt8) : Parser × List Action :=
  if b = 0x07 then p.finishOsc true
  else if b = 0x1B then
    let (q, out) := p.finishOsc false
    ({ q with state := .escape }, out)
  else if b = 0x18 ∨ b = 0x1A then ({ p with state := .ground }, [])
  else if b.toNat ≤ 0x1F then (p, [])
  else (p.pushStringByte b maxOsc, [])

/-- In an APC string. -/
def apcString (p : Parser) (b : UInt8) : Parser × List Action :=
  if b = 0x1B then
    ({ p with stringBuf := [], stringOverflow := false, state := .escape },
      if p.stringOverflow then [] else [.apc p.stringBuf])
  else if b = 0x18 ∨ b = 0x1A then ({ p with state := .ground }, [])
  else (p.pushStringByte b maxApc, [])

/-- In a string nobody reads. -/
def sosPm (p : Parser) (b : UInt8) : Parser × List Action :=
  if b = 0x1B then ({ p with state := .escape }, [])
  else if b = 0x18 ∨ b = 0x1A ∨ b = 0x9C then ({ p with state := .ground }, [])
  else (p, [])

/-! ### Device control strings -/

/-- The header of a device control string is complete. -/
def dcsHook (p : Parser) (b : UInt8) : Parser :=
  { p with dcsFinal := b, stringBuf := [], stringOverflow := false, state := .dcsPassthrough }

/-- The first byte of a device control string. -/
def dcsEntry (p : Parser) (b : UInt8) : Parser × List Action :=
  match p.anywhere b with
  | some r => r
  | none =>
    if 0x30 ≤ b.toNat ∧ b.toNat ≤ 0x39 then ({ p.paramDigit b with state := .dcsParam }, [])
    else if b = 0x3A then ({ p.paramColon with state := .dcsParam }, [])
    else if b = 0x3B then ({ p.paramSemicolon with state := .dcsParam }, [])
    else if 0x3C ≤ b.toNat ∧ b.toNat ≤ 0x3F then ({ p with marker := b, state := .dcsParam }, [])
    else if 0x20 ≤ b.toNat ∧ b.toNat ≤ 0x2F then
      ({ p with intermediates := p.intermediates ++ [b], state := .dcsIntermediate }, [])
    else if 0x40 ≤ b.toNat ∧ b.toNat ≤ 0x7E then (p.dcsHook b, [])
    else (p, [])

/-- Among the parameters of a device control string. -/
def dcsParam (p : Parser) (b : UInt8) : Parser × List Action :=
  match p.anywhere b with
  | some r => r
  | none =>
    if 0x30 ≤ b.toNat ∧ b.toNat ≤ 0x39 then (p.paramDigit b, [])
    else if b = 0x3A then (p.paramColon, [])
    else if b = 0x3B then (p.paramSemicolon, [])
    else if 0x3C ≤ b.toNat ∧ b.toNat ≤ 0x3F then ({ p with state := .dcsIgnore }, [])
    else if 0x20 ≤ b.toNat ∧ b.toNat ≤ 0x2F then
      let intermediates :=
        if p.intermediates.length < maxIntermediates then p.intermediates ++ [b]
        else p.intermediates
      ({ p with intermediates, state := .dcsIntermediate }, [])
    else if 0x40 ≤ b.toNat ∧ b.toNat ≤ 0x7E then (p.dcsHook b, [])
    else (p, [])

/-- Among the intermediates of a device control string. -/
def dcsIntermediate (p : Parser) (b : UInt8) : Parser × List Action :=
  match p.anywhere b with
  | some r => r
  | none =>
    if 0x20 ≤ b.toNat ∧ b.toNat ≤ 0x2F then
      if p.intermediates.length < maxIntermediates then
        ({ p with intermediates := p.intermediates ++ [b] }, [])
      else (p, [])
    else if 0x30 ≤ b.toNat ∧ b.toNat ≤ 0x3F then ({ p with state := .dcsIgnore }, [])
    else if 0x40 ≤ b.toNat ∧ b.toNat ≤ 0x7E then (p.dcsHook b, [])
    else (p, [])

/-- The end of a device control string. -/
def dcsUnhook (p : Parser) : Parser × List Action :=
  (clear { p with stringBuf := [], stringOverflow := false }, if p.stringOverflow then []
    else [.dcs p.takeParams.1 p.intermediates p.dcsFinal p.stringBuf])

/-- In a device control string. -/
def dcsPassthrough (p : Parser) (b : UInt8) : Parser × List Action :=
  if b = 0x1B then
    let (q, out) := p.dcsUnhook
    ({ q with state := .escape }, out)
  else if b = 0x9C then
    let (q, out) := p.dcsUnhook
    ({ q with state := .ground }, out)
  else if b = 0x18 ∨ b = 0x1A then ({ p.clear with stringBuf := [], state := .ground }, [])
  else (p.pushStringByte b maxDcs, [])

/-- In a device control string that is ignored. -/
def dcsIgnore (p : Parser) (b : UInt8) : Parser × List Action :=
  if b = 0x1B then ({ p with state := .escape }, [])
  else if b = 0x18 ∨ b = 0x1A ∨ b = 0x9C then ({ p with state := .ground }, [])
  else (p, [])

/-! ### The machine -/

def advance (p : Parser) (b : UInt8) : Parser × List Action :=
  match p.state with
  | .ground => p.ground b
  | .escape => p.escape b
  | .escapeIntermediate => p.escapeIntermediate b
  | .csiEntry => p.csiEntry b
  | .csiParam => p.csiParam b
  | .csiIntermediate => p.csiIntermediate b
  | .csiIgnore => p.csiIgnore b
  | .oscString => p.oscString b
  | .dcsEntry => p.dcsEntry b
  | .dcsParam => p.dcsParam b
  | .dcsIntermediate => p.dcsIntermediate b
  | .dcsPassthrough => p.dcsPassthrough b
  | .dcsIgnore => p.dcsIgnore b
  | .sosPmString => p.sosPm b
  | .apcString => p.apcString b

/-- A byte string: the machine after it, and every action on the way. -/
def run (p : Parser) : List UInt8 → Parser × List Action
  | [] => (p, [])
  | b :: bs =>
    let (q, out) := p.advance b
    let (r, rest) := q.run bs
    (r, out ++ rest)

@[simp] theorem run_nil (p : Parser) : p.run [] = (p, []) := rfl

theorem run_cons (p : Parser) (b : UInt8) (bs : List UInt8) :
    p.run (b :: bs) = (((p.advance b).1.run bs).1, (p.advance b).2 ++ ((p.advance b).1.run bs).2) := rfl

theorem run_append (p : Parser) (xs ys : List UInt8) :
    p.run (xs ++ ys) = (((p.run xs).1.run ys).1, (p.run xs).2 ++ ((p.run xs).1.run ys).2) := by
  induction xs generalizing p with
  | nil => rfl
  | cons b xs ih =>
    rw [List.cons_append, run_cons, ih, run_cons, List.append_assoc]

end Parser

/-! ### Reading parameters -/

/-- The first part of parameter `i`, or `default`. -/
def param (params : List (List ℕ)) (i default : ℕ) : ℕ := ((params[i]?).bind List.head?).getD default

/-- As `param`, with 0 read as `default`. -/
def paramOr (params : List (List ℕ)) (i default : ℕ) : ℕ :=
  let v := param params i 0
  if v = 0 then default else v

end Posh.Term
