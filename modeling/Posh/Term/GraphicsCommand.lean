/-
**Graphics commands, as they are read.**

A command is a list of keys, each with a value, before a semicolon, and a payload behind it.  A value is a
character or a number; a number is read as one of 64 bits and then cut to the width of its key, so that every
value of a key can be sent.
-/

import Posh.Term.Emit

set_option autoImplicit false

namespace Posh.Term

/-! ### Numbers -/

/-- The number that digits stand for. -/
def digitsValue : ℕ → List UInt8 → Option ℕ
  | acc, [] => some acc
  | acc, b :: rest =>
    if 0x30 ≤ b.toNat ∧ b.toNat ≤ 0x39 then digitsValue (acc * 10 + (b.toNat - 0x30)) rest else none

/-- `parse::<i64>()`: a sign, if any, and at least one digit; a number that 64 bits do not hold is none. -/
def parseI64 (s : List UInt8) : Option ℤ :=
  let (negative, digits) :=
    match s with
    | b :: rest => if b = byte '-' then (true, rest) else if b = byte '+' then (false, rest) else (false, s)
    | [] => (false, [])
  if digits = [] then none
  else
    match digitsValue 0 digits with
    | none => none
    | some n =>
      let v : ℤ := if negative then -n else n
      if -2 ^ 63 ≤ v ∧ v < 2 ^ 63 then some v else none

/-- A number cut to its last `w` bits. -/
def cutTo (w : ℕ) (v : ℤ) : ℕ := (v % 2 ^ w).toNat

/-- A number cut to its last `w` bits, with a sign. -/
def cutSigned (w : ℕ) (v : ℤ) : ℤ := v.bmod (2 ^ w)

theorem cutTo_lt (w : ℕ) (v : ℤ) : cutTo w v < 2 ^ w := by
  have hpow : ((2 ^ w : ℕ) : ℤ) = 2 ^ w := Int.natCast_pow 2 w
  have hpos : (0 : ℤ) < 2 ^ w := by
    rw [← hpow]
    exact Int.natCast_pos.2 (Nat.two_pow_pos w)
  rw [cutTo, Int.toNat_lt (Int.emod_nonneg v (Int.ne_of_gt hpos)), hpow]
  exact Int.emod_lt_of_pos v hpos

/-! ### Commands -/

/-- The values of the keys of a command. -/
structure GraphicsCommand where
  action : UInt8 := 0
  quiet : ℕ := 0
  format : ℕ := 0
  transmission : UInt8 := 0
  width : ℕ := 0
  height : ℕ := 0
  id : ℕ := 0
  number : ℕ := 0
  placementId : ℕ := 0
  more : ℕ := 0
  srcX : ℕ := 0
  srcY : ℕ := 0
  srcW : ℕ := 0
  srcH : ℕ := 0
  cols : ℕ := 0
  rows : ℕ := 0
  z : ℤ := 0
  delete : UInt8 := 0
  /-- the cursor stays where it is -/
  noCursorMove : Bool := false
  unicode : Bool := false
  parentImage : ℕ := 0
  parentPlacement : ℕ := 0
  hOff : ℤ := 0
  vOff : ℤ := 0
  cellX : ℕ := 0
  cellY : ℕ := 0
  /-- of a file: from where, and how much -/
  fileOffset : ℕ := 0
  fileSize : ℕ := 0
  compression : UInt8 := 0
  deriving DecidableEq, Repr

namespace GraphicsCommand

/-- Gives a key its value; unknown keys are ignored. -/
def setKey (cmd : GraphicsCommand) (key value : List UInt8) : GraphicsCommand :=
  -- text that is not UTF-8 has a byte that is no digit, and is 0 like any other that is no number
  let int := (parseI64 value).getD 0
  let ch := value.head?.getD 0
  match key with
  | [k] =>
    if k = byte 'a' then { cmd with action := ch }
    else if k = byte 'q' then { cmd with quiet := cutTo 8 int }
    else if k = byte 'f' then { cmd with format := cutTo 32 int }
    else if k = byte 't' then { cmd with transmission := ch }
    else if k = byte 's' then { cmd with width := cutTo 32 int }
    else if k = byte 'v' then { cmd with height := cutTo 32 int }
    else if k = byte 'i' then { cmd with id := cutTo 32 int }
    else if k = byte 'I' then { cmd with number := cutTo 32 int }
    else if k = byte 'p' then { cmd with placementId := cutTo 32 int }
    else if k = byte 'm' then { cmd with more := cutTo 8 int }
    else if k = byte 'x' then { cmd with srcX := cutTo 32 int }
    else if k = byte 'y' then { cmd with srcY := cutTo 32 int }
    else if k = byte 'w' then { cmd with srcW := cutTo 32 int }
    else if k = byte 'h' then { cmd with srcH := cutTo 32 int }
    else if k = byte 'c' then { cmd with cols := cutTo 32 int }
    else if k = byte 'r' then { cmd with rows := cutTo 32 int }
    else if k = byte 'z' then { cmd with z := cutSigned 32 int }
    else if k = byte 'd' then { cmd with delete := ch }
    else if k = byte 'C' then { cmd with noCursorMove := decide (int = 1) }
    else if k = byte 'U' then { cmd with unicode := decide (int = 1) }
    else if k = byte 'P' then { cmd with parentImage := cutTo 32 int }
    else if k = byte 'Q' then { cmd with parentPlacement := cutTo 32 int }
    else if k = byte 'H' then { cmd with hOff := cutSigned 32 int }
    else if k = byte 'V' then { cmd with vOff := cutSigned 32 int }
    else if k = byte 'X' then { cmd with cellX := cutTo 32 int }
    else if k = byte 'Y' then { cmd with cellY := cutTo 32 int }
    else if k = byte 'O' then { cmd with fileOffset := cutTo 64 int }
    else if k = byte 'S' then { cmd with fileSize := cutTo 64 int }
    else if k = byte 'o' then { cmd with compression := ch }
    else cmd
  | _ => cmd

/-- Reads keys and values one after another; a key without a value is no command. -/
def setKeys : GraphicsCommand → List (List UInt8) → Option GraphicsCommand
  | cmd, [] => some cmd
  | cmd, pair :: pairs =>
    if pair = [] then setKeys cmd pairs
    else if byte '=' ∈ pair then
      setKeys (cmd.setKey (pair.takeWhile (· ≠ byte '=')) ((pair.dropWhile (· ≠ byte '=')).drop 1)) pairs
    else none

/-- The answer to a command, if it can be addressed and was not asked not to. -/
def reply (cmd : GraphicsCommand) (message : String) : Option (List UInt8) :=
  if cmd.id = 0 ∧ cmd.number = 0 then none
  else if 2 ≤ cmd.quiet ∨ (message = "OK" ∧ cmd.quiet = 1) then none
  else
    let byId := if cmd.id ≠ 0 then [byte 'i', byte '='] ++ decimal cmd.id else []
    let comma := if cmd.id ≠ 0 ∧ cmd.number ≠ 0 then [byte ','] else []
    let byNumber := if cmd.number ≠ 0 then [byte 'I', byte '='] ++ decimal cmd.number else []
    some (apc (byte 'G' :: (byId ++ comma ++ byNumber) ++ byte ';' :: message.toList.map byte))

/-- The columns of pixels fit 32 bits. -/
structure Fits (cmd : GraphicsCommand) : Prop where
  srcX : cmd.srcX < 2 ^ 32
  cellX : cmd.cellX < 2 ^ 32

theorem Fits.ite {p : Prop} [Decidable p] {cmd cmd' : GraphicsCommand} (h : cmd.Fits) (h' : cmd'.Fits) :
    (if p then cmd else cmd').Fits := by
  split
  · exact h
  · exact h'

theorem Fits.setKey {cmd : GraphicsCommand} (h : cmd.Fits) (key value : List UInt8) :
    (cmd.setKey key value).Fits := by
  obtain ⟨hsrc, hcell⟩ := h
  unfold GraphicsCommand.setKey
  dsimp only
  split
  · repeat' first
      | exact ⟨hsrc, hcell⟩
      | exact ⟨cutTo_lt 32 _, hcell⟩
      | exact ⟨hsrc, cutTo_lt 32 _⟩
      | refine Fits.ite ?_ ?_
  · exact ⟨hsrc, hcell⟩

theorem Fits.setKeys {pairs : List (List UInt8)} : ∀ {cmd cmd' : GraphicsCommand}, cmd.Fits →
    cmd.setKeys pairs = some cmd' → cmd'.Fits := by
  induction pairs with
  | nil =>
    intro cmd cmd' h hset
    cases hset
    exact h
  | cons pair pairs ih =>
    intro cmd cmd' h hset
    rw [GraphicsCommand.setKeys] at hset
    split at hset
    · exact ih h hset
    · split at hset
      · exact ih (h.setKey _ _) hset
      · cases hset

end GraphicsCommand

/-- The keys of a message, and its payload. -/
def splitControl (data : List UInt8) : List UInt8 × List UInt8 :=
  if byte ';' ∈ data then (data.takeWhile (· ≠ byte ';'), (data.dropWhile (· ≠ byte ';')).drop 1)
  else (data, [])

/-- Reads the keys of a command. -/
def parseCommand (control : List UInt8) : Option GraphicsCommand :=
  GraphicsCommand.setKeys {} (control.splitOn (byte ','))

/-- **The columns that are read fit 32 bits.** -/
theorem fits_parseCommand {control : List UInt8} {cmd : GraphicsCommand} (h : parseCommand control = some cmd) :
    cmd.Fits :=
  GraphicsCommand.Fits.setKeys ⟨by decide, by decide⟩ h

theorem length_splitControl (data : List UInt8) : (splitControl data).2.length ≤ data.length := by
  rw [splitControl]
  split
  · rw [List.length_drop]
    have := (List.dropWhile_sublist (fun x => decide (x ≠ byte ';')) (l := data)).length_le
    omega
  · exact Nat.zero_le _

end Posh.Term
