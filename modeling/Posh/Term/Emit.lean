/-
**Writing escape sequences.**

The byte strings a terminal and its serialisers write: numbers, and the sequences built of them.
-/

import Mathlib.Algebra.Group.Int.Defs
import Mathlib.Algebra.Group.Nat.Defs
import Mathlib.Tactic.Common

set_option autoImplicit false

namespace Posh.Term

/-! ### Numbers -/

/-- The byte of an ASCII character. -/
def byte (c : Char) : UInt8 := UInt8.ofNat c.toNat

def decimal (n : ℕ) : List UInt8 := (Nat.toDigits 10 n).map byte

/-- A signed number in decimal. -/
def decimalInt : ℤ → List UInt8
  | .ofNat n => decimal n
  | .negSucc n => byte '-' :: decimal (n + 1)

/-- Numbers separated by semicolons. -/
def numbers : List ℕ → List UInt8
  | [] => []
  | [n] => decimal n
  | n :: ns => decimal n ++ byte ';' :: numbers ns

/-- The last `width` digits of a number in hexadecimal. -/
def hex (width n : ℕ) : List UInt8 :=
  ((List.range width).map fun i => byte (Nat.digitChar (n / 16 ^ i % 16))).reverse

/-! ### Sequences -/

/-- The escape byte. -/
def esc : UInt8 := 0x1B

/-- A control sequence. -/
def csi (body : List UInt8) (final : Char) : List UInt8 := esc :: byte '[' :: body ++ [byte final]

/-- An operating system command ended by ST. -/
def oscSt (body : List UInt8) : List UInt8 := esc :: byte ']' :: body ++ [esc, 0x5C]

/-- An operating system command ended by BEL. -/
def oscBel (body : List UInt8) : List UInt8 := esc :: byte ']' :: body ++ [0x07]

/-- An application program command. -/
def apc (body : List UInt8) : List UInt8 := esc :: byte '_' :: body ++ [esc, 0x5C]

/-- A device control string. -/
def dcs (body : List UInt8) : List UInt8 := esc :: byte 'P' :: body ++ [esc, 0x5C]

/-- A plain escape sequence. -/
def escSeq (intermediates : List UInt8) (final : Char) : List UInt8 :=
  esc :: intermediates ++ [byte final]

/-- Sets private mode `n`. -/
def decset (n : ℕ) : List UInt8 := csi (byte '?' :: decimal n) 'h'

/-- Resets private mode `n`. -/
def decrst (n : ℕ) : List UInt8 := csi (byte '?' :: decimal n) 'l'

/-- Moves the cursor to row and column, counted from one. -/
def cup (row col : ℕ) : List UInt8 := csi (numbers [row, col]) 'H'

/-! ### What numbers are made of -/

theorem toNat_byte {c : Char} (h : c.toNat < 256) : (byte c).toNat = c.toNat := by
  rw [byte, UInt8.toNat_ofNat']
  exact Nat.mod_eq_of_lt h

theorem decimal_digits (n : ℕ) : ∀ b ∈ decimal n, 0x30 ≤ b.toNat ∧ b.toNat ≤ 0x39 := by
  intro b hb
  obtain ⟨c, hc, rfl⟩ := List.mem_map.mp hb
  have hd := Nat.isDigit_of_mem_toDigits (by decide) (by decide) hc
  rw [Char.isDigit, Bool.and_eq_true, decide_eq_true_eq, decide_eq_true_eq] at hd
  have h1 : (48 : ℕ) ≤ c.toNat := UInt32.le_iff_toNat_le.mp hd.1
  have h2 : c.toNat ≤ 57 := UInt32.le_iff_toNat_le.mp hd.2
  rw [toNat_byte (by omega)]
  omega

theorem decimal_ascii (n : ℕ) : ∀ b ∈ decimal n, b.toNat < 0x80 := fun b hb =>
  Nat.lt_of_le_of_lt (decimal_digits n b hb).2 (by decide)

end Posh.Term
