/-
**Session names and their sockets.**

A session's socket is a file in its group's directory, under the name with the bytes escaped that a file
name cannot have; its status socket is beside it, under the same name with a suffix, and a scan of the
directory takes every other socket for a session.  The escaping is undone byte by byte.  A byte past ASCII
is written as the character of that number, so that only names in ASCII come back.
-/

import Mathlib.Data.Bool.AllAny
import Mathlib.Data.Char
import Mathlib.Data.List.Induction
import Mathlib.Data.List.Lex
import Posh.Lib.Utf8

set_option autoImplicit false

namespace Posh.SessionNames

open Utf8 (encode)

/-! ### The escaping -/

def filenameSafe (ch : UInt8) : Bool := ch ≠ 0x2F && ch ≠ 0x5C && ch ≠ 0x25 && ch ≠ 0

def hexDigit (n : ℕ) : Char :=
  ['0', '1', '2', '3', '4', '5', '6', '7', '8', '9', 'A', 'B', 'C', 'D', 'E', 'F'].getD n '0'

/-- A byte as the character of its number. -/
def latin (b : UInt8) : Char := Char.ofNat b.toNat

/-- What is written for a byte. -/
def piece (b : UInt8) : List Char :=
  if filenameSafe b then [latin b] else ['%', hexDigit (b.toNat / 16), hexDigit (b.toNat % 16)]

def encodeBytes (bytes : List UInt8) : List Char := bytes.flatMap piece

def encodeSessionName (name : List Char) : List Char := encodeBytes (Utf8.encode name)

/-- `to_digit(16)`. -/
def toDigit (b : UInt8) : Option ℕ :=
  let n := b.toNat
  if 0x30 ≤ n ∧ n ≤ 0x39 then some (n - 0x30)
  else if 0x41 ≤ n ∧ n ≤ 0x46 then some (n - 0x37)
  else if 0x61 ≤ n ∧ n ≤ 0x66 then some (n - 0x57)
  else none

/-- The loop over the bytes: an escape needs two more bytes, both digits. -/
def decodeBytes : List UInt8 → List UInt8
  | b :: hi :: lo :: rest =>
    match if b = 0x25 then (toDigit hi).bind fun h => (toDigit lo).map fun l => h * 16 + l else none with
    | some v => UInt8.ofNat v :: decodeBytes rest
    | none => b :: decodeBytes (hi :: lo :: rest)
  | b :: rest => b :: decodeBytes rest
  | [] => []

def decodeSessionName (encoded : List Char) : List Char := Utf8.lossy (decodeBytes (Utf8.encode encoded))

/-! ### The sockets -/

def statusSockSuffix : List Char := ['.', 's', 't', 'a', 't', 'u', 's', '.', 's', 'o', 'c', 'k']

/-- The file of a session's socket, within its directory. -/
def socketFile (name : List Char) : List Char := encodeSessionName name

def statusSocketFile (name : List Char) : List Char := encodeSessionName name ++ statusSockSuffix

def isStatusSocketName (encoded : List Char) : Bool := statusSockSuffix.isSuffixOf encoded

structure DirEntry where
  fileName : List UInt8
  isSocket : Bool
deriving DecidableEq, Repr

/-- The session that a directory entry is listed as. -/
def DirEntry.session (entry : DirEntry) : Option (List Char) :=
  if !entry.isSocket then none
  else
    let encoded := Utf8.lossy entry.fileName
    if isStatusSocketName encoded then none else some (decodeSessionName encoded)

/-- **The names that a scan lists**, in order. -/
def scanSessions (dir : List DirEntry) : List (List Char) :=
  (dir.filterMap DirEntry.session).mergeSort fun a b => decide (a ≤ b)

def socketEntry (name : List Char) : DirEntry := { fileName := Utf8.encode (socketFile name), isSocket := true }

/-- **What a name needs from its files**: it comes back from its own, no other name has that, which is one
component of a path, names no directory and is nobody's status socket; and a scan lists it once more, under
the name. -/
structure OneToOne (name : List Char) : Prop where
  roundTrip : decodeSessionName (encodeSessionName name) = name
  distinct : ∀ other, encodeSessionName other = encodeSessionName name → other = name
  component : encodeSessionName name ≠ [] ∧ ∀ c ∈ encodeSessionName name, c ≠ '/' ∧ c ≠ Char.ofNat 0
  notDot : encodeSessionName name ≠ ['.'] ∧ encodeSessionName name ≠ ['.', '.']
  apart : ∀ other ≠ [], socketFile name ≠ statusSocketFile other
  listed : ∀ before after, (scanSessions (before ++ socketEntry name :: after)).Perm
    (name :: scanSessions (before ++ after))

/-! ### What comes back -/

theorem encodeBytes_append (x y : List UInt8) : encodeBytes (x ++ y) = encodeBytes x ++ encodeBytes y :=
  List.flatMap_append

theorem encode_append (x y : List Char) : encodeSessionName (x ++ y) = encodeSessionName x ++ encodeSessionName y := by
  rw [encodeSessionName, encode, List.flatMap_append]
  exact encodeBytes_append _ _

theorem decodeBytes_literal {b : UInt8} (h : b ≠ 0x25) (rest : List UInt8) : decodeBytes (b :: rest) = b :: decodeBytes rest := by
  match rest with
  | [] => rfl
  | [_] => rfl
  | hi :: lo :: rest => rw [decodeBytes, if_neg h]

theorem decodeBytes_literals {x : List UInt8} (h : ∀ b ∈ x, b ≠ 0x25) (rest : List UInt8) :
    decodeBytes (x ++ rest) = x ++ decodeBytes rest := by
  induction x with
  | nil => rfl
  | cons b x ih =>
    obtain ⟨hb, hx⟩ := List.forall_mem_cons.mp h
    rw [List.cons_append, decodeBytes_literal hb, ih hx, List.cons_append]

theorem forall_byte {P : UInt8 → Prop} (h : ∀ n < 256, P (UInt8.ofNat n)) (b : UInt8) : P b := by
  have hb := h b.toNat b.toNat_lt
  rwa [UInt8.ofNat_toNat] at hb

/-- The two digits of an escaped byte. -/
def digits (b : UInt8) : UInt8 × UInt8 :=
  (UInt8.ofNat (hexDigit (b.toNat / 16)).toNat, UInt8.ofNat (hexDigit (b.toNat % 16)).toNat)

/-- **A byte in a file name**: written as the character of its number where it is safe, else escaped; what it is
written as has no slash, and as the last character only a digit that no plain name ends in. -/
theorem piece_spec : ∀ b : UInt8, UInt8.ofNat (latin b).toNat = b ∧
    (piece b).all (fun c => c ≠ '/' ∧ c ≠ Char.ofNat 0) = true ∧
    (filenameSafe b = true → (encode [latin b]).all (· ≠ 0x25) = true) ∧
    (filenameSafe b = false → encode (piece b) = [0x25, (digits b).1, (digits b).2] ∧
      toDigit (digits b).1 = some (b.toNat / 16) ∧ toDigit (digits b).2 = some (b.toNat % 16) ∧
      encode [latin b] = [b] ∧ hexDigit (b.toNat % 16) ∈ ['0', '5', 'C', 'F']) :=
  forall_byte (by decide +kernel)

theorem latin_injective : Function.Injective latin := by
  intro a b h
  rw [← (piece_spec a).1, ← (piece_spec b).1, h]

theorem decodeBytes_piece (b : UInt8) (rest : List UInt8) :
    decodeBytes (encode (piece b) ++ rest) = encode [latin b] ++ decodeBytes rest := by
  obtain ⟨-, -, hsafe, hescape⟩ := piece_spec b
  cases hb : filenameSafe b with
  | true =>
    rw [piece, if_pos hb]
    exact decodeBytes_literals (fun x hx => by simpa using List.all_eq_true.mp (hsafe hb) x hx) rest
  | false =>
    obtain ⟨hpiece, hhi, hlo, hlatin, -⟩ := hescape hb
    rw [hpiece, hlatin]
    show decodeBytes (0x25 :: _ :: _ :: rest) = b :: decodeBytes rest
    rw [decodeBytes, if_pos rfl, hhi, hlo]
    show UInt8.ofNat (b.toNat / 16 * 16 + b.toNat % 16) :: decodeBytes rest = _
    rw [Nat.div_add_mod', UInt8.ofNat_toNat]

/-- **What comes back**: the bytes of the name, each as the character of its number. -/
theorem decode_encode (name : List Char) :
    decodeSessionName (encodeSessionName name) = (encode name).map latin := by
  have hbytes (bytes : List UInt8) : decodeBytes (encode (encodeBytes bytes)) = encode (bytes.map latin) := by
    induction bytes with
    | nil => rfl
    | cons b bytes ih =>
      have hsplit : encode (encodeBytes (b :: bytes)) = encode (piece b) ++ encode (encodeBytes bytes) :=
        List.flatMap_append
      rw [hsplit, decodeBytes_piece, ih, List.map_cons, ← List.singleton_append]
      exact List.flatMap_append.symm
  rw [decodeSessionName, encodeSessionName, hbytes, Utf8.lossy_encode]

/-- **Distinct names have distinct files.** -/
theorem encode_injective : Function.Injective encodeSessionName := by
  intro x y h
  have hmap : (encode x).map latin = (encode y).map latin := by
    rw [← decode_encode, ← decode_encode, h]
  rw [← Utf8.lossy_encode x, List.map_injective_iff.mpr latin_injective hmap, Utf8.lossy_encode]

theorem length_encode (name : List Char) : name.length ≤ (encode name).length ∧
    ((encode name).length = name.length → ∀ c ∈ name, c.toNat < 0x80) := by
  induction name with
  | nil => exact ⟨Nat.le_refl _, fun _ c hc => absurd hc List.not_mem_nil⟩
  | cons c name ih =>
    have hlen : (encode (c :: name)).length = c.utf8Size + (encode name).length := by
      rw [encode, List.flatMap_cons, List.length_append, String.length_utf8EncodeChar]
      rfl
    have hpos := c.utf8Size_pos
    rw [hlen, List.length_cons]
    refine ⟨by omega, fun h => List.forall_mem_cons.mpr ⟨?_, ih.2 (by omega)⟩⟩
    have hone : c.utf8Size = 1 := by omega
    exact Nat.lt_succ_of_le (Char.utf8Size_eq_one_iff.mp hone)

/-- **Only a name in ASCII comes back.** -/
theorem comes_back_iff (name : List Char) :
    decodeSessionName (encodeSessionName name) = name ↔ ∀ c ∈ name, c.toNat < 0x80 := by
  rw [decode_encode]
  constructor
  · intro h
    exact (length_encode name).2 (by rw [← List.length_map latin, h])
  · intro h
    induction name with
    | nil => rfl
    | cons c name ih =>
      obtain ⟨hc, hname⟩ := List.forall_mem_cons.mp h
      have hbyte : (String.utf8EncodeChar c).map latin = [c] := by
        have hascii : ∀ n < 0x80, (String.utf8EncodeChar (Char.ofNat n)).map latin = [Char.ofNat n] := by decide +kernel
        have hback := hascii c.toNat hc
        rwa [Char.ofNat_toNat] at hback
      have hsplit : encode (c :: name) = String.utf8EncodeChar c ++ encode name := rfl
      rw [hsplit, List.map_append, hbyte, ih hname, List.singleton_append]

/-! ### One to one -/

theorem encode_status : encodeSessionName statusSockSuffix = statusSockSuffix := by decide +kernel

theorem statusSocketFile_eq (name : List Char) : statusSocketFile name = encodeSessionName (name ++ statusSockSuffix) := by
  rw [encode_append, encode_status, statusSocketFile]

theorem statusSockSuffix_plain : ∀ d ∈ statusSockSuffix, d ∉ ['0', '5', 'C', 'F'] :=
  List.all_iff_forall_prop.mp (by decide)

theorem encodeBytes_ending {bytes : List UInt8} {x y : List Char} (hy : ∀ d ∈ y, d ∉ ['0', '5', 'C', 'F'])
    (h : encodeBytes bytes = x ++ y) : ∃ init, bytes.map latin = init ++ y := by
  induction y using List.reverseRecOn generalizing bytes with
  | nil => exact ⟨bytes.map latin, (List.append_nil _).symm⟩
  | append_singleton y d ih =>
    have hpiece : ∀ b, ∃ front last, piece b = front ++ [last] ∧
        (last ∈ ['0', '5', 'C', 'F'] ∨ (front = [] ∧ last = latin b)) := by
      intro b
      obtain ⟨-, -, -, hescape⟩ := piece_spec b
      rw [piece]
      cases hb : filenameSafe b with
      | true => exact ⟨[], latin b, rfl, .inr ⟨rfl, rfl⟩⟩
      | false => exact ⟨['%', hexDigit (b.toNat / 16)], _, rfl, .inl (hescape hb).2.2.2.2⟩
    rcases List.eq_nil_or_concat' bytes with rfl | ⟨bytes, b, rfl⟩
    · exact absurd h (by simp [encodeBytes])
    · obtain ⟨front, last, hlast, hcase⟩ := hpiece b
      have hone : encodeBytes [b] = piece b := List.append_nil _
      rw [encodeBytes_append, hone, hlast, ← List.append_assoc, ← List.append_assoc] at h
      obtain ⟨hinit, hd⟩ := List.append_inj' h rfl
      cases hd
      rcases hcase with hmem | ⟨rfl, rfl⟩
      · exact absurd hmem (hy _ (List.mem_append_right _ List.mem_cons_self))
      · rw [List.append_nil] at hinit
        obtain ⟨init, hbytes⟩ := ih (fun d hd => hy d (List.mem_append_left _ hd)) hinit
        exact ⟨init, by rw [List.map_append, hbytes, List.append_assoc]; rfl⟩

theorem encode_component {name : List Char} (hne : name ≠ []) :
    encodeSessionName name ≠ [] ∧ ∀ c ∈ encodeSessionName name, c ≠ '/' ∧ c ≠ Char.ofNat 0 := by
  refine ⟨fun h => hne (encode_injective h), fun c hc => ?_⟩
  obtain ⟨b, -, hb⟩ := List.mem_flatMap.mp hc
  exact of_decide_eq_true (List.all_eq_true.mp (piece_spec b).2.1 c hb)

theorem session_socketEntry {name : List Char} (h : isStatusSocketName (encodeSessionName name) = false) :
    (socketEntry name).session = some (decodeSessionName (encodeSessionName name)) := by
  have hname : Utf8.lossy (socketEntry name).fileName = encodeSessionName name := Utf8.lossy_encode _
  rw [DirEntry.session, hname]
  show (if isStatusSocketName (encodeSessionName name) then none else some _) = _
  rw [h]
  rfl

/-- **Which names are one to one with their files**: those in ASCII that are no directory's and do not end as
the file of a status socket. -/
theorem one_to_one_iff (name : List Char) (hne : name ≠ []) :
    OneToOne name ↔ (∀ c ∈ name, c.toNat < 0x80) ∧ name ≠ ['.'] ∧ name ≠ ['.', '.'] ∧ ¬ statusSockSuffix <:+ name := by
  have hdot : encodeSessionName ['.'] = ['.'] ∧ encodeSessionName ['.', '.'] = ['.', '.'] := by decide +kernel
  constructor
  · intro h
    refine ⟨(comes_back_iff name).mp h.roundTrip, ?_, ?_, ?_⟩
    · rintro rfl
      exact h.notDot.1 hdot.1
    · rintro rfl
      exact h.notDot.2 hdot.2
    · rintro ⟨init, rfl⟩
      have hstatus : (socketEntry (init ++ statusSockSuffix)).session = none := by
        have hname : Utf8.lossy (socketEntry (init ++ statusSockSuffix)).fileName =
            encodeSessionName init ++ statusSockSuffix := by
          rw [socketEntry, Utf8.lossy_encode, socketFile, encode_append, encode_status]
        have hs : isStatusSocketName (encodeSessionName init ++ statusSockSuffix) = true :=
          List.isSuffixOf_iff_suffix.mpr (List.suffix_append _ _)
        rw [DirEntry.session, hname]
        show (if isStatusSocketName (encodeSessionName init ++ statusSockSuffix) then none else some _) = none
        rw [hs]
        rfl
      have hlen := (h.listed [] []).length_eq
      rw [List.nil_append, scanSessions, List.filterMap_cons_none hstatus, List.length_cons] at hlen
      exact absurd hlen (by rw [List.nil_append, scanSessions]; omega)
  · rintro ⟨hascii, hone, htwo, hsuffix⟩
    have hback := (comes_back_iff name).mpr hascii
    have hnot : isStatusSocketName (encodeSessionName name) = false := by
      rw [Bool.eq_false_iff]
      intro hs
      obtain ⟨x, hx⟩ := List.isSuffixOf_iff_suffix.mp hs
      obtain ⟨init, hinit⟩ := encodeBytes_ending statusSockSuffix_plain hx.symm
      exact hsuffix ⟨init, by rw [← hback, decode_encode, hinit]⟩
    refine ⟨hback, fun other h => encode_injective h, encode_component hne, ⟨?_, ?_⟩, ?_, ?_⟩
    · exact fun h => hone (encode_injective (h.trans hdot.1.symm))
    · exact fun h => htwo (encode_injective (h.trans hdot.2.symm))
    · intro other _ h
      rw [statusSocketFile_eq] at h
      exact hsuffix ⟨other, (encode_injective h).symm⟩
    · intro before after
      have hsession := session_socketEntry hnot
      rw [hback] at hsession
      rw [scanSessions, List.filterMap_append, List.filterMap_cons_some hsession]
      refine ((List.mergeSort_perm _ _).trans List.perm_middle).trans (.cons name ?_)
      rw [← List.filterMap_append]
      exact (List.mergeSort_perm _ _).symm

theorem slashed_one_to_one : OneToOne ['a', '/', '%'] :=
  (one_to_one_iff ['a', '/', '%'] (by decide)).mpr ⟨List.all_iff_forall_prop.mp (by decide), by decide, by decide, by decide⟩

/-- `é` comes back as the two characters of its bytes. -/
theorem accented_name_lost : ¬ OneToOne ['é'] := fun h => absurd h.roundTrip (by decide +kernel)

end Posh.SessionNames
