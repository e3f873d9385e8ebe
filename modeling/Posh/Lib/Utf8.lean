/-
**Text as UTF-8 bytes.**

Characters are written as UTF-8 and read back leniently: every byte sequence is text, and where it is
not UTF-8, each maximal prefix of a character that cannot be continued becomes one replacement
character.  A single character is read exactly or not at all.

Main results:

* `Utf8.encodeChar_shape`, `Utf8.encodeChar_cases` — **the four shapes of a character's bytes**;
* `Utf8.decode_encodeChar`, `Utf8.lossy_encode` — **what was written is read back**;
* `Utf8.lossy_ascii_append` — bytes below `0x80` are read as they are;
* `Utf8.lossy_plain` — **bytes without C0 controls are a text without C0 controls**;
* `Utf8.encode_plain` — and the converse, for writing.
-/

import Mathlib.Tactic.Common

set_option autoImplicit false

namespace Utf8

open String (utf8EncodeChar)
open Bool (and_eq_true or_eq_true)
open List (cons_append forall_mem_cons)
open UInt8 (ofNat toNat_ofNat')

/-! ### Single characters -/

/-- U+FFFD, which stands for what is not UTF-8. -/
def replacement : Char := Char.ofNat 0xFFFD

/-- The character with code `n`. -/
def scalar (n : ℕ) : Char := if h : n.isValidChar then Char.ofNatAux n h else replacement

def isCont (b : UInt8) : Bool := 0x80 ≤ b.toNat && b.toNat ≤ 0xBF

/-- The first byte of a two-byte character. -/
def isLead2 (a : UInt8) : Bool := 0xC2 ≤ a.toNat && a.toNat ≤ 0xDF

/-- The first two bytes of a three-byte character: no overlong form, no surrogate. -/
def isLead3 (a b : UInt8) : Bool :=
  (a.toNat = 0xE0 && (0xA0 ≤ b.toNat && b.toNat ≤ 0xBF)) ||
    ((0xE1 ≤ a.toNat && a.toNat ≤ 0xEC) && isCont b) ||
    (a.toNat = 0xED && (0x80 ≤ b.toNat && b.toNat ≤ 0x9F)) ||
    ((0xEE ≤ a.toNat && a.toNat ≤ 0xEF) && isCont b)

/-- The first two bytes of a four-byte character: no overlong form, nothing past U+10FFFF. -/
def isLead4 (a b : UInt8) : Bool :=
  (a.toNat = 0xF0 && (0x90 ≤ b.toNat && b.toNat ≤ 0xBF)) ||
    ((0xF1 ≤ a.toNat && a.toNat ≤ 0xF3) && isCont b) ||
    (a.toNat = 0xF4 && (0x80 ≤ b.toNat && b.toNat ≤ 0x8F))

/-- The code carried by two bytes. -/
def code2 (a b : UInt8) : ℕ := a.toNat % 32 * 64 + b.toNat % 64

/-- The code carried by three bytes. -/
def code3 (a b c : UInt8) : ℕ := a.toNat % 16 * 4096 + b.toNat % 64 * 64 + c.toNat % 64

/-- The code carried by four bytes. -/
def code4 (a b c d : UInt8) : ℕ :=
  a.toNat % 8 * 262144 + b.toNat % 64 * 4096 + c.toNat % 64 * 64 + d.toNat % 64

/-- The character of a multi-byte sequence, if it is one. -/
def decode? : List UInt8 → Option Char
  | [a, b] => if isLead2 a && isCont b then some (scalar (code2 a b)) else none
  | [a, b, c] => if isLead3 a b && isCont c then some (scalar (code3 a b c)) else none
  | [a, b, c, d] =>
    if isLead4 a b && isCont c && isCont d then some (scalar (code4 a b c d)) else none
  | _ => none

/-! ### Texts -/

/-- The bytes of a text. -/
def encode (cs : List Char) : List UInt8 := cs.flatMap String.utf8EncodeChar

/-- How many bytes a character with this first byte has; `0` where no character begins. -/
def width (a : UInt8) : ℕ :=
  if a.toNat < 0x80 then 1
  else if isLead2 a then 2
  else if 0xE0 ≤ a.toNat ∧ a.toNat ≤ 0xEF then 3
  else if 0xF0 ≤ a.toNat ∧ a.toNat ≤ 0xF4 then 4
  else 0

/-- The text of any bytes: a character cut short or not continued is replaced, and reading goes on
at the byte that does not belong to it. -/
def lossy : List UInt8 → List Char
  | [] => []
  | a :: rest =>
    match width a, rest with
    | 1, rest => scalar a.toNat :: lossy rest
    | 2, b :: rest₁ =>
      if isCont b then scalar (code2 a b) :: lossy rest₁ else replacement :: lossy (b :: rest₁)
    | 3, b :: rest₁ =>
      if isLead3 a b then
        match rest₁ with
        | c :: rest₂ =>
          if isCont c then scalar (code3 a b c) :: lossy rest₂
          else replacement :: lossy (c :: rest₂)
        | [] => [replacement]
      else replacement :: lossy (b :: rest₁)
    | 4, b :: rest₁ =>
      if isLead4 a b then
        match rest₁ with
        | c :: rest₂ =>
          if isCont c then
            match rest₂ with
            | d :: rest₃ =>
              if isCont d then scalar (code4 a b c d) :: lossy rest₃
              else replacement :: lossy (d :: rest₃)
            | [] => [replacement]
          else replacement :: lossy (c :: rest₂)
        | [] => [replacement]
      else replacement :: lossy (b :: rest₁)
    | _, rest => replacement :: lossy rest

/-! ### Characters that are no controls -/

/-- No C0 control. -/
def Plain (c : Char) : Prop := 0x20 ≤ c.toNat

instance (c : Char) : Decidable (Plain c) := inferInstanceAs (Decidable (_ ≤ _))

theorem replacement_plain : Plain replacement := by decide

theorem toNat_scalar {n : ℕ} (h : n.isValidChar) : (scalar n).toNat = n := by
  rw [scalar, dif_pos h]
  rfl

theorem scalar_plain {n : ℕ} (h : 0x20 ≤ n) : Plain (scalar n) := by
  by_cases hv : n.isValidChar
  · rw [Plain, toNat_scalar hv]
    exact h
  · rw [scalar, dif_neg hv]
    exact replacement_plain

/-! ### Writing -/

theorem char_valid (c : Char) : c.toNat < 0xD800 ∨ (0xDFFF < c.toNat ∧ c.toNat < 0x110000) := c.valid

theorem scalar_toNat (c : Char) : scalar c.toNat = c := by
  have hv : c.toNat.isValidChar := char_valid c
  exact Char.toNat_inj.mp (toNat_scalar hv)

/-- **A character is its bytes' code.** -/
theorem encodeChar_shape (c : Char) : (c.toNat < 0x80 ∧ utf8EncodeChar c = [ofNat c.toNat]) ∨
      (∃ a b, utf8EncodeChar c = [a, b] ∧ isLead2 a ∧ isCont b ∧ code2 a b = c.toNat) ∨
      (∃ a b d, utf8EncodeChar c = [a, b, d] ∧ isLead3 a b ∧ isCont d ∧ code3 a b d = c.toNat) ∨
      ∃ a b d e, utf8EncodeChar c = [a, b, d, e] ∧ isLead4 a b ∧ isCont d ∧ isCont e ∧
        code4 a b d e = c.toNat := by
  have hv := char_valid c
  have hc : c.val.toNat = c.toNat := rfl
  rw [utf8EncodeChar]
  simp only [hc]
  split
  · exact .inl ⟨by omega, rfl⟩
  · right
    split
    · left
      refine ⟨_, _, rfl, ?_, ?_, ?_⟩ <;> simp only [isLead2, isCont, code2, toNat_ofNat',
        and_eq_true, decide_eq_true_eq] <;> omega
    · right
      split
      · left
        refine ⟨_, _, _, rfl, ?_, ?_, ?_⟩ <;> simp only [isLead3, isCont, code3, toNat_ofNat',
          and_eq_true, or_eq_true, decide_eq_true_eq] <;> omega
      · right
        refine ⟨_, _, _, _, rfl, ?_, ?_, ?_, ?_⟩ <;> simp only [isLead4, isCont, code4,
          toNat_ofNat', and_eq_true, or_eq_true, decide_eq_true_eq] <;> omega

variable {a b : UInt8}

theorem isCont_of_isLead3 (h : isLead3 a b) : isCont b := by
  simp only [isLead3, isCont, and_eq_true, or_eq_true, decide_eq_true_eq] at h ⊢
  omega

theorem isCont_of_isLead4 (h : isLead4 a b) : isCont b := by
  simp only [isLead4, isCont, and_eq_true, or_eq_true, decide_eq_true_eq] at h ⊢
  omega

theorem isLead3_lead (h : isLead3 a b) : 0xE0 ≤ a.toNat ∧ a.toNat ≤ 0xEF := by
  simp only [isLead3, and_eq_true, or_eq_true, decide_eq_true_eq] at h
  omega

theorem isLead4_lead (h : isLead4 a b) : 0xF0 ≤ a.toNat ∧ a.toNat ≤ 0xF4 := by
  simp only [isLead4, and_eq_true, or_eq_true, decide_eq_true_eq] at h
  omega

/-- **The four shapes of a character's bytes.** -/
theorem encodeChar_cases (c : Char) : (c.toNat < 0x80 ∧ utf8EncodeChar c = [ofNat c.toNat]) ∨
      (∃ a b, utf8EncodeChar c = [a, b] ∧ isLead2 a ∧ isCont b) ∨
      (∃ a b d, utf8EncodeChar c = [a, b, d] ∧ 0xE0 ≤ a.toNat ∧ a.toNat ≤ 0xEF ∧ isCont b ∧ isCont d) ∨
      ∃ a b d e, utf8EncodeChar c = [a, b, d, e] ∧ 0xF0 ≤ a.toNat ∧ a.toNat ≤ 0xF4 ∧
        isCont b ∧ isCont d ∧ isCont e := by
  rcases encodeChar_shape c with h | ⟨a, b, heq, ha, hb, -⟩ | ⟨a, b, d, heq, ha, hd, -⟩ |
    ⟨a, b, d, e, heq, ha, hd, he, -⟩
  · exact .inl h
  · exact .inr (.inl ⟨a, b, heq, ha, hb⟩)
  · exact .inr (.inr (.inl ⟨a, b, d, heq, (isLead3_lead ha).1, (isLead3_lead ha).2,
      isCont_of_isLead3 ha, hd⟩))
  · exact .inr (.inr (.inr ⟨a, b, d, e, heq, (isLead4_lead ha).1, (isLead4_lead ha).2,
      isCont_of_isLead4 ha, hd, he⟩))

@[simp] theorem encode_nil : encode [] = [] := rfl

@[simp] theorem encode_cons (c : Char) (cs : List Char) : encode (c :: cs) = utf8EncodeChar c ++ encode cs := rfl

@[simp] theorem encode_append (xs ys : List Char) : encode (xs ++ ys) = encode xs ++ encode ys :=
  List.flatMap_append

theorem encode_plain {cs : List Char} (h : ∀ c ∈ cs, Plain c) : ∀ b ∈ encode cs, 0x20 ≤ b.toNat := by
  intro b hb
  obtain ⟨c, hc, hbc⟩ := List.mem_flatMap.mp hb
  have hp : 0x20 ≤ c.toNat := h c hc
  have hcont : ∀ x : UInt8, isCont x → 0x20 ≤ x.toNat := by
    intro x hx
    simp only [isCont, and_eq_true, decide_eq_true_eq] at hx
    omega
  rcases encodeChar_cases c with ⟨hlt, heq⟩ | ⟨a, d, heq, ha, hd⟩ | ⟨a, d, e, heq, ha, -, hd, he⟩ |
    ⟨a, d, e, f, heq, ha, -, hd, he, hf⟩
  · rw [heq, List.mem_singleton] at hbc
    rw [hbc, toNat_ofNat']
    omega
  · simp only [isLead2, and_eq_true, decide_eq_true_eq] at ha
    rw [heq, List.mem_cons, List.mem_singleton] at hbc
    rcases hbc with rfl | rfl
    · omega
    · exact hcont _ hd
  · rw [heq] at hbc
    simp only [List.mem_cons, List.not_mem_nil, or_false] at hbc
    rcases hbc with rfl | rfl | rfl
    · omega
    · exact hcont _ hd
    · exact hcont _ he
  · rw [heq] at hbc
    simp only [List.mem_cons, List.not_mem_nil, or_false] at hbc
    rcases hbc with rfl | rfl | rfl | rfl
    · omega
    · exact hcont _ hd
    · exact hcont _ he
    · exact hcont _ hf

/-! ### Reading -/

theorem width_ascii {a : UInt8} (h : a.toNat < 0x80) : width a = 1 := by rw [width, if_pos h]

theorem width_lead2 {a : UInt8} (h : isLead2 a) : width a = 2 := by
  have hge : ¬ a.toNat < 0x80 := by
    simp only [isLead2, and_eq_true, decide_eq_true_eq] at h
    omega
  rw [width, if_neg hge, if_pos h]

theorem width_lead3 (h : isLead3 a b) : width a = 3 := by
  have hr := isLead3_lead h
  have h2 : ¬ isLead2 a := by
    simp only [isLead2, and_eq_true, decide_eq_true_eq]
    omega
  rw [width, if_neg (by omega), if_neg h2, if_pos hr]

theorem width_lead4 (h : isLead4 a b) : width a = 4 := by
  have hr := isLead4_lead h
  have h2 : ¬ isLead2 a := by
    simp only [isLead2, and_eq_true, decide_eq_true_eq]
    omega
  rw [width, if_neg (by omega), if_neg h2, if_neg (by omega), if_pos hr]

@[simp] theorem lossy_nil : lossy [] = [] := by rw [lossy]

theorem lossy_cons_ascii {a : UInt8} (h : a.toNat < 0x80) (rest : List UInt8) :
    lossy (a :: rest) = scalar a.toNat :: lossy rest := by
  rw [lossy]
  exact width_ascii h

theorem lossy_ascii_append {xs : List UInt8} (h : ∀ b ∈ xs, b.toNat < 0x80) (rest : List UInt8) :
    lossy (xs ++ rest) = xs.map (fun b => scalar b.toNat) ++ lossy rest := by
  induction xs with
  | nil => rfl
  | cons a xs ih =>
    rw [cons_append, lossy_cons_ascii (h a List.mem_cons_self),
      ih fun b hb => h b (List.mem_cons_of_mem a hb)]
    rfl

theorem lossy_encodeChar_append (c : Char) (rest : List UInt8) :
    lossy (utf8EncodeChar c ++ rest) = c :: lossy rest := by
  rcases encodeChar_shape c with ⟨hlt, heq⟩ | ⟨a, b, heq, ha, hb, hcode⟩ |
    ⟨a, b, d, heq, ha, hd, hcode⟩ | ⟨a, b, d, e, heq, ha, hd, he, hcode⟩
  · have hn : (ofNat c.toNat).toNat = c.toNat := by
      rw [toNat_ofNat']
      omega
    rw [heq, List.singleton_append, lossy_cons_ascii (by omega), hn, scalar_toNat]
  · rw [heq, cons_append, cons_append, List.nil_append, lossy.eq_def]
    simp only [width_lead2 ha, hb, if_true, hcode, scalar_toNat]
  · rw [heq]
    simp only [cons_append, List.nil_append]
    rw [lossy.eq_def]
    simp only [width_lead3 ha, ha, hd, if_true, hcode, scalar_toNat]
  · rw [heq]
    simp only [cons_append, List.nil_append]
    rw [lossy.eq_def]
    simp only [width_lead4 ha, ha, hd, he, if_true, hcode, scalar_toNat]

/-- **A text written is read back.** -/
theorem lossy_encode (cs : List Char) : lossy (encode cs) = cs := by
  induction cs with
  | nil => exact lossy_nil
  | cons c cs ih => rw [encode_cons, lossy_encodeChar_append, ih]

theorem code2_plain (h : width a = 2) : Plain (scalar (code2 a b)) := by
  refine scalar_plain ?_
  simp only [width, isLead2, and_eq_true, decide_eq_true_eq] at h
  rw [code2]
  split at h
  · omega
  · split at h
    · omega
    · split at h
      · omega
      · split at h <;> omega

theorem code3_plain {a b c : UInt8} (h : isLead3 a b) : Plain (scalar (code3 a b c)) := by
  refine scalar_plain ?_
  simp only [isLead3, isCont, and_eq_true, or_eq_true, decide_eq_true_eq] at h
  rw [code3]
  omega

theorem code4_plain {a b c d : UInt8} (h : isLead4 a b) : Plain (scalar (code4 a b c d)) := by
  refine scalar_plain ?_
  simp only [isLead4, isCont, and_eq_true, or_eq_true, decide_eq_true_eq] at h
  rw [code4]
  omega

/-- **Bytes without C0 controls are a text without C0 controls.** -/
theorem lossy_plain (bs : List UInt8) (h : ∀ b ∈ bs, 0x20 ≤ b.toNat) : ∀ c ∈ lossy bs, Plain c := by
  have hr := replacement_plain
  fun_induction lossy bs with
  | case1 => exact List.forall_mem_nil _
  | case2 a rest hw ih =>
    rw [forall_mem_cons] at h ⊢
    exact ⟨scalar_plain h.1, ih h.2⟩
  | case3 a b rest₁ hw hb ih =>
    simp only [forall_mem_cons] at h ⊢
    exact ⟨code2_plain hw, ih h.2.2⟩
  | case5 a b hw hl c rest₂ hc ih =>
    simp only [forall_mem_cons] at h ⊢
    exact ⟨code3_plain hl, ih h.2.2.2⟩
  | case9 a b hw hl c hc d rest₃ hd ih =>
    simp only [forall_mem_cons] at h ⊢
    exact ⟨code4_plain hl, ih h.2.2.2.2⟩
  -- what cannot be continued is replaced
  | case7 | case11 | case13 => exact forall_mem_cons.mpr ⟨hr, List.forall_mem_nil _⟩
  | case4 a b rest₁ hw hb ih | case8 a b rest₁ hw hb ih | case14 a b rest₁ hw hb ih =>
    rw [forall_mem_cons] at h ⊢
    exact ⟨hr, ih h.2⟩
  | case6 a b hw hl c rest₂ hc ih | case12 a b hw hl c rest₂ hc ih =>
    simp only [forall_mem_cons] at h ih ⊢
    exact ⟨hr, ih h.2.2⟩
  | case10 a b hw hl c hc d rest₃ hd ih =>
    simp only [forall_mem_cons] at h ih ⊢
    exact ⟨hr, ih h.2.2.2⟩
  | case15 a rest h1 h2 h3 h4 ih =>
    rw [forall_mem_cons] at h ⊢
    exact ⟨hr, ih h.2⟩

end Utf8
