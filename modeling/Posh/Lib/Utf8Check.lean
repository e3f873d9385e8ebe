/-
**Text checked as it is read.**

A byte sequence is UTF-8 or it is not, and where it is not there is a first byte at which it goes wrong: the bytes in
front of it are a text, and there either no character can begin, or a character begins and the sequence ends too early
for it.  A reader that gets its bytes in pieces decodes what is settled and holds back a character that is cut short;
what it decodes is then the text of all the bytes together, however they were cut.

Main results:

* `Utf8.lossy_first` — reading leniently, one character after another;
* `Utf8.first_char` — **what is read as a character are its bytes**;
* `Utf8.fromUtf8_encode` — a text is UTF-8;
* `Utf8.lossy_append` — **what is settled stays settled**.
-/

import Posh.Lib.Utf8

set_option autoImplicit false

namespace Utf8

open String (utf8EncodeChar)
open UInt8 (toNat_inj)
open Bool (and_eq_true)

/-! ### The first character -/

/-- What a byte sequence begins with. -/
inductive First where
  /-- a character, of `n` bytes -/
  | char (c : Char) (n : ℕ)
  /-- `n` bytes with which no character begins -/
  | bad (n : ℕ)
  /-- a character cut short by the end -/
  | cut
  deriving DecidableEq

/-- What the sequence `a :: rest` begins with. -/
def first (a : UInt8) (rest : List UInt8) : First :=
  match width a, rest with
  | 1, _ => .char (scalar a.toNat) 1
  | 2, [] => .cut
  | 2, b :: _ => if isCont b then .char (scalar (code2 a b)) 2 else .bad 1
  | 3, [] => .cut
  | 3, b :: rest₁ =>
    if isLead3 a b then
      match rest₁ with
      | [] => .cut
      | c :: _ => if isCont c then .char (scalar (code3 a b c)) 3 else .bad 2
    else .bad 1
  | 4, [] => .cut
  | 4, b :: rest₁ =>
    if isLead4 a b then
      match rest₁ with
      | [] => .cut
      | c :: rest₂ =>
        if isCont c then
          match rest₂ with
          | [] => .cut
          | d :: _ => if isCont d then .char (scalar (code4 a b c d)) 4 else .bad 3
        else .bad 2
    else .bad 1
  | _, _ => .bad 1

variable {a : UInt8} {rest : List UInt8} {c : Char} {n : ℕ}

theorem lossy_first (a : UInt8) (rest : List UInt8) : lossy (a :: rest) = match first a rest with
      | .char c n => c :: lossy (rest.drop (n - 1))
      | .bad n => replacement :: lossy (rest.drop (n - 1))
      | .cut => [replacement] := by
  rw [lossy.eq_def]
  fun_cases first a rest with
  | case1 rest hw =>
    simp only [hw]
    rfl
  | case2 hw => simp [hw]
  | _ => simp_all

theorem width_le (a : UInt8) : width a ≤ 4 := by
  rw [width]
  split
  · omega
  · split
    · omega
    · split
      · omega
      · split <;> omega

theorem first_append (h : first a rest ≠ .cut) (more : List UInt8) : first a (rest ++ more) = first a rest := by
  revert h
  rw [first.eq_def a (rest ++ more)]
  fun_cases first a rest with
  | case17 rest hw h2 h2' h3 h3' h4 h4' =>
    have hzero : width a = 0 := by
      have hle := width_le a
      have n1 : width a ≠ 1 := hw
      cases rest with
      | nil =>
        have n2 : width a ≠ 2 := fun h => h2 h rfl
        have n3 : width a ≠ 3 := fun h => h3 h rfl
        have n4 : width a ≠ 4 := fun h => h4 h rfl
        omega
      | cons b rest =>
        have n2 : width a ≠ 2 := fun h => h2' b rest h rfl
        have n3 : width a ≠ 3 := fun h => h3' b rest h rfl
        have n4 : width a ≠ 4 := fun h => h4' b rest h rfl
        omega
    simp [hzero]
  | _ => simp_all

theorem first_bad (h : first a rest = .bad n) : 1 ≤ n ∧ n ≤ rest.length + 1 := by
  revert h
  fun_cases first a rest <;> simp_all <;> omega

theorem first_ascii (h : a.toNat < 0x80) (rest : List UInt8) : first a rest = .char (scalar a.toNat) 1 := by
  rw [first]
  exact width_ascii h

/-! ### The bytes of a character -/

theorem isLead2_of_width (h : width a = 2) : isLead2 a := by
  rw [width] at h
  by_contra hno
  rw [if_neg hno] at h
  split at h
  · omega
  · split at h
    · omega
    · split at h <;> omega

theorem code2_range {a : UInt8} (ha : isLead2 a) (b : UInt8) : 0x80 ≤ code2 a b ∧ code2 a b < 0x800 := by
  simp only [isLead2, and_eq_true, decide_eq_true_eq] at ha
  rw [code2]
  omega

theorem code3_range {a b : UInt8} (ha : isLead3 a b) (c : UInt8) :
    0x800 ≤ code3 a b c ∧ (code3 a b c < 0xD800 ∨ (0xDFFF < code3 a b c ∧ code3 a b c < 0x10000)) := by
  simp only [isLead3, isCont, and_eq_true, Bool.or_eq_true, decide_eq_true_eq] at ha
  rw [code3]
  omega

theorem code4_range {a b : UInt8} (ha : isLead4 a b) (c d : UInt8) :
    0x10000 ≤ code4 a b c d ∧ code4 a b c d < 0x110000 := by
  simp only [isLead4, isCont, and_eq_true, Bool.or_eq_true, decide_eq_true_eq] at ha
  rw [code4]
  omega

theorem encodeChar_code2 {a b : UInt8} (ha : isLead2 a) (hb : isCont b) :
    utf8EncodeChar (scalar (code2 a b)) = [a, b] := by
  have hrange := code2_range ha b
  have hcode : (scalar (code2 a b)).toNat = code2 a b := toNat_scalar (.inl (by omega))
  rcases encodeChar_shape (scalar (code2 a b)) with ⟨hlt, -⟩ | ⟨a', b', heq, ha', hb', h⟩ |
    ⟨a', b', d', -, ha', hd', h⟩ | ⟨a', b', d', e', -, ha', hd', he', h⟩
  · omega
  · rw [hcode] at h
    simp only [isLead2, isCont, and_eq_true, decide_eq_true_eq] at ha hb ha' hb'
    simp only [code2] at h
    rw [heq, toNat_inj.1 (by omega : a'.toNat = a.toNat), toNat_inj.1 (by omega : b'.toNat = b.toNat)]
  · have hrange' := code3_range ha' d'
    omega
  · have hrange' := code4_range ha' d' e'
    omega

theorem encodeChar_code3 {a b c : UInt8} (ha : isLead3 a b) (hc : isCont c) :
    utf8EncodeChar (scalar (code3 a b c)) = [a, b, c] := by
  have hrange := code3_range ha c
  have hcode : (scalar (code3 a b c)).toNat = code3 a b c := by
    refine toNat_scalar (hrange.2.imp id fun h => ⟨h.1, by omega⟩)
  rcases encodeChar_shape (scalar (code3 a b c)) with ⟨hlt, -⟩ | ⟨a', b', -, ha', hb', h⟩ |
    ⟨a', b', c', heq, ha', hc', h⟩ | ⟨a', b', d', e', -, ha', hd', he', h⟩
  · omega
  · have hrange' := code2_range ha' b'
    omega
  · rw [hcode] at h
    have hb := isCont_of_isLead3 ha
    have hb' := isCont_of_isLead3 ha'
    have hlead := isLead3_lead ha
    have hlead' := isLead3_lead ha'
    simp only [isCont, and_eq_true, decide_eq_true_eq] at hb hb' hc hc'
    simp only [code3] at h
    rw [heq, toNat_inj.1 (by omega : a'.toNat = a.toNat), toNat_inj.1 (by omega : b'.toNat = b.toNat),
      toNat_inj.1 (by omega : c'.toNat = c.toNat)]
  · have hrange' := code4_range ha' d' e'
    omega

theorem encodeChar_code4 {a b c d : UInt8} (ha : isLead4 a b) (hc : isCont c) (hd : isCont d) :
    utf8EncodeChar (scalar (code4 a b c d)) = [a, b, c, d] := by
  have hrange := code4_range ha c d
  have hcode : (scalar (code4 a b c d)).toNat = code4 a b c d := toNat_scalar (.inr ⟨by omega, by omega⟩)
  rcases encodeChar_shape (scalar (code4 a b c d)) with ⟨hlt, -⟩ | ⟨a', b', -, ha', hb', h⟩ |
    ⟨a', b', c', -, ha', hc', h⟩ | ⟨a', b', c', d', heq, ha', hc', hd', h⟩
  · omega
  · have hrange' := code2_range ha' b'
    omega
  · have hrange' := code3_range ha' c'
    omega
  · rw [hcode] at h
    have hb := isCont_of_isLead4 ha
    have hb' := isCont_of_isLead4 ha'
    have hlead := isLead4_lead ha
    have hlead' := isLead4_lead ha'
    simp only [isCont, and_eq_true, decide_eq_true_eq] at hb hb' hc hc' hd hd'
    simp only [code4] at h
    rw [heq, toNat_inj.1 (by omega : a'.toNat = a.toNat), toNat_inj.1 (by omega : b'.toNat = b.toNat),
      toNat_inj.1 (by omega : c'.toNat = c.toNat), toNat_inj.1 (by omega : d'.toNat = d.toNat)]

theorem encodeChar_ascii {a : UInt8} (h : a.toNat < 0x80) : utf8EncodeChar (scalar a.toNat) = [a] := by
  have hcode : (scalar a.toNat).toNat = a.toNat := toNat_scalar (.inl (by omega))
  rcases encodeChar_shape (scalar a.toNat) with ⟨-, heq⟩ | ⟨a', b', -, ha', hb', h'⟩ |
    ⟨a', b', c', -, ha', hc', h'⟩ | ⟨a', b', c', d', -, ha', hc', hd', h'⟩
  · rw [heq, hcode, UInt8.ofNat_toNat]
  · have hrange' := code2_range ha' b'
    omega
  · have hrange' := code3_range ha' c'
    omega
  · have hrange' := code4_range ha' c' d'
    omega

theorem eq_of_mem_encodeChar {b : UInt8} (hb : b ∈ utf8EncodeChar c) (h : b.toNat < 0x80) :
    utf8EncodeChar c = [b] ∧ c.toNat = b.toNat := by
  have hcont : ∀ {x : UInt8}, isCont x → 0x80 ≤ x.toNat := by
    intro x hx
    simp only [isCont, and_eq_true, decide_eq_true_eq] at hx
    exact hx.1
  rcases encodeChar_cases c with ⟨hlt, heq⟩ | ⟨a, d, heq, ha, hd⟩ | ⟨a, d, e, heq, ha, -, hd, he⟩ |
    ⟨a, d, e, f, heq, ha, -, hd, he, hf⟩
  · rw [heq, List.mem_singleton] at hb
    refine ⟨by rw [heq, hb], ?_⟩
    rw [hb, UInt8.toNat_ofNat']
    omega
  · simp only [isLead2, and_eq_true, decide_eq_true_eq] at ha
    rw [heq, List.mem_cons, List.mem_singleton] at hb
    rcases hb with rfl | rfl
    · omega
    · exact absurd h (Nat.not_lt.2 (hcont hd))
  · rw [heq] at hb
    simp only [List.mem_cons, List.not_mem_nil, or_false] at hb
    rcases hb with rfl | rfl | rfl
    · omega
    · exact absurd h (Nat.not_lt.2 (hcont hd))
    · exact absurd h (Nat.not_lt.2 (hcont he))
  · rw [heq] at hb
    simp only [List.mem_cons, List.not_mem_nil, or_false] at hb
    rcases hb with rfl | rfl | rfl | rfl
    · omega
    · exact absurd h (Nat.not_lt.2 (hcont hd))
    · exact absurd h (Nat.not_lt.2 (hcont he))
    · exact absurd h (Nat.not_lt.2 (hcont hf))

/-- **What is read as a character are its bytes.** -/
theorem first_char (h : first a rest = .char c n) :
    a :: rest = utf8EncodeChar c ++ rest.drop (n - 1) ∧ n = (utf8EncodeChar c).length := by
  revert h
  fun_cases first a rest with
  | case1 rest hw =>
    rintro ⟨⟩
    have hlt : a.toNat < 0x80 := by
      rw [width] at hw
      by_contra hno
      rw [if_neg hno] at hw
      split at hw
      · omega
      · split at hw
        · omega
        · split at hw <;> omega
    rw [encodeChar_ascii hlt]
    exact ⟨rfl, rfl⟩
  | case3 b rest₁ hw hb =>
    rintro ⟨⟩
    rw [encodeChar_code2 (isLead2_of_width hw) hb]
    exact ⟨rfl, rfl⟩
  | case7 b hw hl c rest₂ hc =>
    rintro ⟨⟩
    rw [encodeChar_code3 hl hc]
    exact ⟨rfl, rfl⟩
  | case13 b hw hl c hc d rest₃ hd =>
    rintro ⟨⟩
    rw [encodeChar_code4 hl hc hd]
    exact ⟨rfl, rfl⟩
  | _ => rintro ⟨⟩

theorem first_encodeChar {bs : List UInt8} (h : utf8EncodeChar c = a :: bs) (more : List UInt8) :
    first a (bs ++ more) = .char c (bs.length + 1) := by
  rcases encodeChar_shape c with ⟨hlt, heq⟩ | ⟨a', b, heq, ha, hb, hcode⟩ |
    ⟨a', b, d, heq, ha, hd, hcode⟩ | ⟨a', b, d, e, heq, ha, hd, he, hcode⟩
  · obtain ⟨rfl, rfl⟩ := List.cons_eq_cons.1 (heq.symm.trans h)
    have hn : (UInt8.ofNat c.toNat).toNat = c.toNat := by
      rw [UInt8.toNat_ofNat']
      omega
    rw [first_ascii (by omega), hn, scalar_toNat]
    rfl
  · obtain ⟨rfl, rfl⟩ := List.cons_eq_cons.1 (heq.symm.trans h)
    simp [first.eq_def, width_lead2 ha, hb, hcode, scalar_toNat]
  · obtain ⟨rfl, rfl⟩ := List.cons_eq_cons.1 (heq.symm.trans h)
    simp [first.eq_def, width_lead3 ha, ha, hd, hcode, scalar_toNat]
  · obtain ⟨rfl, rfl⟩ := List.cons_eq_cons.1 (heq.symm.trans h)
    simp [first.eq_def, width_lead4 ha, ha, hd, he, hcode, scalar_toNat]

/-! ### Strict reading -/

/-- Where a sequence goes wrong: after how many bytes, and how many bytes are no character there, or none if a
character is cut short. -/
structure Utf8Error where
  validUpTo : ℕ
  errorLen : Option ℕ
  deriving DecidableEq

/-- `std::str::from_utf8` behind `upTo` bytes. -/
def fromUtf8From (upTo : ℕ) : List UInt8 → Except Utf8Error (List Char)
  | [] => .ok []
  | a :: rest =>
    match first a rest with
    | .char c n => (fromUtf8From (upTo + n) (rest.drop (n - 1))).map (c :: ·)
    | .bad n => .error ⟨upTo, some n⟩
    | .cut => .error ⟨upTo, none⟩
termination_by bs => bs.length
decreasing_by
  rw [List.length_drop, List.length_cons]
  omega

/-- `std::str::from_utf8` -/
def fromUtf8 (bs : List UInt8) : Except Utf8Error (List Char) := fromUtf8From 0 bs

theorem fromUtf8From_encodeChar (c : Char) (upTo : ℕ) (rest : List UInt8) :
    fromUtf8From upTo (utf8EncodeChar c ++ rest) =
      (fromUtf8From (upTo + (utf8EncodeChar c).length) rest).map (c :: ·) := by
  obtain ⟨a, bs, heq⟩ := List.exists_cons_of_ne_nil (String.utf8EncodeChar_ne_nil (c := c))
  rw [heq, List.cons_append, fromUtf8From, first_encodeChar heq]
  dsimp only
  rw [Nat.add_sub_cancel, List.drop_left, List.length_cons]

theorem fromUtf8From_append (cs : List Char) (rest : List UInt8) (upTo : ℕ) :
    fromUtf8From upTo (encode cs ++ rest) = (fromUtf8From (upTo + (encode cs).length) rest).map (cs ++ ·) := by
  induction cs generalizing upTo with
  | nil =>
    rw [encode_nil, List.nil_append, List.length_nil, Nat.add_zero]
    cases fromUtf8From upTo rest <;> rfl
  | cons c cs ih =>
    rw [encode_cons, List.append_assoc, fromUtf8From_encodeChar, ih, List.length_append, Nat.add_assoc]
    cases fromUtf8From (upTo + ((utf8EncodeChar c).length + (encode cs).length)) rest <;> rfl

/-- **A text is UTF-8.** -/
theorem fromUtf8_encode (cs : List Char) : fromUtf8 (encode cs) = .ok cs := by
  have h := fromUtf8From_append cs [] 0
  rw [List.append_nil, fromUtf8From] at h
  rw [fromUtf8, h]
  exact congrArg Except.ok (List.append_nil cs)

/-- **A sequence is a text, or a text in front of the place where it goes wrong.** -/
theorem fromUtf8From_cases (upTo : ℕ) (bs : List UInt8) :
    (∃ cs, fromUtf8From upTo bs = .ok cs ∧ bs = encode cs) ∨ ∃ cs a rest, bs = encode cs ++ a :: rest ∧
        ((first a rest = .cut ∧ fromUtf8From upTo bs = .error ⟨upTo + (encode cs).length, none⟩) ∨
          ∃ n, first a rest = .bad n ∧ fromUtf8From upTo bs = .error ⟨upTo + (encode cs).length, some n⟩) := by
  induction upTo, bs using fromUtf8From.induct with
  | case1 upTo => exact .inl ⟨[], by rw [fromUtf8From], rfl⟩
  | case2 upTo a rest c n hfirst ih =>
    obtain ⟨hbytes, hn⟩ := first_char hfirst
    rw [fromUtf8From, hfirst]
    dsimp only
    rcases ih with ⟨cs, hread, hcs⟩ | ⟨cs, a', rest', hcs, hwrong⟩
    · refine .inl ⟨c :: cs, by rw [hread]; rfl, ?_⟩
      rw [hbytes, hcs, encode_cons]
    · refine .inr ⟨c :: cs, a', rest', ?_, ?_⟩
      · rw [hbytes, hcs, encode_cons, List.append_assoc]
      · rw [encode_cons, List.length_append, ← hn, ← Nat.add_assoc]
        rcases hwrong with ⟨hcut, herr⟩ | ⟨k, hbad, herr⟩
        · exact .inl ⟨hcut, by rw [herr]; rfl⟩
        · exact .inr ⟨k, hbad, by rw [herr]; rfl⟩
  | case3 upTo a rest n hfirst =>
    refine .inr ⟨[], a, rest, rfl, .inr ⟨n, hfirst, ?_⟩⟩
    rw [fromUtf8From, hfirst]
    rfl
  | case4 upTo a rest hfirst =>
    refine .inr ⟨[], a, rest, rfl, .inl ⟨hfirst, ?_⟩⟩
    rw [fromUtf8From, hfirst]
    rfl

/-! ### What is settled -/

/-- The text of a sequence up to a character that is cut short, and the bytes of that one. -/
def settled : List UInt8 → List Char × List UInt8
  | [] => ([], [])
  | a :: rest =>
    match first a rest with
    | .char c n => (c :: (settled (rest.drop (n - 1))).1, (settled (rest.drop (n - 1))).2)
    | .bad n => (replacement :: (settled (rest.drop (n - 1))).1, (settled (rest.drop (n - 1))).2)
    | .cut => ([], a :: rest)
termination_by bs => bs.length
decreasing_by
  all_goals
    rw [List.length_drop, List.length_cons]
    omega

@[simp] theorem settled_nil : settled [] = ([], []) := by rw [settled]

theorem settled_cut (h : first a rest = .cut) : settled (a :: rest) = ([], a :: rest) := by rw [settled, h]

theorem settled_bad (h : first a rest = .bad n) : settled (a :: rest) =
      (replacement :: (settled ((a :: rest).drop n)).1, (settled ((a :: rest).drop n)).2) := by
  obtain ⟨n, rfl⟩ := Nat.exists_eq_add_of_le' (first_bad h).1
  rw [settled, h]
  rfl

theorem settled_encode_append (cs : List Char) (rest : List UInt8) :
    settled (encode cs ++ rest) = (cs ++ (settled rest).1, (settled rest).2) := by
  induction cs with
  | nil => rfl
  | cons c cs ih =>
    obtain ⟨a, bs, heq⟩ := List.exists_cons_of_ne_nil (String.utf8EncodeChar_ne_nil (c := c))
    rw [encode_cons, heq, List.append_assoc, List.cons_append, settled, first_encodeChar heq]
    dsimp only
    rw [Nat.add_sub_cancel, List.drop_left, ih]
    rfl

/-- **What is settled stays settled**, and what is held back is read with the bytes that follow. -/
theorem lossy_append (bs more : List UInt8) :
    lossy (bs ++ more) = (settled bs).1 ++ lossy ((settled bs).2 ++ more) := by
  induction bs using settled.induct with
  | case1 =>
    rw [settled_nil]
    rfl
  | case2 a rest c n hfirst ih =>
    have hlen : n - 1 ≤ rest.length := by
      obtain ⟨hbytes, hn⟩ := first_char hfirst
      have h := congrArg List.length hbytes
      rw [List.length_append, List.length_cons, List.length_drop, ← hn] at h
      omega
    rw [settled, hfirst, List.cons_append, lossy_first, first_append (by rw [hfirst]; exact nofun), hfirst]
    dsimp only
    rw [List.drop_append_of_le_length hlen, ih]
    rfl
  | case3 a rest n hfirst ih =>
    have hlen : n - 1 ≤ rest.length := by
      have hn := first_bad hfirst
      omega
    rw [settled, hfirst, List.cons_append, lossy_first, first_append (by rw [hfirst]; exact nofun), hfirst]
    dsimp only
    rw [List.drop_append_of_le_length hlen, ih]
    rfl
  | case4 a rest hfirst =>
    rw [settled_cut hfirst]
    rfl

end Utf8
