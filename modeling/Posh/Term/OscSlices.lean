/-
**The slices of an operating system command.**

The parsers of a payload slice text at byte offsets, and a slice that begins or ends inside a character stops the
program, as a sum too large for its width does.  Here every slice and every sum is an outcome that says whether it is
there.

A hexadecimal colour is measured in bytes and then cut by bytes, so that a character of more than one byte can lie
across a cut; so can the character after the next one behind a percent sign.  These are the only slices that can go
wrong.
-/

import Mathlib.Data.List.Basic
import Mathlib.Tactic.Linarith
import Posh.Lib.Checked
import Posh.Lib.TextSlice
import Posh.Term.Osc

set_option autoImplicit false

namespace Posh.Term

open ByteCursor
open Utf8 (encode size_append size_cons size_nil splitAt utf8Size_eq_one)
open ByteCursor.Outcome (bind_ok)
open List (append_assoc forall_mem_cons length_cons)
open Utf8
open Checked (fits_eq)

/-- An outcome without reported errors. -/
abbrev Checks (α : Type) := Outcome Empty α

/-- **Where an outcome stops**: it is out of range where `P` holds, and it is `a` elsewhere. -/
structure StopsIff {α : Type} (P : Prop) (o : Checks α) (a : α) : Prop where
  stops : P → o = .outOfRange
  goes : ¬ P → o = .ok a

namespace StopsIff

variable {α β : Type} {P Q : Prop} {o : Checks α} {a : α} {f : α → Checks β} {b : β}

theorem never (hP : ¬ P) (h : o = .ok a) : StopsIff P o a := ⟨fun hp => absurd hp hP, fun _ => h⟩

theorem congr (h : StopsIff P o a) (hPQ : Q ↔ P) : StopsIff Q o a :=
  ⟨fun hq => h.stops (hPQ.1 hq), fun hq => h.goes fun hp => hq (hPQ.2 hp)⟩

theorem bind (h : StopsIff P o a) (hf : StopsIff Q (f a) b) : StopsIff (P ∨ Q) (o.bind f) b := by
  by_cases hP : P
  · refine ⟨fun _ => ?_, fun hno => absurd (.inl hP) hno⟩
    rw [h.stops hP]
    rfl
  · rw [h.goes hP]
    exact hf.congr (or_iff_right hP)

theorem map (h : StopsIff P o a) (hf : f a = .ok b) : StopsIff P (o.bind f) b :=
  (h.bind (never not_false hf)).congr (by rw [or_false])

theorem ok_iff (h : StopsIff P o a) : o = .ok a ↔ ¬ P := by
  refine ⟨fun ho hP => ?_, h.goes⟩
  rw [h.stops hP] at ho
  cases ho

end StopsIff

/-! ### Channels -/

/-- A channel of one to four hexadecimal digits, with its sums in 32 bits. -/
def checkedChannel (chan : List Char) : Checks (Option UInt8) :=
  let len := Utf8.size chan
  if len = 0 ∨ len > 4 then .ok none
  else
    match parseRadix 16 (2 ^ 32) chan with
    | none => .ok none
    | some v =>
      -- the largest number of that many digits
      (Checked.fits 32 (4 * len)).bind fun shift =>
        (Checked.sub (2 ^ shift) 1).bind fun max =>
          (Checked.fits (2 ^ 32) (v * 255)).bind fun scaled =>
            (Checked.fits (2 ^ 32) (scaled + max / 2)).bind fun sum =>
              if max = 0 then .outOfRange else .ok (some (UInt8.ofNat (sum / max)))

theorem digitValue_lt {radix d : ℕ} {c : Char} (h : digitValue radix c = some d) : d < radix := by
  rw [digitValue, Option.ite_none_right_eq_some] at h
  obtain ⟨hlt, heq⟩ := h
  cases heq
  exact hlt

variable {cs : List Char} {hex : List Char} {P : Char → Prop} {bound v : ℕ} {k scale : ℕ}

theorem parseDigits_lt {radix bound : ℕ} : ∀ {acc v : ℕ}, parseDigits radix bound acc cs = some v →
    v < (acc + 1) * radix ^ cs.length := by
  induction cs with
  | nil =>
    intro acc v h
    cases h
    rw [List.length_nil, pow_zero, Nat.mul_one]
    exact Nat.lt_succ_self _
  | cons c cs ih =>
    intro acc v h
    rw [parseDigits] at h
    split at h
    · next d hd =>
        split at h
        · have hlt := ih h
          have hdigit := digitValue_lt hd
          have hle : acc * radix + d + 1 ≤ (acc + 1) * radix := by
            rw [Nat.add_mul, Nat.one_mul]
            omega
          calc v < (acc * radix + d + 1) * radix ^ cs.length := hlt
            _ ≤ (acc + 1) * radix * radix ^ cs.length := Nat.mul_le_mul_right _ hle
            _ = (acc + 1) * radix ^ (c :: cs).length := by
                rw [length_cons, Nat.pow_succ, Nat.mul_assoc, Nat.mul_comm radix]
        · cases h
    · cases h

theorem parseRadix_lt {radix bound v : ℕ} (hradix : 0 < radix) (h : parseRadix radix bound cs = some v) :
    v < radix ^ cs.length := by
  rw [parseRadix.eq_def] at h
  split at h
  · cases h
  · next c rest =>
      split at h
      · have hlt := parseDigits_lt h
        rw [Nat.zero_add, Nat.one_mul] at hlt
        exact Nat.lt_of_lt_of_le hlt (Nat.pow_le_pow_right hradix (Nat.le_succ _))
      · have hlt := parseDigits_lt h
        rwa [Nat.zero_add, Nat.one_mul] at hlt

/-- **A channel stops nothing.** -/
theorem checkedChannel_eq (chan : List Char) : checkedChannel chan = .ok (parseChannel chan) := by
  have hsize : (encode chan).length = size chan := rfl
  rw [checkedChannel, parseChannel, hsize]
  dsimp only
  split
  · rfl
  · next hlen =>
      have hle : chan.length ≤ size chan := length_le_size chan
      split
      · next hv =>
          rw [hv]
          rfl
      · next v hv =>
          have hlt := parseRadix_lt (by decide) hv
          have hpow : (16 : ℕ) ^ chan.length ≤ 16 ^ 4 := Nat.pow_le_pow_right (by decide) (by omega)
          have hmax : 2 ^ (4 * size chan) = 16 ^ size chan := Nat.pow_mul 2 4 _
          have hone : 16 ^ 1 ≤ 16 ^ size chan := Nat.pow_le_pow_right (by decide) (by omega)
          have hfour : 16 ^ size chan ≤ 16 ^ 4 := Nat.pow_le_pow_right (by decide) (by omega)
          rw [fits_eq (by omega), bind_ok, hmax, Checked.sub_eq (by omega), bind_ok,
            fits_eq (by omega), bind_ok, fits_eq (by omega), bind_ok,
            if_neg (by omega), hv]
          rfl

/-- The channels between slashes: `n` of them, and no more. -/
def checkedChannels : ℕ → List (List Char) → Checks (Option (List UInt8))
  | 0, chans => .ok (if chans = [] then some [] else none)
  | _ + 1, [] => .ok none
  | n + 1, chan :: chans =>
    (checkedChannel chan).bind fun v =>
      match v with
      | none => .ok none
      | some v => (checkedChannels n chans).bind fun vs => .ok (vs.map (v :: ·))

/-- Three channels. -/
def rgbOf : Option (List UInt8) → Option Rgb
  | some [r, g, b] => some (r, g, b)
  | _ => none

/-! ### Digits in groups -/

/-- `n` numbers of `k` bytes each, from the offset `i` on, each scaled and in eight bits. -/
def checkedGroups (hex : List Char) (k scale : ℕ) : ℕ → ℕ → Checks (Option (List UInt8))
  | 0, _ => .ok (some [])
  | n + 1, i =>
    (Utf8.slice hex i (i + k)).bind fun d =>
      match parseRadix 16 256 d with
      | none => .ok none
      | some v =>
        (Checked.fits 256 (v * scale)).bind fun v =>
          (checkedGroups hex k scale n (i + k)).bind fun vs => .ok (vs.map (UInt8.ofNat v :: ·))

/-- `rgb:RR/GG/BB`, `#RGB` and `#RRGGBB`. -/
def checkedColorSpec (spec : List Char) : Checks (Option Rgb) :=
  match stripPrefix ['r', 'g', 'b', ':'] spec with
  | some rest => (checkedChannels 3 (rest.splitOn '/')).bind fun vs => .ok (rgbOf vs)
  | none =>
    match stripPrefix ['#'] spec with
    | some hex =>
      if Utf8.size hex = 3 then (checkedGroups hex 1 17 3 0).bind fun vs => .ok (rgbOf vs)
      else if Utf8.size hex = 6 then (checkedGroups hex 2 1 3 0).bind fun vs => .ok (rgbOf vs)
      else .ok none
    | none => .ok none

/-- **A character across a cut**: behind groups of `k` bytes that are numbers no other group of `k` bytes ends between
two characters. -/
def Torn (k : ℕ) (hex : List Char) : Prop :=
  ∃ (groups : List (List Char)) (rest : List Char), hex = groups.flatten ++ rest ∧ rest ≠ [] ∧
    (∀ g ∈ groups, Utf8.size g = k ∧ (parseRadix 16 256 g).isSome) ∧
    ∀ front back, rest = front ++ back → Utf8.size front ≠ k

/-- The colours whose digits are cut inside a character. -/
def SpecTorn (spec : List Char) : Prop :=
  ∃ hex, spec = '#' :: hex ∧ (Utf8.size hex = 3 ∧ Torn 1 hex ∨ Utf8.size hex = 6 ∧ Torn 2 hex)

/-! ### What is torn -/

theorem parseDigits_forall {bound : ℕ} (hdigit : ∀ c d, digitValue 16 c = some d → P c)
    : ∀ {acc v : ℕ}, parseDigits 16 bound acc cs = some v → ∀ c ∈ cs, P c := by
  induction cs with
  | nil =>
    intro acc v _ c hc
    cases hc
  | cons c cs ih =>
    intro acc v h
    rw [parseDigits] at h
    split at h
    · next d hd =>
        split at h
        · exact forall_mem_cons.2 ⟨hdigit c d hd, ih h⟩
        · cases h
    · cases h

theorem parseRadix_forall (hplus : P '+')
    (hdigit : ∀ c d, digitValue 16 c = some d → P c) (h : parseRadix 16 bound cs = some v) : ∀ c ∈ cs, P c := by
  rw [parseRadix.eq_def] at h
  split at h
  · cases h
  · next c rest =>
      split at h
      · next hc =>
          obtain ⟨rfl, -⟩ := hc
          exact forall_mem_cons.2 ⟨hplus, parseDigits_forall hdigit h⟩
      · exact parseDigits_forall hdigit h

theorem parseRadix_ascii (h : parseRadix 16 bound cs = some v) : ∀ c ∈ cs, c.toNat < 0x80 := by
  refine parseRadix_forall (by decide) (fun c d hd => ?_) h
  rw [digitValue, Option.ite_none_right_eq_some] at hd
  obtain ⟨hlt, -⟩ := hd
  split at hlt
  · omega
  · split at hlt
    · omega
    · split at hlt
      · omega
      · exact absurd hlt (Nat.lt_irrefl _)

section Groups

variable {k : ℕ} {g rest : List Char}

theorem not_torn_nil (k : ℕ) : ¬ Torn k [] := by
  rintro ⟨groups, rest, hrest, hne, -, -⟩
  exact hne (List.append_eq_nil_iff.1 hrest.symm).2

theorem torn_of_uncut (hne : rest ≠ []) (h : splitAt rest k = none) : Torn k rest :=
  ⟨[], rest, rfl, hne, by rintro g ⟨⟩, splitAt_eq_none.1 h⟩

theorem torn_append (hg : size g = k) : Torn k (g ++ rest) ↔ (parseRadix 16 256 g).isSome ∧ Torn k rest := by
  constructor
  · rintro ⟨groups, tail, heq, hne, hgroups, htail⟩
    cases groups with
    | nil => exact absurd hg (htail g rest heq.symm)
    | cons g₀ groups =>
      obtain ⟨⟨hsize, hparse⟩, hgroups⟩ := forall_mem_cons.1 hgroups
      -- the first group is `g`
      rw [List.flatten_cons, append_assoc] at heq
      have hsame := splitAt_append g rest
      rw [heq, hg, ← hsize, splitAt_append] at hsame
      obtain ⟨rfl, hrest⟩ := Prod.mk.inj (Option.some.inj hsame)
      exact ⟨hparse, groups, tail, hrest.symm, hne, hgroups, htail⟩
  · rintro ⟨hparse, groups, tail, rfl, hne, hgroups, htail⟩
    refine ⟨g :: groups, tail, ?_, hne, forall_mem_cons.2 ⟨⟨hg, hparse⟩, hgroups⟩, htail⟩
    rw [List.flatten_cons, append_assoc]

/-- **Numbers in groups**: they are cut between two characters, or one of them is torn. -/
theorem checkedGroups_spec {scale : ℕ} (hk : 0 < k)
    (hscale : ∀ (g : List Char) (v : ℕ), size g = k → parseRadix 16 256 g = some v → v * scale < 256) (n : ℕ) :
    ∀ {done rest : List Char}, size rest = n * k →
      (Torn k rest → checkedGroups (done ++ rest) k scale n (size done) = .outOfRange) ∧
      (¬ Torn k rest → ∃ vs, checkedGroups (done ++ rest) k scale n (size done) = .ok vs ∧
        (vs.isSome → ∀ c ∈ rest, c.toNat < 0x80)) := by
  induction n with
  | zero =>
    intro done rest hsize
    obtain rfl : rest = [] := size_eq_zero.1 (by rw [hsize, Nat.zero_mul])
    exact ⟨fun htorn => absurd htorn (not_torn_nil k), fun _ => ⟨some [], rfl, fun _ c hc => by cases hc⟩⟩
  | succ n ih =>
    intro done rest hsize
    rw [Nat.succ_mul] at hsize
    rw [checkedGroups, slice_append]
    cases hsplit : splitAt rest k with
    | none =>
      have hne : rest ≠ [] := by
        rintro rfl
        rw [size_nil] at hsize
        omega
      exact ⟨fun _ => rfl, fun h => absurd (torn_of_uncut hne hsplit) h⟩
    | some p =>
      obtain ⟨g, tail⟩ := p
      obtain ⟨rfl, hg⟩ := splitAt_eq_some.1 hsplit
      rw [size_append] at hsize
      rw [torn_append hg, bind_ok]
      cases hparse : parseRadix 16 256 g with
      | none => exact ⟨fun h => absurd h.1 Bool.false_ne_true, fun _ => ⟨none, rfl, fun h => absurd h Bool.false_ne_true⟩⟩
      | some v =>
        obtain ⟨htorn, hwhole⟩ := @ih (done ++ g) tail (by omega)
        rw [size_append, hg, append_assoc] at htorn hwhole
        dsimp only
        rw [fits_eq (hscale g v hg hparse), bind_ok]
        refine ⟨fun h => by rw [htorn h.2]; rfl, fun h => ?_⟩
        obtain ⟨vs, hvs, hascii⟩ := hwhole fun ht => h ⟨rfl, ht⟩
        refine ⟨_, by rw [hvs]; rfl, fun hsome => List.forall_mem_append.2 ⟨parseRadix_ascii hparse, hascii ?_⟩⟩
        cases vs with
        | none => exact hsome
        | some vs => rfl

end Groups

/-! ### Colours -/

theorem groups_scale {g : List Char} {v : ℕ} (h : parseRadix 16 256 g = some v) : v < 16 ^ size g :=
  Nat.lt_of_lt_of_le (parseRadix_lt (by decide) h) (Nat.pow_le_pow_right (by decide) (length_le_size g))

theorem checkedChannels_eq (chans : List (List Char)) :
    ((checkedChannels 3 chans).bind fun vs => Outcome.ok (rgbOf vs) : Checks (Option Rgb)) = .ok
      (match chans with
        | [r, g, b] =>
          match parseChannel r, parseChannel g, parseChannel b with
          | some r, some g, some b => some (r, g, b)
          | _, _, _ => none
        | _ => none) := by
  have hchan : ∀ (n : ℕ) (chan : List Char) (rest : List (List Char)), checkedChannels (n + 1) (chan :: rest) =
      match parseChannel chan with
      | none => .ok none
      | some v => (checkedChannels n rest).bind fun vs => .ok (vs.map (v :: ·)) := by
    intro n chan rest
    rw [checkedChannels, checkedChannel_eq, bind_ok]
  cases chans with
  | nil => rfl
  | cons r chans =>
    rw [hchan]
    cases chans with
    | nil => cases parseChannel r <;> rfl
    | cons g chans =>
      rw [hchan]
      cases chans with
      | nil => cases parseChannel r <;> cases parseChannel g <;> rfl
      | cons b chans =>
        rw [hchan]
        cases chans with
        | nil =>
          dsimp only
          cases parseChannel r <;> cases parseChannel g <;> cases parseChannel b <;> rfl
        | cons more chans => cases parseChannel r <;> cases parseChannel g <;> cases parseChannel b <;> rfl

theorem stripPrefix_hash (hex : List Char) : stripPrefix ['r', 'g', 'b', ':'] ('#' :: hex) = none ∧
    stripPrefix ['#'] ('#' :: hex) = some hex := by
  refine ⟨if_neg fun h => ?_, if_pos rfl⟩
  exact absurd (List.cons.inj h).1 (by decide)

theorem parseColorSpec_ascii {c : Rgb} (h : parseColorSpec ('#' :: hex) = some c) : ∀ x ∈ hex, x.toNat < 0x80 := by
  rw [parseColorSpec, (stripPrefix_hash hex).1, (stripPrefix_hash hex).2] at h
  dsimp only at h
  split at h
  · next r g b heq =>
      cases heq
      split at h
      · next hr hg hb =>
          have hall := List.forall_mem_append.2 ⟨parseRadix_ascii hr,
            List.forall_mem_append.2 ⟨parseRadix_ascii hg, parseRadix_ascii hb⟩⟩
          exact hall
      · cases h
  · next r₁ r₀ g₁ g₀ b₁ b₀ heq =>
      cases heq
      split at h
      · next hr hg hb =>
          have hall := List.forall_mem_append.2 ⟨parseRadix_ascii hr,
            List.forall_mem_append.2 ⟨parseRadix_ascii hg, parseRadix_ascii hb⟩⟩
          exact hall
      · cases h
  · cases h

/-- The number a group stands for, scaled. -/
def groupValue (scale : ℕ) (g : List Char) : Option UInt8 := (parseRadix 16 256 g).map fun v => UInt8.ofNat (v * scale)

theorem checkedGroups_flatten
    (hscale : ∀ (g : List Char) (v : ℕ), size g = k → parseRadix 16 256 g = some v → v * scale < 256)
    (groups : List (List Char)) : ∀ {done : List Char}, (∀ g ∈ groups, size g = k) →
      checkedGroups (done ++ groups.flatten) k scale groups.length (size done) =
        .ok (groups.mapM (groupValue scale)) := by
  induction groups with
  | nil => exact fun _ => rfl
  | cons g groups ih =>
    intro done hgroups
    obtain ⟨hg, hgroups⟩ := forall_mem_cons.1 hgroups
    have hsplit := splitAt_append g groups.flatten
    rw [hg] at hsplit
    have hrest := @ih (done ++ g) hgroups
    rw [size_append, hg, append_assoc] at hrest
    rw [List.flatten_cons, length_cons, checkedGroups, slice_append, hsplit, bind_ok,
      List.mapM_cons, groupValue]
    cases hparse : parseRadix 16 256 g with
    | none => rfl
    | some v =>
      dsimp only
      rw [fits_eq (hscale g v hg hparse), bind_ok, hrest]
      cases groups.mapM (groupValue scale) <;> rfl

theorem scale_digit (g : List Char) (v : ℕ) (hg : size g = 1) (h : parseRadix 16 256 g = some v) : v * 17 < 256 := by
  have hlt := groups_scale h
  rw [hg] at hlt
  omega

theorem scale_byte (g : List Char) (v : ℕ) (hg : size g = 2) (h : parseRadix 16 256 g = some v) : v * 1 < 256 := by
  have hlt := groups_scale h
  rw [hg] at hlt
  omega

theorem checkedColorSpec_ascii (h : ∀ x ∈ hex, x.toNat < 0x80) :
    checkedColorSpec ('#' :: hex) = .ok (parseColorSpec ('#' :: hex)) := by
  have hone : ∀ x ∈ hex, x.utf8Size = 1 := fun x hx => utf8Size_eq_one.2 (h x hx)
  rw [checkedColorSpec, parseColorSpec, (stripPrefix_hash hex).1, (stripPrefix_hash hex).2]
  dsimp only
  rw [size_ascii h]
  split
  · next hlen =>
      obtain ⟨r, g, b, rfl⟩ := List.length_eq_three.1 hlen
      have hgroups := @checkedGroups_flatten 1 17 scale_digit [[r], [g], [b]] [] (by simpa using hone)
      rw [show checkedGroups [r, g, b] 1 17 3 0 = _ from hgroups]
      simp only [List.mapM_cons, groupValue, bind_ok]
      cases parseRadix 16 256 [r] <;> cases parseRadix 16 256 [g] <;> cases parseRadix 16 256 [b] <;> rfl
  · next hthree =>
      split
      · next hlen =>
          obtain ⟨r₁, r₀, g₁, g₀, b₁, b₀, rfl⟩ : ∃ r₁ r₀ g₁ g₀ b₁ b₀, hex = [r₁, r₀, g₁, g₀, b₁, b₀] := by
            match hex, hlen with
            | [r₁, r₀, g₁, g₀, b₁, b₀], _ => exact ⟨r₁, r₀, g₁, g₀, b₁, b₀, rfl⟩
          have hgroups := @checkedGroups_flatten 2 1 scale_byte [[r₁, r₀], [g₁, g₀], [b₁, b₀]] []
            (by simp at hone; simp [hone])
          rw [show checkedGroups [r₁, r₀, g₁, g₀, b₁, b₀] 2 1 3 0 = _ from hgroups]
          simp only [List.mapM_cons, groupValue, bind_ok, Nat.mul_one]
          cases parseRadix 16 256 [r₁, r₀] <;> cases parseRadix 16 256 [g₁, g₀] <;>
            cases parseRadix 16 256 [b₁, b₀] <;> rfl
      · next hsix =>
          split
          · next heq =>
              cases heq
              exact absurd rfl hthree
          · next heq =>
              cases heq
              exact absurd rfl hsix
          · rfl

theorem parseColorSpec_none (h : ¬ ∀ x ∈ hex, x.toNat < 0x80) : parseColorSpec ('#' :: hex) = none := by
  rw [Option.eq_none_iff_forall_ne_some]
  exact fun c hc => h (parseColorSpec_ascii hc)

theorem checkedColorSpec_groups (hk : 0 < k)
    (hscale : ∀ (g : List Char) (v : ℕ), size g = k → parseRadix 16 256 g = some v → v * scale < 256)
    (hsize : size hex = 3 * k)
    (hspec : checkedColorSpec ('#' :: hex) = (checkedGroups hex k scale 3 0).bind fun vs => .ok (rgbOf vs)) :
    StopsIff (Torn k hex) (checkedColorSpec ('#' :: hex)) (parseColorSpec ('#' :: hex)) := by
  obtain ⟨htorn, hwhole⟩ := @checkedGroups_spec k scale hk hscale 3 [] hex hsize
  have hnil : size [] = 0 := rfl
  rw [List.nil_append, hnil] at htorn hwhole
  refine ⟨fun h => by rw [hspec, htorn h]; rfl, fun h => ?_⟩
  by_cases hascii : ∀ x ∈ hex, x.toNat < 0x80
  · exact checkedColorSpec_ascii hascii
  · obtain ⟨vs, hvs, hsome⟩ := hwhole h
    cases vs with
    | none =>
      rw [hspec, hvs, parseColorSpec_none hascii]
      rfl
    | some vs => exact absurd (hsome rfl) hascii

theorem stripPrefix_eq_some {front s rest : List Char} (h : stripPrefix front s = some rest) : s = front ++ rest := by
  rw [stripPrefix] at h
  split at h
  · next htake =>
      cases h
      conv_lhs => rw [← List.take_append_drop front.length s, htake]
  · cases h

/-- **Colours**: they are read as they are, or a character lies across a cut. -/
theorem checkedColorSpec_spec (spec : List Char) :
    StopsIff (SpecTorn spec) (checkedColorSpec spec) (parseColorSpec spec) := by
  cases hrgb : stripPrefix ['r', 'g', 'b', ':'] spec with
  | some rest =>
    have hno : ¬ SpecTorn spec := by
      rintro ⟨hex, rfl, -⟩
      rw [(stripPrefix_hash hex).1] at hrgb
      cases hrgb
    refine ⟨fun h => absurd h hno, fun _ => ?_⟩
    rw [checkedColorSpec, parseColorSpec, hrgb]
    exact checkedChannels_eq _
  | none =>
    cases hhash : stripPrefix ['#'] spec with
    | none =>
      have hno : ¬ SpecTorn spec := by
        rintro ⟨hex, rfl, -⟩
        rw [(stripPrefix_hash hex).2] at hhash
        cases hhash
      refine ⟨fun h => absurd h hno, fun _ => ?_⟩
      rw [checkedColorSpec, parseColorSpec, hrgb, hhash]
    | some hex =>
      obtain rfl : spec = '#' :: hex := stripPrefix_eq_some hhash
      have htorn : SpecTorn ('#' :: hex) ↔
          size hex = 3 ∧ Torn 1 hex ∨ size hex = 6 ∧ Torn 2 hex := by
        constructor
        · rintro ⟨hex', heq, h⟩
          cases heq
          exact h
        · exact fun h => ⟨hex, rfl, h⟩
      have hspec : checkedColorSpec ('#' :: hex) =
          if size hex = 3 then (checkedGroups hex 1 17 3 0).bind fun vs => .ok (rgbOf vs)
          else if size hex = 6 then (checkedGroups hex 2 1 3 0).bind fun vs => .ok (rgbOf vs)
          else .ok none := by
        rw [checkedColorSpec, hrgb, hhash]
      rw [htorn]
      by_cases hthree : size hex = 3
      · obtain ⟨hstop, hread⟩ := checkedColorSpec_groups Nat.one_pos scale_digit hthree (by rw [hspec, if_pos hthree])
        refine ⟨fun h => hstop ?_, fun h => hread fun ht => h (.inl ⟨hthree, ht⟩)⟩
        obtain ⟨-, ht⟩ | ⟨hsix, -⟩ := h
        · exact ht
        · omega
      · by_cases hsix : size hex = 6
        · obtain ⟨hstop, hread⟩ := checkedColorSpec_groups Nat.two_pos scale_byte hsix
            (by rw [hspec, if_neg hthree, if_pos hsix])
          refine ⟨fun h => hstop ?_, fun h => hread fun ht => h (.inr ⟨hsix, ht⟩)⟩
          obtain ⟨hthree', -⟩ | ⟨-, ht⟩ := h
          · exact absurd hthree' hthree
          · exact ht
        · refine ⟨fun h => ?_, fun _ => ?_⟩
          · obtain ⟨hthree', -⟩ | ⟨hsix', -⟩ := h
            · exact absurd hthree' hthree
            · exact absurd hsix' hsix
          · by_cases hascii : ∀ x ∈ hex, x.toNat < 0x80
            · exact checkedColorSpec_ascii hascii
            · rw [hspec, if_neg hthree, if_neg hsix, parseColorSpec_none hascii]

/-! ### Paths -/

/-- Percent escapes replaced by their bytes: `bytes` are those of the text from the offset `i` on. -/
def checkedPercentDecode (s : List Char) (i : ℕ) (bytes : List UInt8) : Checks (List UInt8) :=
  match bytes with
  | [] => .ok []
  | a :: rest =>
    if a = byte '%' ∧ 2 ≤ rest.length then
      (Utf8.slice s (i + 1) (i + 3)).bind fun d =>
        match parseRadix 16 256 d with
        | some v => (checkedPercentDecode s (i + 3) (rest.drop 2)).bind fun out => .ok (UInt8.ofNat v :: out)
        | none => (checkedPercentDecode s (i + 1) rest).bind fun out => .ok (a :: out)
    else (checkedPercentDecode s (i + 1) rest).bind fun out => .ok (a :: out)
termination_by bytes.length
decreasing_by
  all_goals simp only [List.length_cons, List.length_drop]
  all_goals omega

/-- The byte offset of the first slash. -/
def findSlash (s : List Char) : Option ℕ := if '/' ∈ s then some (Utf8.size (s.takeWhile (· ≠ '/'))) else none

/-- The path of a `file://host/path` value; any other value is taken as it is. -/
def checkedFileUri (value : List Char) : Checks (List Char) :=
  match stripPrefix ['f', 'i', 'l', 'e', ':', '/', '/'] value with
  | none => .ok value
  | some rest =>
    ((match findSlash rest with
      | some i => Utf8.sliceFrom rest i
      | none => .ok ['/']) : Checks (List Char)).bind fun path =>
      (checkedPercentDecode path 0 (Utf8.encode path)).bind fun out => .ok (Utf8.lossy out)

/-- **A character across the end of an escape**: a percent sign, and two bytes that end inside a character. -/
def EscapeTorn (path : List Char) : Prop :=
  ∃ front rest, path = front ++ '%' :: rest ∧ 2 ≤ Utf8.size rest ∧
    ∀ escape back, rest = escape ++ back → Utf8.size escape ≠ 2

/-- The values whose path has a torn escape. -/
def PathTorn (value : List Char) : Prop :=
  ∃ host path, value = ['f', 'i', 'l', 'e', ':', '/', '/'] ++ (host ++ '/' :: path) ∧ '/' ∉ host ∧ EscapeTorn ('/' :: path)

section Escapes

variable {c : Char} {s tail : List Char} {xs : List UInt8} {d : List Char}

theorem escapeTorn_percent : EscapeTorn ('%' :: tail) ↔
    2 ≤ size tail ∧ splitAt tail 2 = none ∨ EscapeTorn tail := by
  rw [splitAt_eq_none]
  constructor
  · rintro ⟨front, rest, heq, hsize, hcut⟩
    cases front with
    | nil =>
      cases heq
      exact .inl ⟨hsize, hcut⟩
    | cons x front =>
      obtain ⟨rfl, rfl⟩ := List.cons.inj heq
      exact .inr ⟨front, rest, rfl, hsize, hcut⟩
  · rintro (⟨hsize, hcut⟩ | ⟨front, rest, rfl, hsize, hcut⟩)
    · exact ⟨[], tail, rfl, hsize, hcut⟩
    · exact ⟨'%' :: front, rest, rfl, hsize, hcut⟩

theorem escapeTorn_cons (hc : c ≠ '%') : EscapeTorn (c :: tail) ↔ EscapeTorn tail := by
  constructor
  · rintro ⟨front, rest, heq, hsize, hcut⟩
    cases front with
    | nil => exact absurd (List.cons.inj heq).1 hc
    | cons x front => exact ⟨front, rest, (List.cons.inj heq).2, hsize, hcut⟩
  · rintro ⟨front, rest, rfl, hsize, hcut⟩
    exact ⟨c :: front, rest, rfl, hsize, hcut⟩

theorem escapeTorn_append (hd : ∀ x ∈ d, x ≠ '%') : EscapeTorn (d ++ tail) ↔ EscapeTorn tail := by
  induction d with
  | nil => exact Iff.rfl
  | cons x d ih =>
    obtain ⟨hx, hd⟩ := forall_mem_cons.1 hd
    rw [List.cons_append, escapeTorn_cons hx, ih hd]

theorem not_escapeTorn_nil : ¬ EscapeTorn [] := by
  rintro ⟨front, rest, heq, -, -⟩
  cases front <;> cases heq

theorem percentDecode_cons {a : UInt8} (ha : a ≠ byte '%') (rest : List UInt8) :
    percentDecode (a :: rest) = a :: percentDecode rest := by
  match rest with
  | [] => rfl
  | [b] => rfl
  | b :: c :: rest => rw [percentDecode, if_neg ha]

theorem percentDecode_append (hxs : ∀ a ∈ xs, a ≠ byte '%') (rest : List UInt8) :
    percentDecode (xs ++ rest) = xs ++ percentDecode rest := by
  induction xs with
  | nil => rfl
  | cons a xs ih =>
    obtain ⟨ha, hxs⟩ := forall_mem_cons.1 hxs
    rw [List.cons_append, percentDecode_cons ha, ih hxs]
    rfl

theorem checkedPercentDecode_append (hxs : ∀ a ∈ xs, a ≠ byte '%') (s : List Char)
    (rest : List UInt8) : ∀ i : ℕ, checkedPercentDecode s i (xs ++ rest) =
      (checkedPercentDecode s (i + xs.length) rest).bind fun out => .ok (xs ++ out) := by
  induction xs with
  | nil =>
    intro i
    show checkedPercentDecode s i rest = (checkedPercentDecode s i rest).bind _
    cases checkedPercentDecode s i rest <;> rfl
  | cons a xs ih =>
    intro i
    obtain ⟨ha, hxs⟩ := forall_mem_cons.1 hxs
    rw [List.cons_append, checkedPercentDecode, if_neg fun h => ha h.1, ih hxs, length_cons,
      (by omega : i + 1 + xs.length = i + (xs.length + 1))]
    cases checkedPercentDecode s (i + (xs.length + 1)) rest <;> rfl

theorem encodeChar_ne_percent (hc : c ≠ '%') : ∀ a ∈ String.utf8EncodeChar c, a ≠ byte '%' := by
  have hpercent : (byte '%').toNat = 0x25 := rfl
  have hcont : ∀ b : UInt8, isCont b → b ≠ byte '%' := by
    rintro b hb rfl
    exact absurd hb (by decide)
  have hlead : ∀ b : UInt8, 0x80 ≤ b.toNat → b ≠ byte '%' := by
    rintro b hb rfl
    omega
  obtain ⟨hascii, henc⟩ | ⟨a, b, henc, ha, hb⟩ | ⟨a, b, d, henc, ha, -, hb, hd⟩ | ⟨a, b, d, e, henc, ha, -, hb, hd, he⟩ :=
    encodeChar_cases c
  · rw [henc, List.forall_mem_singleton]
    intro heq
    have hnat := congrArg UInt8.toNat heq
    rw [UInt8.toNat_ofNat', Nat.mod_eq_of_lt (by omega), hpercent] at hnat
    exact hc (Char.toNat_inj.1 hnat)
  · have ha' : 0x80 ≤ a.toNat := by
      simp only [isLead2, Bool.and_eq_true, decide_eq_true_eq] at ha
      omega
    rw [henc]
    simp only [forall_mem_cons]
    exact ⟨hlead a ha', hcont b hb, by rintro x ⟨⟩⟩
  · rw [henc]
    simp only [forall_mem_cons]
    exact ⟨hlead a (by omega), hcont b hb, hcont d hd, by rintro x ⟨⟩⟩
  · rw [henc]
    simp only [forall_mem_cons]
    exact ⟨hlead a (by omega), hcont b hb, hcont d hd, hcont e he, by rintro x ⟨⟩⟩

/-- The two bytes behind a percent sign, read as characters of one byte each, are the number that the text is. -/
theorem parseRadix_bytes {b₁ b₀ : UInt8} (hd : encode d = [b₁, b₀]) :
    parseRadix 16 256 [scalar b₁.toNat, scalar b₀.toNat] = parseRadix 16 256 d := by
  have hsize : size d = 2 := congrArg List.length hd
  have hnone : ∀ {cs : List Char} {x : Char}, x ∈ cs → 0x80 ≤ x.toNat → parseRadix 16 256 cs = none := by
    intro cs x hx hbeyond
    rw [Option.eq_none_iff_forall_ne_some]
    intro v hv
    have := parseRadix_ascii hv x hx
    omega
  match d, hd, hsize with
  | [x], hd, hsize =>
    -- one character of two bytes: neither it nor its bytes are digits
    rw [encode_cons, encode_nil, List.append_nil] at hd
    rw [size_cons, size_nil, Nat.add_zero] at hsize
    have hbeyond : 0x80 ≤ x.toNat := by
      rw [← Nat.not_lt, ← utf8Size_eq_one]
      omega
    have hlead : 0x80 ≤ b₁.toNat := by
      obtain ⟨hascii, -⟩ | ⟨a, b, henc, ha, -⟩ | ⟨a, b, e, henc, -⟩ | ⟨a, b, e, f, henc, -⟩ := encodeChar_cases x
      · omega
      · rw [henc] at hd
        cases hd
        simp only [isLead2, Bool.and_eq_true, decide_eq_true_eq] at ha
        omega
      · rw [henc] at hd
        cases hd
      · rw [henc] at hd
        cases hd
    have hvalid : b₁.toNat.isValidChar := .inl (Nat.lt_trans b₁.toNat_lt (by decide))
    rw [hnone List.mem_cons_self hbeyond, hnone List.mem_cons_self (by rw [toNat_scalar hvalid]; exact hlead)]
  | [x, y], hd, hsize =>
    rw [size_cons, size_cons, size_nil] at hsize
    have hxpos := x.utf8Size_pos
    have hypos := y.utf8Size_pos
    have hx : x.toNat < 0x80 := utf8Size_eq_one.1 (by omega)
    have hy : y.toNat < 0x80 := utf8Size_eq_one.1 (by omega)
    have hone : ∀ z : Char, z.toNat < 0x80 → String.utf8EncodeChar z = [UInt8.ofNat z.toNat] := by
      intro z hz
      obtain ⟨-, henc⟩ | ⟨a, b, henc, -⟩ | ⟨a, b, e, henc, -⟩ | ⟨a, b, e, f, henc, -⟩ := encodeChar_cases z
      · exact henc
      all_goals
        have hlen := congrArg List.length henc
        rw [String.length_utf8EncodeChar, utf8Size_eq_one.2 hz] at hlen
        cases hlen
    have hback : ∀ z : Char, z.toNat < 0x80 → scalar (UInt8.ofNat z.toNat).toNat = z := by
      intro z hz
      rw [UInt8.toNat_ofNat', Nat.mod_eq_of_lt (by omega), scalar_toNat]
    rw [encode_cons, encode_cons, hone x hx, hone y hy] at hd
    cases hd
    rw [hback x hx, hback y hy]
  | x :: y :: z :: rest, hd, hsize =>
    have hle := length_le_size (x :: y :: z :: rest)
    rw [hsize] at hle
    simp only [length_cons] at hle
    omega

/-- **Percent escapes**: they are read as they are, or one is torn. -/
theorem checkedPercentDecode_spec (n : ℕ) : ∀ {front tail : List Char}, tail.length = n →
    StopsIff (EscapeTorn tail) (checkedPercentDecode (front ++ tail) (size front) (encode tail))
      (percentDecode (encode tail)) := by
  -- over the length of what is left, of which an escape takes three bytes at once
  induction n using Nat.strong_induction_on with
  | _ n ih =>
    intro front tail hn
    subst hn
    cases tail with
    | nil => 
      refine ⟨fun h => absurd h not_escapeTorn_nil, fun _ => ?_⟩
      rw [encode_nil, checkedPercentDecode]
      rfl
    | cons c tail =>
      have hnext : front ++ c :: tail = (front ++ [c]) ++ tail := by rw [append_assoc]; rfl
      obtain ⟨hstop, hread⟩ := @ih tail.length (Nat.lt_succ_self _) (front ++ [c]) tail rfl
      rw [← hnext, size_append, size_cons, size_nil, Nat.add_zero] at hstop hread
      by_cases hc : c = '%'
      · subst hc
        have henc : encode ('%' :: tail) = byte '%' :: encode tail := rfl
        have hlen : (encode tail).length = size tail := rfl
        have hone : ('%' : Char).utf8Size = 1 := rfl
        rw [hone] at hstop hread
        rw [henc, escapeTorn_percent, checkedPercentDecode, hlen]
        by_cases htwo : 2 ≤ size tail
        · have hat := slice_append (ε := Empty) (front ++ ['%']) tail 2
          rw [← hnext, size_append, size_cons, size_nil, hone] at hat
          rw [if_pos ⟨rfl, htwo⟩, show slice (front ++ '%' :: tail) (size front + 1) (size front + 3) = _
            from hat]
          cases hsplit : splitAt tail 2 with
          | none => exact ⟨fun _ => rfl, fun h => absurd (.inl ⟨htwo, rfl⟩) h⟩
          | some p =>
            obtain ⟨d, back⟩ := p
            obtain ⟨rfl, hd⟩ := splitAt_eq_some.1 hsplit
            obtain ⟨b₁, b₀, hbytes⟩ := List.length_eq_two.1 hd
            have htotal : percentDecode (byte '%' :: encode (d ++ back)) = match parseRadix 16 256 d with
                | some v => UInt8.ofNat v :: percentDecode (encode back)
                | none => byte '%' :: percentDecode (encode (d ++ back)) := by
              rw [encode_append, hbytes]
              show percentDecode (byte '%' :: b₁ :: b₀ :: encode back) = _
              rw [percentDecode, if_pos rfl, parseRadix_bytes hbytes]
              rfl
            rw [htotal, bind_ok]
            cases hparse : parseRadix 16 256 d with
            | none =>
              dsimp only
              refine ⟨fun h => ?_, fun h => ?_⟩
              · rw [hstop (h.resolve_left fun hcut => by cases hcut.2)]
                rfl
              · rw [hread fun ht => h (.inr ht)]
                rfl
            | some v =>
              have hdigits : ∀ x ∈ d, x ≠ '%' :=
                parseRadix_forall (by decide) (fun c k hk => by rintro rfl; cases hk) hparse
              have hdrop : (encode (d ++ back)).drop 2 = encode back := by
                rw [encode_append, hbytes]
                rfl
              obtain ⟨hstop', hread'⟩ := @ih back.length (by rw [length_cons, List.length_append]; omega)
                (front ++ '%' :: d) back rfl
              rw [append_assoc, List.cons_append, size_append, size_cons, hone, hd,
                ← Nat.add_assoc] at hstop' hread'
              dsimp only
              rw [hdrop, escapeTorn_append hdigits]
              refine ⟨fun h => ?_, fun h => ?_⟩
              · rw [show checkedPercentDecode (front ++ '%' :: (d ++ back)) (size front + 3) _ = _ from
                  hstop' (h.resolve_left fun hcut => by cases hcut.2)]
                rfl
              · rw [show checkedPercentDecode (front ++ '%' :: (d ++ back)) (size front + 3) _ = _ from
                  hread' fun ht => h (.inr ht)]
                rfl
        · rw [if_neg fun h => htwo h.2]
          have hshort : percentDecode (byte '%' :: encode tail) = byte '%' :: percentDecode (encode tail) := by
            match hbytes : encode tail with
            | [] => rfl
            | [b] => rfl
            | b₁ :: b₀ :: rest =>
              rw [hbytes] at hlen
              simp only [length_cons] at hlen
              omega
          refine ⟨fun h => ?_, fun h => ?_⟩
          · rw [hstop (h.resolve_left fun hcut => htwo hcut.1)]
            rfl
          · rw [hread fun ht => h (.inr ht), hshort]
            rfl
      · rw [escapeTorn_cons hc, encode_cons, checkedPercentDecode_append (encodeChar_ne_percent hc),
          percentDecode_append (encodeChar_ne_percent hc), String.length_utf8EncodeChar]
        exact ⟨fun h => by rw [hstop h]; rfl, fun h => by rw [hread h]; rfl⟩

end Escapes

/-- **Paths**: they are read as they are, or an escape is torn. -/
theorem checkedFileUri_spec (value : List Char) :
    StopsIff (PathTorn value) (checkedFileUri value) (parseFileUri value) := by
  have hpath : ∀ path : List Char, StopsIff (EscapeTorn path) (checkedPercentDecode path 0 (encode path))
      (percentDecode (encode path)) :=
    fun path => @checkedPercentDecode_spec path.length [] path rfl
  have hslash : ¬ EscapeTorn ['/'] := by
    rw [escapeTorn_cons (by decide)]
    exact not_escapeTorn_nil
  cases hfile : stripPrefix ['f', 'i', 'l', 'e', ':', '/', '/'] value with
  | none =>
    have hno : ¬ PathTorn value := by
      rintro ⟨host, path, rfl, -, -⟩
      rw [stripPrefix, List.take_left, if_pos rfl] at hfile
      cases hfile
    refine ⟨fun h => absurd h hno, fun _ => ?_⟩
    rw [checkedFileUri, parseFileUri, hfile]
  | some rest =>
    obtain rfl := stripPrefix_eq_some hfile
    simp only [checkedFileUri, parseFileUri, hfile, findSlash]
    by_cases hmem : '/' ∈ rest
    · obtain ⟨host, path, rfl, hhost⟩ := List.eq_append_cons_of_mem hmem
      have hne : ∀ x ∈ host, (decide (x ≠ '/')) = true := by
        intro x hx
        exact decide_eq_true fun heq => hhost (heq ▸ hx)
      have htake : (host ++ '/' :: path).takeWhile (fun x => decide (x ≠ '/')) = host := by
        rw [List.takeWhile_append_of_pos hne, List.takeWhile_cons_of_neg (by decide), List.append_nil]
      have hdrop : (host ++ '/' :: path).dropWhile (fun x => decide (x ≠ '/')) = '/' :: path := by
        rw [List.dropWhile_append_of_pos hne, List.dropWhile_cons_of_neg (by decide)]
      have htorn : PathTorn (['f', 'i', 'l', 'e', ':', '/', '/'] ++ (host ++ '/' :: path)) ↔
          EscapeTorn ('/' :: path) := by
        constructor
        · rintro ⟨host', path', heq, hhost', h⟩
          -- the first slash is the first slash
          have hsame := List.append_cancel_left heq
          have hne' : ∀ x ∈ host', (decide (x ≠ '/')) = true := by
            intro x hx
            exact decide_eq_true fun heq => hhost' (heq ▸ hx)
          rw [hsame, List.dropWhile_append_of_pos hne', List.dropWhile_cons_of_neg (by decide)] at hdrop
          exact hdrop ▸ h
        · exact fun h => ⟨host, path, rfl, hhost, h⟩
      rw [if_pos hmem, if_pos hmem, htake, hdrop, htorn]
      dsimp only
      rw [sliceFrom_append, bind_ok]
      exact ⟨fun h => by rw [(hpath _).1 h]; rfl, fun h => by rw [(hpath _).2 h]; rfl⟩
    · have hno : ¬ PathTorn (['f', 'i', 'l', 'e', ':', '/', '/'] ++ rest) := by
        rintro ⟨host, path, heq, -, -⟩
        rw [List.append_cancel_left heq] at hmem
        exact hmem (List.mem_append_right _ List.mem_cons_self)
      refine ⟨fun h => absurd h hno, fun _ => ?_⟩
      rw [if_neg hmem, if_neg hmem]
      dsimp only
      rw [bind_ok, (hpath _).2 hslash]
      rfl

end Posh.Term
