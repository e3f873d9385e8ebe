/-
**The pen in text is read back.**

The SGR sequence of a style begins with a reset, so it sets any pen to that style, up to the protection,
which is no attribute of it.
-/

import Posh.Term.Csi
import Posh.Term.ParserReads

set_option autoImplicit false

namespace Posh.Term

open Posh.Term.Parser (ItemsFit)
open List (forall_mem_nil head?_cons)
open Posh.Term.Parser

/-! ### The parameters of a pen -/

def colorItems (base bright ext : ℕ) : Color → List (List ℕ)
  | .default => []
  | .indexed i =>
    if i.toNat < 8 then [[base + i.toNat]]
    else if i.toNat < 16 then [[bright + i.toNat - 8]]
    else [[ext], [5], [i.toNat]]
  | .rgb r g b => [[ext], [2], [r.toNat], [g.toNat], [b.toNat]]

def underlineColorItems : Color → List (List ℕ)
  | .default => []
  | .indexed i => [[58, 5, i.toNat]]
  | .rgb r g b => [[58, 2, r.toNat, g.toNat, b.toNat]]

def underlineItems : UnderlineStyle → List (List ℕ)
  | .none => []
  | .single => [[4]]
  | .double => [[4, 2]]
  | .curly => [[4, 3]]
  | .dotted => [[4, 4]]
  | .dashed => [[4, 5]]

def flagItems (b : Bool) (n : ℕ) : List (List ℕ) := if b then [[n]] else []

/-- The parameters after the reset. -/
def sgrItems (style : Style) : List (List ℕ) :=
  flagItems style.bold 1 ++ flagItems style.dim 2 ++ flagItems style.italic 3 ++
    underlineItems style.underline ++
    flagItems style.blink 5 ++ flagItems style.inverse 7 ++ flagItems style.invisible 8 ++
    flagItems style.strikethrough 9 ++ colorItems 30 90 38 style.fg ++ colorItems 40 100 48 style.bg ++
    underlineColorItems style.underlineColor

theorem itemsText_flagItems (b : Bool) (n : ℕ) : itemsText (flagItems b n) = if b then semi n else [] := by
  cases b <;> simp [flagItems, itemText]

theorem itemsText_underlineItems (u : UnderlineStyle) : itemsText (underlineItems u) = underlineParams u := by
  cases u <;> simp [underlineItems, underlineParams, itemText]

theorem itemsText_colorItems (base bright ext : ℕ) (c : Color) :
    itemsText (colorItems base bright ext c) = colorParams base bright ext c := by
  cases c with
  | default => rfl
  | indexed i =>
    rw [colorItems, colorParams]
    split
    · simp [itemText]
    · split <;> simp [itemText]
  | rgb r g b => simp [colorItems, colorParams, itemText]

variable (c : Color) {params : List (List ℕ)}

theorem itemsText_underlineColorItems : itemsText (underlineColorItems c) = underlineColorParams c := by
  cases c <;> simp [underlineColorItems, underlineColorParams, itemText]

/-- **The sequence of a style is its parameters in text.** -/
theorem sgrParams_eq (style : Style) : sgrParams style = decimal 0 ++ itemsText (sgrItems style) := by
  simp only [sgrParams, sgrItems, itemsText_append, itemsText_flagItems, itemsText_underlineItems,
    itemsText_colorItems, itemsText_underlineColorItems, List.append_assoc]

/-! ### There is room for them -/

theorem itemsFit_append {xs ys : List (List ℕ)} (hx : ItemsFit xs) (hy : ItemsFit ys) :
    ItemsFit (xs ++ ys) where
  ne_nil := List.forall_mem_append.mpr ⟨hx.ne_nil, hy.ne_nil⟩
  parts := List.forall_mem_append.mpr ⟨hx.parts, hy.parts⟩
  values := List.forall_mem_append.mpr ⟨hx.values, hy.values⟩

theorem itemsFit_flagItems (b : Bool) {n : ℕ} (hn : n ≤ 65535) : ItemsFit (flagItems b n) := by
  cases b
  · exact ⟨forall_mem_nil _, forall_mem_nil _, forall_mem_nil _⟩
  · refine ⟨?_, ?_, ?_⟩ <;> simp [flagItems, maxSubparams, hn]

theorem itemsFit_underlineItems (u : UnderlineStyle) : ItemsFit (underlineItems u) := by
  cases u <;> refine ⟨?_, ?_, ?_⟩ <;> simp [underlineItems, maxSubparams]

theorem itemsFit_colorItems {base bright ext : ℕ} (hbase : base ≤ 60000) (hbright : bright ≤ 60000)
    (hext : ext ≤ 60000) (c : Color) : ItemsFit (colorItems base bright ext c) := by
  have hbyte : ∀ i : UInt8, i.toNat ≤ 255 := fun i => Nat.lt_succ_iff.mp i.toNat_lt
  cases c with
  | default => exact ⟨forall_mem_nil _, forall_mem_nil _, forall_mem_nil _⟩
  | indexed i =>
    have := hbyte i
    rw [colorItems]
    split
    · refine ⟨?_, ?_, ?_⟩ <;> simp [maxSubparams]
      omega
    · split
      · refine ⟨?_, ?_, ?_⟩ <;> simp [maxSubparams]
        omega
      · refine ⟨?_, ?_, ?_⟩ <;> simp [maxSubparams]
        omega
  | rgb r g b =>
    have := hbyte r
    have := hbyte g
    have := hbyte b
    refine ⟨?_, ?_, ?_⟩ <;> simp [colorItems, maxSubparams]
    omega

theorem itemsFit_underlineColorItems : ItemsFit (underlineColorItems c) := by
  have hbyte : ∀ i : UInt8, i.toNat ≤ 255 := fun i => Nat.lt_succ_iff.mp i.toNat_lt
  cases c with
  | default => exact ⟨forall_mem_nil _, forall_mem_nil _, forall_mem_nil _⟩
  | indexed i =>
    have := hbyte i
    refine ⟨?_, ?_, ?_⟩ <;> simp [underlineColorItems, maxSubparams]
    omega
  | rgb r g b =>
    have := hbyte r
    have := hbyte g
    have := hbyte b
    refine ⟨?_, ?_, ?_⟩ <;> simp [underlineColorItems, maxSubparams]
    omega

theorem itemsFit_sgrItems (style : Style) : ItemsFit (sgrItems style) := by
  refine itemsFit_append ?_ (itemsFit_underlineColorItems _)
  refine itemsFit_append ?_ (itemsFit_colorItems (by decide) (by decide) (by decide) _)
  refine itemsFit_append ?_ (itemsFit_colorItems (by decide) (by decide) (by decide) _)
  refine itemsFit_append ?_ (itemsFit_flagItems _ (by decide))
  refine itemsFit_append ?_ (itemsFit_flagItems _ (by decide))
  refine itemsFit_append ?_ (itemsFit_flagItems _ (by decide))
  refine itemsFit_append ?_ (itemsFit_flagItems _ (by decide))
  refine itemsFit_append ?_ (itemsFit_underlineItems _)
  refine itemsFit_append ?_ (itemsFit_flagItems _ (by decide))
  refine itemsFit_append ?_ (itemsFit_flagItems _ (by decide))
  exact itemsFit_flagItems _ (by decide)

theorem length_flagItems_le (b : Bool) (n : ℕ) : (flagItems b n).length ≤ 1 := by
  cases b <;> simp [flagItems]

theorem length_underlineItems_le (u : UnderlineStyle) : (underlineItems u).length ≤ 1 := by
  cases u <;> simp [underlineItems]

theorem length_colorItems_le (base bright ext : ℕ) (c : Color) : (colorItems base bright ext c).length ≤ 5 := by
  cases c with
  | default => exact Nat.zero_le _
  | indexed i =>
    rw [colorItems]
    split
    · simp
    · split <;> simp
  | rgb r g b => exact Nat.le_refl _

theorem length_underlineColorItems_le : (underlineColorItems c).length ≤ 1 := by
  cases c <;> simp [underlineColorItems]

theorem length_sgrItems_lt (style : Style) : (sgrItems style).length < maxParams := by
  have h₁ := length_flagItems_le style.bold 1
  have h₂ := length_flagItems_le style.dim 2
  have h₃ := length_flagItems_le style.italic 3
  have h₄ := length_underlineItems_le style.underline
  have h₅ := length_flagItems_le style.blink 5
  have h₆ := length_flagItems_le style.inverse 7
  have h₇ := length_flagItems_le style.invisible 8
  have h₈ := length_flagItems_le style.strikethrough 9
  have h₉ := length_colorItems_le 30 90 38 style.fg
  have h₁₀ := length_colorItems_le 40 100 48 style.bg
  have h₁₁ := length_underlineColorItems_le style.underlineColor
  simp only [sgrItems, List.length_append, maxParams]
  omega

/-! ### Reading them -/

theorem sgrFrom_fuel (params : List (List ℕ)) {fuel k i : ℕ} (h : params.length ≤ i + fuel)
    (h' : params.length ≤ i + k) (style : Style) : sgrFrom params fuel i style = sgrFrom params k i style := by
  induction fuel generalizing k i style with
  | zero =>
    cases k with
    | zero => rfl
    | succ k => rw [sgrFrom, sgrFrom, if_neg (by omega)]
  | succ fuel ih =>
    rcases Nat.lt_or_ge i params.length with hlt | hge
    · cases k with
      | zero => omega
      | succ k =>
        rw [sgrFrom, sgrFrom, if_pos hlt, if_pos hlt]
        exact ih (by omega) (by omega) _
    · rw [sgrFrom, if_neg (by omega)]
      cases k with
      | zero => rfl
      | succ k => rw [sgrFrom, if_neg (by omega)]

/-- The attributes from parameter `i` on. -/
def sgrAt (params : List (List ℕ)) (i : ℕ) (style : Style) : Style :=
  sgrFrom params params.length i style

theorem sgrAt_step {i k : ℕ} {s s' : Style} (hi : i < params.length)
    (h : sgrStep params i s = (s', k)) : sgrAt params i s = sgrAt params (i + k + 1) s' := by
  rw [sgrAt, sgrFrom_fuel params (k := params.length + 1) (by omega) (by omega), sgrFrom, if_pos hi, h]
  rfl

theorem sgrAt_end {i : ℕ} (hi : params.length ≤ i) (s : Style) : sgrAt params i s = s := by
  rw [sgrAt, sgrFrom_fuel params (k := 0) (by omega) (by omega), sgrFrom]

/-- Reading the parameters `items`, wherever they stand, changes the pen `s` to `s'`. -/
def SgrSets (items : List (List ℕ)) (s s' : Style) : Prop :=
  ∀ before after : List (List ℕ), sgrAt (before ++ items ++ after) before.length s =
      sgrAt (before ++ items ++ after) (before.length + items.length) s'

namespace SgrSets

theorem nil (s : Style) : SgrSets [] s s := fun _ _ => rfl

theorem append {xs ys : List (List ℕ)} {s u v : Style} (hx : SgrSets xs s u)
    (hy : SgrSets ys u v) : SgrSets (xs ++ ys) s v := by
  intro before after
  have h := hx before (ys ++ after)
  have h' := hy (before ++ xs) after
  simp only [List.append_assoc, List.length_append, Nat.add_assoc] at h h' ⊢
  exact h.trans h'

theorem of_step {item : List ℕ} {m : List (List ℕ)} {s s' : Style} (h : ∀ before after : List (List ℕ),
      sgrStep (before ++ item :: (m ++ after)) before.length s = (s', m.length)) : SgrSets (item :: m) s s' := by
  intro before after
  rw [List.append_assoc, List.cons_append, sgrAt_step (by simp) (h before after)]
  rw [List.length_cons, Nat.add_assoc]

end SgrSets

theorem getD_middle {α : Type} (before after : List α) (a d : α) :
    (before ++ a :: after).getD before.length d = a := by simp

theorem sgrSets_flag {n : ℕ} {s s' : Style} {b : Bool} (hoff : b = false → s' = s)
    (hon : b = true → ∀ before after : List (List ℕ),
      sgrStep (before ++ [n] :: after) before.length s = (s', 0)) : SgrSets (flagItems b n) s s' := by
  cases b with
  | false => rw [hoff rfl]; exact .nil s
  | true => exact .of_step (m := []) (hon rfl)

variable {s : Style}

theorem sgrSets_underline (u : UnderlineStyle) (hs : s.underline = .none) :
    SgrSets (underlineItems u) s { s with underline := u } := by
  cases u with
  | none =>
    rw [show { s with underline := .none } = s by rw [← hs]]
    exact .nil s
  | single | double | curly | dotted | dashed =>
    refine .of_step (m := []) fun before after => ?_
    simp [sgrStep, underlineOf]

theorem extendedColor_indexed (before after : List (List ℕ)) (ext : ℕ) (i : UInt8) :
    extendedColor (before ++ [ext] :: [5] :: [i.toNat] :: after) before.length = (some (.indexed i), 2) := by
  have hi : i.toNat ≤ 255 := Nat.lt_succ_iff.mp i.toNat_lt
  simp [extendedColor, Nat.min_eq_left hi]

theorem extendedColor_rgb (before after : List (List ℕ)) (ext : ℕ) (r g b : UInt8) :
    extendedColor (before ++ [ext] :: [2] :: [r.toNat] :: [g.toNat] :: [b.toNat] :: after)
        before.length = (some (.rgb r g b), 4) := by
  have hr : r.toNat ≤ 255 := Nat.lt_succ_iff.mp r.toNat_lt
  have hg : g.toNat ≤ 255 := Nat.lt_succ_iff.mp g.toNat_lt
  have hb : b.toNat ≤ 255 := Nat.lt_succ_iff.mp b.toNat_lt
  simp [extendedColor, Nat.min_eq_left hr, Nat.min_eq_left hg, Nat.min_eq_left hb]

theorem sgrSets_fg (hs : s.fg = .default) : SgrSets (colorItems 30 90 38 c) s { s with fg := c } := by
  cases c with
  | default =>
    rw [show { s with fg := .default } = s by rw [← hs]]
    exact .nil s
  | indexed i =>
    rw [colorItems]
    split
    case isTrue hlt =>
      refine .of_step (m := []) fun before after => ?_
      simp (disch := omega) only [sgrStep, getD_middle, head?_cons, Option.getD_some, if_neg, if_pos]
      simp
    case isFalse hge =>
      split
      case isTrue hlt =>
        have hback : 90 + i.toNat - 8 - 90 + 8 = i.toNat := by omega
        refine .of_step (m := []) fun before after => ?_
        simp (disch := omega) only [sgrStep, getD_middle, head?_cons, Option.getD_some, if_neg, if_pos]
        simp [hback]
      case isFalse =>
        refine .of_step (m := [[5], [i.toNat]]) fun before after => ?_
        simp [sgrStep, extendedColor_indexed]
  | rgb r g b =>
    refine .of_step (m := [[2], [r.toNat], [g.toNat], [b.toNat]]) fun before after => ?_
    simp [sgrStep, extendedColor_rgb]

theorem sgrSets_bg (hs : s.bg = .default) : SgrSets (colorItems 40 100 48 c) s { s with bg := c } := by
  cases c with
  | default =>
    rw [show { s with bg := .default } = s by rw [← hs]]
    exact .nil s
  | indexed i =>
    rw [colorItems]
    split
    case isTrue hlt =>
      refine .of_step (m := []) fun before after => ?_
      simp (disch := omega) only [sgrStep, getD_middle, head?_cons, Option.getD_some, if_neg, if_pos]
      simp
    case isFalse hge =>
      split
      case isTrue hlt =>
        have hback : 100 + i.toNat - 8 - 100 + 8 = i.toNat := by omega
        refine .of_step (m := []) fun before after => ?_
        simp (disch := omega) only [sgrStep, getD_middle, head?_cons, Option.getD_some, if_neg, if_pos]
        simp [hback]
      case isFalse =>
        refine .of_step (m := [[5], [i.toNat]]) fun before after => ?_
        simp [sgrStep, extendedColor_indexed]
  | rgb r g b =>
    refine .of_step (m := [[2], [r.toNat], [g.toNat], [b.toNat]]) fun before after => ?_
    simp [sgrStep, extendedColor_rgb]

theorem sgrSets_underlineColor (hs : s.underlineColor = .default) :
    SgrSets (underlineColorItems c) s { s with underlineColor := c } := by
  have hbyte : ∀ i : UInt8, min i.toNat 255 = i.toNat := fun i =>
    Nat.min_eq_left (Nat.lt_succ_iff.mp i.toNat_lt)
  cases c with
  | default =>
    rw [show { s with underlineColor := .default } = s by rw [← hs]]
    exact .nil s
  | indexed i =>
    refine .of_step (m := []) fun before after => ?_
    simp [sgrStep, extendedColor, hbyte]
  | rgb r g b =>
    refine .of_step (m := []) fun before after => ?_
    simp [sgrStep, extendedColor, hbyte]

theorem sgrSets_reset (s : Style) : SgrSets [[0]] s {} :=
  .of_step (m := []) fun before after => by simp [sgrStep]

theorem sgrSets_sgrItems (style : Style) : SgrSets (sgrItems style) {} { style with isProtected := false } := by
  refine .append (u := { style with underlineColor := .default, isProtected := false }) ?_
    (sgrSets_underlineColor _ rfl)
  refine .append (u := { style with
    underlineColor := .default, isProtected := false, bg := .default }) ?_ (sgrSets_bg _ rfl)
  refine .append (u := { style with
    underlineColor := .default, isProtected := false, bg := .default, fg := .default }) ?_
    (sgrSets_fg _ rfl)
  obtain ⟨fg, bg, underlineColor, bold, dim, italic, underline, blink, inverse, invisible,
    strikethrough, isProtected⟩ := style
  dsimp only
  refine .append (u := { bold, dim, italic, underline, blink, inverse, invisible }) ?_
    (sgrSets_flag (fun h => by rw [h]) fun h before after => by simp [sgrStep, h])
  refine .append (u := { bold, dim, italic, underline, blink, inverse }) ?_
    (sgrSets_flag (fun h => by rw [h]) fun h before after => by simp [sgrStep, h])
  refine .append (u := { bold, dim, italic, underline, blink }) ?_
    (sgrSets_flag (fun h => by rw [h]) fun h before after => by simp [sgrStep, h])
  refine .append (u := { bold, dim, italic, underline }) ?_
    (sgrSets_flag (fun h => by rw [h]) fun h before after => by simp [sgrStep, h])
  refine .append (u := { bold, dim, italic }) ?_ (sgrSets_underline _ rfl)
  refine .append (u := { bold, dim }) ?_
    (sgrSets_flag (fun h => by rw [h]) fun h before after => by simp [sgrStep, h])
  refine .append (u := { bold }) ?_
    (sgrSets_flag (fun h => by rw [h]) fun h before after => by simp [sgrStep, h])
  exact sgrSets_flag (fun h => by rw [h]) fun h before after => by simp [sgrStep, h]

/-- **The pen that was written is read back**; the protection stays. -/
theorem applySgr_sgrItems (style pen : Style) :
    applySgr ([0] :: sgrItems style) pen = { style with isProtected := pen.isProtected } := by
  have hsets := (sgrSets_reset pen).append (sgrSets_sgrItems style) [] []
  simp only [List.nil_append, List.append_nil, List.length_nil, Nat.zero_add, List.singleton_append] at hsets
  have hend := hsets.trans (sgrAt_end (Nat.le_refl _) _)
  rw [sgrAt] at hend
  rw [applySgr, List.isEmpty_cons, if_neg Bool.false_ne_true, hend]

end Posh.Term
