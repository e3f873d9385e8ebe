/-
**Rectangles are laid over each other pixel by pixel.**

Laying a rectangle of one image over another changes the pixels that both images have under the rectangle, and no
others.  Such a pixel becomes the one above it, where that is to replace it or covers it, and otherwise the exact blend
of the two, rounded down.
-/

import Mathlib.Data.Rat.Floor
import Posh.Lib.AlphaOver
import Posh.Term.Compositing

set_option autoImplicit false

namespace Posh.Term

open ByteCursor Checked
open ByteCursor.Outcome (bind_ok)
open AlphaOver

/-! ### Pixels -/

/-- As many bytes as a size says, four for a pixel, and neither these nor the rows are more than a slice has. -/
structure Canvas (px : List UInt8) (size : ℕ × ℕ) : Prop where
  height_lt : size.2 < 2 ^ 63
  length : px.length = size.1 * size.2 * 4
  small : px.length < 2 ^ 63

/-- The pixel with a number. -/
def quad (px : List UInt8) (i : ℕ) : List UInt8 := (px.drop (i * 4)).take 4

/-- The pixel in a column and a row. -/
def pixel (px : List UInt8) (width x y : ℕ) : List UInt8 := quad px (y * width + x)

/-- **The exact blend of two pixels, rounded down.** -/
def IsOver : List UInt8 → List UInt8 → List UInt8 → Prop
  | [dr, dg, db, dalpha], [sr, sg, sb, salpha], px =>
    let sa : ℚ := salpha.toNat / 255
    let da : ℚ := dalpha.toNat / 255
    ∃ r g b a : UInt8, px = [r, g, b, a] ∧ r.toNat = ⌊AlphaOver.sample sa da sr.toNat dr.toNat⌋₊ ∧
      g.toNat = ⌊AlphaOver.sample sa da sg.toNat dg.toNat⌋₊ ∧
      b.toNat = ⌊AlphaOver.sample sa da sb.toNat db.toNat⌋₊ ∧ a.toNat = ⌊255 * AlphaOver.cover sa da⌋₊
  | _, _, _ => False

/-- A pixel over another: it replaces the one below, or covers it, or the two are blended. -/
def Laid (replace : Bool) (d s px : List UInt8) : Prop :=
  if replace = true ∨ s[3]? = some 255 then px = s else IsOver d s px

theorem toNat_le (b : UInt8) : b.toNat ≤ 255 := Nat.le_of_lt_succ b.toNat_lt

theorem toNat_ofNat_of_le {n : ℕ} (h : n ≤ 255) : (UInt8.ofNat n).toNat = n := by
  rw [UInt8.toNat_ofNat']
  exact Nat.mod_eq_of_lt (by omega)

theorem floor_sample (sa da s d : UInt8) : ⌊sample (sa.toNat / 255 : ℚ) (da.toNat / 255) s.toNat d.toNat⌋₊ =
      AlphaOver.weighed 255 sa.toNat da.toNat s.toNat d.toNat / AlphaOver.steps 255 sa.toNat da.toNat := by
  have hfloor := @AlphaOver.floor_sample ℚ _ _ _ _ 255 sa.toNat da.toNat s.toNat d.toNat (by decide) (toNat_le sa)
  exact_mod_cast hfloor

theorem floor_cover (sa da : UInt8) : ⌊255 * cover (sa.toNat / 255 : ℚ) (da.toNat / 255)⌋₊ =
      AlphaOver.steps 255 sa.toNat da.toNat / 255 := by
  have hfloor := @AlphaOver.floor_cover ℚ _ _ _ _ 255 sa.toNat da.toNat (by decide) (toNat_le sa)
  exact_mod_cast hfloor

theorem blendSample_over (sa da s d : UInt8) (hoa : steps 255 sa.toNat da.toNat ≠ 0) :
    ∃ r, blendSample sa.toNat da.toNat (steps 255 sa.toNat da.toNat) s.toNat d.toNat = .ok r ∧
      r.toNat = ⌊sample (sa.toNat / 255 : ℚ) (da.toNat / 255) s.toNat d.toNat⌋₊ := by
  have hle : weighed 255 sa.toNat da.toNat s.toNat d.toNat / steps 255 sa.toNat da.toNat ≤ 255 :=
    steps_sample_le (toNat_le s) (toNat_le d)
  have hsc : s.toNat * sa.toNat ≤ 255 * 255 := Nat.mul_le_mul (toNat_le s) (toNat_le sa)
  have hsc' : s.toNat * sa.toNat * 255 ≤ 255 * 255 * 255 := Nat.mul_le_mul_right 255 hsc
  have hdc : d.toNat * da.toNat ≤ 255 * 255 := Nat.mul_le_mul (toNat_le d) (toNat_le da)
  have hdc' : d.toNat * da.toNat * (255 - sa.toNat) ≤ 255 * 255 * 255 := Nat.mul_le_mul hdc (Nat.sub_le 255 _)
  have hrun : blendSample sa.toNat da.toNat (steps 255 sa.toNat da.toNat) s.toNat d.toNat =
      .ok (UInt8.ofNat (weighed 255 sa.toNat da.toNat s.toNat d.toNat /
        steps 255 sa.toNat da.toNat)) := by
    rw [blendSample, mul_eq (by omega), bind_ok, mul_eq (by omega), bind_ok,
      Checked.sub_eq (toNat_le sa), bind_ok, mul_eq (by omega), bind_ok, mul_eq (by omega),
      bind_ok, add_eq (by omega), bind_ok, if_neg hoa]
    rfl
  exact ⟨_, hrun, by rw [toNat_ofNat_of_le hle, floor_sample]⟩

/-- **A blended pixel is the exact blend, rounded down.** -/
theorem blendPx_over {d s : List UInt8} (hd : d.length = 4) (hs : s.length = 4) :
    ∃ px, blendPx d s = .ok px ∧ px.length = 4 ∧ Laid false d s px := by
  match d, hd, s, hs with
  | [dr, dg, db, dalpha], _, [sr, sg, sb, salpha], _ =>
    have htop : salpha.toNat * 255 ≤ 255 * 255 := Nat.mul_le_mul_right 255 (toNat_le salpha)
    have hbelow : dalpha.toNat * (255 - salpha.toNat) ≤ 255 * 255 :=
      Nat.mul_le_mul (toNat_le dalpha) (Nat.sub_le 255 _)
    rw [blendPx]
    split
    · next hfull =>
        refine ⟨_, rfl, rfl, ?_⟩
        rw [Laid, if_pos]
        exact .inr (congrArg some (UInt8.toNat_inj.1 hfull))
    · next hpart =>
        have hlaid : ∀ {px}, IsOver [dr, dg, db, dalpha] [sr, sg, sb, salpha] px →
            Laid false [dr, dg, db, dalpha] [sr, sg, sb, salpha] px := by
          intro px hpx
          rw [Laid, if_neg]
          · exact hpx
          · rintro (hno | hfull)
            · cases hno
            · exact hpart (by rw [Option.some.inj hfull]; rfl)
        rw [Checked.sub_eq (toNat_le salpha), bind_ok, mul_eq (by omega), bind_ok,
          mul_eq (by omega), bind_ok, add_eq (by omega), bind_ok]
        split
        · next hzero =>
            have hsteps : steps 255 salpha.toNat dalpha.toNat = 0 := hzero
            have hsample : ∀ s d : UInt8, (0 : UInt8).toNat =
                ⌊sample (salpha.toNat / 255 : ℚ) (dalpha.toNat / 255) s.toNat d.toNat⌋₊ := by
              intro s d
              rw [floor_sample, hsteps, Nat.div_zero]
              rfl
            refine ⟨_, rfl, rfl, hlaid ⟨0, 0, 0, 0, rfl, hsample sr dr, hsample sg dg, hsample sb db, ?_⟩⟩
            rw [floor_cover, hsteps]
            rfl
        · next hoa =>
            obtain ⟨r, hr, hr'⟩ := blendSample_over salpha dalpha sr dr hoa
            obtain ⟨g, hg, hg'⟩ := blendSample_over salpha dalpha sg dg hoa
            obtain ⟨b, hb, hb'⟩ := blendSample_over salpha dalpha sb db hoa
            have hsteps : salpha.toNat * 255 + dalpha.toNat * (255 - salpha.toNat) =
                steps 255 salpha.toNat dalpha.toNat := rfl
            rw [hsteps, hr, bind_ok, hg, bind_ok, hb, bind_ok]
            refine ⟨_, rfl, rfl, hlaid ⟨r, g, b, _, rfl, hr', hg', hb', ?_⟩⟩
            rw [floor_cover]
            exact toNat_ofNat_of_le (steps_cover_le (toNat_le salpha) (toNat_le dalpha))

/-! ### One pixel -/

variable {px : List UInt8} {src dst : List UInt8} {size : ℕ × ℕ}

theorem length_quad {i : ℕ} (h : (i + 1) * 4 ≤ px.length) : (quad px i).length = 4 := by
  rw [quad, List.length_take, List.length_drop]
  omega

theorem getElem?_quad (px : List UInt8) (i k : ℕ) : (quad px i)[k]? = if k < 4 then px[i * 4 + k]? else none := by
  rw [quad, List.getElem?_take]
  split
  · rw [List.getElem?_drop]
  · rfl

theorem quad_put {dst px : List UInt8} {j : ℕ} (hj : (j + 1) * 4 ≤ dst.length) (hpx : px.length = 4) (i : ℕ) :
    quad (dst.take (j * 4) ++ px ++ dst.drop (j * 4 + 4)) i = if i = j then px else quad dst i := by
  have htake : (dst.take (j * 4)).length = j * 4 := by
    rw [List.length_take]
    omega
  split
  · next heq =>
      subst heq
      rw [quad, List.append_assoc, List.drop_left' htake, List.take_left' hpx]
  · next hne =>
      refine List.ext_getElem? fun k => ?_
      rw [getElem?_quad, getElem?_quad]
      split
      · rcases Nat.lt_or_gt_of_ne hne with hlt | hgt
        · rw [List.append_assoc, List.getElem?_append_left (by omega), List.getElem?_take, if_pos (by omega)]
        · have hlen : (dst.take (j * 4) ++ px).length = j * 4 + 4 := by
            rw [List.length_append, htake, hpx]
          rw [List.getElem?_append_right (by omega), hlen, List.getElem?_drop]
          congr 1
          omega
      · rfl

theorem composePixel_laid {sAt dAt col i j : ℕ} (hi : sAt + col * 4 = i * 4)
    (hj : dAt + col * 4 = j * 4) (hsrc : (i + 1) * 4 ≤ src.length) (hdst : (j + 1) * 4 ≤ dst.length)
    (hs : src.length < 2 ^ 63) (hd : dst.length < 2 ^ 63) (replace : Bool) :
    ∃ px, Laid replace (quad dst j) (quad src i) px ∧ px.length = 4 ∧
      composePixel src sAt dAt replace dst col = .ok (dst.take (j * 4) ++ px ++ dst.drop (j * 4 + 4)) := by
  have hslice : ∀ {xs : List UInt8} {k : ℕ}, (k + 1) * 4 ≤ xs.length → xs.length < 2 ^ 63 →
      pixelSlice xs (k * 4) = .ok (quad xs k) := by
    intro xs k hk hlen
    rw [pixelSlice, add_eq (by omega), bind_ok, getRange, if_pos ⟨Nat.le_add_right _ _, by omega⟩, quad,
      Nat.add_sub_cancel_left]
  obtain ⟨px, hpx, hlen, hlaid⟩ : ∃ px, (if replace = true then .ok (quad src i) else
      blendPx (quad dst j) (quad src i) : Storing (List UInt8)) = .ok px ∧ px.length = 4 ∧
      Laid replace (quad dst j) (quad src i) px := by
    cases replace with
    | true =>
      refine ⟨_, rfl, length_quad hsrc, ?_⟩
      rw [Laid, if_pos (.inl rfl)]
    | false => exact blendPx_over (length_quad hdst) (length_quad hsrc)
  refine ⟨px, hlaid, hlen, ?_⟩
  rw [composePixel, mul_eq (by omega), bind_ok, add_eq (by omega), bind_ok, hi, hslice hsrc hs,
    bind_ok, add_eq (by omega), bind_ok, hj, hslice hdst hd, bind_ok, hpx, bind_ok]

/-! ### Rectangles -/

/-- The rectangle, as far as the image above has it. -/
def Inside (ssize spos dpos size : ℕ × ℕ) (x y : ℕ) : Prop :=
  (dpos.1 ≤ x ∧ x - dpos.1 < size.1 ∧ spos.1 + (x - dpos.1) < ssize.1) ∧
    (dpos.2 ≤ y ∧ y - dpos.2 < size.2 ∧ spos.2 + (y - dpos.2) < ssize.2)

/-- Some pixels are painted, with those of `src` that lie over them, and the others are as they were. -/
structure Painted (dst : List UInt8) (dsize : ℕ × ℕ) (src : List UInt8) (ssize spos dpos : ℕ × ℕ) (replace : Bool)
    (done : ℕ → ℕ → Prop) (out : List UInt8) : Prop where
  length : out.length = dst.length
  inside : ∀ x < dsize.1, ∀ y < dsize.2, done x y →
    Laid replace (pixel dst dsize.1 x y) (pixel src ssize.1 (spos.1 + (x - dpos.1)) (spos.2 + (y - dpos.2)))
      (pixel out dsize.1 x y)
  outside : ∀ x < dsize.1, ∀ y < dsize.2, ¬ done x y → pixel out dsize.1 x y = pixel dst dsize.1 x y

/-- **A rectangle over an image**: as far as both have it, its pixels are laid over those of the image. -/
def LaidOver (dst : List UInt8) (dsize : ℕ × ℕ) (src : List UInt8) (ssize spos dpos size : ℕ × ℕ) (replace : Bool) :
    List UInt8 → Prop :=
  Painted dst dsize src ssize spos dpos replace (Inside ssize spos dpos size)

theorem pixel_index {width x y x' y' : ℕ} (hx : x < width) (hx' : x' < width)
    (h : y * width + x = y' * width + x') : x = x' ∧ y = y' := by
  have hmod : (y * width + x) % width = (y' * width + x') % width := congrArg (· % width) h
  rw [Nat.add_comm, Nat.add_mul_mod_self_right, Nat.add_comm (y' * width), Nat.add_mul_mod_self_right,
    Nat.mod_eq_of_lt hx, Nat.mod_eq_of_lt hx'] at hmod
  subst hmod
  exact ⟨rfl, Nat.eq_of_mul_eq_mul_right (Nat.lt_of_le_of_lt (Nat.zero_le x) hx) (Nat.add_right_cancel h)⟩

theorem Canvas.pixel_le (h : Canvas px size) {x y : ℕ} (hx : x < size.1)
    (hy : y < size.2) : (y * size.1 + x + 1) * 4 ≤ px.length := by
  have hrow : (y + 1) * size.1 ≤ size.2 * size.1 := Nat.mul_le_mul_right _ hy
  rw [Nat.add_mul, Nat.one_mul] at hrow
  rw [h.length, Nat.mul_comm size.1]
  omega

theorem Canvas.pixelAt_eq (h : Canvas px size) {x y row : ℕ} (hx : x < 2 ^ 32)
    (hrow : y + row < size.2) : pixelAt y row size.1 x = .ok (((y + row) * size.1 + x) * 4) := by
  have hrows : (y + row) * size.1 ≤ size.2 * size.1 := Nat.mul_le_mul_right _ (Nat.le_of_lt hrow)
  have hlen := h.length
  rw [Nat.mul_comm size.1] at hlen
  have hheight := h.height_lt
  have hsmall := h.small
  rw [pixelAt, add_eq (by omega), bind_ok, mul_eq (by omega), bind_ok, add_eq (by omega),
    bind_ok, mul_eq (by omega)]

namespace Painted

variable {dst src out : List UInt8} {dsize ssize spos dpos size : ℕ × ℕ} {replace : Bool} {done done' : ℕ → ℕ → Prop}

theorem congr (h : Painted dst dsize src ssize spos dpos replace done out)
    (hdone : ∀ x < dsize.1, ∀ y < dsize.2, (done x y ↔ done' x y)) :
    Painted dst dsize src ssize spos dpos replace done' out where
  length := h.length
  inside := fun x hx y hy hin => h.inside x hx y hy ((hdone x hx y hy).2 hin)
  outside := fun x hx y hy hno => h.outside x hx y hy fun hin => hno ((hdone x hx y hy).1 hin)

theorem start (dst : List UInt8) (dsize : ℕ × ℕ) (src : List UInt8) (ssize spos dpos : ℕ × ℕ) (replace : Bool) :
    Painted dst dsize src ssize spos dpos replace (fun _ _ => False) dst where
  length := rfl
  inside := fun _ _ _ _ hno => hno.elim
  outside := fun _ _ _ _ _ => rfl

/-- **One pixel more is painted.** -/
theorem step (h : Painted dst dsize src ssize spos dpos replace done out) (hdst : Canvas dst dsize)
    (hsrc : Canvas src ssize) {row col : ℕ} (hdx : dpos.1 + col < dsize.1) (hdy : dpos.2 + row < dsize.2)
    (hsx : spos.1 + col < ssize.1) (hsy : spos.2 + row < ssize.2) (hnew : ¬ done (dpos.1 + col) (dpos.2 + row)) :
    (composePixel src (((spos.2 + row) * ssize.1 + spos.1) * 4) (((dpos.2 + row) * dsize.1 + dpos.1) * 4) replace out
      col).Meets
      (Painted dst dsize src ssize spos dpos replace fun x y => done x y ∨ x = dpos.1 + col ∧ y = dpos.2 + row) := by
  have hlen := h.length
  have hd := hdst.pixel_le hdx hdy
  have hs := hsrc.pixel_le hsx hsy
  obtain ⟨px, hlaid, hpx, hrun⟩ := @composePixel_laid src out (((spos.2 + row) * ssize.1 + spos.1) * 4)
    (((dpos.2 + row) * dsize.1 + dpos.1) * 4) col ((spos.2 + row) * ssize.1 + (spos.1 + col))
    ((dpos.2 + row) * dsize.1 + (dpos.1 + col)) (by omega) (by omega) hs (by rw [hlen]; exact hd) hsrc.small
    (by rw [hlen]; exact hdst.small) replace
  rw [hrun]
  have hput : ∀ x y, pixel (out.take (((dpos.2 + row) * dsize.1 + (dpos.1 + col)) * 4) ++ px ++
      out.drop (((dpos.2 + row) * dsize.1 + (dpos.1 + col)) * 4 + 4)) dsize.1 x y =
        if y * dsize.1 + x = (dpos.2 + row) * dsize.1 + (dpos.1 + col) then px else pixel out dsize.1 x y :=
    fun x y => quad_put (by rw [hlen]; exact hd) hpx _
  refine ⟨?_, fun x hx y hy hin => ?_, fun x hx y hy hno => ?_⟩
  · show (out.take _ ++ px ++ out.drop _).length = _
    rw [List.length_append, List.length_append, List.length_take, List.length_drop, hpx]
    omega
  · by_cases heq : x = dpos.1 + col ∧ y = dpos.2 + row
    · obtain ⟨rfl, rfl⟩ := heq
      rw [Nat.add_sub_cancel_left, Nat.add_sub_cancel_left, hput, if_pos rfl, ← h.outside _ hx _ hy hnew]
      exact hlaid
    · rw [hput, if_neg fun hsame => heq (pixel_index hx hdx hsame)]
      exact h.inside x hx y hy (hin.resolve_right heq)
  · rw [not_or] at hno
    rw [hput, if_neg fun hsame => hno.2 (pixel_index hx hdx hsame)]
    exact h.outside x hx y hy hno.1

end Painted

/-- **Laying a rectangle over an image** changes the pixels that both have, each to the pixel above it or to the exact
blend, and no others. -/
theorem composeRect_laid {dsize ssize spos dpos : ℕ × ℕ} (hdst : Canvas dst dsize)
    (hsrc : Canvas src ssize) (hspos : spos.1 < 2 ^ 32) (hdpos : dpos.1 < 2 ^ 32) (size : ℕ × ℕ) (replace : Bool) :
    (composeRect dst dsize src ssize spos dpos size replace).Meets
      (LaidOver dst dsize src ssize spos dpos size replace) := by
  rw [composeRect]
  obtain ⟨w, hw⟩ : ∃ w, w = min (min size.1 (ssize.1 - spos.1)) (dsize.1 - dpos.1) := ⟨_, rfl⟩
  obtain ⟨h, hh⟩ : ∃ h, h = min (min size.2 (ssize.2 - spos.2)) (dsize.2 - dpos.2) := ⟨_, rfl⟩
  rw [← hw, ← hh, each_range]
  -- the rows that are done, and of the next one the pixels that are
  refine (upTo_meets (I := fun row => Painted dst dsize src ssize spos dpos replace fun x y =>
    dpos.1 ≤ x ∧ x < dpos.1 + w ∧ dpos.2 ≤ y ∧ y < dpos.2 + row) ?_ fun row hrow out hout => ?_).mono
    fun out hout => hout.congr fun x hx y hy => by rw [Inside]; omega
  · exact (Painted.start dst dsize src ssize spos dpos replace).congr fun x _ y _ =>
      iff_of_false not_false (by omega)
  · have hsrow : spos.2 + row < ssize.2 := by omega
    have hdrow : dpos.2 + row < dsize.2 := by omega
    rw [hsrc.pixelAt_eq hspos hsrow, bind_ok, hdst.pixelAt_eq hdpos hdrow, bind_ok, each_range]
    refine (upTo_meets (I := fun col => Painted dst dsize src ssize spos dpos replace fun x y =>
      (dpos.1 ≤ x ∧ x < dpos.1 + w ∧ dpos.2 ≤ y ∧ y < dpos.2 + row) ∨
        y = dpos.2 + row ∧ dpos.1 ≤ x ∧ x < dpos.1 + col) ?_ fun col hcol out hout => ?_).mono
      fun out hout => hout.congr fun x _ y _ => by omega
    · exact hout.congr fun x _ y _ => by omega
    · refine (hout.step hdst hsrc (by omega) hdrow (by omega) hsrow (by omega)).mono fun out' hout' => ?_
      exact hout'.congr fun x _ y _ => by omega

end Posh.Term
