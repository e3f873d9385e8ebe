/-
**Pixels laid over each other stay where they are.**

A rectangle of one image is laid over another as far as both reach.  Where both have as many bytes as their sizes
say, no pixel is out of range, no sum or product leaves its width, and the image below keeps its length.
-/

import Mathlib.Tactic.Linarith
import Posh.Term.GraphicsState

set_option autoImplicit false

namespace Posh.Term

open ByteCursor
open ByteCursor.Outcome (bind_ok)
open Checked

theorem ok_of_meets {α : Type} {o : Storing α} {Q : α → Prop} (h : o.Meets Q) : ∃ a, o = .ok a ∧ Q a := by
  cases o with
  | ok a => exact ⟨a, rfl, h⟩
  | error e => cases e
  | outOfRange => exact h.elim

section Sums

variable {ε : Type} {w a b : ℕ}

theorem add_eq (h : a + b < 2 ^ w) : add ε w a b = .ok (a + b) := fits_eq h

theorem mul_eq (h : a * b < 2 ^ w) : mul ε w a b = .ok (a * b) := fits_eq h

end Sums

/-! ### Pixels -/

theorem opaquePixels_meets (n : ℕ) : ∀ {data : List UInt8}, data.length = n * 3 →
    (opaquePixels data).Meets fun out => out.length = n * 4 := by
  induction n with
  | zero =>
    intro data h
    rw [Nat.zero_mul, List.length_eq_zero_iff] at h
    rw [h]
    rfl
  | succ n ih =>
    intro data h
    match data, h with
    | r :: g :: b :: rest, h =>
      rw [opaquePixels]
      have hrest : rest.length = n * 3 := by
        simp only [List.length_cons] at h
        omega
      refine (ih hrest).bind fun out hout => ?_
      show (r :: g :: b :: 255 :: out).length = (n + 1) * 4
      simp only [List.length_cons]
      omega
    | [], h => simp at h
    | [_], h => simp at h; omega
    | [_, _], h => simp at h; omega

/-- **Pixels of three bytes become pixels of four.** -/
theorem asRgba_meets {format : ImageFormat} {data : List UInt8} {n : ℕ} (h : data.length = n * format.bytesPerPixel) :
    (asRgba format data).Meets fun out => out.length = n * 4 := by
  cases format with
  | rgb => exact opaquePixels_meets n h
  | rgba => exact h
  | png => exact h

theorem blendSample_meets {sa da oa s d : ℕ} (hsa : sa ≤ 255) (hda : da ≤ 255) (hs : s ≤ 255) (hd : d ≤ 255)
    (hoa : oa ≠ 0) : (blendSample sa da oa s d).Meets fun _ => True := by
  have hsc : s * sa ≤ 255 * 255 := Nat.mul_le_mul hs hsa
  have hsc' : s * sa * 255 ≤ 255 * 255 * 255 := Nat.mul_le_mul_right 255 hsc
  have hdc : d * da ≤ 255 * 255 := Nat.mul_le_mul hd hda
  have hdc' : d * da * (255 - sa) ≤ 255 * 255 * 255 := Nat.mul_le_mul hdc (Nat.sub_le 255 sa)
  rw [blendSample, mul_eq (by omega), bind_ok, mul_eq (by omega), bind_ok, sub_eq hsa,
    bind_ok, mul_eq (by omega), bind_ok, mul_eq (by omega), bind_ok, add_eq (by omega),
    bind_ok, if_neg hoa]
  trivial

/-- **A blended pixel is a pixel.** -/
theorem blendPx_meets {d s : List UInt8} (hd : d.length = 4) (hs : s.length = 4) :
    (blendPx d s).Meets fun px => px.length = 4 := by
  match d, hd, s, hs with
  | [dr, dg, db, dalpha], _, [sr, sg, sb, salpha], _ =>
    have hbyte : ∀ b : UInt8, b.toNat ≤ 255 := fun b => Nat.le_of_lt_succ b.toNat_lt
    have hsa := hbyte salpha
    have hda := hbyte dalpha
    have htop : salpha.toNat * 255 ≤ 255 * 255 := Nat.mul_le_mul_right 255 hsa
    have hbelow : dalpha.toNat * (255 - salpha.toNat) ≤ 255 * 255 := Nat.mul_le_mul hda (Nat.sub_le 255 _)
    rw [blendPx]
    split
    · rfl
    · rw [sub_eq hsa, bind_ok, mul_eq (by omega), bind_ok, mul_eq (by omega),
        bind_ok, add_eq (by omega), bind_ok]
      split
      · rfl
      · next hoa =>
          refine (blendSample_meets hsa hda (hbyte sr) (hbyte dr) hoa).bind fun r _ => ?_
          refine (blendSample_meets hsa hda (hbyte sg) (hbyte dg) hoa).bind fun g _ => ?_
          exact (blendSample_meets hsa hda (hbyte sb) (hbyte db) hoa).bind fun b _ => rfl

/-! ### Rectangles -/

/-- As many bytes of pixels as a size says, of some pixels and not more than memory has. -/
structure PixelBuffer (px : List UInt8) (size : ℕ × ℕ) : Prop where
  width_pos : 0 < size.1
  length : px.length = size.1 * size.2 * 4
  small : px.length < 2 ^ 62

variable {size : ℕ × ℕ} {src dst : List UInt8} {px : List UInt8}

theorem PixelBuffer.of_length {px px' : List UInt8} (h : PixelBuffer px size) (hlen : px'.length = px.length) :
    PixelBuffer px' size :=
  ⟨h.width_pos, hlen.trans h.length, hlen ▸ h.small⟩

theorem PixelBuffer.pixel (h : PixelBuffer px size) {x y : ℕ} (hx : x < size.1)
    (hy : y < size.2) : (y * size.1 + x) * 4 + 4 ≤ px.length := by
  have hrow : (y + 1) * size.1 ≤ size.2 * size.1 := Nat.mul_le_mul_right _ hy
  rw [Nat.add_mul, Nat.one_mul] at hrow
  rw [h.length, Nat.mul_comm size.1]
  omega

theorem PixelBuffer.pixelAt_eq (h : PixelBuffer px size) {x y row : ℕ} (hx : x < 2 ^ 32)
    (hrow : y + row < size.2) : pixelAt y row size.1 x = .ok (((y + row) * size.1 + x) * 4) := by
  have hfirst := h.pixel h.width_pos hrow
  have hlt := h.small
  have hle : y + row ≤ (y + row) * size.1 := Nat.le_mul_of_pos_right _ h.width_pos
  rw [pixelAt, add_eq (by omega), bind_ok, mul_eq (by omega), bind_ok, add_eq (by omega),
    bind_ok, mul_eq (by omega)]

theorem pixelSlice_meets {xs : List UInt8} {start : ℕ} (h : start + 4 ≤ xs.length) (hlen : xs.length < 2 ^ 62) :
    (pixelSlice xs start).Meets fun px => px.length = 4 := by
  rw [pixelSlice, add_eq (by omega), bind_ok, getRange, if_pos ⟨Nat.le_add_right _ _, h⟩]
  show ((xs.drop start).take (start + 4 - start)).length = 4
  rw [List.length_take, List.length_drop]
  omega

theorem composePixel_meets {sAt dAt col : ℕ} (hsrc : sAt + col * 4 + 4 ≤ src.length)
    (hdst : dAt + col * 4 + 4 ≤ dst.length) (hs : src.length < 2 ^ 62) (hd : dst.length < 2 ^ 62) (replace : Bool) :
    (composePixel src sAt dAt replace dst col).Meets fun out => out.length = dst.length := by
  rw [composePixel, mul_eq (by omega), bind_ok, add_eq (by omega), bind_ok]
  refine (pixelSlice_meets hsrc hs).bind fun s hslen => ?_
  rw [add_eq (by omega), bind_ok]
  refine (pixelSlice_meets hdst hd).bind fun d hdlen => ?_
  have hpx : (if replace = true then .ok s else blendPx d s : Storing (List UInt8)).Meets fun px => px.length = 4 := by
    split
    · exact hslen
    · exact blendPx_meets hdlen hslen
  refine hpx.bind fun px hlen => ?_
  show (dst.take (dAt + col * 4) ++ px ++ dst.drop (dAt + col * 4 + 4)).length = dst.length
  rw [List.length_append, List.length_append, List.length_take, List.length_drop]
  omega

/-- **Laying a rectangle over another is safe**: nothing is out of range, and what is below keeps its length. -/
theorem composeRect_meets {dsize ssize spos dpos : ℕ × ℕ} (hdst : PixelBuffer dst dsize)
    (hsrc : PixelBuffer src ssize) (hspos : spos.1 < 2 ^ 32) (hdpos : dpos.1 < 2 ^ 32) (size : ℕ × ℕ) (replace : Bool) :
    (composeRect dst dsize src ssize spos dpos size replace).Meets fun out => out.length = dst.length := by
  rw [composeRect]
  refine each_meets (I := fun out : List UInt8 => out.length = dst.length) ?_ rfl
  intro row hrow out hout
  rw [List.mem_range] at hrow
  have hsrow : spos.2 + row < ssize.2 := by omega
  have hdrow : dpos.2 + row < dsize.2 := by omega
  rw [hsrc.pixelAt_eq hspos hsrow, bind_ok, hdst.pixelAt_eq hdpos hdrow, bind_ok]
  refine each_meets (I := fun out : List UInt8 => out.length = dst.length) ?_ hout
  intro col hcol out hout
  rw [List.mem_range] at hcol
  have hs := hsrc.pixel (x := spos.1 + col) (by omega) hsrow
  have hd := hdst.pixel (x := dpos.1 + col) (by omega) hdrow
  have hstep := @composePixel_meets src out (((spos.2 + row) * ssize.1 + spos.1) * 4)
    (((dpos.2 + row) * dsize.1 + dpos.1) * 4) col (by omega) (by rw [hout]; omega) hsrc.small
    (by rw [hout]; exact hdst.small) replace
  exact hstep.mono fun out' hlen => hlen.trans hout

end Posh.Term
