/-
**Decoding of hostile images.**

Whatever the bytes are, decoding ends, and no byte of the chunks, the scanlines or the palette is out of range.
What comes out has pixels, four bytes for each, and not more than an image may have.
-/

import Posh.Term.InflateSafe
import Posh.Term.Unfilter

set_option autoImplicit false

namespace Posh.Term.Png

open ByteCursor Checked

/-! ### Chunks -/

/-- A header that was accepted: the image has pixels, and not too many. -/
structure Header.Bounded (hdr : Header) : Prop where
  width_pos : 0 < hdr.width
  height_pos : 0 < hdr.height
  small : hdr.width * hdr.height * 4 ≤ maxRgbaBytes

theorem parseIhdr_meets (body : List UInt8) : (parseIhdr body).Meets Header.Bounded := by
  unfold parseIhdr
  split
  · dsimp only
    split
    · trivial
    · next hsize =>
        split
        · trivial
        · split
          · trivial
          · exact ⟨by simp only; omega, by simp only; omega, by simp only; omega⟩
  · trivial

/-- The reader is in the input, and the header, if it was read, was accepted. -/
structure Chunks.Within (rest : List UInt8) (s : Chunks) : Prop where
  pos : s.pos ≤ rest.length
  hdr : ∀ hdr, s.hdr = some hdr → hdr.Bounded

theorem takeChunk_meets {rest : List UInt8} (kind body : List UInt8) {s : Chunks} (h : s.Within rest) :
    (takeChunk kind body s).Meets fun
      | .inl t => t.Within rest ∧ t.pos = s.pos
      | .inr t => t.Within rest := by
  unfold takeChunk
  split
  · refine (parseIhdr_meets body).bind fun hdr hb => ?_
    refine ⟨⟨h.pos, ?_⟩, rfl⟩
    rintro hdr' ⟨⟩
    exact hb
  · split
    · exact ⟨⟨h.pos, h.hdr⟩, rfl⟩
    · split
      · exact ⟨⟨h.pos, h.hdr⟩, rfl⟩
      · split
        · exact ⟨⟨h.pos, h.hdr⟩, rfl⟩
        · split
          · exact h
          · exact ⟨h, rfl⟩

theorem slice_meets (rest : List UInt8) (lo hi : ℕ) : (slice rest lo hi).Meets fun _ => hi ≤ rest.length := by
  rw [slice]
  split
  · trivial
  · next bytes hbytes =>
      rw [getRange] at hbytes
      split at hbytes
      · next hrange => exact hrange.2
      · cases hbytes

theorem chunkTurn_meets {rest : List UInt8} (s : Chunks) (h : s.Within rest) :
    (chunkTurn rest s).Meets (Turned (Chunks.Within rest) (Chunks.Within rest) (fun s => rest.length - s.pos) s) := by
  rw [chunkTurn]
  refine (slice_meets rest _ _).bind fun head _ => ?_
  refine (slice_meets rest _ _).bind fun body _ => ?_
  refine (slice_meets rest _ _).bind fun crc hcrc => ?_
  split
  · trivial
  · refine (takeChunk_meets _ body h).bind fun next hnext => ?_
    cases next with
    | inr t => exact hnext
    | inl t =>
      obtain ⟨ht, hpos⟩ := hnext
      dsimp only
      split
      · trivial
      · refine ⟨⟨?_, ht.hdr⟩, ?_⟩
        · show t.pos + (12 + _) ≤ rest.length
          omega
        · show rest.length - (t.pos + (12 + _)) < rest.length - s.pos
          omega

theorem readChunks_meets (rest : List UInt8) : (readChunks rest {}).Meets (Chunks.Within rest) :=
  loop_meets chunkTurn_meets {} ⟨Nat.zero_le _, by rintro hdr ⟨⟩⟩

/-! ### Pixels -/

theorem rgbPixels_meets (key : Option (UInt8 × UInt8 × UInt8)) :
    ∀ samples : List UInt8, (rgbPixels key samples).Meets fun _ => True
  | [] => trivial
  | _ :: _ :: _ :: samples => (rgbPixels_meets key samples).bind fun _ _ => trivial
  | [_] => trivial
  | [_, _] => trivial

theorem palettePixels_meets (plte trns : List UInt8) :
    ∀ samples : List UInt8, (palettePixels plte trns samples).Meets fun _ => True
  | [] => trivial
  | idx :: samples => by
      rw [palettePixels]
      split
      · trivial
      · exact (palettePixels_meets plte trns samples).bind fun _ _ => trivial

theorem greyAlphaPixels_meets : ∀ samples : List UInt8, (greyAlphaPixels samples).Meets fun _ => True
  | [] => trivial
  | _ :: _ :: samples => (greyAlphaPixels_meets samples).bind fun _ _ => trivial
  | [_] => trivial

theorem toRgba_meets (hdr : Header) (samples plte trns : List UInt8) :
    (toRgba hdr samples plte trns).Meets fun _ => True := by
  unfold toRgba
  split
  · trivial
  · exact rgbPixels_meets _ samples
  · split
    · trivial
    · exact palettePixels_meets plte trns samples
  · exact greyAlphaPixels_meets samples
  · trivial

theorem unfilter_meets {raw : List UInt8} {width height bpp : ℕ} (hlen : raw.length = height * (1 + width * bpp)) :
    (unfilter raw width height bpp).Meets fun _ => True := by
  by_cases hbad : BadFilter raw width height bpp
  · rw [unfilter_error hlen hbad]
    trivial
  · obtain ⟨image, hok, -⟩ := unfilter_ok hlen hbad
    rw [hok]
    trivial

/-! ### Images -/

/-- **Decoding of any bytes is safe**: an image that comes out has pixels, four bytes for each, and not too many. -/
theorem decode_meets (data : List UInt8) : (decode data).Meets fun png =>
    0 < png.width ∧ 0 < png.height ∧ png.rgba.length = png.width * png.height * 4 ∧
      png.rgba.length ≤ maxRgbaBytes := by
  cases hdecode : decode data with
  | error e => trivial
  | ok png =>
    have hlen := length_decode hdecode
    unfold decode at hdecode
    split at hdecode
    · cases hdecode
    · obtain ⟨s, hs, hdecode⟩ := Outcome.bind_eq_ok hdecode
      have hwithin := (readChunks_meets (data.drop 8)).of_eq_ok hs
      split at hdecode
      · cases hdecode
      · next hdr hhdr =>
          obtain ⟨hw, hh, hsmall⟩ := hwithin.hdr hdr hhdr
          dsimp only at hdecode
          split at hdecode
          · cases hdecode
          · cases hdecode
          · split at hdecode
            · cases hdecode
            · obtain ⟨samples, -, hdecode⟩ := Outcome.bind_eq_ok hdecode
              obtain ⟨rgba, -, hdecode⟩ := Outcome.bind_eq_ok hdecode
              cases hdecode
              have hcount : rgba.length = hdr.width * hdr.height * 4 := by
                rw [hlen, Nat.mul_comm (hdr.width * hdr.height), Nat.mul_assoc]
              exact ⟨hw, hh, hcount, hcount ▸ hsmall⟩
  | outOfRange =>
    -- no step is out of range
    have hmeets : (decode data).Meets fun _ => True := by
      rw [decode]
      split
      · trivial
      · refine (readChunks_meets (data.drop 8)).bind fun s _ => ?_
        split
        · trivial
        · dsimp only
          split
          · trivial
          · next hzlib => exact absurd hzlib (zlibDecompress_meets s.idat _).ne_outOfRange
          · split
            · trivial
            · next hraw =>
                refine (unfilter_meets (not_not.1 hraw)).bind fun samples _ => ?_
                exact (toRgba_meets _ samples s.plte s.trns).bind fun rgba _ => trivial
    exact hmeets.ne_outOfRange hdecode

end Posh.Term.Png
