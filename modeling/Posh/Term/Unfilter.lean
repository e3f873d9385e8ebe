/-
**Undoing the predictions in place.**

The standard says what the bytes of an image are by a recurrence: a byte is the one that was transmitted plus
a prediction from the bytes to the left, above, and above to the left, and what lies outside the image is zero.
It knows no buffer.  `Term.Png.unfilter` works in one: row `r` begins at `r * (stride + 1)`, is moved to
`r * stride` over what is left of the rows before it, and is then overwritten byte by byte with its own
reconstruction, so that a position holds a filter byte, a transmitted byte or a reconstructed one depending
on how far the work has come.
-/

import Mathlib.Data.List.GetD
import Mathlib.Tactic.Linarith
import Posh.Term.Png

set_option autoImplicit false

namespace Posh.Term.Png

open ByteCursor
open ByteCursor.Outcome (bind_eq_ok bind_ok)
open Nat (le_succ succ_mul)
open List (getD_eq_getElem?_getD length_append length_cons range')
open Checked

/-! ### The recurrence -/

/-- The fourth prediction: the neighbour nearest to `left + up - upLeft`, the first of them on a tie. -/
def paethPredictor (left up upLeft : ℕ) : ℕ :=
  let p : ℤ := left + up - upLeft
  if |p - left| ≤ |p - up| ∧ |p - left| ≤ |p - upLeft| then left
  else if |p - up| ≤ |p - upLeft| then up
  else upLeft

/-- The predictions of the standard: none, the left byte, the one above, their mean, and the nearest. -/
def predictor (filter left up upLeft : ℕ) : Option ℕ :=
  match filter with
  | 0 => some 0
  | 1 => some left
  | 2 => some up
  | 3 => some ((left + up) / 2)
  | 4 => some (paethPredictor left up upLeft)
  | _ => none

/-- Byte `i` of a row of an image whose rows have `stride` bytes. -/
def sample (image : List UInt8) (stride row i : ℕ) : UInt8 := image.getD (row * stride + i) 0

/-- The byte a pixel to the left. -/
def leftOf (image : List UInt8) (stride bpp row i : ℕ) : UInt8 :=
  if bpp ≤ i then sample image stride row (i - bpp) else 0

def above (image : List UInt8) (stride row i : ℕ) : UInt8 :=
  if 0 < row then sample image stride (row - 1) i else 0

/-- The byte above, a pixel to the left. -/
def aboveLeft (image : List UInt8) (stride bpp row i : ℕ) : UInt8 :=
  if 0 < row ∧ bpp ≤ i then sample image stride (row - 1) (i - bpp) else 0

/-- The filter byte of a transmitted row. -/
def filterOf (raw : List UInt8) (stride row : ℕ) : UInt8 := raw.getD (row * (stride + 1)) 0

def transmitted (raw : List UInt8) (stride row i : ℕ) : UInt8 := raw.getD (row * (stride + 1) + 1 + i) 0

/-- Byte `i` of a row is what was transmitted plus its prediction. -/
def Predicted (raw : List UInt8) (stride bpp : ℕ) (image : List UInt8) (row i : ℕ) : Prop :=
  ∃ p, predictor (filterOf raw stride row).toNat (leftOf image stride bpp row i).toNat
      (above image stride row i).toNat (aboveLeft image stride bpp row i).toNat = some p ∧
    (sample image stride row i).toNat = ((transmitted raw stride row i).toNat + p) % 256

/-- **The recurrence of the standard**: the bytes of an image. -/
structure Reconstructs (raw : List UInt8) (width height bpp : ℕ) (image : List UInt8) : Prop where
  length : image.length = height * width * bpp
  predicted : ∀ row < height, ∀ i < width * bpp, Predicted raw (width * bpp) bpp image row i

/-- A row that has bytes, and a filter the standard does not know. -/
def BadFilter (raw : List UInt8) (width height bpp : ℕ) : Prop :=
  ∃ row < height, 0 < width * bpp ∧ 4 < (filterOf raw (width * bpp) row).toNat

/-! ### Places -/

theorem place_lt {stride r row j : ℕ} (hr : r < row) (hj : j < stride) : r * stride + j < row * stride := by
  have hle : (r + 1) * stride ≤ row * stride := Nat.mul_le_mul_right stride hr
  rw [succ_mul] at hle
  omega

variable {stride bpp row i : ℕ} {xs : List UInt8}

theorem neighbours_congr {image image' : List UInt8} (hbpp : 0 < bpp)
    (hi : i < stride) (hsame : ∀ k < row * stride + i, image'.getD k 0 = image.getD k 0) :
    leftOf image' stride bpp row i = leftOf image stride bpp row i ∧
    above image' stride row i = above image stride row i ∧
    aboveLeft image' stride bpp row i = aboveLeft image stride bpp row i := by
  have habove : 0 < row → ∀ j ≤ i, sample image' stride (row - 1) j = sample image stride (row - 1) j := by
    intro hrow j hj
    have hlt : (row - 1) * stride + j < row * stride := place_lt (by omega) (by omega)
    exact hsame _ (by omega)
  refine ⟨?_, ?_, ?_⟩
  · unfold leftOf
    split
    · exact hsame _ (by omega)
    · rfl
  · unfold above
    split
    case isTrue hrow => exact habove hrow i le_rfl
    case isFalse => rfl
  · unfold aboveLeft
    split
    case isTrue hrow => exact habove hrow.1 _ (by omega)
    case isFalse => rfl

theorem Predicted.congr {raw image image' : List UInt8} (hbpp : 0 < bpp)
    (h : Predicted raw stride bpp image row i) (hi : i < stride)
    (hsame : ∀ k ≤ row * stride + i, image'.getD k 0 = image.getD k 0) :
    Predicted raw stride bpp image' row i := by
  obtain ⟨hleft, hup, hupLeft⟩ := neighbours_congr hbpp hi fun k hk => hsame k hk.le
  obtain ⟨p, hp, hx⟩ := h
  refine ⟨p, ?_, ?_⟩
  · rw [hleft, hup, hupLeft]
    exact hp
  · rw [sample, hsame _ le_rfl]
    exact hx

theorem Predicted.unique {raw image image' : List UInt8} (hbpp : 0 < bpp)
    (h : Predicted raw stride bpp image row i) (h' : Predicted raw stride bpp image' row i)
    (hi : i < stride) (hsame : ∀ k < row * stride + i, image'.getD k 0 = image.getD k 0) :
    sample image' stride row i = sample image stride row i := by
  obtain ⟨hleft, hup, hupLeft⟩ := neighbours_congr hbpp hi hsame
  obtain ⟨p, hp, hx⟩ := h
  obtain ⟨p', hp', hx'⟩ := h'
  rw [hleft, hup, hupLeft, hp] at hp'
  injection hp' with hpp
  rw [← hpp] at hx'
  exact UInt8.toNat_inj.1 (hx'.trans hx.symm)

/-- **The recurrence determines the image.** -/
theorem Reconstructs.unique {raw image image' : List UInt8} {width height bpp : ℕ}
    (h : Reconstructs raw width height bpp image) (h' : Reconstructs raw width height bpp image') :
    image' = image := by
  have hlen : image'.length = image.length := h'.length.trans h.length.symm
  have hsame : ∀ k, image'.getD k 0 = image.getD k 0 := by
    intro k
    induction k using Nat.strong_induction_on with
    | _ k ih =>
      rcases Nat.lt_or_ge k image.length with hk | hk
      · have hk' : k < height * (width * bpp) := by
          rw [← Nat.mul_assoc, ← h.length]
          exact hk
        have hstride : 0 < width * bpp := Nat.pos_of_ne_zero fun hz => by simp [hz] at hk'
        have hbpp : 0 < bpp := Nat.pos_of_mul_pos_left hstride
        have hrow : k / (width * bpp) < height := Nat.div_lt_of_lt_mul (Nat.mul_comm _ _ ▸ hk')
        have hi : k % (width * bpp) < width * bpp := Nat.mod_lt _ hstride
        have hplace : k / (width * bpp) * (width * bpp) + k % (width * bpp) = k := Nat.div_add_mod' _ _
        have hbyte := (h.predicted _ hrow _ hi).unique hbpp (h'.predicted _ hrow _ hi) hi
          (fun j hj => ih j (hplace ▸ hj))
        rw [sample, sample, hplace] at hbyte
        exact hbyte
      · rw [List.getD_eq_default _ _ hk, List.getD_eq_default _ _ (hlen ▸ hk)]
  refine List.ext_getElem hlen fun k hk' hk => ?_
  rw [← List.getD_eq_getElem image' 0 hk', ← List.getD_eq_getElem image 0 hk]
  exact hsame k

/-! ### A byte -/

theorem predictor_isSome {filter : ℕ} (left up upLeft : ℕ) (h : filter ≤ 4) :
    ∃ p, predictor filter left up upLeft = some p := by
  match filter, h with
  | 0, _ | 1, _ | 2, _ | 3, _ | 4, _ => exact ⟨_, rfl⟩

theorem toNat_paeth (a b c : UInt8) : (paeth a b c).toNat = paethPredictor a.toNat b.toNat c.toNat := by
  unfold paeth paethPredictor
  simp only [Int.abs_eq_natAbs, Int.ofNat_le]
  split
  · rfl
  · split <;> rfl

theorem undoFilter_of_some {filter left up upLeft : UInt8} {p : ℕ} (x : UInt8)
    (h : predictor filter.toNat left.toNat up.toNat upLeft.toNat = some p) :
    ∃ y, undoFilter filter x left up upLeft = .ok y ∧ y.toNat = (x.toNat + p) % 256 := by
  have hx : x.toNat < 256 := x.toNat_lt
  unfold predictor at h
  split at h <;> rename_i hfilter <;> simp only [Option.some.injEq, reduceCtorEq] at h <;> subst h
  case h_1 => exact ⟨x, by simp only [undoFilter, hfilter], by rw [Nat.add_zero, Nat.mod_eq_of_lt hx]⟩
  case h_2 => exact ⟨x + left, by simp only [undoFilter, hfilter], UInt8.toNat_add x left⟩
  case h_3 => exact ⟨x + up, by simp only [undoFilter, hfilter], UInt8.toNat_add x up⟩
  case h_4 =>
      refine ⟨x + UInt8.ofNat ((left.toNat + up.toNat) / 2), by simp only [undoFilter, hfilter], ?_⟩
      rw [UInt8.toNat_add, UInt8.toNat_ofNat', Nat.add_mod_mod]
  case h_5 =>
      refine ⟨x + paeth left up upLeft, by simp only [undoFilter, hfilter], ?_⟩
      rw [UInt8.toNat_add, toNat_paeth]

theorem undoFilter_of_gt {filter : UInt8} (x left up upLeft : UInt8) (h : 4 < filter.toNat) :
    undoFilter filter x left up upLeft = .error .badData := by
  unfold undoFilter
  split
  case h_6 => rfl
  all_goals omega

/-! ### The buffer -/

theorem get_getD {k : ℕ} (h : k < xs.length) : (get xs k : Decoding UInt8) = .ok (xs.getD k 0) := by
  rw [List.getD_eq_getElem _ _ h]
  exact get_eq (List.getElem?_eq_getElem h)

theorem getD_set_self {k : ℕ} (h : k < xs.length) (y : UInt8) : (xs.set k y).getD k 0 = y := by
  rw [getD_eq_getElem?_getD, List.getElem?_set_self h, Option.getD_some]

theorem getD_set_of_ne (xs : List UInt8) {j k : ℕ} (h : k ≠ j) (y : UInt8) :
    (xs.set k y).getD j 0 = xs.getD j 0 := by
  rw [getD_eq_getElem?_getD, List.getElem?_set_ne h, getD_eq_getElem?_getD]

theorem copyWithin_meets (xs : List UInt8) (lo n dest : ℕ) (hdest : dest ≤ lo)
    (hhi : lo + n ≤ xs.length) : ∃ ys, copyWithin xs lo (lo + n) dest = .ok ys ∧ ys.length = xs.length ∧
      (∀ k < dest, ys.getD k 0 = xs.getD k 0) ∧ (∀ i < n, ys.getD (dest + i) 0 = xs.getD (lo + i) 0) ∧
      ∀ k, dest + n ≤ k → ys.getD k 0 = xs.getD k 0 := by
  have hbefore : (xs.take dest).length = dest := by
    rw [List.length_take]
    omega
  have hmoved : ((xs.drop lo).take n).length = n := by
    rw [List.length_take, List.length_drop]
    omega
  refine ⟨xs.take dest ++ (xs.drop lo).take n ++ xs.drop (dest + n), ?_, ?_, ?_, ?_, ?_⟩
  · rw [copyWithin, if_pos (by omega), Nat.add_sub_cancel_left]
  · rw [length_append, length_append, hbefore, hmoved, List.length_drop]
    omega
  · intro k hk
    rw [List.append_assoc, List.getD_append _ _ _ _ (by omega), getD_eq_getElem?_getD,
      List.getElem?_take_of_lt hk, getD_eq_getElem?_getD]
  · intro i hi
    rw [List.append_assoc, List.getD_append_right _ _ _ _ (by omega), hbefore, Nat.add_sub_cancel_left,
      List.getD_append _ _ _ _ (by omega), getD_eq_getElem?_getD, List.getElem?_take_of_lt hi,
      List.getElem?_drop, getD_eq_getElem?_getD]
  · intro k hk
    rw [List.getD_append_right _ _ _ _ (by rw [length_append]; omega), length_append, hbefore,
      hmoved, getD_eq_getElem?_getD, List.getElem?_drop, getD_eq_getElem?_getD,
      Nat.add_sub_of_le hk]

/-! ### A row -/

/-- The buffer before byte `i` of a row: the rows before it and its first bytes are reconstructed, its other
bytes are as transmitted, and so is what follows the row. -/
structure InRow (orig : List UInt8) (stride bpp row i : ℕ) (raw : List UInt8) : Prop where
  length : raw.length = orig.length
  done : ∀ r < row, ∀ j < stride, Predicted orig stride bpp raw r j
  here : ∀ j < i, Predicted orig stride bpp raw row j
  ahead : ∀ j, i ≤ j → j < stride → sample raw stride row j = transmitted orig stride row j
  rest : ∀ k, (row + 1) * (stride + 1) ≤ k → raw.getD k 0 = orig.getD k 0

theorem unfilterByte_eq {raw : List UInt8} (filter : UInt8) (hi : i < stride)
    (hroom : (row + 1) * stride ≤ raw.length) :
    unfilterByte filter bpp row ((row - 1) * stride) (row * stride) raw i =
      (undoFilter filter (sample raw stride row i) (leftOf raw stride bpp row i) (above raw stride row i)
        (aboveLeft raw stride bpp row i)).bind fun y => set raw (row * stride + i) y := by
  rw [succ_mul] at hroom
  have hplace : ∀ r ≤ row, ∀ j < stride, r * stride + j < raw.length := by
    intro r hr j hj
    have hle : r * stride ≤ row * stride := Nat.mul_le_mul_right stride hr
    omega
  have hread : ∀ r ≤ row, ∀ j < stride,
      (get raw (r * stride + j) : Decoding UInt8) = .ok (sample raw stride r j) :=
    fun r hr j hj => get_getD (hplace r hr j hj)
  have hback : ∀ r ≤ row, bpp ≤ i → ((sub (r * stride + i) bpp).bind fun k => get raw k :
      Decoding UInt8) = .ok (sample raw stride r (i - bpp)) := by
    intro r hr hle
    rw [sub_eq (by omega), bind_ok, Nat.add_sub_assoc hle]
    exact hread r hr _ (by omega)
  have hleft : (if bpp ≤ i then (sub (row * stride + i) bpp).bind fun k => get raw k
      else .ok 0 : Decoding UInt8) = .ok (leftOf raw stride bpp row i) := by
    unfold leftOf
    split
    case isTrue hle => exact hback row le_rfl hle
    case isFalse => rfl
  have hup : (if 0 < row then get raw ((row - 1) * stride + i) else .ok 0 : Decoding UInt8) =
      .ok (above raw stride row i) := by
    unfold above
    split
    case isTrue => exact hread _ (by omega) _ hi
    case isFalse => rfl
  have hupLeft : (if 0 < row ∧ bpp ≤ i then (sub ((row - 1) * stride + i) bpp).bind fun k =>
      get raw k else .ok 0 : Decoding UInt8) = .ok (aboveLeft raw stride bpp row i) := by
    unfold aboveLeft
    split
    case isTrue h => exact hback _ (by omega) h.2
    case isFalse => rfl
  rw [unfilterByte, hleft, hup, hupLeft, hread row le_rfl i hi]
  rfl

variable {orig raw : List UInt8}

/-- **A byte**: a known filter reconstructs it. -/
theorem InRow.step (h : InRow orig stride bpp row i raw)
    (hbpp : 0 < bpp) (hi : i < stride) (hroom : (row + 1) * stride ≤ orig.length)
    (hfilter : (filterOf orig stride row).toNat ≤ 4) :
    ∃ raw', unfilterByte (filterOf orig stride row) bpp row ((row - 1) * stride) (row * stride) raw i =
      .ok raw' ∧ InRow orig stride bpp row (i + 1) raw' := by
  obtain ⟨p, hp⟩ := predictor_isSome (leftOf raw stride bpp row i).toNat (above raw stride row i).toNat
    (aboveLeft raw stride bpp row i).toNat hfilter
  obtain ⟨y, hy, hval⟩ := undoFilter_of_some (sample raw stride row i) hp
  have hroom' : row * stride + i < raw.length := by
    rw [h.length]
    rw [succ_mul] at hroom
    omega
  have hbefore : ∀ k < row * stride + i, (raw.set (row * stride + i) y).getD k 0 = raw.getD k 0 :=
    fun k hk => getD_set_of_ne raw (by omega) y
  refine ⟨raw.set (row * stride + i) y, ?_, ?_, ?_, ?_, ?_, ?_⟩
  · rw [unfilterByte_eq _ hi (by rw [h.length]; exact hroom), hy, bind_ok, set_eq hroom']
  · rw [List.length_set]
    exact h.length
  · intro r hr j hj
    have hlt := place_lt hr hj
    exact (h.done r hr j hj).congr hbpp hj fun k hk => hbefore k (by omega)
  · intro j hj
    rcases Nat.lt_succ_iff_lt_or_eq.1 hj with hlt | rfl
    · exact (h.here j hlt).congr hbpp (by omega) fun k hk => hbefore k (by omega)
    · -- the byte itself: its neighbours were not touched by storing it
      obtain ⟨hleft, hup, hupLeft⟩ := neighbours_congr hbpp hi hbefore
      refine ⟨p, by rw [hleft, hup, hupLeft]; exact hp, ?_⟩
      rw [sample, getD_set_self hroom', hval, h.ahead j le_rfl hi]
  · intro j hj hjs
    rw [sample, getD_set_of_ne raw (by omega) y]
    exact h.ahead j (by omega) hjs
  · intro k hk
    have hfar : (row + 1) * stride ≤ (row + 1) * (stride + 1) := Nat.mul_le_mul_left _ (le_succ _)
    rw [succ_mul] at hfar
    rw [getD_set_of_ne raw (by omega) y]
    exact h.rest k hk

theorem InRow.run {orig : List UInt8} {stride bpp row : ℕ} (hbpp : 0 < bpp)
    (hroom : (row + 1) * stride ≤ orig.length) (hfilter : (filterOf orig stride row).toNat ≤ 4) (n : ℕ) :
    ∀ {i : ℕ} {raw : List UInt8}, InRow orig stride bpp row i raw → i + n = stride →
      ∃ raw', unfilterBytes (filterOf orig stride row) bpp row ((row - 1) * stride) (row * stride)
        (range' i n) raw = .ok raw' ∧ InRow orig stride bpp row stride raw' := by
  induction n with
  | zero =>
    intro i raw h hn
    exact ⟨raw, rfl, hn ▸ h⟩
  | succ n ih =>
    intro i raw h hn
    obtain ⟨raw', hstep, h'⟩ := h.step hbpp (by omega) hroom hfilter
    obtain ⟨raw'', hrun, h''⟩ := ih h' (by omega)
    refine ⟨raw'', ?_, h''⟩
    rw [List.range'_succ, unfilterBytes, hstep]
    exact hrun

/-! ### The rows -/

/-- The buffer between two rows: the rows before are reconstructed, and the others are as transmitted. -/
structure RowsDone (orig : List UInt8) (stride bpp row : ℕ) (raw : List UInt8) : Prop where
  length : raw.length = orig.length
  done : ∀ r < row, ∀ j < stride, Predicted orig stride bpp raw r j
  rest : ∀ k, row * (stride + 1) ≤ k → raw.getD k 0 = orig.getD k 0

theorem RowsDone.moved {stride bpp row : ℕ} (h : RowsDone orig stride bpp row raw)
    (hbpp : 0 < stride → 0 < bpp) (hroom : (row + 1) * (stride + 1) ≤ orig.length) :
    ∃ raw', copyWithin raw (row * (stride + 1) + 1) (row * (stride + 1) + 1 + stride) (row * stride) =
      .ok raw' ∧ InRow orig stride bpp row 0 raw' := by
  have hback : row * stride ≤ row * (stride + 1) := Nat.mul_le_mul_left _ (le_succ _)
  have hnext : (row + 1) * (stride + 1) = row * (stride + 1) + (stride + 1) := succ_mul _ _
  obtain ⟨raw', hcopy, hlen, hbefore, hmoved, hafter⟩ :=
    copyWithin_meets raw (row * (stride + 1) + 1) stride (row * stride) (by omega) (by rw [h.length]; omega)
  refine ⟨raw', hcopy, hlen.trans h.length, ?_, ?_, ?_, ?_⟩
  · intro r hr j hj
    have hlt := place_lt hr hj
    exact (h.done r hr j hj).congr (hbpp (by omega)) hj fun k hk => hbefore k (by omega)
  · intro j hj
    omega
  · intro j _ hj
    rw [sample, hmoved j hj]
    exact h.rest _ (by omega)
  · intro k hk
    rw [hafter k (by omega)]
    exact h.rest k (by omega)

/-- **A row** of a known filter, or without bytes. -/
theorem RowsDone.step {stride bpp row : ℕ} (h : RowsDone orig stride bpp row raw)
    (hbpp : 0 < stride → 0 < bpp) (hroom : (row + 1) * (stride + 1) ≤ orig.length)
    (hfilter : 0 < stride → (filterOf orig stride row).toNat ≤ 4) :
    ∃ raw', unfilterRow stride bpp row ((row - 1) * stride) raw = .ok raw' ∧
      RowsDone orig stride bpp (row + 1) raw' := by
  obtain ⟨moved, hcopy, hin⟩ := h.moved hbpp hroom
  have hline : (get raw (row * (stride + 1)) : Decoding UInt8) = .ok (filterOf orig stride row) := by
    rw [get_getD (by rw [h.length]; rw [succ_mul] at hroom; omega), h.rest _ le_rfl]
    rfl
  have hbytes : ∃ raw', unfilterBytes (filterOf orig stride row) bpp row ((row - 1) * stride)
      (row * stride) (range' 0 stride) moved = .ok raw' ∧ InRow orig stride bpp row stride raw' := by
    rcases Nat.eq_zero_or_pos stride with hz | hpos
    · subst hz
      exact ⟨moved, rfl, hin⟩
    · refine InRow.run (hbpp hpos) (le_trans ?_ hroom) (hfilter hpos) stride hin (Nat.zero_add _)
      exact Nat.mul_le_mul_left _ (le_succ _)
  obtain ⟨raw', hrun, hend⟩ := hbytes
  refine ⟨raw', ?_, hend.length, ?_, hend.rest⟩
  · rw [unfilterRow, hline, bind_ok, hcopy, bind_ok, List.range_eq_range']
    exact hrun
  · intro r hr j hj
    rcases Nat.lt_succ_iff_lt_or_eq.1 hr with hlt | rfl
    · exact hend.done r hlt j hj
    · exact hend.here j hj

theorem RowsDone.refuses {stride bpp row : ℕ}
    (h : RowsDone orig stride bpp row raw) (hpos : 0 < stride) (hbpp : 0 < bpp)
    (hroom : (row + 1) * (stride + 1) ≤ orig.length) (hfilter : 4 < (filterOf orig stride row).toNat) :
    unfilterRow stride bpp row ((row - 1) * stride) raw = .error .badData := by
  obtain ⟨moved, hcopy, hin⟩ := h.moved (fun _ => hbpp) hroom
  have hline : (get raw (row * (stride + 1)) : Decoding UInt8) = .ok (filterOf orig stride row) := by
    rw [get_getD (by rw [h.length]; rw [succ_mul] at hroom; omega), h.rest _ le_rfl]
    rfl
  obtain ⟨n, rfl⟩ : ∃ n, stride = n + 1 := Nat.exists_eq_add_of_lt hpos |>.imp fun n hn => by omega
  have hroom' : (row + 1) * (n + 1) ≤ moved.length := by
    rw [hin.length]
    exact le_trans (Nat.mul_le_mul_left _ (le_succ _)) hroom
  rw [unfilterRow, hline, bind_ok, hcopy, bind_ok, List.range_eq_range', List.range'_succ,
    unfilterBytes, unfilterByte_eq _ hpos hroom', undoFilter_of_gt _ _ _ _ hfilter]
  rfl

theorem RowsDone.run {orig : List UInt8} {stride bpp : ℕ} (hbpp : 0 < stride → 0 < bpp) (n : ℕ) :
    ∀ {row : ℕ} {raw : List UInt8}, RowsDone orig stride bpp row raw → (row + n) * (stride + 1) ≤ orig.length →
      (∀ r, row ≤ r → r < row + n → 0 < stride → (filterOf orig stride r).toNat ≤ 4) →
      ∃ raw', unfilterRows stride bpp (range' row n) ((row - 1) * stride) raw = .ok raw' ∧
        RowsDone orig stride bpp (row + n) raw' := by
  induction n with
  | zero =>
    intro row raw h _ _
    exact ⟨raw, rfl, h⟩
  | succ n ih =>
    intro row raw h hroom hfilter
    obtain ⟨raw', hstep, h'⟩ := h.step hbpp (le_trans (Nat.mul_le_mul_right _ (by omega)) hroom)
      (hfilter row le_rfl (by omega))
    obtain ⟨raw'', hrun, h''⟩ := ih h' (le_trans (Nat.mul_le_mul_right _ (by omega)) hroom)
      (fun r hle hlt => hfilter r (by omega) (by omega))
    refine ⟨raw'', ?_, by rw [show row + (n + 1) = row + 1 + n by omega]; exact h''⟩
    rw [List.range'_succ, unfilterRows, hstep]
    exact hrun

theorem RowsDone.run_refuses {orig : List UInt8} {stride bpp : ℕ} (hpos : 0 < stride) (hbpp : 0 < bpp)
    (n : ℕ) : ∀ {row : ℕ} {raw : List UInt8}, RowsDone orig stride bpp row raw →
      (row + n) * (stride + 1) ≤ orig.length → (∃ r, row ≤ r ∧ r < row + n ∧ 4 < (filterOf orig stride r).toNat) →
      unfilterRows stride bpp (range' row n) ((row - 1) * stride) raw = .error .badData := by
  induction n with
  | zero =>
    rintro row raw _ _ ⟨r, hle, hlt, _⟩
    omega
  | succ n ih =>
    rintro row raw h hroom ⟨r, hle, hlt, hbad⟩
    have hroom₁ : (row + 1) * (stride + 1) ≤ orig.length :=
      le_trans (Nat.mul_le_mul_right _ (by omega)) hroom
    rw [List.range'_succ, unfilterRows]
    rcases Nat.lt_or_ge 4 (filterOf orig stride row).toNat with hhere | hhere
    · rw [h.refuses hpos hbpp hroom₁ hhere]
      rfl
    · obtain ⟨raw', hstep, h'⟩ := h.step (fun _ => hbpp) hroom₁ (fun _ => hhere)
      have hne : r ≠ row := fun heq => by rw [heq] at hbad; omega
      rw [hstep]
      exact ih h' (le_trans (Nat.mul_le_mul_right _ (by omega)) hroom) ⟨r, by omega, by omega, hbad⟩

theorem RowsDone.start (orig : List UInt8) (stride bpp : ℕ) : RowsDone orig stride bpp 0 orig :=
  ⟨rfl, fun _ hr => absurd hr (Nat.not_lt_zero _), fun _ _ => rfl⟩

theorem RowsDone.reconstructs {width height bpp : ℕ}
    (h : RowsDone orig (width * bpp) bpp height raw) (hroom : height * (width * bpp) ≤ orig.length) :
    Reconstructs orig width height bpp (raw.take (height * (width * bpp))) := by
  refine ⟨?_, ?_⟩
  · rw [List.length_take, h.length, Nat.min_eq_left hroom, Nat.mul_assoc]
  · intro row hrow i hi
    have hlt := place_lt hrow hi
    refine (h.done row hrow i hi).congr (Nat.pos_of_mul_pos_left (Nat.zero_lt_of_lt hi)) hi fun k hk => ?_
    rw [getD_eq_getElem?_getD, List.getElem?_take_of_lt (by omega), getD_eq_getElem?_getD]

section Unfilter

variable {raw : List UInt8} {width height bpp : ℕ} {image : List UInt8}

theorem room_of_length (h : raw.length = height * (1 + width * bpp)) :
    height * (width * bpp + 1) = raw.length ∧ height * (width * bpp) ≤ raw.length := by
  rw [Nat.add_comm] at h
  exact ⟨h.symm, h ▸ Nat.mul_le_mul_left _ (le_succ _)⟩

theorem unfilter_ok (hlen : raw.length = height * (1 + width * bpp)) (h : ¬BadFilter raw width height bpp) :
    ∃ image, unfilter raw width height bpp = .ok image ∧ Reconstructs raw width height bpp image := by
  obtain ⟨hroom, hroom'⟩ := room_of_length hlen
  obtain ⟨out, hrun, hdone⟩ := (RowsDone.start raw (width * bpp) bpp).run
    Nat.pos_of_mul_pos_left height (by rw [Nat.zero_add]; exact hroom.le) fun r _ hr hpos =>
      Nat.le_of_not_lt fun hbad => h ⟨r, by omega, hpos, hbad⟩
  rw [Nat.zero_add] at hdone
  refine ⟨_, ?_, hdone.reconstructs hroom'⟩
  rw [Nat.zero_sub, Nat.zero_mul, ← List.range_eq_range'] at hrun
  rw [unfilter, hrun]
  rfl

theorem reconstructs_of_unfilter (hlen : raw.length = height * (1 + width * bpp))
    (hnot : ¬BadFilter raw width height bpp) (h : unfilter raw width height bpp = .ok image) :
    Reconstructs raw width height bpp image := by
  obtain ⟨image', himage, hrec⟩ := unfilter_ok hlen hnot
  rw [h] at himage
  injection himage with himage
  exact himage ▸ hrec

theorem unfilter_error (hlen : raw.length = height * (1 + width * bpp)) (h : BadFilter raw width height bpp) :
    unfilter raw width height bpp = .error .badData := by
  obtain ⟨hroom, _⟩ := room_of_length hlen
  obtain ⟨r, hr, hpos, hbad⟩ := h
  have hrun := (RowsDone.start raw (width * bpp) bpp).run_refuses hpos (Nat.pos_of_mul_pos_left hpos)
    height (by rw [Nat.zero_add]; exact hroom.le) ⟨r, Nat.zero_le r, by omega, hbad⟩
  rw [Nat.zero_sub, Nat.zero_mul, ← List.range_eq_range'] at hrun
  rw [unfilter, hrun]
  rfl

theorem length_unfilter (hlen : raw.length = height * (1 + width * bpp))
    (h : unfilter raw width height bpp = .ok image) : image.length = height * width * bpp := by
  by_cases hbad : BadFilter raw width height bpp
  · rw [unfilter_error hlen hbad] at h
    cases h
  · exact (reconstructs_of_unfilter hlen hbad h).length

end Unfilter

/-! ### Pixels -/

theorem length_rgbPixels (key : Option (UInt8 × UInt8 × UInt8)) :
    ∀ (samples : List UInt8) {rgba : List UInt8}, rgbPixels key samples = .ok rgba →
      3 * rgba.length = 4 * samples.length
  | [], rgba, h => by
      rw [rgbPixels] at h
      injection h with h
      rw [← h]
      rfl
  | r :: g :: b :: samples, rgba, h => by
      obtain ⟨rest, hrest, h⟩ := bind_eq_ok h
      injection h with h
      have ih := length_rgbPixels key samples hrest
      rw [← h]
      simp only [length_cons]
      omega
  | [_], _, h => by cases h
  | [_, _], _, h => by cases h

theorem length_palettePixels (plte trns : List UInt8) :
    ∀ (samples : List UInt8) {rgba : List UInt8}, palettePixels plte trns samples = .ok rgba →
      rgba.length = 4 * samples.length
  | [], rgba, h => by
      rw [palettePixels] at h
      injection h with h
      rw [← h]
      rfl
  | idx :: samples, rgba, h => by
      rw [palettePixels] at h
      split at h
      · cases h
      · rename_i rgb hrgb
        obtain ⟨rest, hrest, h⟩ := bind_eq_ok h
        injection h with h
        have ih := length_palettePixels plte trns samples hrest
        have hthree : rgb.length = 3 := by
          unfold getRange at hrgb
          split at hrgb
          · injection hrgb with hrgb
            rw [← hrgb, List.length_take, List.length_drop]
            omega
          · cases hrgb
        rw [← h, length_append, length_cons, length_cons, hthree]
        omega

theorem length_greyAlphaPixels :
    ∀ (samples : List UInt8) {rgba : List UInt8}, greyAlphaPixels samples = .ok rgba →
      rgba.length = 2 * samples.length
  | [], rgba, h => by
      rw [greyAlphaPixels] at h
      injection h with h
      rw [← h]
      rfl
  | g :: a :: samples, rgba, h => by
      obtain ⟨rest, hrest, h⟩ := bind_eq_ok h
      injection h with h
      have ih := length_greyAlphaPixels samples hrest
      rw [← h]
      simp only [length_cons]
      omega
  | [_], _, h => by cases h

theorem Header.channels_pos (hdr : Header) : 0 < hdr.channels := by
  unfold Header.channels
  split <;> decide

theorem length_toRgba {hdr : Header} {samples plte trns rgba : List UInt8}
    (h : toRgba hdr samples plte trns = .ok rgba) : hdr.channels * rgba.length = 4 * samples.length := by
  unfold toRgba at h
  unfold Header.channels
  split at h
  case h_1 =>
      injection h with h
      rw [← h, Nat.one_mul, List.length_flatMap]
      simp only [length_cons, List.length_nil, List.map_const', List.sum_replicate_nat]
      omega
  case h_2 => exact length_rgbPixels _ _ h
  case h_3 =>
      split at h
      · cases h
      · rw [Nat.one_mul]
        exact length_palettePixels _ _ _ h
  case h_4 =>
      have hlen := length_greyAlphaPixels _ h
      omega
  case h_5 =>
      injection h with h
      rw [← h]

/-! ### Images -/

/-- Every decoded image has four bytes for each pixel. -/
theorem length_decode {data : List UInt8} {png : DecodedPng} (h : decode data = .ok png) :
    png.rgba.length = 4 * png.width * png.height := by
  unfold decode at h
  split at h
  · cases h
  · obtain ⟨s, hs, h⟩ := bind_eq_ok h
    split at h
    · cases h
    · rename_i hdr _
      dsimp only at h
      split at h
      · cases h
      · cases h
      · rename_i raw _
        split at h
        · cases h
        · rename_i hlen
          obtain ⟨samples, hsamples, h⟩ := bind_eq_ok h
          obtain ⟨rgba, hrgba, h⟩ := bind_eq_ok h
          injection h with h
          rw [← h]
          have hpixels := length_toRgba hrgba
          rw [length_unfilter (not_not.1 hlen) hsamples] at hpixels
          refine Nat.eq_of_mul_eq_mul_left hdr.channels_pos ?_
          linarith

/-- **Undoing the predictions in place is the recurrence.**  A buffer of `height` transmitted rows is refused
exactly when a row with bytes has an unknown filter; otherwise what is left of it is the one image of the
recurrence.  And every decoded image has four bytes for each pixel. -/
theorem unfilter_reconstructs {raw : List UInt8} {width height bpp : ℕ}
    (hlen : raw.length = height * (1 + width * bpp)) :
    (unfilter raw width height bpp = .error .badData ↔ BadFilter raw width height bpp) ∧
    (¬BadFilter raw width height bpp → ∃ image, unfilter raw width height bpp = .ok image ∧
      Reconstructs raw width height bpp image ∧
      ∀ image', Reconstructs raw width height bpp image' → image' = image) ∧
    ∀ (data : List UInt8) (png : DecodedPng), decode data = .ok png →
      png.rgba.length = 4 * png.width * png.height := by
  refine ⟨⟨?_, unfilter_error hlen⟩, ?_, fun data png => length_decode⟩
  · intro herror
    by_contra hnot
    obtain ⟨image, hok, _⟩ := unfilter_ok hlen hnot
    rw [hok] at herror
    cases herror
  · intro hnot
    obtain ⟨image, hok, hrec⟩ := unfilter_ok hlen hnot
    exact ⟨image, hok, hrec, fun image' h' => hrec.unique h'⟩

theorem unfilter_reconstructs_mean_nearest :
    Reconstructs [3, 100, 60, 4, 246, 20] 2 2 1 [100, 110, 90, 120] := by
  obtain ⟨hbad, himage, _⟩ :=
    @unfilter_reconstructs [3, 100, 60, 4, 246, 20] 2 2 1 (by decide)
  have hrun : unfilter [3, 100, 60, 4, 246, 20] 2 2 1 = .ok [100, 110, 90, 120] := by decide +kernel
  have hnot : ¬BadFilter [3, 100, 60, 4, 246, 20] 2 2 1 := by
    rw [← hbad, hrun]
    exact fun h => by cases h
  obtain ⟨image, hok, hrec, _⟩ := himage hnot
  rw [hrun] at hok
  injection hok with hok
  exact hok ▸ hrec

end Posh.Term.Png
