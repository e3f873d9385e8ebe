/-
**What the store keeps true.**

The pixels of every image and of every frame are as many as its size says; frames and play states belong to
images; the bytes are counted right.  Images come and go with their frames and play states, so that removing one
keeps all of this, and so does putting in the frames of an image, if the count follows.

Making room lets the oldest images go.  Which ones have to go is known before the first does: those that are too
many together with all that are not older.
-/

import Posh.Lib.Eviction
import Posh.Term.Compositing

set_option autoImplicit false

namespace Posh.Term

open ByteCursor
open List (map_cons nodup_nil sum_cons)
open Keyed (lookup nodup_eraseP)
open Prod (fst)
open ByteCursor.Outcome (bind_ok)
open Keyed
open Checked (each sub_eq)

/-- As many bytes as the size and the format say, of some pixels. -/
structure Sized (format : ImageFormat) (width height : ℕ) (data : List UInt8) : Prop where
  width_pos : 0 < width
  height_pos : 0 < height
  length : data.length = width * height * format.bytesPerPixel

def frameBytes (fs : List ImageFrame) : ℕ := (fs.map fun f => f.data.length).sum

/-- A frame with as many bytes as its size says, at a column that fits 32 bits. -/
structure ImageFrame.Placed (f : ImageFrame) : Prop where
  sized : Sized f.format f.width f.height f.data
  x : f.x < 2 ^ 32

namespace GraphicsState

/-- The bytes of all images and frames. -/
def heldBytes (g : GraphicsState) : ℕ :=
  (g.images.map fun img => img.data.length).sum + (g.frames.map fun e => frameBytes e.2).sum

def imageBytes (g : GraphicsState) (id : ℕ) : ℕ :=
  ((g.image id).map fun img => img.data.length).getD 0 + frameBytes (g.framesOf id)

/-- **What is true of every store that is reached.** -/
structure Consistent (g : GraphicsState) : Prop where
  images : ∀ img ∈ g.images, Sized img.format img.width img.height img.data
  frames : ∀ e ∈ g.frames, ∀ f ∈ e.2, Sized f.format f.width f.height f.data
  framesOwned : ∀ e ∈ g.frames, ∃ img ∈ g.images, img.id = e.1
  animationsOwned : ∀ e ∈ g.animations, ∃ img ∈ g.images, img.id = e.1
  total : g.totalBytes = g.heldBytes
  quota : g.totalBytes ≤ quotaBytes

structure Kept (g : GraphicsState) : Prop where
  images : ∀ img ∈ g.images, Sized img.format img.width img.height img.data
  frames : ∀ e ∈ g.frames, ∀ f ∈ e.2, f.Placed
  framesOwned : ∀ e ∈ g.frames, e.1 ∈ g.images.map (·.id)
  animationsOwned : ∀ e ∈ g.animations, e.1 ∈ g.images.map (·.id)
  total : g.totalBytes = g.heldBytes
  ids : (g.images.map (·.id)).Nodup
  -- no two images were stored at once
  seqs : (g.images.map (·.seq)).Nodup
  seq_le : ∀ img ∈ g.images, img.seq ≤ g.nextSeq
  frameIds : (g.frames.map Prod.fst).Nodup
  animationIds : (g.animations.map Prod.fst).Nodup
  pending : ∀ p, g.pending = some p → p.cmd.Fits ∧ p.payload.length < 2 ^ 63

theorem Kept.consistent {g : GraphicsState} (h : g.Kept) (hquota : g.totalBytes ≤ quotaBytes) : g.Consistent where
  images := h.images
  frames := fun e he f hf => (h.frames e he f hf).sized
  framesOwned := fun e he => by simpa using h.framesOwned e he
  animationsOwned := fun e he => by simpa using h.animationsOwned e he
  total := h.total
  quota := hquota

theorem kept_empty : Kept {} where
  images := by rintro img ⟨⟩
  frames := by rintro e ⟨⟩
  framesOwned := by rintro e ⟨⟩
  animationsOwned := by rintro e ⟨⟩
  total := rfl
  ids := nodup_nil
  seqs := nodup_nil
  seq_le := by rintro img ⟨⟩
  frameIds := nodup_nil
  animationIds := nodup_nil
  pending := by rintro p ⟨⟩

section Kept

variable {g : GraphicsState} {id : ℕ}

theorem mem_ids_of_image {img : StoredImage} (h : g.image id = some img) : id ∈ g.images.map (·.id) :=
  List.mem_map.2 ⟨img, mem_of_lookup h, @key_of_lookup _ _ _ (fun img : StoredImage => img.id) _ _ _ h⟩

theorem Kept.placed (h : g.Kept) : ∀ f ∈ g.framesOf id, f.Placed := by
  intro f hf
  rw [framesOf] at hf
  cases hlookup : lookup fst g.frames id with
  | none =>
    rw [hlookup] at hf
    cases hf
  | some e =>
    rw [hlookup] at hf
    exact h.frames e (mem_of_lookup hlookup) f hf

theorem frameBytes_framesOf : ((lookup fst g.frames id).map fun e => frameBytes e.2).getD 0 =
    frameBytes (g.framesOf id) := by
  rw [framesOf]
  cases lookup fst g.frames id with
  | none => rfl
  | some e => rfl

theorem heldBytes_eq (g : GraphicsState) (id : ℕ) :
    g.heldBytes = ((g.images.eraseP (·.id == id)).map fun img => img.data.length).sum +
      ((g.frames.eraseP (·.1 == id)).map fun e => frameBytes e.2).sum + g.imageBytes id := by
  have himages := @sum_eraseP _ _ _ (·.id) g.images id fun img => img.data.length
  have hframes := @sum_eraseP _ _ _ fst g.frames id fun e => frameBytes e.2
  rw [frameBytes_framesOf] at hframes
  rw [heldBytes, imageBytes, image]
  omega

theorem Kept.sum_imageBytes (h : g.Kept) : (g.images.map fun img => g.imageBytes img.id).sum = g.heldBytes := by
  have hframes := @sum_lookup _ _ _ fst g.frames (fun e : ℕ × List ImageFrame => frameBytes e.2) _ h.ids
    h.frameIds h.framesOwned
  rw [List.map_map] at hframes
  have hsplit : ∀ l ⊆ g.images, (l.map fun img => g.imageBytes img.id).sum =
      (l.map fun img => img.data.length).sum + (l.map fun img => frameBytes (g.framesOf img.id)).sum := by
    intro l
    induction l with
    | nil => exact fun _ => rfl
    | cons img l ih =>
      intro hl
      obtain ⟨himg, hl⟩ := List.cons_subset.1 hl
      have hfound : g.image img.id = some img := (lookup_eq_some h.ids).2 ⟨himg, rfl⟩
      have hbytes : g.imageBytes img.id = img.data.length + frameBytes (g.framesOf img.id) := by
        rw [imageBytes, hfound]
        rfl
      rw [map_cons, sum_cons, map_cons, sum_cons, map_cons, sum_cons, ih hl, hbytes]
      omega
  rw [hsplit _ (List.Subset.refl _), heldBytes, ← hframes]
  refine congrArg₂ _ rfl (congrArg List.sum (List.map_congr_left fun img _ => ?_))
  exact frameBytes_framesOf.symm

/-! ### Removing an image -/

/-- The store without an image. -/
def without (g : GraphicsState) (id : ℕ) : GraphicsState :=
  { g with
    images := g.images.eraseP (·.id == id)
    frames := g.frames.eraseP (·.1 == id)
    animations := g.animations.eraseP (·.1 == id)
    totalBytes := g.totalBytes - g.imageBytes id }

theorem subFrames_eq (fs : List ImageFrame) : ∀ {n : ℕ}, frameBytes fs ≤ n →
    each (fun total (frame : ImageFrame) => (Checked.sub total frame.data.length : Storing ℕ)) n fs =
      .ok (n - frameBytes fs) := by
  induction fs with
  | nil => exact fun _ => rfl
  | cons f fs ih =>
    intro n h
    rw [frameBytes, map_cons, sum_cons] at h ⊢
    rw [each, sub_eq (by omega), bind_ok, ih (by rw [frameBytes]; omega), frameBytes, Nat.sub_sub]

theorem Kept.imageBytes_le (h : g.Kept) (id : ℕ) : g.imageBytes id ≤ g.totalBytes := by
  rw [h.total, heldBytes_eq g id]
  omega

/-- **Removing an image**: it and its frames and its play state are gone, and nothing is counted below zero. -/
theorem Kept.removeImageData_eq (h : g.Kept) (id : ℕ) : g.removeImageData id = .ok (g.without id) := by
  have hle := h.imageBytes_le id
  rw [imageBytes] at hle
  rw [removeImageData, without, imageBytes]
  cases himg : g.image id with
  | none =>
    rw [himg, Option.map_none, Option.getD_none, Nat.zero_add] at hle
    have hkeep : ∀ img ∈ g.images, ¬ (img.id == id) = true := by simpa [image, lookup] using himg
    rw [bind_ok, subFrames_eq _ hle, bind_ok, Option.map_none, Option.getD_none, Nat.zero_add,
      List.eraseP_of_forall_not hkeep]
  | some img =>
    rw [himg, Option.map_some, Option.getD_some] at hle
    dsimp only
    rw [sub_eq (by omega), bind_ok, bind_ok]
    have hrest : frameBytes (g.framesOf id) ≤ g.totalBytes - img.data.length := by omega
    show (each _ (g.totalBytes - img.data.length) (g.framesOf id)).bind _ = _
    rw [subFrames_eq _ hrest, bind_ok, Option.map_some, Option.getD_some, Nat.sub_sub]

theorem mem_ids_eraseP {id' : ℕ} (h : id' ∈ g.images.map (·.id)) (hne : id' ≠ id) :
    id' ∈ (g.images.eraseP (·.id == id)).map (·.id) := by
  obtain ⟨img, himg, rfl⟩ := List.mem_map.1 h
  exact List.mem_map_of_mem ((List.mem_eraseP_of_neg (by simpa using hne)).2 himg)

theorem Kept.without (h : g.Kept) (id : ℕ) : (g.without id).Kept where
  images := fun img himg => h.images img (List.mem_of_mem_eraseP himg)
  frames := fun e he => h.frames e (List.mem_of_mem_eraseP he)
  framesOwned := by
    intro e he
    obtain ⟨he, hne⟩ := (mem_eraseP h.frameIds).1 he
    exact mem_ids_eraseP (h.framesOwned e he) hne
  animationsOwned := by
    intro e he
    obtain ⟨he, hne⟩ := (mem_eraseP h.animationIds).1 he
    exact mem_ids_eraseP (h.animationsOwned e he) hne
  total := by
    show g.totalBytes - g.imageBytes id = _
    rw [h.total, heldBytes_eq g id, Nat.add_sub_cancel]
    rfl
  ids := nodup_eraseP h.ids
  seqs := nodup_eraseP h.seqs
  seq_le := fun img himg => h.seq_le img (List.mem_of_mem_eraseP himg)
  frameIds := nodup_eraseP h.frameIds
  animationIds := nodup_eraseP h.animationIds
  pending := h.pending

theorem Kept.withPlacements (h : g.Kept) (ps : List Placement) : Kept { g with placements := ps } :=
  ⟨h.images, h.frames, h.framesOwned, h.animationsOwned, h.total, h.ids, h.seqs, h.seq_le, h.frameIds, h.animationIds,
    h.pending⟩

/-! ### Putting frames in -/

/-- **Putting the frames of an image in**, when the count follows. -/
theorem Kept.putFrames (h : g.Kept) (hid : id ∈ g.images.map (·.id)) {fs : List ImageFrame} (hfs : ∀ f ∈ fs, f.Placed)
    {total : ℕ} (htotal : total + frameBytes (g.framesOf id) = g.totalBytes + frameBytes fs) :
    (g.putFrames id fs total).Kept where
  images := h.images
  frames := by
    intro e he
    rcases List.mem_cons.1 he with rfl | he
    · exact hfs
    · exact h.frames e (List.mem_of_mem_eraseP he)
  framesOwned := by
    intro e he
    rcases List.mem_cons.1 he with rfl | he
    · exact hid
    · exact h.framesOwned e (List.mem_of_mem_eraseP he)
  animationsOwned := h.animationsOwned
  total := by
    have hframes := @sum_eraseP _ _ _ fst g.frames id fun e => frameBytes e.2
    rw [frameBytes_framesOf] at hframes
    have hheld := h.total
    rw [heldBytes] at hheld
    show total = (g.images.map fun img => img.data.length).sum +
      (((id, fs) :: g.frames.eraseP (·.1 == id)).map fun e => frameBytes e.2).sum
    rw [map_cons, sum_cons]
    dsimp only
    omega
  ids := h.ids
  seqs := h.seqs
  seq_le := h.seq_le
  frameIds := by
    show ((id, fs).1 :: (g.frames.eraseP (·.1 == id)).map fst).Nodup
    exact List.nodup_cons.2 ⟨lookup_eq_none.1 (lookup_eraseP_self h.frameIds), nodup_eraseP h.frameIds⟩
  animationIds := h.animationIds
  pending := h.pending

/-! ### Making room -/

/-- **An image that has to go**: it is too many bytes together with all that are not older. -/
def Crowded (g : GraphicsState) (id : ℕ) : Prop :=
  ∃ img ∈ g.images, img.id = id ∧ Eviction.Crowded (·.seq) (fun img => g.imageBytes img.id) quotaBytes g.images img

instance (g : GraphicsState) (id : ℕ) : Decidable (g.Crowded id) :=
  inferInstanceAs (Decidable (∃ img ∈ g.images, _))

theorem Kept.not_crowded (h : g.Kept) (hquota : g.totalBytes ≤ quotaBytes) : ¬ g.Crowded id := by
  rintro ⟨img, -, -, hcrowded⟩
  refine Eviction.not_crowded_of_le ?_ img hcrowded
  rw [h.sum_imageBytes, ← h.total]
  exact hquota

theorem imageBytes_without_of_ne {id' : ℕ} (hne : id' ≠ id) : (g.without id).imageBytes id' = g.imageBytes id' := by
  rw [imageBytes, imageBytes, image, image, framesOf, framesOf]
  show ((lookup (·.id) (g.images.eraseP (·.id == id)) id').map _).getD 0 +
    frameBytes ((Option.map Prod.snd (lookup fst (g.frames.eraseP (·.1 == id)) id')).getD []) = _
  rw [lookup_eraseP_of_ne hne, lookup_eraseP_of_ne hne]

theorem Kept.crowded_iff (h : g.Kept) (hover : quotaBytes < g.totalBytes) {oldest : StoredImage}
    (hmem : oldest ∈ g.images) (hmin : ∀ img ∈ g.images, oldest.seq ≤ img.seq) :
    g.Crowded id ↔ id = oldest.id ∨ (g.without oldest.id).Crowded id := by
  have hfind : g.images.find? (·.id == oldest.id) = some oldest := (lookup_eq_some h.ids).2 ⟨hmem, rfl⟩
  have hperm := perm_eraseP hfind
  have hrest : ∀ img, img ∈ g.images.eraseP (·.id == oldest.id) ↔ img ∈ g.images ∧ img.id ≠ oldest.id :=
    fun img => mem_eraseP h.ids
  -- a younger image weighs the same with the ones that are not older
  have hsame : ∀ img ∈ g.images, img.id ≠ oldest.id →
      (Eviction.Crowded (·.seq) (fun img => g.imageBytes img.id) quotaBytes g.images img ↔
        Eviction.Crowded (·.seq) (fun img => (g.without oldest.id).imageBytes img.id) quotaBytes
          (g.without oldest.id).images img) := by
    intro img himg hne
    have hlt : oldest.seq < img.seq := by
      refine Nat.lt_of_le_of_ne (hmin img himg) fun heq => hne ?_
      rw [List.inj_on_of_nodup_map h.seqs hmem himg heq]
    rw [Eviction.Crowded, Eviction.Crowded, Eviction.since_rest hperm hlt]
    refine iff_of_eq (congrArg _ (Eviction.since_congr fun y hy => ?_))
    exact (imageBytes_without_of_ne ((hrest y).1 hy).2).symm
  constructor
  · rintro ⟨img, himg, rfl, hcrowded⟩
    by_cases hne : img.id = oldest.id
    · exact .inl hne
    · exact .inr ⟨img, (hrest img).2 ⟨himg, hne⟩, rfl, (hsame img himg hne).1 hcrowded⟩
  · rintro (rfl | ⟨img, himg, rfl, hcrowded⟩)
    · refine ⟨oldest, hmem, rfl, Eviction.crowded_oldest hmin ?_⟩
      rw [h.sum_imageBytes, ← h.total]
      exact hover
    · obtain ⟨himg, hne⟩ := (hrest img).1 himg
      exact ⟨img, himg, rfl, (hsame img himg hne).2 hcrowded⟩

/-- What making room comes to. -/
structure Roomy (g g' : GraphicsState) : Prop where
  kept : g'.Kept
  quota : g'.totalBytes ≤ quotaBytes
  placements : g'.placements = g.placements.filter fun p => ¬ g.Crowded p.imageId
  nextId : g'.nextId = g.nextId
  nextSeq : g'.nextSeq = g.nextSeq
  pending : g'.pending = g.pending

theorem Kept.evict_spec (n : ℕ) : ∀ {g : GraphicsState}, g.Kept → g.images.length ≤ n →
    ∃ g', evict n g = .ok g' ∧ Roomy g g' := by
  induction n with
  | zero =>
    intro g h hlen
    -- without images there are no bytes
    have hnil : g.images = [] := List.length_eq_zero_iff.1 (Nat.le_zero.1 hlen)
    have hzero : g.totalBytes = 0 := by
      rw [h.total, ← h.sum_imageBytes, hnil]
      rfl
    have hquota : g.totalBytes ≤ quotaBytes := hzero ▸ Nat.zero_le _
    refine ⟨g, by rw [evict, if_pos hquota], h, hquota, ?_, rfl, rfl, rfl⟩
    exact (List.filter_eq_self.2 fun p _ => decide_eq_true (h.not_crowded hquota)).symm
  | succ n ih =>
    intro g h hlen
    by_cases hquota : g.totalBytes ≤ quotaBytes
    · refine ⟨g, by rw [evict, if_pos hquota], h, hquota, ?_, rfl, rfl, rfl⟩
      exact (List.filter_eq_self.2 fun p _ => decide_eq_true (h.not_crowded hquota)).symm
    · have hover : quotaBytes < g.totalBytes := Nat.not_le.1 hquota
      cases holdest : g.images.argmin (·.seq) with
      | none =>
        have hnil := List.argmin_eq_none.1 holdest
        rw [h.total, ← h.sum_imageBytes, hnil] at hover
        exact absurd hover (Nat.not_lt_zero _)
      | some oldest =>
        have hmem := List.argmin_mem holdest
        have hmin : ∀ img ∈ g.images, oldest.seq ≤ img.seq := fun img himg => List.le_of_mem_argmin himg holdest
        have hfewer : (g.without oldest.id).images.length ≤ n := by
          have hlength := List.length_eraseP_of_mem hmem (p := (·.id == oldest.id)) (by simp)
          show (g.images.eraseP (·.id == oldest.id)).length ≤ n
          omega
        obtain ⟨g', hg', hroomy⟩ := @ih { g.without oldest.id with
          placements := g.placements.filter fun p => p.imageId ≠ oldest.id }
          ((h.without oldest.id).withPlacements _) hfewer
        refine ⟨g', ?_, hroomy.kept, hroomy.quota, ?_, hroomy.nextId, hroomy.nextSeq, hroomy.pending⟩
        · rw [evict, if_neg hquota, holdest]
          show (g.removeImageData oldest.id).bind _ = _
          rw [h.removeImageData_eq, bind_ok]
          exact hg'
        · rw [hroomy.placements, List.filter_filter]
          refine List.filter_congr fun p _ => ?_
          have hiff := @Kept.crowded_iff g p.imageId h hover oldest hmem hmin
          have hsame : Crowded { g.without oldest.id with
              placements := g.placements.filter fun p => p.imageId ≠ oldest.id } p.imageId ↔
              (g.without oldest.id).Crowded p.imageId := Iff.rfl
          simp only [hsame, hiff, not_or, Bool.decide_and, ne_eq, Bool.and_comm]

/-- **Making room**: the store is within its quota, and what was shown of the images that had to go is gone. -/
theorem Kept.enforceQuota_spec (h : g.Kept) : ∃ g', g.enforceQuota = .ok g' ∧ Roomy g g' :=
  h.evict_spec g.images.length (Nat.le_refl _)

end Kept

end GraphicsState

end Posh.Term
