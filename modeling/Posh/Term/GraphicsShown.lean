/-
**Every placement shows a stored image.**

A placement names the image that it shows, and no table keeps the two together: each command that lets an image go has
to take the placements of the image out as well.  Making room does so, and so does every deletion but one.  Deleting
an image together with *one* of its placements frees the image, and leaves its other placements behind.  An image that
is too large for the store by itself is let go again before it is shown.
-/

import Posh.Term.GraphicsFaults

set_option autoImplicit false

namespace Posh.Term

open ByteCursor Checked
open Gives

namespace GraphicsState

variable {g g' : GraphicsState} {id : ℕ} {cmd : GraphicsCommand} {data : List UInt8} {format : ImageFormat}

/-- **Every placement shows a stored image**, and no two have both ids in common. -/
structure Shown (g : GraphicsState) : Prop where
  stored : ∀ p ∈ g.placements, p.imageId ∈ g.images.map (·.id)
  distinct : (g.placements.map fun p => (p.imageId, p.placementId)).Nodup

theorem shown_empty : Shown {} := ⟨by rintro p ⟨⟩, List.nodup_nil⟩

theorem Shown.sub (h : g.Shown) (hsub : g'.placements.Sublist g.placements)
    (hids : ∀ p ∈ g'.placements, p.imageId ∈ g.images.map (·.id) → p.imageId ∈ g'.images.map (·.id)) : g'.Shown where
  stored := fun p hp => hids p hp (h.stored p (hsub.subset hp))
  distinct := h.distinct.sublist (hsub.map _)

theorem Shown.congr (h : g.Shown) (hplacements : g'.placements = g.placements) (himages : g'.images = g.images) :
    g'.Shown :=
  h.sub (by rw [hplacements]) fun p _ hp => by rw [himages]; exact hp

/-! ### Letting images go -/

theorem removeImageData_gives (g : GraphicsState) (id : ℕ) : Gives (g.removeImageData id) fun g' =>
      g'.placements = g.placements ∧ g'.images = g.images.eraseP (·.id == id) := by
  rw [removeImageData]
  refine bind (P := fun g' : GraphicsState =>
      g'.placements = g.placements ∧ g'.images = g.images.eraseP (·.id == id)) ?_ fun g' hg' =>
    bind (P := fun _ => True) (fun _ _ => trivial) fun total _ => ok hg'
  split
  · exact bind (P := fun _ => True) (fun _ _ => trivial) fun total _ => ok ⟨rfl, rfl⟩
  · next himg =>
      have hkeep : ∀ img ∈ g.images, ¬ (img.id == id) = true := by simpa [image, Keyed.lookup] using himg
      exact ok ⟨rfl, (List.eraseP_of_forall_not hkeep).symm⟩

theorem Shown.removeImageData (h : g.Shown) (hno : ∀ p ∈ g.placements, p.imageId ≠ id) :
    Gives (g.removeImageData id) Shown := by
  refine (g.removeImageData_gives id).mono fun g' hg' => h.sub (by rw [hg'.1]) fun p hp hmem => ?_
  rw [hg'.2]
  exact mem_ids_eraseP hmem (hno p (hg'.1 ▸ hp))

/-- **Making room** takes out what was shown of the images that go. -/
theorem Shown.evict (n : ℕ) : ∀ {g : GraphicsState}, g.Shown → Gives (evict n g) Shown := by
  induction n with
  | zero =>
    intro g h
    rw [GraphicsState.evict]
    split
    · exact ok h
    · split
      · exact ok h
      · exact outOfRange
  | succ n ih =>
    intro g h
    rw [GraphicsState.evict]
    split
    · exact ok h
    · split
      · exact ok h
      · next oldest _ =>
          refine (g.removeImageData_gives oldest.id).bind fun g' hg' => ih (h.sub ?_ fun p hp hmem => ?_)
          · rw [← hg'.1]
            exact List.filter_sublist
          · show p.imageId ∈ g'.images.map (·.id)
            rw [hg'.2]
            exact mem_ids_eraseP hmem (of_decide_eq_true (List.mem_filter.1 hp).2)

theorem Shown.enforceQuota (h : g.Shown) : Gives g.enforceQuota Shown := h.evict g.images.length

theorem Kept.evict_ids (n : ℕ) : ∀ {g : GraphicsState}, g.Kept → Gives (evict n g) fun g' =>
    ∀ id, id ∈ g'.images.map (·.id) ↔ id ∈ g.images.map (·.id) ∧ ¬ g.Crowded id := by
  induction n with
  | zero =>
    intro g h
    rw [evict]
    split
    · next hquota => exact ok fun id => (and_iff_left (h.not_crowded hquota)).symm
    · next hquota =>
        split
        · next hnone => exact ok fun id => by rw [List.argmin_eq_none.1 hnone]; simp
        · exact outOfRange
  | succ n ih =>
    intro g h
    rw [evict]
    split
    · next hquota => exact ok fun id => (and_iff_left (h.not_crowded hquota)).symm
    · next hquota =>
        split
        · next hnone => exact ok fun id => by rw [List.argmin_eq_none.1 hnone]; simp
        · next oldest holdest =>
            have hmem := List.argmin_mem holdest
            have hmin : ∀ img ∈ g.images, oldest.seq ≤ img.seq :=
              fun img himg => List.le_of_mem_argmin himg holdest
            rw [h.removeImageData_eq]
            show Gives (evict n _) _
            refine (ih ((h.without oldest.id).withPlacements _)).mono fun g' hg' id => ?_
            have hids : id ∈ (g.without oldest.id).images.map (·.id) ↔
                id ∈ g.images.map (·.id) ∧ id ≠ oldest.id := by
              constructor
              · intro hid
                obtain ⟨img, himg, rfl⟩ := List.mem_map.1 hid
                obtain ⟨himg, hne⟩ := (Keyed.mem_eraseP h.ids).1 himg
                exact ⟨List.mem_map_of_mem himg, hne⟩
              · exact fun hid => mem_ids_eraseP hid.1 hid.2
            have hcrowded := @Kept.crowded_iff g id h (Nat.not_le.1 hquota) oldest hmem hmin
            rw [hg' id, hcrowded, not_or, ← and_assoc]
            exact and_congr hids Iff.rfl

/-! ### Showing images -/

theorem addPlacement_gives (g : GraphicsState) (cmd : GraphicsCommand) (cursor : ℕ × ℕ) :
    Gives (g.addPlacement cmd cursor) fun r => ∃ p : Placement, p.imageId = cmd.id ∧ p.placementId = cmd.placementId ∧
      r.1 = { g with placements :=
        (g.placements.filter fun p => ¬ (p.imageId = cmd.id ∧ p.placementId = cmd.placementId)) ++ [p] } := by
  rw [addPlacement]
  exact bind (P := fun _ => True) (fun _ _ => trivial) fun cell _ => ok ⟨_, rfl, rfl, rfl⟩

theorem Shown.addPlacement (h : g.Shown) (hid : cmd.id ∈ g.images.map (·.id))
    (cursor : ℕ × ℕ) : Gives (g.addPlacement cmd cursor) fun r => r.1.Shown := by
  refine (g.addPlacement_gives cmd cursor).mono fun r hr => ?_
  obtain ⟨p, himage, hname, hr⟩ := hr
  rw [hr]
  refine ⟨fun q hq => ?_, ?_⟩
  · rcases List.mem_append.1 hq with hq | hq
    · exact h.stored q (List.mem_of_mem_filter hq)
    · rw [List.mem_singleton.1 hq, himage]
      exact hid
  · rw [List.map_append, List.map_singleton]
    refine List.nodup_append.2 ⟨h.distinct.sublist (List.filter_sublist.map _), List.nodup_singleton _, ?_⟩
    intro a ha b hb heq
    rw [List.mem_singleton.1 hb] at heq
    obtain ⟨q, hq, rfl⟩ := List.mem_map.1 ha
    have hother := of_decide_eq_true (List.mem_filter.1 hq).2
    obtain ⟨h1, h2⟩ := Prod.mk.inj heq
    exact hother ⟨h1.trans himage, h2.trans hname⟩

/-- The answer after an image is shown: the store with the placement, or without it if there is an error. -/
theorem addPlacementAnswer_gives {P : GraphicsState → Prop} {cursor : ℕ × ℕ}
    (h : Gives (g.addPlacement cmd cursor) fun r => P r.1) (hsame : (∃ e, g.addPlacement cmd cursor = .error e) → P g)
    (resp : Option (List UInt8)) : Gives (g.addPlacementAnswer cmd cursor resp) fun r => P r.1 := by
  rw [addPlacementAnswer]
  split
  · next hok => exact ok (h _ hok)
  · next e herror => exact ok (hsame ⟨e, herror⟩)
  · exact outOfRange

theorem Shown.place (h : g.Shown) (hkept : g.Kept) (cmd : GraphicsCommand) (cursor : ℕ × ℕ) :
    Gives (g.place cmd cursor) fun r => r.1.Shown := by
  rw [GraphicsState.place]
  split
  · next id hid =>
      obtain ⟨img, himg⟩ := hkept.resolveId_stored hid
      obtain ⟨named, hnamed⟩ : ∃ named : GraphicsCommand, named = { cmd with id } := ⟨_, rfl⟩
      have hid : named.id = id := by rw [hnamed]
      rw [← hnamed]
      exact addPlacementAnswer_gives (h.addPlacement (hid ▸ mem_ids_of_image himg) cursor) (fun _ => h) _
  · exact ok h

/-! ### Frames -/

theorem Shown.putFrames (h : g.Shown) (id : ℕ) (frames : List ImageFrame) (total : ℕ) :
    (g.putFrames id frames total).Shown :=
  h.congr rfl rfl

theorem Shown.storeFrame (h : g.Shown) (cmd : GraphicsCommand) (format : ImageFormat) (data : List UInt8) :
    Gives (g.storeFrame cmd format data) fun r => r.1.Shown := by
  rw [GraphicsState.storeFrame]
  split
  · exact ok h
  · next id _ =>
      refine bind (P := fun _ => True) (fun _ _ => trivial) fun number _ => ?_
      refine bind (P := fun _ => True) (fun _ _ => trivial) fun total _ => ?_
      refine bind (P := Shown) ?_ fun g' hg' => hg'.enforceQuota.bind fun g'' hg'' => ok hg''
      split
      · exact bind (P := fun _ => True) (fun _ _ => trivial) fun total' _ => ok (h.putFrames _ _ _)
      · exact ok (h.putFrames _ _ _)

theorem Shown.animate (h : g.Shown) (cmd : GraphicsCommand) : (g.animate cmd).1.Shown := by
  rw [GraphicsState.animate]
  split
  · exact h
  · exact h.congr rfl rfl

theorem Shown.compose (h : g.Shown) (cmd : GraphicsCommand) : Gives (g.compose cmd) fun r => r.1.Shown := by
  rw [GraphicsState.compose]
  split
  · exact ok h
  · next id _ =>
      split
      · exact outOfRange
      · dsimp only
        split
        · exact ok h
        · refine bind (P := fun _ => True) (fun _ _ => trivial) fun src _ => ?_
          refine bind (P := fun _ => True) (fun _ _ => trivial) fun dst _ => ?_
          split
          · refine bind (P := fun _ => True) (fun _ _ => trivial) fun canvas _ => ?_
            split
            · exact outOfRange
            · refine bind (P := fun _ => True) (fun _ _ => trivial) fun rest _ => ?_
              refine bind (P := fun _ => True) (fun _ _ => trivial) fun total _ => ?_
              exact (h.putFrames _ _ _).enforceQuota.bind fun g' hg' => ok hg'
          · exact ok h

/-! ### Deleting -/

theorem sift_gives (hits : Placement → Storing Bool) (ps : List Placement) :
    Gives (sift hits ps) fun r => r.1.Sublist ps := by
  induction ps with
  | nil => exact ok (List.Sublist.refl _)
  | cons p ps ih =>
    rw [sift]
    refine bind (P := fun _ => True) (fun _ _ => trivial) fun hit _ => ih.bind fun r hr => ok ?_
    cases hit with
    | true => exact hr.cons p
    | false => exact hr.cons_cons p

theorem Shown.deletePlacements (h : g.Shown) (free : Bool) (hits : Placement → Storing Bool) :
    Gives (g.deletePlacements free hits) Shown := by
  rw [GraphicsState.deletePlacements]
  refine (sift_gives hits g.placements).bind fun r hr => ?_
  have hkept : Shown { g with placements := r.1 } := h.sub hr fun p _ hp => hp
  dsimp only
  split
  · refine (each (P := fun g' : GraphicsState => g'.Shown ∧ g'.placements = r.1) ?_ ⟨hkept, rfl⟩).mono
      fun g' hg' => hg'.1
    rintro id - g' ⟨hshown, hplacements⟩
    split
    · exact ok ⟨hshown, hplacements⟩
    · next hno =>
        have hnone : ∀ p ∈ g'.placements, p.imageId ≠ id := by
          rw [hplacements]
          simpa using hno
        intro g'' hg''
        exact ⟨hshown.removeImageData hnone g'' hg'', ((g'.removeImageData_gives id) g'' hg'').1.trans hplacements⟩
  · exact ok hkept

/-- The deletions that free an image with one of its placements, and leave others. -/
def FreesShown (g : GraphicsState) (cmd : GraphicsCommand) : Prop :=
  cmd.delete = byte 'I' ∧ cmd.placementId ≠ 0 ∧
    ∃ id, g.resolveId cmd = some id ∧ ∃ p ∈ g.placements, p.imageId = id ∧ p.placementId ≠ cmd.placementId

theorem Good.deleteImage_shown (h : g.Good) (hshown : g.Shown) (free : Bool) (id : Option ℕ) (name : ℕ) :
    Gives (g.deleteImage free id name) fun g' => g'.Shown ↔
      ¬ (free = true ∧ name ≠ 0 ∧ ∃ i, id = some i ∧ ∃ p ∈ g.placements, p.imageId = i ∧ p.placementId ≠ name) := by
  rw [deleteImage.eq_def]
  split
  · exact ok (iff_of_true hshown (by rintro ⟨-, -, i, hi, -⟩; cases hi))
  · next id =>
      have hfewer : ∀ (ps : List Placement), ps.Sublist g.placements → Shown { g with placements := ps } :=
        fun ps hps => hshown.sub hps fun p _ hp => hp
      dsimp only
      split
      · next hfree =>
          rw [(h.kept.withPlacements _).removeImageData_eq]
          refine ok ?_
          constructor
          · rintro hleft ⟨-, hname, i, hi, p, hp, rfl, hother⟩
            cases hi
            have hkept : p ∈ g.placements.filter fun q => q.imageId ≠ p.imageId ∨ (name ≠ 0 ∧ q.placementId ≠ name) :=
              List.mem_filter.2 ⟨hp, decide_eq_true (.inr ⟨hname, hother⟩)⟩
            obtain ⟨img, himg, heq⟩ := List.mem_map.1 (hleft.stored p hkept)
            exact ((Keyed.mem_eraseP h.kept.ids).1 himg).2 heq
          · intro hno
            refine hshown.sub List.filter_sublist fun p hp hmem => mem_ids_eraseP hmem fun heq => hno ?_
            obtain ⟨hp, hor⟩ := List.mem_filter.1 hp
            rcases of_decide_eq_true hor with hne | ⟨hname, hother⟩
            · exact absurd heq hne
            · exact ⟨hfree, hname, id, rfl, p, hp, heq, hother⟩
      · next hfree => exact ok (iff_of_true (hfewer _ List.filter_sublist) fun hno => hfree hno.1)

/-- **Deleting** leaves a placement without an image exactly when it frees an image with one of its placements, and
there are others. -/
theorem Good.delete_shown (h : g.Good) (hshown : g.Shown) (cmd : GraphicsCommand) (cursor : ℕ × ℕ) :
    Gives (g.delete cmd cursor) fun g' => g'.Shown ↔ ¬ g.FreesShown cmd := by
  have hwhat : deletes cmd = if isUpper cmd.delete then cmd.delete + 0x20 else cmd.delete := rfl
  have hletter : deletes cmd = byte 'i' ∧ isUpper cmd.delete = true ↔ cmd.delete = byte 'I' := by
    rw [hwhat]
    constructor
    · rintro ⟨heq, hupper⟩
      rw [if_pos hupper] at heq
      exact (UInt8.add_left_inj 0x20).1 (heq.trans rfl)
    · intro heq
      rw [heq]
      decide
  -- a deletion for another letter frees no image that is still shown
  have hother : deletes cmd ≠ byte 'i' → ∀ {o : Storing GraphicsState}, Gives o Shown →
      Gives o fun g' => g'.Shown ↔ ¬ g.FreesShown cmd := by
    intro hne o ho
    exact ho.mono fun g' hg' => iff_of_true hg' fun hno => hne (hletter.2 hno.1).1
  rw [delete, ← hwhat]
  dsimp only
  split
  · next hw =>
      refine hother (by rcases hw with hw | hw <;> rw [hw] <;> decide) (ok ?_)
      split
      · exact ⟨by rintro p ⟨⟩, List.nodup_nil⟩
      · exact ⟨by rintro p ⟨⟩, List.nodup_nil⟩
  split
  · next hw =>
      refine (h.deleteImage_shown hshown _ _ _).mono fun g' hg' => hg'.trans (not_congr ?_)
      rw [FreesShown, ← hletter, and_iff_right hw]
  split
  · next hw =>
      refine hother (by rw [hw]; decide) ((h.deleteImage_shown hshown _ _ _).mono fun g' hg' => hg'.2 ?_)
      exact fun hno => hno.2.1 rfl
  -- the other letters choose placements by where they are
  iterate 6
    split
    · next hw => exact hother (by rw [hw]; decide) (hshown.deletePlacements _ _)
  · next hi _ _ _ _ _ _ _ => exact hother hi (ok hshown)

/-! ### Storing -/

/-- The commands that show an image which is too large by itself. -/
def ShowsOversized (cmd : GraphicsCommand) (bytes : ℕ) : Prop :=
  cmd.action = byte 'T' ∧ cmd.parentImage = 0 ∧ quotaBytes < bytes

theorem Kept.crowdedBy_self (h : g.Kept) {id bytes : ℕ} : g.CrowdedBy id bytes id ↔ quotaBytes < bytes := by
  constructor
  · rintro (⟨-, hover⟩ | ⟨img, himg, hid, -⟩)
    · exact hover
    · exact absurd hid ((Keyed.mem_eraseP h.ids).1 himg).2
  · exact fun hover => .inl ⟨rfl, hover⟩

/-- Room is made for a new image: it stays if it is not too large, and if it is, nothing is shown any more. -/
theorem Good.newImage_shown (h : g.Good) (hshown : g.Shown)
    (hsized : Sized format cmd.width cmd.height data) :
    Gives (enforceQuota ((g.without cmd.id).withImage (g.newImage cmd format data))) fun g' =>
      g'.Shown ∧ (data.length ≤ quotaBytes → cmd.id ∈ g'.images.map (·.id)) ∧
        (quotaBytes < data.length → g'.placements = [] ∧ cmd.id ∉ g'.images.map (·.id)) := by
  obtain ⟨s, hs⟩ : ∃ s, s = (g.without cmd.id).withImage (g.newImage cmd format data) := ⟨_, rfl⟩
  rw [← hs]
  have hkept : s.Kept := by
    rw [hs]
    exact h.kept.withNewImage hsized
  have himages : s.images = g.newImage cmd format data :: (g.without cmd.id).images := by
    rw [hs]
    rfl
  have hcrowded : ∀ id, s.Crowded id ↔ g.CrowdedBy cmd.id data.length id := by
    rw [hs]
    exact h.kept.crowded_newImage cmd format data
  have hids : ∀ id, id ∈ s.images.map (·.id) ↔ id = cmd.id ∨ id ∈ (g.without cmd.id).images.map (·.id) := by
    intro id
    rw [himages, List.map_cons, List.mem_cons]
    exact Iff.rfl
  have hbefore : s.Shown := by
    refine hshown.sub (by rw [hs]; exact List.Sublist.refl _) fun p _ hp => (hids _).2 ?_
    by_cases heq : p.imageId = cmd.id
    · exact .inl heq
    · exact .inr (mem_ids_eraseP hp heq)
  intro g' hg'
  have hafter := hbefore.enforceQuota g' hg'
  have hleft := hkept.evict_ids _ g' hg'
  refine ⟨hafter, fun hsmall => ?_, fun hover => ?_⟩
  · rw [hleft, hcrowded, h.kept.crowdedBy_self]
    exact ⟨(hids _).2 (.inl rfl), Nat.not_lt.2 hsmall⟩
  · -- all images have to go
    have hnone : ∀ id, id ∉ g'.images.map (·.id) := by
      intro id hid
      obtain ⟨hstored, hnot⟩ := (hleft id).1 hid
      rw [hcrowded] at hnot
      rcases (hids id).1 hstored with rfl | hold
      · exact hnot (.inl ⟨rfl, hover⟩)
      · obtain ⟨img, himg, rfl⟩ := List.mem_map.1 hold
        exact hnot (.inr ⟨img, himg, rfl, Nat.lt_add_right _ hover⟩)
    exact ⟨List.eq_nil_iff_forall_not_mem.2 fun p hp => hnone _ (hafter.stored p hp), hnone _⟩

theorem anchor_nil (hparent : cmd.parentImage ≠ 0) (cursor : ℕ × ℕ) : ∃ e, anchor [] cmd cursor = .error e := by
  rw [anchor, if_pos hparent]
  split
  · exact ⟨_, rfl⟩
  · exact ⟨_, rfl⟩

theorem Good.insertImage_shown (h : g.Good) (hshown : g.Shown)
    (hsized : Sized format cmd.width cmd.height data) (cursor : ℕ × ℕ)
    (resp : Option (List UInt8)) :
    Gives ((enforceQuota ((g.without cmd.id).withImage (g.newImage cmd format data))).bind fun g =>
        if cmd.action = byte 'T' then g.addPlacementAnswer cmd cursor resp else .ok (g, resp, none))
      fun r => r.1.Shown ↔ ¬ ShowsOversized cmd data.length := by
  refine (h.newImage_shown hshown hsized).bind fun g' hg' => ?_
  obtain ⟨hafter, hsmall, hlarge⟩ := hg'
  split
  · next hshow =>
      by_cases hover : quotaBytes < data.length
      · obtain ⟨hnil, hgone⟩ := hlarge hover
        by_cases hparent : cmd.parentImage = 0
        · refine (addPlacementAnswer_gives (P := fun g => ¬ g.Shown) ?_ ?_ resp).mono fun r hr =>
            iff_of_false hr fun hno => hno ⟨hshow, hparent, hover⟩
          · refine (g'.addPlacement_gives cmd cursor).mono fun r hr hshown' => ?_
            obtain ⟨p, himage, -, hr⟩ := hr
            rw [hr] at hshown'
            exact hgone (himage ▸ hshown'.stored p (List.mem_append_right _ List.mem_cons_self))
          · rintro ⟨e, he⟩
            rw [addPlacement, anchor, if_neg (not_not.2 hparent)] at he
            cases he
        · refine (addPlacementAnswer_gives (P := Shown) ?_ (fun _ => hafter) resp).mono fun r hr =>
            iff_of_true hr fun hno => hparent hno.2.1
          obtain ⟨e, he⟩ := anchor_nil hparent cursor
          rw [addPlacement, hnil, he]
          exact error e
      · have hstored := hsmall (Nat.not_lt.1 hover)
        exact (addPlacementAnswer_gives (hafter.addPlacement hstored cursor) (fun _ => hafter) resp).mono
          fun r hr => iff_of_true hr fun hno => hover hno.2.2
  · next hshow => exact ok (iff_of_true hafter fun hno => hshow hno.1)

/-- **Storing an image**, and showing it, leaves a placement without an image exactly when the image is shown and is
too large by itself. -/
theorem Good.storeImage_shown (h : g.Good) (hshown : g.Shown) (cmd : GraphicsCommand)
    (hsized : Sized format cmd.width cmd.height data) (hdata : data.length < 2 ^ 63)
    (cursor : ℕ × ℕ) :
    Gives (g.storeImage cmd format data cursor) fun r => r.1.Shown ↔ ¬ ShowsOversized cmd data.length := by
  rw [storeImage]
  refine (g.storedId_stops cmd).gives.bind ?_
  rintro ⟨cmd', g'⟩ ⟨hcmd, n, rfl⟩
  have hnamed := h.withNextId n
  have hshown' : Shown { g with nextId := n } := hshown.congr rfl rfl
  have hsame : ShowsOversized cmd' data.length ↔ ShowsOversized cmd data.length := by
    have hcmd : cmd' = { cmd with id := g.storedId cmd } := hcmd
    rw [hcmd]
    exact Iff.rfl
  have hsized' : Sized format cmd'.width cmd'.height data := by
    have hcmd : cmd' = { cmd with id := g.storedId cmd } := hcmd
    rw [hcmd]
    exact hsized
  rw [← hsame]
  dsimp only
  split
  · next hquery =>
      refine ok (iff_of_true hshown' fun hno => ?_)
      rw [hno.1] at hquery
      exact absurd hquery (by decide)
  · by_cases hseq : g.nextSeq + 1 < 2 ^ 64
    · intro r hr
      rw [hnamed.insertImage_eq cmd' format hdata hseq] at hr
      exact hnamed.insertImage_shown hshown' hsized' cursor _ r hr
    · intro r hr
      have hstops := hnamed.insertImage_stops cmd' hsized' hdata cursor (cmd'.reply "OK")
      cases (hstops.stops (.inl (Nat.not_lt.1 hseq))).symm.trans hr

/-! ### Messages -/

/-- The messages, with all their pieces, that show an image which is too large by itself. -/
def FinishDangles (files : List Char → Option (List UInt8)) (cmd : GraphicsCommand) (payload : List UInt8) : Prop :=
  ∃ r, transfer files cmd payload = .ok r ∧ ShowsOversized r.1 r.2.2.length

theorem Good.finishTransmission_shown (h : g.Good) (hshown : g.Shown) (files : List Char → Option (List UInt8))
    (cmd : GraphicsCommand) {payload : List UInt8} (hpayload : payload.length < 2 ^ 63) (cursor : ℕ × ℕ) :
    Gives (finishTransmission files g cmd payload cursor) fun r => r.1.Shown ↔ ¬ FinishDangles files cmd payload := by
  rw [finishTransmission]
  cases hrun : transfer files cmd payload with
  | error e =>
    refine ok (iff_of_true hshown ?_)
    rintro ⟨r, hr, -⟩
    cases hrun.symm.trans hr
  | outOfRange => exact outOfRange
  | ok r =>
    obtain ⟨-, hsized, hsmall⟩ := (transfer_stops files cmd hpayload).of_ok hrun
    obtain ⟨cmd', format, data⟩ := r
    have hiff : FinishDangles files cmd payload ↔ ShowsOversized cmd' data.length := by
      constructor
      · rintro ⟨r, hr, hno⟩
        cases hrun.symm.trans hr
        exact hno
      · exact fun hno => ⟨_, hrun, hno⟩
    rw [hiff]
    dsimp only
    split
    · next haction =>
        refine (hshown.storeFrame cmd' format data).bind fun r hr => ok (iff_of_true hr fun hno => ?_)
        rw [hno.1] at haction
        exact absurd haction (by decide)
    · exact h.storeImage_shown hshown cmd' hsized hsmall cursor

/-- **The commands that leave a placement without an image**: another piece of a message is no command of its own. -/
def Dangles (files : List Char → Option (List UInt8)) (g : GraphicsState) (cmd : GraphicsCommand)
    (payload : List UInt8) : Prop :=
  match g.pending with
  | some pending => cmd.more ≠ 1 ∧ FinishDangles files pending.cmd (joined pending.payload payload)
  | none =>
    transmits cmd.action = true ∧ cmd.more ≠ 1 ∧ FinishDangles files cmd payload ∨
    cmd.action = byte 'd' ∧ g.FreesShown cmd

/-- The messages that do. -/
def DispatchDangles (files : List Char → Option (List UInt8)) (g : GraphicsState) (data : List UInt8) : Prop :=
  ∃ cmd, parseCommand (splitControl data).1 = some cmd ∧ Dangles files g cmd (splitControl data).2

/-- **A message** that is answered leaves every placement with its image, exactly if it is none of those. -/
theorem Good.dispatch_shown (h : g.Good) (hshown : g.Shown) (files : List Char → Option (List UInt8))
    (hdata : data.length < 2 ^ 63) (cursor : ℕ × ℕ) :
    Gives (dispatch files g data cursor) fun r => r.1.Shown ↔ ¬ DispatchDangles files g data := by
  have hpiece : (splitControl data).2.length < 2 ^ 63 := Nat.lt_of_le_of_lt (length_splitControl data) hdata
  rw [dispatch.eq_def, DispatchDangles]
  dsimp only
  cases hparse : parseCommand (splitControl data).1 with
  | none => exact ok (iff_of_true hshown (by simp))
  | some cmd =>
    generalize (splitControl data).2 = payload at hpiece ⊢
    simp only [Option.some.injEq, exists_eq_left']
    rw [Dangles]
    cases hpending : g.pending with
    | some pending =>
      obtain ⟨-, hlen⟩ := h.kept.pending pending hpending
      dsimp only
      rw [add_eq (by omega), Outcome.bind_ok, joined_pending]
      split
      · next hmore => exact ok (iff_of_true (hshown.congr rfl rfl) fun hno => hno.1 hmore)
      · next hmore =>
          have hnone : Good { g with pending := none } := h.withPending (by rintro p ⟨⟩)
          rw [and_iff_right hmore]
          exact hnone.finishTransmission_shown (hshown.congr rfl rfl) files pending.cmd (length_joined hlen) cursor
    | none =>
      have hother : transmits cmd.action = false → cmd.action ≠ byte 'd' →
          ¬ (transmits cmd.action = true ∧ cmd.more ≠ 1 ∧ FinishDangles files cmd payload ∨
            cmd.action = byte 'd' ∧ g.FreesShown cmd) := by
        rintro hno hd (⟨hyes, -⟩ | ⟨hyes, -⟩)
        · exact absurd (hno.symm.trans hyes) Bool.false_ne_true
        · exact hd hyes
      dsimp only
      split
      · next htransmits =>
          have hd : cmd.action ≠ byte 'd' := by
            intro heq
            rw [heq] at htransmits
            exact absurd htransmits (by decide)
          rw [or_iff_left fun hno => hd hno.1, and_iff_right htransmits]
          split
          · next hmore => exact ok (iff_of_true (hshown.congr rfl rfl) fun hno => hno.1 hmore)
          · next hmore =>
              rw [and_iff_right hmore]
              exact h.finishTransmission_shown hshown files cmd hpiece cursor
      · next htransmits =>
          rw [Bool.not_eq_true] at htransmits
          split
          · next hp =>
              have hd : cmd.action ≠ byte 'd' := by
                rw [hp]
                decide
              exact (hshown.place h.kept cmd cursor).mono fun r hr => iff_of_true hr (hother htransmits hd)
          · split
            · next hd =>
                refine (h.delete_shown hshown cmd cursor).bind fun g' hg' => ok (hg'.trans (not_congr ?_))
                rw [or_iff_right fun hno => absurd (htransmits.symm.trans hno.1) Bool.false_ne_true,
                  and_iff_right hd]
            · next hd =>
                have hno := hother htransmits hd
                split
                · exact ok (iff_of_true (hshown.animate cmd) hno)
                · split
                  · exact (hshown.compose cmd).bind fun r hr => ok (iff_of_true hr hno)
                  · exact ok (iff_of_true hshown hno)

/-! ### Runs -/

theorem Good.step_shown (h : g.Good) (hshown : g.Shown) {call : GraphicsCall} (hstep : g.step call = some g') :
    g'.Shown ↔ ¬ DispatchDangles call.files g call.data := by
  have hgives := h.dispatch_shown hshown call.files call.length_lt call.cursor
  rw [GraphicsState.step] at hstep
  split at hstep
  · next r hr =>
      cases hstep
      exact hgives _ hr
  · cases hstep

/-- Two placements of an image, and its deletion with one of them. -/
def freedCalls : List GraphicsCall :=
  [{ data := "a=T,f=32,s=1,v=1,i=5,p=1;AAAAAA==".toList.map byte, cursor := (0, 0), files := fun _ => none,
     length_lt := by decide },
    { data := "a=p,i=5,p=2;".toList.map byte, cursor := (0, 0), files := fun _ => none, length_lt := by decide },
    { data := "a=d,d=I,i=5,p=1;".toList.map byte, cursor := (0, 0), files := fun _ => none, length_lt := by decide }]

end GraphicsState

end Posh.Term
