/-
**The commands of the store, one by one.**

Frames are drawn over each other, numbered and edited; placements are put beside their parents and deleted by the
cells they cover.  Drawing is safe in every store.  A number, a cell beside a parent and the end of a placement are
sums of what clients choose, and for each it is said here where it does not fit.
-/

import Mathlib.Data.List.Perm.Subperm
import Posh.Term.GraphicsKept

set_option autoImplicit false

namespace Posh.Term

open ByteCursor Checked
open Keyed
open Checked
open Stops

theorem Sized.buffer {format : ImageFormat} {width height : ℕ} {data : List UInt8}
    (h : Sized format width height data) (hsmall : data.length ≤ quotaBytes) :
    (asRgba format data).Meets fun px => PixelBuffer px (width, height) := by
  refine (asRgba_meets h.length).mono fun px hpx => ⟨h.width_pos, hpx, ?_⟩
  have hcount : width * height ≤ data.length := by
    rw [h.length]
    exact Nat.le_mul_of_pos_right _ (by cases format <;> decide)
  rw [quotaBytes] at hsmall
  omega

theorem PixelBuffer.sized {px : List UInt8} {width height : ℕ} (h : PixelBuffer px (width, height))
    (hheight : 0 < height) : Sized .rgba width height px :=
  ⟨h.width_pos, hheight, h.length⟩

namespace GraphicsState

variable {g : GraphicsState} {id : ℕ} {fs : List ImageFrame} {img : StoredImage} {cmd : GraphicsCommand}

/-- Everything is kept, and the store is within its quota. -/
structure Good (g : GraphicsState) : Prop where
  kept : g.Kept
  quota : g.totalBytes ≤ quotaBytes

theorem Roomy.good {g' : GraphicsState} (h : Roomy g g') : g'.Good := ⟨h.kept, h.quota⟩

theorem Good.withPlacements (h : g.Good) (ps : List Placement) : Good { g with placements := ps } :=
  ⟨h.kept.withPlacements ps, h.quota⟩

theorem Good.without (h : g.Good) (id : ℕ) : (g.without id).Good :=
  ⟨h.kept.without id, Nat.le_trans (Nat.sub_le _ _) h.quota⟩

theorem Good.removeImageData_meets (h : g.Good) (id : ℕ) : (g.removeImageData id).Meets Good := by
  rw [h.kept.removeImageData_eq]
  exact h.without id

theorem Kept.enforceQuota_meets (h : g.Kept) : g.enforceQuota.Meets Good := by
  obtain ⟨g', hg', hroomy⟩ := h.enforceQuota_spec
  rw [hg']
  exact hroomy.good

theorem Kept.resolveId_stored (h : g.Kept) (hid : g.resolveId cmd = some id) : ∃ img, g.image id = some img := by
  rw [resolveId] at hid
  split at hid
  · obtain ⟨img, himg, rfl⟩ := Option.map_eq_some_iff.1 hid
    exact ⟨img, himg⟩
  · split at hid
    · obtain ⟨img, himg, rfl⟩ := Option.map_eq_some_iff.1 hid
      exact ⟨img, (lookup_eq_some h.ids).2 ⟨List.mem_of_mem_filter (List.argmax_mem himg), rfl⟩⟩
    · cases hid

/-! ### Drawing -/

theorem length_le_frameBytes {f : ImageFrame} (hf : f ∈ fs) : f.data.length ≤ frameBytes fs := by
  have hsum := (List.perm_cons_erase (List.mem_map_of_mem (f := fun f : ImageFrame => f.data.length) hf)).sum_nat
  rw [List.sum_cons] at hsum
  rw [frameBytes, hsum]
  exact Nat.le_add_right _ _

theorem Good.frame_le (h : g.Good) {f : ImageFrame} (hf : f ∈ g.framesOf id) : f.data.length ≤ g.totalBytes := by
  have hbytes : f.data.length ≤ frameBytes (g.framesOf id) := length_le_frameBytes hf
  have himage := h.kept.imageBytes_le id
  rw [imageBytes] at himage
  omega

theorem Good.image_le (h : g.Good) (himg : g.image id = some img) : img.data.length ≤ quotaBytes := by
  have himage := h.kept.imageBytes_le id
  have hquota := h.quota
  rw [imageBytes, himg, Option.map_some, Option.getD_some] at himage
  omega

/-- What drawing a frame comes to: all pixels of the image, or nothing. -/
def Drawn (img : StoredImage) : Option (List UInt8) → Prop
  | none => True
  | some canvas => PixelBuffer canvas (img.width, img.height)

theorem seen_cons {frameNo : ℕ} {seen : List ℕ} {frame : ImageFrame} (hnodup : seen.Nodup)
    (hsub : seen ⊆ fs.map (·.number)) (hnew : frameNo ∉ seen) (hframe : fs.find? (·.number == frameNo) = some frame) :
    (frameNo :: seen).Nodup ∧ (frameNo :: seen) ⊆ fs.map (·.number) ∧ seen.length < fs.length := by
  have hnumber : frameNo ∈ fs.map (·.number) :=
    List.mem_map.2 ⟨frame, List.mem_of_find?_eq_some hframe, by simpa using List.find?_some hframe⟩
  have hnodup' : (frameNo :: seen).Nodup := List.nodup_cons.2 ⟨hnew, hnodup⟩
  have hsub' : (frameNo :: seen) ⊆ fs.map (·.number) := List.cons_subset.2 ⟨hnumber, hsub⟩
  have hlen := (hnodup'.subperm hsub').length_le
  rw [List.length_cons, List.length_map] at hlen
  exact ⟨hnodup', hsub', hlen⟩

/-- **Drawing a frame over its base**: the bases are different frames, so that they come to an end. -/
theorem Good.composeChain_meets (h : g.Good) (himg : g.image id = some img) (turns : ℕ) :
    ∀ {frameNo : ℕ} {seen : List ℕ}, seen.Nodup → seen ⊆ (g.framesOf img.id).map (·.number) →
      (g.framesOf img.id).length ≤ turns + seen.length →
      (g.composeChain img turns frameNo seen).Meets (Drawn img) := by
  have hsized := h.kept.images img (mem_of_lookup himg)
  induction turns with
  | zero =>
    intro frameNo seen hnodup hsub hlen
    rw [composeChain]
    split
    · exact (hsized.buffer (h.image_le himg)).bind fun canvas hcanvas => hcanvas
    · split
      · trivial
      · next hnew =>
          split
          · trivial
          · next frame hframe =>
              obtain ⟨-, -, hmore⟩ := seen_cons hnodup hsub hnew hframe
              omega
  | succ turns ih =>
    intro frameNo seen hnodup hsub hlen
    rw [composeChain]
    split
    · exact (hsized.buffer (h.image_le himg)).bind fun canvas hcanvas => hcanvas
    · split
      · trivial
      · next hnew =>
          split
          · trivial
          · next frame hframe =>
              obtain ⟨hnodup', hsub', -⟩ := seen_cons hnodup hsub hnew hframe
              have hmem := List.mem_of_find?_eq_some hframe
              refine (ih hnodup' hsub' (by rw [List.length_cons]; omega)).bind fun base hdrawn => ?_
              cases base with
              | none => trivial
              | some canvas =>
                have hplaced := h.kept.placed frame hmem
                refine (hplaced.sized.buffer (Nat.le_trans (h.frame_le hmem) h.quota)).bind fun px hpx => ?_
                refine (composeRect_meets hdrawn hpx (by decide) hplaced.x _ _).bind fun canvas' hlen' => ?_
                exact PixelBuffer.of_length hdrawn hlen'

theorem Good.composedFrame_meets (h : g.Good) (himg : g.image id = some img) (frameNo : ℕ) :
    (g.composedFrame id frameNo).Meets (Drawn img) := by
  have hid : img.id = id := @key_of_lookup _ _ _ (fun img : StoredImage => img.id) _ _ _ himg
  rw [composedFrame, himg]
  dsimp only
  split
  · trivial
  · rw [← hid]
    exact h.composeChain_meets himg _ List.nodup_nil (List.nil_subset _) (Nat.le_add_right _ _)

variable {p : ImageFrame → Bool}

theorem frameBytes_updateFirst {old : ImageFrame}
    (hold : fs.find? p = some old) (new : ImageFrame) :
    frameBytes (updateFirst p (fun _ => new) fs) + old.data.length = frameBytes fs + new.data.length :=
  sum_updateFirst (fun f : ImageFrame => f.data.length) hold

theorem placed_updateFirst {new : ImageFrame}
    (hfs : ∀ f ∈ fs, f.Placed) (hnew : new.Placed) : ∀ f ∈ updateFirst p (fun _ => new) fs, f.Placed := by
  intro f hf
  rcases mem_updateFirst hf with hf | ⟨y, -, rfl⟩
  · exact hfs f hf
  · exact hnew

theorem Good.putDrawn (h : g.Good) (himg : g.image id = some img) {canvas : List UInt8}
    (hcanvas : PixelBuffer canvas (img.width, img.height)) {number : ℕ} {old : ImageFrame}
    (hold : (g.framesOf id).find? (·.number == number) = some old) (new : ImageFrame) (hnew : new.Placed)
    (hdata : new.data = canvas) : ∃ rest total, sub (ε := Empty) g.totalBytes old.data.length = .ok rest ∧
      add Empty 64 rest canvas.length = .ok total ∧
      (g.putFrames id (updateFirst (·.number == number) (fun _ => new) (g.framesOf id)) total).Kept := by
  have hle := h.frame_le (List.mem_of_find?_eq_some hold)
  have hquota := h.quota
  have hsmall := hcanvas.small
  have hsum := frameBytes_updateFirst hold new
  rw [quotaBytes] at hquota
  rw [hdata] at hsum
  refine ⟨_, _, sub_eq hle, add_eq (by omega), ?_⟩
  exact h.kept.putFrames (mem_ids_of_image himg) (placed_updateFirst h.kept.placed hnew) (by omega)

/-- **Drawing one frame over another is safe.** -/
theorem Good.compose_meets (h : g.Good) (hfits : cmd.Fits) :
    (g.compose cmd).Meets fun r => r.1.Good := by
  rw [compose]
  split
  · exact h
  · next id hid =>
      obtain ⟨img, himg⟩ := h.kept.resolveId_stored hid
      rw [himg]
      dsimp only
      split
      · exact h
      · next hstored =>
        refine (h.composedFrame_meets himg _).bind fun src hsrc => ?_
        refine (h.composedFrame_meets himg _).bind fun dst hdst => ?_
        cases src with
        | none => exact h
        | some src =>
          cases dst with
          | none => exact h
          | some dst =>
            refine (composeRect_meets hdst hsrc hfits.cellX hfits.srcX _ _).bind fun canvas hlen => ?_
            have hcanvas := PixelBuffer.of_length hdst hlen
            split
            · next hnone =>
                -- the frame was there when it was looked for
                rw [not_or, not_not, List.any_eq_true] at hstored
                obtain ⟨f, hf, hnumber⟩ := hstored.1.2
                exact absurd hnumber (List.find?_eq_none.1 hnone f hf)
            · next old hold =>
                have hheight := (h.kept.images img (mem_of_lookup himg)).height_pos
                obtain ⟨rest, total, hrest, htotal, hkept⟩ := h.putDrawn himg hcanvas hold { old with
                  data := canvas, format := .rgba, x := 0, y := 0, width := img.width, height := img.height,
                  baseFrame := 0, replace := true } ⟨hcanvas.sized hheight, Nat.two_pow_pos 32⟩ rfl
                rw [hrest, Outcome.bind_ok, htotal, Outcome.bind_ok]
                exact hkept.enforceQuota_meets.bind fun g' hg' => hg'

/-! ### Frames -/

/-- The commands for which there is no next number: an image has a frame with the largest number. -/
def NumberOverflows (g : GraphicsState) (cmd : GraphicsCommand) : Prop :=
  cmd.rows = 0 ∧ ∃ id, g.resolveId cmd = some id ∧ ∃ f ∈ g.framesOf id, 2 ^ 32 ≤ f.number + 1

theorem max_overflows : 2 ^ 32 ≤ (fs.map (·.number)).max?.getD 0 + 1 ↔ ∃ f ∈ fs, 2 ^ 32 ≤ f.number + 1 := by
  cases hmax : (fs.map (·.number)).max? with
  | none =>
    rw [List.max?_eq_none_iff, List.map_eq_nil_iff] at hmax
    rw [hmax]
    simp
  | some n =>
    obtain ⟨hmem, hle⟩ := List.max?_eq_some_iff.1 hmax
    rw [Option.getD_some]
    constructor
    · intro h
      obtain ⟨f, hf, rfl⟩ := List.mem_map.1 hmem
      exact ⟨f, hf, h⟩
    · rintro ⟨f, hf, h⟩
      have := hle _ (List.mem_map_of_mem hf)
      omega

/-- **Storing a frame** stops where there is no next number. -/
theorem Good.storeFrame_stops (h : g.Good) (hfits : cmd.Fits) {format : ImageFormat}
    {data : List UInt8} (hsized : Sized format cmd.width cmd.height data) (hdata : data.length < 2 ^ 63) :
    Stops (g.NumberOverflows cmd) (g.storeFrame cmd format data) fun r => r.1.Good := by
  cases hid : g.resolveId cmd with
  | none =>
    rw [storeFrame, hid]
    refine of_not ?_ h
    rintro ⟨-, id, heq, -⟩
    rw [hid] at heq
    cases heq
  | some id =>
    obtain ⟨img, himg⟩ := h.kept.resolveId_stored hid
    have hnumber : Stops (g.NumberOverflows cmd) (frameNumber cmd (g.framesOf id)) fun _ => True := by
      rw [frameNumber]
      split
      · next hrows => exact Stops.of_not (fun hno => hrows hno.1) trivial
      · next hrows =>
          refine ((Stops.fits (2 ^ 32) _).mono fun _ _ => trivial).congr ?_
          rw [max_overflows, NumberOverflows, hid]
          simp only [ne_eq, not_not] at hrows
          simp [hrows]
    rw [storeFrame, hid]
    refine (hnumber.bind fun number _ _ => of_not not_false ?_).congr ?_
    · have hquota := h.quota
      rw [quotaBytes] at hquota
      rw [add_eq (by omega), Outcome.bind_ok]
      have hupdate : ∀ (frame : ImageFrame) {existing : ImageFrame},
          (g.framesOf id).find? (fun f => f.number == number) = some existing → frame.Placed → frame.data = data →
          ((sub (g.totalBytes + data.length) existing.data.length).bind fun total =>
            .ok (g.putFrames id (updateFirst (fun f => f.number == number) (fun _ => frame)
              (g.framesOf id)) total) : Storing GraphicsState).Meets Kept := by
        intro frame existing hexisting hframe hbytes
        have hle := h.frame_le (List.mem_of_find?_eq_some hexisting)
        rw [sub_eq (by omega)]
        refine h.kept.putFrames (mem_ids_of_image himg) (placed_updateFirst h.kept.placed hframe) ?_
        have hsum := frameBytes_updateFirst hexisting frame
        rw [hbytes] at hsum
        omega
      have hadd : ∀ frame : ImageFrame, frame.Placed → frame.data = data →
          (g.putFrames id (g.framesOf id ++ [frame]) (g.totalBytes + data.length)).Kept := by
        intro frame hframe hbytes
        refine h.kept.putFrames (mem_ids_of_image himg) ?_ ?_
        · intro f hf
          rcases List.mem_append.1 hf with hf | hf
          · exact h.kept.placed f hf
          · rw [List.mem_singleton.1 hf]
            exact hframe
        · rw [frameBytes, frameBytes, List.map_append, List.sum_append, List.map_singleton, List.sum_singleton,
            hbytes]
          omega
      refine Outcome.Meets.bind (P := Kept) ?_ fun g' hg' => ?_
      · split
        · next existing hexisting => exact hupdate _ hexisting ⟨hsized, hfits.srcX⟩ rfl
        · exact hadd _ ⟨hsized, hfits.srcX⟩ rfl
      · exact hg'.enforceQuota_meets.bind fun g'' hg'' => hg''
    · simp

theorem Good.animate (h : g.Good) (cmd : GraphicsCommand) : (g.animate cmd).1.Good := by
  rw [GraphicsState.animate]
  split
  · exact h
  · next id hid =>
      obtain ⟨img, himg⟩ := h.kept.resolveId_stored hid
      have hnew : id ∉ (g.animations.eraseP (·.1 == id)).map Prod.fst :=
        lookup_eq_none.1 (lookup_eraseP_self h.kept.animationIds)
      refine ⟨{ h.kept with animationsOwned := ?_, animationIds := ?_ }, h.quota⟩
      · intro e he
        rcases List.mem_cons.1 he with rfl | he
        · exact mem_ids_of_image himg
        · exact h.kept.animationsOwned e (List.mem_of_mem_eraseP he)
      · exact List.nodup_cons.2 ⟨hnew, nodup_eraseP h.kept.animationIds⟩

/-! ### Placements -/

/-- A number that 32 bits with a sign do not hold. -/
def Outside (n : ℤ) : Prop := ¬ (-2 ^ 31 ≤ n ∧ n < 2 ^ 31)

/-- The commands for which the cell beside the parent does not fit. -/
def AnchorOverflows (ps : List Placement) (cmd : GraphicsCommand) : Prop :=
  cmd.parentImage ≠ 0 ∧
    isCycle ps (cmd.id, cmd.placementId) (ps.length + 1) (cmd.parentImage, cmd.parentPlacement) = false ∧
    ∃ parent, findPlacement ps cmd.parentImage cmd.parentPlacement = some parent ∧
      (Outside (parent.row + cmd.vOff) ∨ Outside (parent.col + cmd.hOff))

theorem offsetCell_stops (cell : ℕ) (off : ℤ) :
    Stops (Outside (cell + off)) (offsetCell cell off) fun _ => True := by
  rw [offsetCell]
  by_cases hfits : -2 ^ 31 ≤ cell + off ∧ cell + off < 2 ^ 31
  · rw [fitsSigned_eq hfits.1 hfits.2]
    exact of_not (fun hno => hno hfits) trivial
  · have hout : (fitsSigned 32 (cell + off) : Answering ℤ) = .outOfRange := if_neg hfits
    rw [hout]
    exact ⟨fun _ => rfl, fun hno => absurd hfits hno⟩

theorem offsetCell_ne_error (cell : ℕ) (off : ℤ) : ∀ e, offsetCell cell off ≠ .error e := by
  intro e
  rw [offsetCell, fitsSigned]
  split
  · rintro ⟨⟩
  · rintro ⟨⟩

theorem anchor_stops (ps : List Placement) (cmd : GraphicsCommand) (cursor : ℕ × ℕ) :
    Stops (AnchorOverflows ps cmd) (anchor ps cmd cursor) fun _ => True := by
  rw [anchor]
  split
  · next hparent =>
      split
      · next hcycle =>
          refine of_not (fun hno => ?_) trivial
          rw [hno.2.1] at hcycle
          cases hcycle
      · next hcycle =>
          rw [Bool.not_eq_true] at hcycle
          split
          · next hnone =>
              refine of_not (fun hno => ?_) trivial
              obtain ⟨parent, hsome, -⟩ := hno.2.2
              rw [hnone] at hsome
              cases hsome
          · next parent hsome =>
              have hcells := (offsetCell_stops parent.row cmd.vOff).seq (offsetCell_ne_error _ _) fun row _ =>
                (offsetCell_stops parent.col cmd.hOff).seq (offsetCell_ne_error _ _) fun col _ =>
                  (of_not not_false trivial : Stops False (.ok (row, col) : Answering (ℕ × ℕ)) fun _ => True)
              refine hcells.congr ?_
              rw [or_false, AnchorOverflows, hsome]
              simp only [Option.some.injEq, exists_eq_left']
              exact ⟨fun h => h.2.2, fun h => ⟨hparent, hcycle, h⟩⟩
  · next hparent => exact of_not (fun hno => hparent hno.1) trivial

theorem addPlacement_stops (g : GraphicsState) (cmd : GraphicsCommand) (cursor : ℕ × ℕ) :
    Stops (AnchorOverflows g.placements cmd) (g.addPlacement cmd cursor) fun r =>
      ∃ ps, r.1 = { g with placements := ps } := by
  rw [addPlacement]
  refine ((anchor_stops g.placements cmd cursor).bind fun cell _ _ => of_not not_false ?_).congr (by simp)
  exact ⟨_, rfl⟩

/-- **Showing an image** stops where the cell beside its parent does not fit. -/
theorem Good.addPlacementAnswer_stops (h : g.Good) (cmd : GraphicsCommand) (cursor : ℕ × ℕ)
    (resp : Option (List UInt8)) :
    Stops (AnchorOverflows g.placements cmd) (g.addPlacementAnswer cmd cursor resp) fun r => r.1.Good := by
  have hadd := g.addPlacement_stops cmd cursor
  rw [addPlacementAnswer]
  constructor
  · intro hno
    rw [hadd.stops hno]
  · intro hno
    have hmeets := hadd.goes hno
    cases hrun : g.addPlacement cmd cursor with
    | ok r =>
      rw [hrun] at hmeets
      obtain ⟨ps, hps⟩ := hmeets
      show r.1.Good
      rw [hps]
      exact h.withPlacements ps
    | error e => exact h
    | outOfRange =>
      rw [hrun] at hmeets
      exact hmeets.elim

theorem Good.place_stops (h : g.Good) (cmd : GraphicsCommand) (cursor : ℕ × ℕ) :
    Stops (∃ id, g.resolveId cmd = some id ∧ AnchorOverflows g.placements { cmd with id }) (g.place cmd cursor)
      fun r => r.1.Good := by
  rw [place]
  cases hid : g.resolveId cmd with
  | none => exact of_not (by simp) h
  | some id => exact (h.addPlacementAnswer_stops { cmd with id } cursor _).congr (by simp)

/-! ### Deleting -/

/-- A span whose end does not fit, if it begins at a cell or before. -/
def SpanOverflows (lo len cell : ℕ) : Prop := lo ≤ cell ∧ 2 ^ 32 ≤ lo + len

theorem inSpan_stops (lo len cell : ℕ) :
    Stops (SpanOverflows lo len cell) (inSpan lo len cell) fun hit => hit = true ↔ lo ≤ cell ∧ cell < lo + len := by
  rw [inSpan]
  split
  · next hle =>
      refine ((Stops.fits (2 ^ 32) (lo + len)).seq (fun e => e.elim) fun stop hstop =>
        Stops.of_not not_false ?_).congr ?_
      · rw [hstop]
        show decide (cell < lo + len) = true ↔ _
        rw [decide_eq_true_eq]
        exact ⟨fun hlt => ⟨hle, hlt⟩, fun hin => hin.2⟩
      · rw [or_false]
        exact and_iff_right hle
  · next hle =>
      refine of_not (fun hno => hle hno.1) ?_
      exact iff_of_false Bool.false_ne_true fun hin => hle hin.1

/-- A placement one of whose ends is looked at and does not fit: the lower one for a row it begins at or above, and
the right one for a column it begins at or before, when it covers the row. -/
def CellOverflows (g : GraphicsState) (p : Placement) (row col : ℕ) : Prop :=
  p.unicode = false ∧ (SpanOverflows p.row (g.extent p).2 row ∨
    p.row ≤ row ∧ row < p.row + (g.extent p).2 ∧ SpanOverflows p.col (g.extent p).1 col)

theorem intersects_stops (g : GraphicsState) (p : Placement) (row col : ℕ) :
    Stops (g.CellOverflows p row col) (g.intersects p row col) fun _ => True := by
  rw [intersects]
  split
  · next hunicode =>
      refine of_not (fun hno => ?_) trivial
      rw [hno.1] at hunicode
      cases hunicode
  · next hunicode =>
      rw [Bool.not_eq_true] at hunicode
      have hrows := inSpan_stops p.row (g.extent p).2 row
      have hboth : Stops _ ((inSpan p.row (g.extent p).2 row).bind fun hit =>
          if hit = true then inSpan p.col (g.extent p).1 col else .ok false) fun _ => True :=
        hrows.bind (R := fun hit => hit = true ∧ SpanOverflows p.col (g.extent p).1 col) fun hit _ _ => by
          split
          · next hhit =>
              exact ((inSpan_stops _ _ _).mono fun _ _ => trivial).congr (and_iff_right hhit)
          · next hhit => exact of_not (fun hno => hhit hno.1) trivial
      refine hboth.congr ?_
      rw [CellOverflows, and_iff_right hunicode]
      refine or_congr_right' fun hno => ?_
      obtain ⟨hit, hok, hiff⟩ := ok_of_meets (hrows.goes hno)
      constructor
      · rintro ⟨hlo, hhi, hcols⟩
        exact ⟨hit, hok, hiff.2 ⟨hlo, hhi⟩, hcols⟩
      · rintro ⟨hit', hok', hhit, hcols⟩
        rw [hok] at hok'
        cases hok'
        exact ⟨(hiff.1 hhit).1, (hiff.1 hhit).2, hcols⟩

variable {hits : Placement → Storing Bool} {R : Placement → Prop}

theorem sift_stops (hhits : ∀ p, Stops (R p) (hits p) fun _ => True) (ps : List Placement) :
    Stops (∃ p ∈ ps, R p) (sift hits ps) fun _ => True := by
  induction ps with
  | nil => exact of_not (by simp) trivial
  | cons p ps ih =>
    rw [sift]
    have hrest : ∀ hit : Bool, Stops (∃ q ∈ ps, R q) ((sift hits ps).bind fun r =>
        .ok (if hit then (r.1, p.imageId :: r.2) else (p :: r.1, r.2))) fun _ => True := fun hit =>
      (ih.seq (fun e => e.elim) fun r _ => of_not not_false (by trivial)).congr (by rw [or_false])
    refine ((hhits p).seq (fun e => e.elim) fun hit _ => hrest hit).congr ?_
    rw [List.exists_mem_cons_iff]

theorem Good.deletePlacements_stops (h : g.Good) (free : Bool)
    (hhits : ∀ p, Stops (R p) (hits p) fun _ => True) :
    Stops (∃ p ∈ g.placements, R p) (g.deletePlacements free hits) Good := by
  rw [deletePlacements]
  refine ((sift_stops hhits g.placements).seq (fun e => e.elim) fun r _ => of_not not_false ?_).congr (by simp)
  dsimp only
  split
  · refine each_meets (I := Good) ?_ (h.withPlacements _)
    intro id _ g' hg'
    split
    · exact hg'
    · exact hg'.removeImageData_meets id
  · exact h.withPlacements _

theorem Good.deleteImage_meets (h : g.Good) (free : Bool) (id : Option ℕ) (name : ℕ) :
    (g.deleteImage free id name).Meets Good := by
  rw [deleteImage.eq_def]
  split
  · exact h
  · next id =>
      dsimp only
      split
      · exact (h.withPlacements _).removeImageData_meets id
      · exact h.withPlacements _

/-- What a deletion looks for, as a lowercase letter. -/
def deletes (cmd : GraphicsCommand) : UInt8 := if isUpper cmd.delete then cmd.delete + 0x20 else cmd.delete

/-- The placements of which a deletion cannot tell whether they are meant. -/
def HitOverflows (g : GraphicsState) (cmd : GraphicsCommand) (cursor : ℕ × ℕ) (p : Placement) : Prop :=
  deletes cmd = byte 'c' ∧ g.CellOverflows p cursor.1 cursor.2 ∨
  (deletes cmd = byte 'p' ∨ deletes cmd = byte 'q' ∧ p.z = cmd.z) ∧ 1 ≤ cmd.srcX ∧ 1 ≤ cmd.srcY ∧
    g.CellOverflows p (clampCell (cmd.srcY - 1)) (clampCell (cmd.srcX - 1)) ∨
  deletes cmd = byte 'x' ∧ 1 ≤ cmd.srcX ∧ p.unicode = false ∧
    SpanOverflows p.col (g.extent p).1 (cmd.srcX - 1) ∨
  deletes cmd = byte 'y' ∧ 1 ≤ cmd.srcY ∧ p.unicode = false ∧
    SpanOverflows p.row (g.extent p).2 (cmd.srcY - 1)

/-- The deletions that look at an end of a placement that does not fit. -/
def DeleteOverflows (g : GraphicsState) (cmd : GraphicsCommand) (cursor : ℕ × ℕ) : Prop :=
  ∃ p ∈ g.placements, g.HitOverflows cmd cursor p

theorem coversCell_stops (g : GraphicsState) (x y : ℕ) (p : Placement) :
    Stops (1 ≤ x ∧ 1 ≤ y ∧ g.CellOverflows p (clampCell (y - 1)) (clampCell (x - 1))) (g.coversCell x y p)
      fun _ => True := by
  rw [coversCell]
  split
  · next hpos => exact (g.intersects_stops p _ _).congr (by rw [← and_assoc, and_iff_right hpos])
  · next hpos => exact of_not (fun hno => hpos ⟨hno.1, hno.2.1⟩) trivial

theorem coversLine_stops (unicode : Bool) (lo len key : ℕ) :
    Stops (1 ≤ key ∧ unicode = false ∧ SpanOverflows lo len (key - 1)) (coversLine unicode lo len key)
      fun _ => True := by
  rw [coversLine]
  split
  · next hno =>
      refine of_not ?_ trivial
      rintro ⟨hpos, rfl, -⟩
      rcases hno with hno | hno
      · omega
      · cases hno
  · next hyes =>
      rw [not_or, Nat.not_lt, Bool.not_eq_true] at hyes
      exact ((inSpan_stops _ _ _).mono fun _ _ => trivial).congr (by rw [← and_assoc, and_iff_right hyes])

theorem Good.cleared (h : g.Good) :
    Good { g with placements := [], images := [], frames := [], animations := [], totalBytes := 0 } where
  kept := { kept_empty with seq_le := by rintro img ⟨⟩, pending := h.kept.pending }
  quota := Nat.zero_le _

/-- **Deleting** stops where an end that is looked at does not fit. -/
theorem Good.delete_stops (h : g.Good) (cmd : GraphicsCommand) (cursor : ℕ × ℕ) :
    Stops (g.DeleteOverflows cmd cursor) (g.delete cmd cursor) Good := by
  have hwhat : deletes cmd = if isUpper cmd.delete then cmd.delete + 0x20 else cmd.delete := rfl
  -- what a deletion looks at depends on its letter
  have hnone : (∀ p, ¬ g.HitOverflows cmd cursor p) → ¬ g.DeleteOverflows cmd cursor := by
    rintro hno ⟨p, -, hhit⟩
    exact hno p hhit
  have hits : ∀ {R : Placement → Prop}, (∀ p, g.HitOverflows cmd cursor p ↔ R p) →
      (g.DeleteOverflows cmd cursor ↔ ∃ p ∈ g.placements, R p) :=
    fun hR => exists_congr fun p => and_congr_right fun _ => hR p
  rw [delete, ← hwhat]
  dsimp only
  split
  · next hw =>
      refine of_not (hnone fun p hhit => ?_) ?_
      · rcases hw with hw | hw <;> simp [HitOverflows, hw, byte] at hhit
      · show Good (if isUpper cmd.delete = true then _ else _)
        split
        · exact h.cleared
        · exact h.withPlacements []
  split
  · next hw => exact of_not (hnone fun p => by simp [HitOverflows, hw, byte]) (h.deleteImage_meets _ _ _)
  split
  · next hw => exact of_not (hnone fun p => by simp [HitOverflows, hw, byte]) (h.deleteImage_meets _ _ _)
  split
  · next hw =>
      refine (h.deletePlacements_stops _ fun p => g.intersects_stops p _ _).congr (hits fun p => ?_)
      simp [HitOverflows, hw, byte]
  split
  · next hw =>
      refine (h.deletePlacements_stops _ fun p => g.coversCell_stops _ _ p).congr (hits fun p => ?_)
      simp [HitOverflows, hw, byte]
  split
  · next hw =>
      have hcell : ∀ p : Placement, Stops (p.z = cmd.z ∧ 1 ≤ cmd.srcX ∧ 1 ≤ cmd.srcY ∧
          g.CellOverflows p (clampCell (cmd.srcY - 1)) (clampCell (cmd.srcX - 1)))
          (if p.z = cmd.z then g.coversCell cmd.srcX cmd.srcY p else .ok false) fun _ => True := by
        intro p
        split
        · next hz => exact (g.coversCell_stops _ _ p).congr (and_iff_right hz)
        · next hz => exact of_not (fun hno => hz hno.1) trivial
      refine (h.deletePlacements_stops _ hcell).congr (hits fun p => ?_)
      simp [HitOverflows, hw, byte]
  split
  · next hw =>
      refine (h.deletePlacements_stops _ fun p => coversLine_stops p.unicode _ _ _).congr (hits fun p => ?_)
      simp [HitOverflows, hw, byte]
  split
  · next hw =>
      refine (h.deletePlacements_stops _ fun p => coversLine_stops p.unicode _ _ _).congr (hits fun p => ?_)
      simp [HitOverflows, hw, byte]
  split
  · next hw =>
      have hz : ∀ p : Placement, Stops False (.ok (decide (p.z = cmd.z)) : Storing Bool) fun _ => True :=
        fun p => of_not not_false trivial
      refine (h.deletePlacements_stops _ hz).congr (hits fun p => ?_)
      simp [HitOverflows, hw, byte]
  · next hc hp hq hx hy _ => exact of_not (hnone fun p => by simp [HitOverflows, hc, hp, hq, hx, hy]) h

end GraphicsState

end Posh.Term
