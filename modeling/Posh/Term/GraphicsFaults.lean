/-
**The commands that the store cannot answer.**

A client chooses sizes, ids, numbers, offsets and extents, and the store multiplies and adds them before it looks at
them.  Here is for every command whether one of these results does not fit: the bytes of an image, the next id and
the next frame, the cell beside a parent and the end of a placement, and the number of images that were ever stored.
In a run without such a command the store stays consistent, and it is these commands alone that end a run.
-/

import Posh.Lib.Runs
import Posh.Term.GraphicsSteps
import Posh.Term.PngSafe

set_option autoImplicit false

namespace Posh.Term

open ByteCursor Checked
open ByteCursor.Outcome (bind_ok)
open Keyed
open Stops
open Eviction

/-! ### Pixels that are transmitted -/

/-- The messages whose size is too large to be told in bytes. -/
def SizeOverflows (files : List Char → Option (List UInt8)) (cmd : GraphicsCommand) (payload : List UInt8) : Prop :=
  ∃ sent data format, transmitted files cmd payload = .ok sent ∧ decompressed cmd sent = .ok data ∧
    imageFormat cmd = .ok format ∧ format ≠ .png ∧ 2 ^ 64 ≤ cmd.width * cmd.height * format.bytesPerPixel

/-- What a message transmits: as many bytes as its size says. -/
structure Transferred (cmd : GraphicsCommand) (r : GraphicsCommand × ImageFormat × List UInt8) : Prop where
  cmd : ∃ width height, r.1 = { cmd with width, height }
  sized : Sized r.2.1 r.1.width r.1.height r.2.2
  small : r.2.2.length < 2 ^ 63

theorem transmitted_meets (files : List Char → Option (List UInt8)) (cmd : GraphicsCommand) {payload : List UInt8}
    (hpayload : payload.length < 2 ^ 63) :
    (transmitted files cmd payload).Meets fun data => data.length < 2 ^ 63 := by
  rw [transmitted]
  split
  · split
    · next data hdata => exact Nat.lt_of_le_of_lt (Base64.length_decode hdata) hpayload
    · trivial
  · split
    · rw [loadFile]
      split
      · trivial
      · dsimp only
        split
        · trivial
        · split
          · trivial
          · next contents _ =>
              generalize (if cmd.fileSize ≠ 0 then
                (contents.drop (min cmd.fileOffset contents.length)).take cmd.fileSize
                else contents.drop (min cmd.fileOffset contents.length)) = data
              split
              · trivial
              · next hsize => exact Nat.lt_of_le_of_lt (Nat.not_lt.1 hsize) (by decide)
    · split
      · trivial
      · trivial

theorem decompressed_meets (cmd : GraphicsCommand) {data : List UInt8} (hdata : data.length < 2 ^ 63) :
    (decompressed cmd data).Meets fun data => data.length < 2 ^ 63 := by
  rw [decompressed]
  split
  · exact hdata
  · split
    · trivial
    · have hmeets := zlibDecompress_meets data quotaBytes
      split
      · next out hout => exact Nat.lt_of_le_of_lt (hmeets.of_eq_ok hout).1 (by decide)
      · trivial
      · trivial
      · next hout => exact absurd hout hmeets.ne_outOfRange

theorem imageFormat_meets (cmd : GraphicsCommand) : (imageFormat cmd).Meets fun _ => True := by
  rw [imageFormat]
  split
  · trivial
  · split
    · trivial
    · split
      · trivial
      · trivial

theorem pixels_stops (cmd : GraphicsCommand) (format : ImageFormat) {data : List UInt8} (hdata : data.length < 2 ^ 63) :
    Stops (format ≠ .png ∧ 2 ^ 64 ≤ cmd.width * cmd.height * format.bytesPerPixel) (pixels cmd format data)
      fun r => Transferred cmd (r.1, format, r.2) := by
  rw [pixels]
  split
  · next hpng =>
      subst hpng
      have hmeets := Png.decode_meets data
      refine of_not (fun hno => hno.1 rfl) ?_
      split
      · next decoded hdecoded =>
          obtain ⟨hwidth, hheight, hlen, hsmall⟩ := hmeets.of_eq_ok hdecoded
          exact ⟨⟨_, _, rfl⟩, ⟨hwidth, hheight, hlen⟩, Nat.lt_of_le_of_lt hsmall (by decide)⟩
      · trivial
      · next hdecoded => exact absurd hdecoded hmeets.ne_outOfRange
  · next hraw =>
      have hle : cmd.width * cmd.height ≤ cmd.width * cmd.height * format.bytesPerPixel :=
        Nat.le_mul_of_pos_right _ (by cases format <;> decide)
      by_cases hsize : 2 ^ 64 ≤ cmd.width * cmd.height * format.bytesPerPixel
      · refine ⟨fun _ => ?_, fun hno => absurd ⟨hraw, hsize⟩ hno⟩
        by_cases hcount : cmd.width * cmd.height < 2 ^ 64
        · rw [mul_eq hcount, bind_ok, mul, Checked.fits, if_neg (Nat.not_lt.2 hsize)]
          rfl
        · rw [mul, Checked.fits, if_neg hcount]
          rfl
      · refine of_not (fun hno => hsize hno.2) ?_
        rw [mul_eq (by omega), bind_ok, mul_eq (by omega), bind_ok]
        split
        · trivial
        · next hgood =>
            rw [not_or, not_or, not_not] at hgood
            exact ⟨⟨_, _, rfl⟩, ⟨Nat.pos_of_ne_zero hgood.1, Nat.pos_of_ne_zero hgood.2.1, hgood.2.2⟩, hdata⟩

/-- **The pixels of a message**: they are as many as its size says, if its size can be told. -/
theorem transfer_stops (files : List Char → Option (List UInt8)) (cmd : GraphicsCommand) {payload : List UInt8}
    (hpayload : payload.length < 2 ^ 63) :
    Stops (SizeOverflows files cmd payload) (transfer files cmd payload) (Transferred cmd) := by
  have htransfer : Stops _ (transfer files cmd payload) (Transferred cmd) :=
    (of_not not_false (transmitted_meets files cmd hpayload)).bind fun sent _ hsent =>
      (of_not not_false (decompressed_meets cmd hsent)).bind fun data _ hdata =>
        (of_not not_false (imageFormat_meets cmd)).bind fun format _ _ =>
          (pixels_stops cmd format hdata).bind fun r _ hr =>
            (of_not not_false hr : Stops False (.ok (r.1, format, r.2)) (Transferred cmd))
  refine htransfer.congr ?_
  simp only [SizeOverflows, false_or, and_false, exists_false, or_false]
  constructor
  · rintro ⟨sent, data, format, hsent, hdata, hformat, h⟩
    exact ⟨sent, hsent, data, hdata, format, hformat, h⟩
  · rintro ⟨sent, hsent, data, hdata, format, hformat, h⟩
    exact ⟨sent, data, format, hsent, hdata, hformat, h⟩

namespace GraphicsState

variable {g : GraphicsState} {data : List UInt8} {format : ImageFormat} {cmd : GraphicsCommand}

/-! ### Storing an image -/

/-- The id under which an image is stored. -/
def storedId (g : GraphicsState) (cmd : GraphicsCommand) : ℕ := if cmd.id = 0 then g.nextId + 1 else cmd.id

/-- An image that has to go when an image of so many bytes is stored under an id: the new one, if it is too many
bytes by itself, or an old one, if it is too many with all that are not older. -/
def CrowdedBy (g : GraphicsState) (id bytes shown : ℕ) : Prop :=
  shown = id ∧ quotaBytes < bytes ∨ ∃ img ∈ (g.without id).images, img.id = shown ∧
    quotaBytes < bytes + Eviction.since (·.seq) (fun img => g.imageBytes img.id) (g.without id).images img.seq

instance (g : GraphicsState) (id bytes shown : ℕ) : Decidable (g.CrowdedBy id bytes shown) :=
  inferInstanceAs (Decidable (_ ∨ ∃ img ∈ (g.without id).images, _))

/-- The images whose id, whose number among all images ever stored, or whose cell beside a parent does not fit. -/
def StoreOverflows (g : GraphicsState) (cmd : GraphicsCommand) (bytes : ℕ) : Prop :=
  cmd.id = 0 ∧ 2 ^ 32 ≤ g.nextId + 1 ∨ cmd.action ≠ byte 'q' ∧ (2 ^ 64 ≤ g.nextSeq + 1 ∨
    cmd.action = byte 'T' ∧
      AnchorOverflows (g.placements.filter fun p => ¬ g.CrowdedBy (g.storedId cmd) bytes p.imageId)
        { cmd with id := g.storedId cmd })

/-- The store with one more image. -/
def withImage (g : GraphicsState) (img : StoredImage) : GraphicsState :=
  { g with images := img :: g.images, totalBytes := g.totalBytes + img.data.length, nextSeq := g.nextSeq + 1 }

variable {img : StoredImage}

theorem Kept.withImage (h : g.Kept) (hid : img.id ∉ g.images.map (·.id))
    (hsized : Sized img.format img.width img.height img.data) (hseq : img.seq = g.nextSeq + 1) :
    (g.withImage img).Kept where
  images := List.forall_mem_cons.2 ⟨hsized, h.images⟩
  frames := h.frames
  framesOwned := fun e he => List.mem_cons_of_mem _ (h.framesOwned e he)
  animationsOwned := fun e he => List.mem_cons_of_mem _ (h.animationsOwned e he)
  total := by
    have hheld := h.total
    rw [heldBytes] at hheld
    show g.totalBytes + img.data.length = ((img :: g.images).map fun img => img.data.length).sum + _
    rw [List.map_cons, List.sum_cons]
    show _ = img.data.length + _ + (g.frames.map fun e => frameBytes e.2).sum
    omega
  ids := List.nodup_cons.2 ⟨hid, h.ids⟩
  seqs := by
    refine List.nodup_cons.2 ⟨fun hmem => ?_, h.seqs⟩
    obtain ⟨old, hold, heq⟩ := List.mem_map.1 hmem
    have hle := h.seq_le old hold
    have hsame : old.seq = img.seq := heq
    omega
  seq_le := by
    refine List.forall_mem_cons.2 ⟨Nat.le_of_eq hseq, fun old hold => ?_⟩
    exact Nat.le_succ_of_le (h.seq_le old hold)
  frameIds := h.frameIds
  animationIds := h.animationIds
  pending := h.pending

theorem Kept.crowded_withImage (h : g.Kept) (hseq : img.seq = g.nextSeq + 1) (shown : ℕ) :
    ((g.without img.id).withImage img).Crowded shown ↔ g.CrowdedBy img.id img.data.length shown := by
  have hrest : ∀ x ∈ (g.without img.id).images, x.id ≠ img.id := fun x hx => ((mem_eraseP h.ids).1 hx).2
  have hold : ∀ x ∈ (g.without img.id).images, x.seq < img.seq := by
    intro x hx
    have := (h.without img.id).seq_le x hx
    rw [hseq]
    exact Nat.lt_succ_of_le this
  -- the new image has no frames, and the others are as heavy as before
  have hnew : ((g.without img.id).withImage img).imageBytes img.id = img.data.length := by
    have hframes : ((g.without img.id).withImage img).framesOf img.id = [] := by
      show ((lookup Prod.fst (g.frames.eraseP (·.1 == img.id)) img.id).map Prod.snd).getD [] = []
      rw [lookup_eraseP_self h.frameIds]
      rfl
    have himage : ((g.without img.id).withImage img).image img.id = some img := by
      show lookup (·.id) (img :: (g.without img.id).images) img.id = some img
      rw [lookup_cons, if_pos rfl]
    rw [imageBytes, hframes, himage]
    rfl
  have hsame : ∀ x ∈ (g.without img.id).images,
      ((g.without img.id).withImage img).imageBytes x.id = g.imageBytes x.id := by
    intro x hx
    have hback : (g.without img.id).imageBytes x.id = g.imageBytes x.id := imageBytes_without_of_ne (hrest x hx)
    rw [← hback, imageBytes, imageBytes]
    show ((lookup (·.id) (img :: (g.without img.id).images) x.id).map _).getD 0 + _ = _
    rw [lookup_cons, if_neg (hrest x hx).symm]
    rfl
  have hsince : ∀ x ∈ (g.without img.id).images,
      since (·.seq) (fun y => ((g.without img.id).withImage img).imageBytes y.id)
        (img :: (g.without img.id).images) x.seq =
      img.data.length + since (·.seq) (fun y => g.imageBytes y.id) (g.without img.id).images x.seq := by
    intro x hx
    rw [since_cons_of_le (Nat.le_of_lt (hold x hx)), hnew, since_congr hsame]
  have himg : since (·.seq) (fun y => ((g.without img.id).withImage img).imageBytes y.id)
      (img :: (g.without img.id).images) img.seq = img.data.length := by
    rw [since_cons_of_le (Nat.le_refl _), hnew, since_eq_zero hold, Nat.add_zero]
  rw [Crowded, CrowdedBy]
  show (∃ x ∈ img :: (g.without img.id).images, _) ↔ _
  rw [List.exists_mem_cons_iff, Eviction.Crowded]
  refine or_congr ?_ (exists_congr fun x => and_congr_right fun hx => and_congr_right fun _ => ?_)
  · rw [eq_comm]
    exact and_congr_right fun _ => iff_of_eq (congrArg _ himg)
  · exact iff_of_eq (congrArg _ (hsince x hx))

/-- The image that a command stores. -/
def newImage (g : GraphicsState) (cmd : GraphicsCommand) (format : ImageFormat) (data : List UInt8) : StoredImage :=
  { id := cmd.id, number := cmd.number, format, width := cmd.width, height := cmd.height, data, seq := g.nextSeq + 1 }

theorem Kept.withNewImage (h : g.Kept) (hsized : Sized format cmd.width cmd.height data) :
    ((g.without cmd.id).withImage (g.newImage cmd format data)).Kept :=
  (h.without cmd.id).withImage (lookup_eq_none.1 (lookup_eraseP_self h.ids)) hsized rfl

theorem Kept.crowded_newImage (h : g.Kept) (cmd : GraphicsCommand) (format : ImageFormat) (data : List UInt8)
    (shown : ℕ) : ((g.without cmd.id).withImage (g.newImage cmd format data)).Crowded shown ↔
      g.CrowdedBy cmd.id data.length shown := by
  obtain ⟨img, himg⟩ : ∃ img, img = g.newImage cmd format data := ⟨_, rfl⟩
  have hid : img.id = cmd.id := by rw [himg]; rfl
  have hbytes : img.data.length = data.length := by rw [himg]; rfl
  have hseq : img.seq = g.nextSeq + 1 := by rw [himg]; rfl
  rw [← himg, ← hid, ← hbytes]
  exact h.crowded_withImage hseq shown

theorem Good.insertImage_eq (h : g.Good) (cmd : GraphicsCommand) (format : ImageFormat)
    (hdata : data.length < 2 ^ 63) (hseq : g.nextSeq + 1 < 2 ^ 64) {α : Type} (answer : GraphicsState → Storing α) :
    ((g.removeImageData cmd.id).bind fun g =>
      (add Empty 64 g.totalBytes data.length).bind fun totalBytes =>
      (add Empty 64 g.nextSeq 1).bind fun nextSeq =>
      let img : StoredImage :=
        { id := cmd.id, number := cmd.number, format, width := cmd.width, height := cmd.height, data, seq := nextSeq }
      { g with images := img :: g.images.eraseP (·.id == cmd.id), totalBytes, nextSeq }.enforceQuota.bind answer) =
      (enforceQuota ((g.without cmd.id).withImage (g.newImage cmd format data))).bind answer := by
  have hquota := (h.without cmd.id).quota
  rw [quotaBytes] at hquota
  -- no image with the id is left
  have hgone : cmd.id ∉ (g.without cmd.id).images.map (·.id) :=
    lookup_eq_none.1 (lookup_eraseP_self h.kept.ids)
  have hkeep : ∀ x ∈ (g.without cmd.id).images, ¬ (x.id == cmd.id) = true := by
    intro x hx heq
    exact hgone (List.mem_map.2 ⟨x, hx, by simpa using heq⟩)
  have hnext : (add Empty 64 (g.without cmd.id).nextSeq 1 : Storing ℕ) = .ok (g.nextSeq + 1) := add_eq hseq
  rw [h.kept.removeImageData_eq, bind_ok, add_eq (by omega), bind_ok, hnext, bind_ok,
    List.eraseP_of_forall_not hkeep]
  rfl

theorem Good.insertImage_stops (h : g.Good) (cmd : GraphicsCommand)
    (hsized : Sized format cmd.width cmd.height data) (hdata : data.length < 2 ^ 63) (cursor : ℕ × ℕ)
    (resp : Option (List UInt8)) :
    Stops (2 ^ 64 ≤ g.nextSeq + 1 ∨ cmd.action = byte 'T' ∧
        AnchorOverflows (g.placements.filter fun p => ¬ g.CrowdedBy cmd.id data.length p.imageId) cmd)
      ((g.removeImageData cmd.id).bind fun g =>
        (add Empty 64 g.totalBytes data.length).bind fun totalBytes =>
        (add Empty 64 g.nextSeq 1).bind fun nextSeq =>
        let img : StoredImage :=
          { id := cmd.id, number := cmd.number, format, width := cmd.width, height := cmd.height, data, seq := nextSeq }
        { g with images := img :: g.images.eraseP (·.id == cmd.id), totalBytes, nextSeq }.enforceQuota.bind fun g =>
        if cmd.action = byte 'T' then g.addPlacementAnswer cmd cursor resp else .ok (g, resp, none))
      fun r => r.1.Good := by
  by_cases hseq : g.nextSeq + 1 < 2 ^ 64
  · rw [h.insertImage_eq cmd format hdata hseq]
    have hcrowded := h.kept.crowded_newImage cmd format data
    obtain ⟨g', hg', hroomy⟩ := (h.kept.withNewImage hsized).enforceQuota_spec
    rw [hg', bind_ok, or_iff_right (Nat.not_le.2 hseq)]
    split
    · next hshow =>
        refine (hroomy.good.addPlacementAnswer_stops cmd cursor resp).congr ?_
        rw [hroomy.placements, and_iff_right hshow]
        simp only [hcrowded]
        rfl
    · next hshow => exact of_not (fun hno => hshow hno.1) hroomy.good
  · refine ⟨fun _ => ?_, fun hno => absurd (.inl (Nat.not_lt.1 hseq)) hno⟩
    have hquota := (h.without cmd.id).quota
    rw [quotaBytes] at hquota
    have hstuck : (add Empty 64 (g.without cmd.id).nextSeq 1 : Storing ℕ) = .outOfRange := if_neg hseq
    rw [h.kept.removeImageData_eq, bind_ok, add_eq (by omega), bind_ok, hstuck]
    rfl

theorem storedId_stops (g : GraphicsState) (cmd : GraphicsCommand) :
    Stops (cmd.id = 0 ∧ 2 ^ 32 ≤ g.nextId + 1)
      (if cmd.id = 0 then (add Empty 32 g.nextId 1).bind fun id => .ok ({ cmd with id }, { g with nextId := id })
        else .ok (cmd, { g with nextId := max g.nextId cmd.id }) : Storing (GraphicsCommand × GraphicsState))
      fun r => r.1 = { cmd with id := g.storedId cmd } ∧ ∃ n, r.2 = { g with nextId := n } := by
  split
  · next hzero =>
      refine ((Stops.fits (2 ^ 32) (g.nextId + 1)).seq (fun e => e.elim) fun id hid =>
        Stops.of_not not_false ?_).congr ?_
      · rw [storedId, if_pos hzero, hid]
        exact ⟨rfl, _, rfl⟩
      · rw [or_false]
        exact and_iff_right hzero
  · next hzero =>
      refine of_not (fun hno => hzero hno.1) ?_
      rw [storedId, if_neg hzero]
      exact ⟨rfl, _, rfl⟩

theorem Good.withNextId (h : g.Good) (n : ℕ) : Good { g with nextId := n } := ⟨{ h.kept with }, h.quota⟩

/-- **Storing an image** stops where one of its numbers does not fit. -/
theorem Good.storeImage_stops (h : g.Good) (cmd : GraphicsCommand)
    (hsized : Sized format cmd.width cmd.height data) (hdata : data.length < 2 ^ 63) (cursor : ℕ × ℕ) :
    Stops (g.StoreOverflows cmd data.length) (g.storeImage cmd format data cursor) fun r => r.1.Good := by
  rw [storeImage]
  refine (g.storedId_stops cmd).seq (fun e => e.elim) ?_
  rintro ⟨cmd', g'⟩ ⟨rfl, n, rfl⟩
  dsimp only
  split
  · next hquery => exact of_not (fun hno => hno.1 hquery) (h.withNextId n)
  · next hstore =>
      exact ((h.withNextId n).insertImage_stops { cmd with id := g.storedId cmd } hsized hdata cursor _).congr
        (and_iff_right hstore)

/-! ### Messages -/

/-- The messages, with all their pieces, whose numbers do not fit. -/
def FinishOverflows (files : List Char → Option (List UInt8)) (g : GraphicsState) (cmd : GraphicsCommand)
    (payload : List UInt8) : Prop :=
  SizeOverflows files cmd payload ∨ ∃ r, transfer files cmd payload = .ok r ∧
    if r.1.action = byte 'f' then g.NumberOverflows r.1 else g.StoreOverflows r.1 r.2.2.length

theorem Good.finishTransmission_stops (h : g.Good) (files : List Char → Option (List UInt8))
    (hfits : cmd.Fits) {payload : List UInt8} (hpayload : payload.length < 2 ^ 63) (cursor : ℕ × ℕ) :
    Stops (FinishOverflows files g cmd payload) (finishTransmission files g cmd payload cursor) fun r => r.1.Good := by
  have htransfer := transfer_stops files cmd hpayload
  rw [finishTransmission]
  cases hrun : transfer files cmd payload with
  | error e =>
    refine of_not ?_ h
    rintro (hno | ⟨r, hr, -⟩)
    · rw [htransfer.stops hno] at hrun
      cases hrun
    · rw [hrun] at hr
      cases hr
  | outOfRange => exact ⟨fun _ => rfl, fun hno => absurd (.inl (htransfer.iff_outOfRange.1 hrun)) hno⟩
  | ok r =>
    have hsize : ¬ SizeOverflows files cmd payload := by
      intro hno
      rw [htransfer.stops hno] at hrun
      cases hrun
    have hgoes := htransfer.goes hsize
    rw [hrun] at hgoes
    obtain ⟨cmd', format, data⟩ := r
    obtain ⟨⟨width, height, hcmd⟩, hsized, hsmall⟩ := hgoes
    have hfits' : cmd'.Fits := by
      have hsame : cmd' = { cmd with width, height } := hcmd
      rw [hsame]
      exact ⟨hfits.srcX, hfits.cellX⟩
    have hiff : FinishOverflows files g cmd payload ↔
        if cmd'.action = byte 'f' then g.NumberOverflows cmd' else g.StoreOverflows cmd' data.length := by
      rw [FinishOverflows, hrun, or_iff_right hsize]
      constructor
      · rintro ⟨r, hr, hno⟩
        cases hr
        exact hno
      · exact fun hno => ⟨_, rfl, hno⟩
    dsimp only
    split
    · next haction =>
        rw [if_pos haction] at hiff
        exact congr (map (h.storeFrame_stops hfits' hsized hsmall) fun r hr => hr) hiff
    · next haction =>
        rw [if_neg haction] at hiff
        exact (h.storeImage_stops cmd' hsized hsmall cursor).congr hiff

/-- A piece added to a message, if there is room for it. -/
def joined (payload piece : List UInt8) : List UInt8 :=
  if payload.length + piece.length ≤ maxPendingPayload then payload ++ piece else payload

theorem joined_pending (pending : PendingImage) (piece : List UInt8) :
    (if pending.payload.length + piece.length ≤ maxPendingPayload then
      { pending with payload := pending.payload ++ piece } else pending) =
      { pending with payload := joined pending.payload piece } := by
  rw [joined]
  split <;> rfl

/-- The commands that the store cannot answer: another piece of a message is no command of its own. -/
def CommandOverflows (files : List Char → Option (List UInt8)) (g : GraphicsState) (cmd : GraphicsCommand)
    (payload : List UInt8) (cursor : ℕ × ℕ) : Prop :=
  match g.pending with
  | some pending =>
    cmd.more ≠ 1 ∧ FinishOverflows files { g with pending := none } pending.cmd (joined pending.payload payload)
  | none =>
    transmits cmd.action = true ∧ cmd.more ≠ 1 ∧ FinishOverflows files g cmd payload ∨
    cmd.action = byte 'p' ∧ (∃ id, g.resolveId cmd = some id ∧ AnchorOverflows g.placements { cmd with id }) ∨
    cmd.action = byte 'd' ∧ g.DeleteOverflows cmd cursor

/-- **The messages that the store cannot answer.** -/
def DispatchOverflows (files : List Char → Option (List UInt8)) (g : GraphicsState) (data : List UInt8)
    (cursor : ℕ × ℕ) : Prop :=
  ∃ cmd, parseCommand (splitControl data).1 = some cmd ∧ CommandOverflows files g cmd (splitControl data).2 cursor

theorem Good.withPending (h : g.Good) {pending : Option PendingImage}
    (hpending : ∀ p, pending = some p → p.cmd.Fits ∧ p.payload.length < 2 ^ 63) : Good { g with pending } :=
  ⟨{ h.kept with pending := hpending }, h.quota⟩

theorem length_joined {payload piece : List UInt8} (h : payload.length < 2 ^ 63) :
    (joined payload piece).length < 2 ^ 63 := by
  rw [joined]
  split
  · next hle =>
      rw [List.length_append]
      exact Nat.lt_of_le_of_lt hle (by decide)
  · exact h

/-- **A message**: the store answers it, or one of its numbers does not fit. -/
theorem Good.dispatch_stops (h : g.Good) (files : List Char → Option (List UInt8))
    (hdata : data.length < 2 ^ 63) (cursor : ℕ × ℕ) :
    Stops (DispatchOverflows files g data cursor) (dispatch files g data cursor) fun r => r.1.Good := by
  have hpiece : (splitControl data).2.length < 2 ^ 63 := Nat.lt_of_le_of_lt (length_splitControl data) hdata
  rw [dispatch.eq_def, DispatchOverflows]
  dsimp only
  cases hparse : parseCommand (splitControl data).1 with
  | none => exact of_not (by simp) h
  | some cmd =>
    have hfits := fits_parseCommand hparse
    generalize (splitControl data).2 = payload at hpiece ⊢
    simp only [Option.some.injEq, exists_eq_left']
    rw [CommandOverflows]
    cases hpending : g.pending with
    | some pending =>
      obtain ⟨hcmd, hlen⟩ := h.kept.pending pending hpending
      dsimp only
      rw [add_eq (by omega), bind_ok, joined_pending]
      have hlen' : (joined pending.payload payload).length < 2 ^ 63 := length_joined hlen
      split
      · next hmore =>
          refine of_not (fun hno => hno.1 hmore) (h.withPending ?_)
          rintro p ⟨⟩
          exact ⟨hcmd, hlen'⟩
      · next hmore =>
          have hnone : Good { g with pending := none } := h.withPending (by rintro p ⟨⟩)
          exact (hnone.finishTransmission_stops files hcmd hlen' cursor).congr (and_iff_right hmore)
    | none =>
      dsimp only
      split
      · next htransmits =>
          have hp : cmd.action ≠ byte 'p' := by
            intro heq
            rw [heq] at htransmits
            exact absurd htransmits (by decide)
          have hd : cmd.action ≠ byte 'd' := by
            intro heq
            rw [heq] at htransmits
            exact absurd htransmits (by decide)
          split
          · next hmore =>
              refine of_not (by simp [hp, hd, hmore]) (h.withPending ?_)
              rintro p ⟨⟩
              exact ⟨hfits, hpiece⟩
          · next hmore =>
              refine (h.finishTransmission_stops files hfits hpiece cursor).congr ?_
              simp [hp, hd, hmore, htransmits]
      · next htransmits =>
          rw [or_iff_right fun hno => htransmits hno.1]
          split
          · next hp =>
              have hd : byte 'p' ≠ byte 'd' := by decide
              refine (h.place_stops cmd cursor).congr ?_
              simp [hp, hd]
          · next hp =>
              rw [or_iff_right fun hno => hp hno.1]
              split
              · next hd =>
                  exact congr (map (h.delete_stops cmd cursor) fun g' hg' => hg') (and_iff_right hd)
              · next hd =>
                  have hno : ¬ (cmd.action = byte 'd' ∧ g.DeleteOverflows cmd cursor) := fun hno => hd hno.1
                  split
                  · exact of_not hno (h.animate cmd)
                  · split
                    · refine of_not hno ((h.compose_meets hfits).bind fun r hr => hr)
                    · exact of_not hno h

/-! ### Runs -/

end GraphicsState

/-- A message, with the cell of the cursor and the files that it may name. -/
structure GraphicsCall where
  data : List UInt8
  cursor : ℕ × ℕ
  files : List Char → Option (List UInt8)
  /-- as long as a slice can be -/
  length_lt : data.length < 2 ^ 63

namespace GraphicsState

/-- What a message does to the store; none when the program stops. -/
def step (g : GraphicsState) (call : GraphicsCall) : Option GraphicsState :=
  match dispatch call.files g call.data call.cursor with
  | .ok (g, _) => some g
  | _ => none

theorem Good.step_iff {g : GraphicsState} (h : g.Good) (call : GraphicsCall) :
    (∃ g', g.step call = some g') ↔ ¬ DispatchOverflows call.files g call.data call.cursor := by
  have hstops := h.dispatch_stops call.files call.length_lt call.cursor
  rw [step]
  constructor
  · rintro ⟨g', hg'⟩ hno
    rw [hstops.stops hno] at hg'
    cases hg'
  · intro hno
    obtain ⟨r, hr, -⟩ := ok_of_meets (hstops.goes hno)
    rw [hr]
    exact ⟨r.1, rfl⟩

theorem Good.step {g g' : GraphicsState} (h : g.Good) {call : GraphicsCall} (hstep : g.step call = some g') :
    g'.Good := by
  have hstops := h.dispatch_stops call.files call.length_lt call.cursor
  rw [GraphicsState.step] at hstep
  split at hstep
  · next r hr =>
      cases hstep
      have hno : ¬ DispatchOverflows call.files g call.data call.cursor := by
        intro hno
        rw [hstops.stops hno] at hr
        cases hr
      exact (hstops.goes hno).of_eq_ok hr
  · cases hstep

theorem good_empty : Good {} := ⟨kept_empty, Nat.zero_le _⟩

theorem Good.exec_iff (calls : List GraphicsCall) : ∀ {g : GraphicsState}, g.Good →
    ((∃ g', Runs.exec GraphicsState.step g calls = some g' ∧ g'.Good) ↔
      Runs.AllOk (fun g call => ¬ DispatchOverflows call.files g call.data call.cursor) GraphicsState.step g calls) := by
  induction calls with
  | nil => exact fun h => iff_of_true ⟨_, rfl, h⟩ trivial
  | cons call calls ih =>
    intro g h
    rw [Runs.exec_cons]
    cases hstep : g.step call with
    | none =>
      refine iff_of_false (by simp) fun hall => ?_
      obtain ⟨g', hg'⟩ := (h.step_iff call).2 hall.1
      rw [hstep] at hg'
      cases hg'
    | some g' =>
      rw [Runs.allOk_cons_of_step hstep, ← ih (h.step hstep)]
      exact (and_iff_right ((h.step_iff call).1 ⟨g', hstep⟩)).symm

end GraphicsState

end Posh.Term
