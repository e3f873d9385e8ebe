/-
**An animation frame is drawn over its bases.**

A frame names the frame that it is drawn over, which names another, down to the image itself.  A client chooses these
names, so a chain of them may reach a frame that is not there, or come back to one that it has passed.  Drawing follows
the chain and remembers what it has passed, which is enough to come to an end.
-/

import Posh.Term.Blending
import Posh.Term.GraphicsFaults

set_option autoImplicit false

namespace Posh.Term

open ByteCursor Checked
open Outcome
open Keyed
open Gives

namespace GraphicsState

variable {g : GraphicsState} {img : StoredImage} {id n : ℕ} {chain : List ImageFrame} {f : ImageFrame}

/-! ### Chains of bases -/

def frame (g : GraphicsState) (id n : ℕ) : Option ImageFrame := (g.framesOf id).find? (·.number == n)

/-- The number of the frame below; below the image, whose number is 0, there is none. -/
def baseOf (g : GraphicsState) (id n : ℕ) : Option ℕ := if n = 0 then none else (g.frame id n).map (·.baseFrame)

/-- **The base chain of a frame**: the number that it comes to after some turns. -/
def walk (g : GraphicsState) (id : ℕ) : ℕ → ℕ → Option ℕ
  | n, 0 => some n
  | n, k + 1 => (g.baseOf id n).bind fun base => g.walk id base k

/-- The frame with a number, or the image if that is 0, is stored. -/
def Present (g : GraphicsState) (id n : ℕ) : Prop := if n = 0 then g.image id ≠ none else g.frame id n ≠ none

/-- A chain that reaches a frame which is not there. -/
def Missing (g : GraphicsState) (id n : ℕ) : Prop := ∃ k m, g.walk id n k = some m ∧ ¬ g.Present id m

/-- A chain that comes back to a frame. -/
def Repeats (g : GraphicsState) (id n : ℕ) : Prop := ∃ i j m, i < j ∧ g.walk id n i = some m ∧ g.walk id n j = some m

/-- **A chain that comes down to the image**, and its frames. -/
inductive Grounded (g : GraphicsState) (id : ℕ) : ℕ → List ImageFrame → Prop where
  | image : Grounded g id 0 []
  | based {n : ℕ} {f : ImageFrame} {chain : List ImageFrame} :
      n ≠ 0 → g.frame id n = some f → Grounded g id f.baseFrame chain → Grounded g id n (f :: chain)

theorem walk_succ (hn : n ≠ 0) (hf : g.frame id n = some f) (k : ℕ) :
    g.walk id n (k + 1) = g.walk id f.baseFrame k := by
  rw [walk, baseOf, if_neg hn, hf]
  rfl

theorem walk_add (i k : ℕ) : ∀ n, g.walk id n (i + k) = (g.walk id n i).bind fun m => g.walk id m k := by
  induction i with
  | zero =>
    intro n
    rw [Nat.zero_add]
    rfl
  | succ i ih =>
    intro n
    rw [Nat.succ_add, walk, walk, Option.bind_assoc]
    exact congrArg _ (funext fun base => ih base)

theorem walk_of_lt {i j : ℕ} (h : g.walk id n i = some 0) (hlt : i < j) : g.walk id n j = none := by
  obtain ⟨k, rfl⟩ := Nat.exists_eq_add_of_lt hlt
  rw [Nat.add_assoc, walk_add, h, Option.bind_some, walk, baseOf, if_pos rfl]
  rfl

theorem Grounded.walk_length (h : g.Grounded id n chain) : g.walk id n chain.length = some 0 := by
  induction h with
  | image => rfl
  | based hn hf _ ih =>
    rw [List.length_cons, walk_succ hn hf]
    exact ih

theorem Grounded.not_missing (h : g.Grounded id n chain) (himg : g.image id ≠ none) : ¬ g.Missing id n := by
  rintro ⟨k, m, hwalk, hgone⟩
  induction h generalizing k with
  | image =>
    cases k with
    | zero =>
      cases hwalk
      exact hgone himg
    | succ k => cases hwalk
  | based hn hf _ ih =>
    cases k with
    | zero =>
      cases hwalk
      refine hgone ?_
      rw [Present, if_neg hn, hf]
      exact Option.some_ne_none _
    | succ k =>
      rw [walk_succ hn hf] at hwalk
      exact ih k hwalk

theorem Grounded.not_repeats (h : g.Grounded id n chain) : ¬ g.Repeats id n := by
  rintro ⟨i, j, m, hlt, hi, hj⟩
  have hend := h.walk_length
  have hle : j ≤ chain.length := by
    by_contra hlt
    rw [walk_of_lt hend (Nat.not_le.1 hlt)] at hj
    cases hj
  -- what follows the second time follows the first
  have hearly : g.walk id n (i + (chain.length - j)) = some 0 := by
    rw [← hend, ← Nat.add_sub_cancel' hle, walk_add, walk_add, hi, hj, Nat.add_sub_cancel' hle]
  rw [walk_of_lt hearly (by omega)] at hend
  cases hend

/-! ### Drawing -/

/-- A frame laid over what is below it. -/
def layFrame (img : StoredImage) (canvas : List UInt8) (f : ImageFrame) : Storing (List UInt8) :=
  (asRgba f.format f.data).bind fun px =>
  composeRect canvas (img.width, img.height) px (f.width, f.height) (0, 0) (f.x, f.y) (f.width, f.height) f.replace

/-- **The frames of a chain laid over each other**, from the image upwards. -/
def drawChain (img : StoredImage) (chain : List ImageFrame) : Storing (List UInt8) :=
  (asRgba img.format img.data).bind fun root => Checked.each (layFrame img) root chain.reverse

theorem drawChain_cons (img : StoredImage) (f : ImageFrame) (chain : List ImageFrame) :
    drawChain img (f :: chain) = (drawChain img chain).bind fun canvas => layFrame img canvas f := by
  rw [drawChain, drawChain, List.reverse_cons]
  cases asRgba img.format img.data with
  | ok root => exact each_concat _ _ _ _
  | error e => rfl
  | outOfRange => rfl

/-- What drawing comes to: nothing, if the chain is not one down to the image or hits a frame that was passed, or the
frames of the chain laid over each other. -/
def Draws (g : GraphicsState) (img : StoredImage) (n : ℕ) (seen : List ℕ) : Option (List UInt8) → Prop
  | none => g.Missing img.id n ∨ g.Repeats img.id n ∨ ∃ k m, g.walk img.id n k = some m ∧ m ∈ seen
  | some canvas => ∃ chain, g.Grounded img.id n chain ∧ drawChain img chain = .ok canvas

theorem Draws.none_over {seen : List ℕ} (hn : n ≠ 0) (hf : g.frame img.id n = some f)
    (h : g.Draws img f.baseFrame (n :: seen) none) : g.Draws img n seen none := by
  rcases h with ⟨k, m, hwalk, hgone⟩ | ⟨i, j, m, hlt, hi, hj⟩ | ⟨k, m, hwalk, hmem⟩
  · exact .inl ⟨k + 1, m, by rw [walk_succ hn hf]; exact hwalk, hgone⟩
  · refine .inr (.inl ⟨i + 1, j + 1, m, Nat.succ_lt_succ hlt, ?_, ?_⟩)
    · rw [walk_succ hn hf]
      exact hi
    · rw [walk_succ hn hf]
      exact hj
  · have hnext : g.walk img.id n (k + 1) = some m := by
      rw [walk_succ hn hf]
      exact hwalk
    rcases List.mem_cons.1 hmem with rfl | hmem
    · exact .inr (.inl ⟨0, k + 1, m, Nat.succ_pos k, rfl, hnext⟩)
    · exact .inr (.inr ⟨k + 1, m, hnext, hmem⟩)

/-- **What drawing comes to**, by the frames that were passed. -/
theorem composeChain_gives (g : GraphicsState) (img : StoredImage) (turns : ℕ) :
    ∀ (n : ℕ) (seen : List ℕ), Gives (g.composeChain img turns n seen) (g.Draws img n seen) := by
  have himage : ∀ seen, Gives ((asRgba img.format img.data).bind fun canvas => .ok (some canvas))
      (g.Draws img 0 seen) := by
    intro seen r hr
    obtain ⟨root, hroot, hok⟩ := bind_eq_ok hr
    cases hok
    refine ⟨[], .image, ?_⟩
    rw [drawChain, hroot]
    rfl
  have hmissing : ∀ {n : ℕ} (seen : List ℕ), n ≠ 0 → g.frame img.id n = none → g.Draws img n seen none := by
    intro n seen hn hnone
    refine .inl ⟨0, n, rfl, ?_⟩
    rw [Present, if_neg hn]
    exact not_not.2 hnone
  induction turns with
  | zero =>
    intro n seen
    rw [composeChain]
    split
    · next hn =>
        subst hn
        exact himage seen
    · next hn =>
        split
        · next hseen => exact ok (.inr (.inr ⟨0, n, rfl, hseen⟩))
        · split
          · next hnone => exact ok (hmissing seen hn hnone)
          · exact outOfRange
  | succ turns ih =>
    intro n seen
    rw [composeChain]
    split
    · next hn =>
        subst hn
        exact himage seen
    · next hn =>
        split
        · next hseen => exact ok (.inr (.inr ⟨0, n, rfl, hseen⟩))
        · split
          · next hnone => exact ok (hmissing seen hn hnone)
          · next f hf =>
              refine (ih f.baseFrame (n :: seen)).bind fun r hr => ?_
              cases r with
              | none => exact ok (Draws.none_over hn hf hr)
              | some canvas =>
                obtain ⟨chain, hchain, hdraw⟩ := hr
                intro r hr
                obtain ⟨px, hpx, hr⟩ := bind_eq_ok hr
                obtain ⟨canvas', hcanvas', hok⟩ := bind_eq_ok hr
                cases hok
                refine ⟨f :: chain, .based hn hf hchain, ?_⟩
                rw [drawChain_cons, hdraw, bind_ok, layFrame, hpx, bind_ok]
                exact hcanvas'

theorem Kept.framesOf_of_none (h : g.Kept) (himg : g.image id = none) : g.framesOf id = [] := by
  rw [framesOf]
  cases hlookup : lookup Prod.fst g.frames id with
  | none => rfl
  | some e =>
    have howned := h.framesOwned e (mem_of_lookup hlookup)
    rw [key_of_lookup hlookup] at howned
    exact absurd howned (lookup_eq_none.1 himg)

/-- **Drawing a frame** comes to an end: with nothing, exactly when the base chain reaches a frame that is not there or
comes back to one, and otherwise with the frames of the chain laid over each other from the image upwards. -/
theorem Good.composedFrame_draws (h : g.Good) (id n : ℕ) :
    ∃ r, g.composedFrame id n = .ok r ∧ (r = none ↔ g.Missing id n ∨ g.Repeats id n) ∧
      ∀ canvas, r = some canvas → ∃ img chain, g.image id = some img ∧ g.Grounded id n chain ∧
        drawChain img chain = .ok canvas := by
  cases himg : g.image id with
  | none =>
    refine ⟨none, by rw [composedFrame, himg], iff_of_true rfl (.inl ⟨0, n, rfl, ?_⟩), fun canvas hno => by cases hno⟩
    rw [Present]
    split
    · exact not_not.2 himg
    · rw [frame, h.kept.framesOf_of_none himg]
      exact not_not.2 rfl
  | some img =>
    have hid : img.id = id := @key_of_lookup _ _ _ (fun img : StoredImage => img.id) _ _ _ himg
    have hsized := h.kept.images img (mem_of_lookup himg)
    obtain ⟨r, hr, -⟩ := ok_of_meets (h.composedFrame_meets himg n)
    have hchain : g.composeChain img (g.framesOf id).length n [] = .ok r := by
      have hrun := hr
      rw [composedFrame, himg] at hrun
      dsimp only at hrun
      rw [if_neg] at hrun
      · exact hrun
      · rintro (hzero | hzero)
        · exact Nat.pos_iff_ne_zero.1 hsized.width_pos hzero
        · exact Nat.pos_iff_ne_zero.1 hsized.height_pos hzero
    have hdraws := g.composeChain_gives img _ n [] r hchain
    have hstored : g.image id ≠ none := by
      rw [himg]
      exact Option.some_ne_none img
    rw [← hid] at hstored ⊢
    refine ⟨r, by rw [hid]; exact hr, ?_, fun canvas hcanvas => ?_⟩
    · cases r with
      | none =>
        refine iff_of_true rfl ?_
        rcases hdraws with hmissing | hrepeats | ⟨k, m, -, hmem⟩
        · exact .inl hmissing
        · exact .inr hrepeats
        · cases hmem
      | some canvas =>
        obtain ⟨chain, hchain, -⟩ := hdraws
        refine iff_of_false (Option.some_ne_none canvas) ?_
        rintro (hmissing | hrepeats)
        · exact hchain.not_missing hstored hmissing
        · exact hchain.not_repeats hrepeats
    · subst hcanvas
      obtain ⟨chain, hchain, hdraw⟩ := hdraws
      exact ⟨img, chain, rfl, hchain, hdraw⟩

/-- **Rectangles and frames are laid over each other exactly.**  Laying a rectangle of one image over another changes
the pixels that both have there, each to the one above it or to the exact blend, rounded down, and no others; and so
drawing a frame of a stored image lays the frames of its base chain over each other, from the image upwards, or comes
to nothing if the chain reaches a frame that is not there or comes back to one. -/
theorem frames_composed :
    (∀ (dst src : List UInt8) (dsize ssize spos dpos size : ℕ × ℕ) (replace : Bool), Canvas dst dsize →
      Canvas src ssize → spos.1 < 2 ^ 32 → dpos.1 < 2 ^ 32 →
      ∃ out, composeRect dst dsize src ssize spos dpos size replace = .ok out ∧
        LaidOver dst dsize src ssize spos dpos size replace out) ∧
    (∀ (calls : List GraphicsCall) (g : GraphicsState), Runs.exec step {} calls = some g → ∀ id n : ℕ,
      ∃ r, g.composedFrame id n = .ok r ∧ (r = none ↔ g.Missing id n ∨ g.Repeats id n) ∧
        ∀ canvas, r = some canvas → ∃ img chain, g.image id = some img ∧ g.Grounded id n chain ∧
          drawChain img chain = .ok canvas) := by
  refine ⟨fun dst src dsize ssize spos dpos size replace hdst hsrc hspos hdpos => ?_, fun calls g hrun id n => ?_⟩
  · exact ok_of_meets (composeRect_laid hdst hsrc hspos hdpos size replace)
  · have hgood : g.Good := Runs.exec_invariant (fun g call g' hg hstep => Good.step hg hstep) good_empty hrun
    exact hgood.composedFrame_draws id n

/-- An image, and a frame that is drawn over it. -/
def chainCalls : List GraphicsCall :=
  [{ data := "a=t,f=32,s=1,v=1,i=5;AAAA/w==".toList.map byte, cursor := (0, 0), files := fun _ => none,
     length_lt := by decide },
    { data := "a=f,f=32,s=1,v=1,i=5;/wAAgA==".toList.map byte, cursor := (0, 0), files := fun _ => none,
      length_lt := by decide }]

/-- Half of a red over black; and a frame that is drawn over its image. -/
theorem frames_composed_red :
    (∃ out, composeRect [0, 0, 0, 255] (1, 1) [255, 0, 0, 128] (1, 1) (0, 0) (0, 0) (1, 1) false = .ok out ∧
      LaidOver [0, 0, 0, 255] (1, 1) [255, 0, 0, 128] (1, 1) (0, 0) (0, 0) (1, 1) false out) ∧
    ∃ g, Runs.exec step {} chainCalls = some g ∧
      ∃ r, g.composedFrame 5 1 = .ok r ∧ (r = none ↔ g.Missing 5 1 ∨ g.Repeats 5 1) ∧
        ∀ canvas, r = some canvas → ∃ img chain, g.image 5 = some img ∧ g.Grounded 5 1 chain ∧
          drawChain img chain = .ok canvas := by
  have hrun : (Runs.exec step {} chainCalls).isSome = true := by decide +kernel
  obtain ⟨g, hg⟩ := Option.isSome_iff_exists.1 hrun
  exact ⟨frames_composed.1 _ _ _ _ _ _ _ _ ⟨by decide, rfl, by decide⟩ ⟨by decide, rfl, by decide⟩ (by decide)
    (by decide), g, hg, frames_composed.2 chainCalls g hg 5 1⟩

end GraphicsState

end Posh.Term
