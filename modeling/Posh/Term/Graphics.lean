/-
**The graphics store, as the terminal sees it.**

Images, their animation frames and their placements are kept by a store of its own, which answers the
graphics commands of the stream.  The terminal asks it for a reply and a cursor advance, and its
serialiser reads out what it holds.  Here the store is any type with these operations: nothing below
depends on how it decodes, limits or deletes images.
-/

import Mathlib.Data.Int.Notation
import Mathlib.Data.Nat.Notation

set_option autoImplicit false

namespace Posh.Term

/-- How pixels were transmitted. -/
inductive ImageFormat where
  | rgb
  | rgba
  | png
  deriving DecidableEq, Repr

structure Image where
  id : ℕ
  /-- the client's number for it, 0 if unused -/
  number : ℕ
  format : ImageFormat
  width : ℕ
  height : ℕ
  data : List UInt8
  deriving DecidableEq, Repr

structure ImageFrame where
  number : ℕ
  gapMs : ℤ
  baseFrame : ℕ
  x : ℕ
  y : ℕ
  format : ImageFormat
  width : ℕ
  height : ℕ
  data : List UInt8
  replace : Bool
  deriving DecidableEq, Repr

/-- The play state of an image's animation. -/
structure AnimationState where
  state : ℕ
  loops : ℕ
  currentFrame : ℕ
  deriving DecidableEq, Repr

/-- Where an image is shown. -/
structure Placement where
  imageId : ℕ
  placementId : ℕ
  row : ℕ
  col : ℕ
  srcX : ℕ
  srcY : ℕ
  srcW : ℕ
  srcH : ℕ
  cols : ℕ
  rows : ℕ
  z : ℤ
  parentImage : ℕ
  parentPlacement : ℕ
  hOff : ℤ
  vOff : ℤ
  cellX : ℕ
  cellY : ℕ
  unicode : Bool
  deriving DecidableEq, Repr

/-- A store of images. -/
class GraphicsStore (γ : Type) where
  /-- the empty store -/
  reset : γ
  /-- answers a command given at a cursor cell: the new store, a reply, and how many columns and rows
  the cursor advances -/
  dispatch : γ → List UInt8 → ℕ × ℕ → γ × Option (List UInt8) × Option (ℕ × ℕ)
  /-- the stored images, by id -/
  images : γ → List Image
  /-- the animation frames of an image -/
  frames : γ → ℕ → List ImageFrame
  /-- the play state of an image -/
  animation : γ → ℕ → Option AnimationState
  /-- the placements, oldest first -/
  placements : γ → List Placement

/-- A store that keeps nothing. -/
instance : GraphicsStore Unit where
  reset := ()
  dispatch _ _ _ := ((), none, none)
  images _ := []
  frames _ _ := []
  animation _ _ := none
  placements _ := []

end Posh.Term
