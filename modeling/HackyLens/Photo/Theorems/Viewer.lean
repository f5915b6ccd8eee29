import HackyLens.Core.Theorems.Viewport
import HackyLens.Lib.Layers
import HackyLens.Lib.Scaling
import HackyLens.Photo.Theorems.Decoding
import HackyLens.Photo.Viewer

-- What is seen of an image: each of its rows is a layer, which covers the rows of the screen that
-- it meets.

namespace Files

open Core Scaling

section Viewport

variable {width height : Nat}

-- A rectangle that is not empty, on the screen.
structure Rect.Placed (r : Rect) : Prop where
  width_pos  : 0 < r.width
  height_pos : 0 < r.height
  right      : r.x + r.width ≤ displayWidth
  bottom     : r.y + r.height ≤ displayHeight

theorem imageFitViewport_placed : (imageFitViewport width height).Placed := by
  rw [imageFitViewport]
  split
  case h_1 => exact ⟨by decide, by decide, by decide, by decide⟩
  case h_2 view hv =>
    have h := viewportCalculate_inside hv
    exact ⟨h.dstW_pos, h.dstH_pos, h.dstX_le, h.dstY_le⟩

end Viewport

section Span

variable {span : RowSpan} {screen : Screen} {p : Nat × Nat}

def RowSpan.fit (span : RowSpan) : Rect :=
  imageFitViewport span.srcW span.srcH

def RowSpan.Covers (span : RowSpan) (p : Nat × Nat) : Prop :=
  span.fit.Has p ∧ Meets span.srcH span.fit.height span.srcY (p.snd - span.fit.y)

instance : Decidable (span.Covers p) :=
  inferInstanceAs (Decidable (_ ∧ _ ∧ _))

def RowSpan.color (span : RowSpan) (p : Nat × Nat) : UInt16 :=
  span.pixel (source span.srcW span.fit.width (p.fst - span.fit.x))

-- The rows of the screen that the span is drawn in.
def RowSpan.rows (span : RowSpan) : List Nat :=
  List.range' (span.fit.y + first span.srcH span.fit.height span.srcY)
    (extent span.srcH span.fit.height (span.srcY + 1) - first span.srcH span.fit.height span.srcY)

end Span

section Picture

-- The components of the pixels by their columns and rows.
abbrev Picture := Nat → Nat → UInt8 × UInt8 × UInt8

def Picture.color (picture : Picture) (x y : Nat) : UInt16 :=
  rgb565 (picture x y).1 (picture x y).2.1 (picture x y).2.2

-- A picture in its viewport, which shows some row of it in each row. The rest is black.
def shows (picture : Picture) (width height : Nat) (row : Nat → Nat) (screen : Screen) : Screen :=
  let dst := imageFitViewport width height
  fun p =>
    if dst.Has p then
      picture.color (source width dst.width (p.fst - dst.x)) (row (p.snd - dst.y))
    else clearImage screen p

variable {picture : Picture} {width height : Nat} {ys : List Nat} {spans : List RowSpan}
  {screen : Screen}

end Picture
end Files
