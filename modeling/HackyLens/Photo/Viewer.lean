import HackyLens.Core.Viewport
import HackyLens.Photo.Decode

-- How `files_view.c` draws an image row by row. The calls of the display succeed, so that what is
-- written to its surface is shown. The numbers are far from where they would wrap around.

namespace Files

open Core

def displayWidth : Nat := 320
def displayHeight : Nat := 240

-- The pixels by their columns and rows.
abbrev Screen := Nat × Nat → UInt16

structure Rect where
  x : Nat
  y : Nat
  width : Nat
  height : Nat

def Rect.Has (r : Rect) (p : Nat × Nat) : Prop :=
  r.x ≤ p.fst ∧ p.fst < r.x + r.width ∧ r.y ≤ p.snd ∧ p.snd < r.y + r.height

instance {r : Rect} {p : Nat × Nat} : Decidable (r.Has p) :=
  inferInstanceAs (Decidable (_ ∧ _))

def clippedRect (x y width height : Nat) : Rect :=
  if x ≥ displayWidth ∨ y ≥ displayHeight then ⟨0, 0, 0, 0⟩
  else ⟨x, y, min width (displayWidth - x), min height (displayHeight - y)⟩

-- `hk_ui_display_fill_rect`
def fillRect (x y width height : Nat) (color : UInt16) (screen : Screen) : Screen :=
  fun p => if (clippedRect x y width height).Has p then color else screen p

def clearImage : Screen → Screen :=
  fillRect 0 0 displayWidth displayHeight 0

-- `image_fit_viewport`
def imageFitViewport (srcW srcH : Nat) : Rect :=
  match viewportCalculate (.ofNat srcW) (.ofNat srcH) (.ofNat displayWidth) (.ofNat displayHeight)
      viewportContain with
  | none      => ⟨0, 0, displayWidth, displayHeight⟩
  | some view => ⟨view.dstX.toNat, view.dstY.toNat, view.dstW.toNat, view.dstH.toNat⟩

end Files
