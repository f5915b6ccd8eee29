import HackyLens.Photo.Gif
import HackyLens.Photo.Viewer

-- How `files_view.c` shows an animation: its frames are drawn one after the other into the display's
-- surface, which keeps what has been drawn. The numbers are far from where they would wrap around.

namespace Animation

open Files
open Gif (Frame)

-- The static variables. `backup` is what `g_animation_backup` points to, and `borrowed` tells that
-- `g_animation_workspace` has a generation.
structure View where
  surface : Screen
  previousFrame : Frame
  currentFrame : Frame
  canvasW : Nat
  canvasH : Nat
  view : Rect
  background : UInt16
  sourceX : Nat → Nat
  sourceY : Nat → Nat
  backup : Option Screen
  borrowed : Bool
  frameOpen : Bool
  resetPending : Bool
  previousValid : Bool
  backupValid : Bool

def noFrame : Frame :=
  ⟨0, 0, 0, 0, 0, 0, 0, 0, 0, 0⟩

def View.boot (surface : Screen) : View where
  surface       := surface
  previousFrame := noFrame
  currentFrame  := noFrame
  canvasW       := 0
  canvasH       := 0
  view          := ⟨0, 0, 0, 0⟩
  background    := 0
  sourceX _     := 0
  sourceY _     := 0
  backup        := none
  borrowed      := false
  frameOpen     := false
  resetPending  := false
  previousValid := false
  backupValid   := false

-- `files_view_surface_pixel`
def surfacePixel (x y : Nat) (color : UInt16) (surface : Screen) : Screen :=
  if x ≥ displayWidth ∨ y ≥ displayHeight then surface
  else Function.update surface (x, y) color

-- The loops over the rows and columns of the viewport, which draw the pixels that have a colour.
def drawPixel (view : Rect) (x y : Nat) (surface : Screen) : Option UInt16 → Screen
  | none       => surface
  | some color => surfacePixel (view.x + x) (view.y + y) color surface

def drawRow (view : Rect) (y : Nat) (color : Nat → Option UInt16) (surface : Screen) : Screen :=
  (List.range view.width).foldl (fun surface x => drawPixel view x y surface (color x)) surface

def drawRows (view : Rect) (color : Nat → Nat → Option UInt16) (surface : Screen) : Screen :=
  (List.range view.height).foldl (fun surface y => drawRow view y (color · y) surface) surface

-- What the display answers: the workspace that it has been lent, with what it holds, whether there
-- is a surface, and whether it is presented.
structure Answer where
  workspace : Option Screen
  acquired : Bool
  presented : Bool

namespace View

variable (v : View)

def sourceInside (dstX dstY srcX srcY srcW srcH : Nat) : Bool :=
  srcX ≤ v.sourceX dstX && v.sourceX dstX < srcX + srcW &&
    srcY ≤ v.sourceY dstY && v.sourceY dstY < srcY + srcH

def fillLogicalRect (srcX srcY srcW srcH : Nat) (color : UInt16) : View :=
  { v with
    surface := drawRows v.view (fun x y =>
      if v.sourceInside x y srcX srcY srcW srcH then some color else none) v.surface }

def resetAnimationSurface : View :=
  let v := { v with surface := fun _ => 0 }
  let v := v.fillLogicalRect 0 0 v.canvasW v.canvasH v.background
  { v with resetPending := false, previousValid := false, backupValid := false }

def applyPreviousDisposal : View :=
  if !v.previousValid then
    v
  else if v.previousFrame.disposal = 2 then
    v.fillLogicalRect v.previousFrame.frameX v.previousFrame.frameY v.previousFrame.frameW
      v.previousFrame.frameH v.background
  else if v.previousFrame.disposal = 3 ∧ v.backupValid then
    match v.backup with
    | none        => v
    | some backup => { v with surface := backup }
  else
    v

-- `files_view_animation_begin_impl`. Whoever had the workspace before gives it back first.
def begin (answer : Answer) (canvasW canvasH : Nat) (backgroundRgb565 : UInt16) : Bool × View :=
  if canvasW = 0 ∨ canvasH = 0 then
    (false, v)
  else
    let view := imageFitViewport canvasW canvasH
    let v := { v with
      frameOpen  := false
      canvasW, canvasH, view
      background := backgroundRgb565
      sourceX    := fun x => if x < view.width then x * canvasW / view.width else v.sourceX x
      sourceY    := fun y => if y < view.height then y * canvasH / view.height else v.sourceY y
      borrowed   := answer.workspace.isSome }
    match answer.workspace with
    | none           => (false, v)
    | some workspace =>
      (true, { v with
        backup        := some workspace
        resetPending  := true
        previousValid := false
        backupValid   := false })

-- `files_view_animation_frame_begin_impl`. A backup that is NULL is not written to.
def frameBegin (answer : Answer) (frame : Frame) : Bool × View :=
  if frame.canvasW ≠ v.canvasW ∨ frame.canvasH ≠ v.canvasH ∨ v.frameOpen ∨ !answer.acquired then
    (false, v)
  else
    let v := { v with frameOpen := true }
    let v := if v.resetPending then v.resetAnimationSurface else v.applyPreviousDisposal
    let v := { v with currentFrame := frame }
    if frame.disposal = 3 then
      (true, { v with backup := v.backup.map fun _ => v.surface, backupValid := true })
    else
      (true, { v with backupValid := false })

-- The colour of a pixel of a row, unless the row leaves it as it is.
def rowColor (frame : Frame) (indices : List UInt8) (palette : Nat → UInt16) (paletteSize : Nat)
    (x : Nat) : Option UInt16 :=
  let sourceX := v.sourceX x
  if sourceX < frame.frameX ∨ sourceX ≥ frame.frameX + frame.frameW then
    none
  else
    let index := indices.getD (sourceX - frame.frameX) 0
    if index.toNat ≥ paletteSize ∨ (index.toNat : Int) = frame.transparentIndex then
      none
    else
      some (palette index.toNat)

def renderIndexedRow (frame : Frame) (frameRow : Nat) (indices : List UInt8)
    (palette : Nat → UInt16) (paletteSize : Nat) : View :=
  if !v.frameOpen ∨ frameRow ≥ frame.frameH then
    v
  else
    { v with
      surface := drawRows v.view (fun x y =>
        if v.sourceY y ≠ frame.frameY + frameRow then none
        else v.rowColor frame indices palette paletteSize x) v.surface }

def frameEnd (answer : Answer) : Bool × View :=
  if !v.frameOpen then
    (false, v)
  else
    (answer.presented, { v with
      frameOpen     := false
      previousFrame := v.currentFrame
      previousValid := true })

-- `files_view_animation_end_impl`
def «end» : View :=
  { v with
    previousFrame := noFrame
    currentFrame  := noFrame
    frameOpen     := false
    resetPending  := false
    previousValid := false
    backupValid   := false
    backup        := none
    borrowed      := false }

end View

-- The page, with the pictures that have been presented, the latest last.
structure Page where
  view : View
  presented : List Screen

-- The sink of the files page, on a volume that is not written to. Nobody else draws meanwhile.
def sink (volume : Fat32.Volume) : Prog.Handler Gif.Call Gif.Call.Reply Page Answer
  | _, .readBlock lba, page => (volume.readBlock lba, page)
  | answer, .animationBegin canvasW canvasH backgroundRgb565, page =>
    let (ok, view) := page.view.begin answer canvasW canvasH backgroundRgb565
    (ok, { page with view })
  | answer, .frameBegin frame, page =>
    let (ok, view) := page.view.frameBegin answer frame
    (ok, { page with view })
  | _, .renderIndexedRow frame frameRow indices palette paletteSize, page =>
    ((), { page with
      view := page.view.renderIndexedRow frame frameRow indices palette paletteSize })
  | answer, .frameEnd, page =>
    let (ok, view) := page.view.frameEnd answer
    (ok, ⟨view, if ok then page.presented ++ [view.surface] else page.presented⟩)
  | _, .animationEnd, page => ((), { page with view := page.view.end })
  | _, .outOfRange, page => ((), page)

end Animation
