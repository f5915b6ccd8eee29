import HackyLens.Core.Viewport

-- `camera_ai_transform.c`: the image that the AI models see, and the boxes that they find in it.
-- The `Option` of a function that works on an image is `none` where a place outside of it would be
-- accessed.

namespace CameraAi

open Core

def viewport (width height : UInt16) (rotate : UInt8) : Option Viewport :=
  if width ≤ 320 ∧ height ≤ 240 ∧ rotate ≤ 1 then
    viewportCalculate (if rotate ≠ 0 then height else width) (if rotate ≠ 0 then width else height)
      width height viewportContain
  else
    none

-- The elements of `columns` and of `rows`.
def column (view : Viewport) (x : UInt16) : UInt16 :=
  (x.toUInt32 * view.srcW.toUInt32 / view.dstW.toUInt32).toUInt16

def row (view : Viewport) (y : UInt16) : UInt16 :=
  (y.toUInt32 * view.srcH.toUInt32 / view.dstH.toUInt32).toUInt16

def sourceIndex (view : Viewport) (width height : UInt16) (rotate : UInt8) (x y : UInt16) :
    UInt32 :=
  if rotate ≠ 0 then
    (height.toUInt32 - 1 - (column view x).toUInt32) * width.toUInt32 + (row view y).toUInt32
  else
    (row view y).toUInt32 * width.toUInt32 + (column view x).toUInt32

def targetIndex (view : Viewport) (width : UInt16) (x y : UInt16) : UInt32 :=
  (y.toUInt32 + view.dstY.toUInt32) * width.toUInt32 + x.toUInt32 + view.dstX.toUInt32

def red (pixel : UInt16) : UInt8 :=
  let r := (pixel >>> 11 &&& 31).toUInt8
  r <<< 3 ||| r >>> 2

def green (pixel : UInt16) : UInt8 :=
  let g := (pixel >>> 5 &&& 63).toUInt8
  g <<< 2 ||| g >>> 4

def blue (pixel : UInt16) : UInt8 :=
  let b := (pixel &&& 31).toUInt8
  b <<< 3 ||| b >>> 2

def store (planar : List UInt8) (i : UInt32) (value : UInt8) : Option (List UInt8) :=
  if i.toNat < planar.length then some (planar.set i.toNat value) else none

def clear (planar : List UInt8) (count : UInt32) : Option (List UInt8) :=
  if count.toNat ≤ planar.length then
    some (.replicate count.toNat 0 ++ planar.drop count.toNat)
  else
    none

-- The body of the inner loop.
def transformPixel (source : List UInt16) (view : Viewport) (width height : UInt16) (rotate : UInt8)
    (y x : Nat) (planar : List UInt8) : Option (List UInt8) := do
  let plane := width.toUInt32 * height.toUInt32
  let pixel ← source[(sourceIndex view width height rotate (.ofNat x) (.ofNat y)).toNat]?
  let target := targetIndex view width (.ofNat x) (.ofNat y)
  let planar ← store planar target (red pixel)
  let planar ← store planar (plane + target) (green pixel)
  store planar (plane * 2 + target) (blue pixel)

def transformRow (source : List UInt16) (view : Viewport) (width height : UInt16) (rotate : UInt8)
    (y : Nat) (planar : List UInt8) : Option (List UInt8) :=
  (List.range view.dstW.toNat).foldlM
    (fun planar x => transformPixel source view width height rotate y x planar) planar

-- `camera_ai_transform_rgb565`
def transformRgb565 (source : List UInt16) (width height : UInt16) (rotate : UInt8)
    (planar : List UInt8) : Option (Bool × List UInt8) :=
  match viewport width height rotate with
  | none      => return (false, planar)
  | some view => do
    let planar ← clear planar (width.toUInt32 * height.toUInt32 * 3)
    let planar ← (List.range view.dstH.toNat).foldlM
      (fun planar y => transformRow source view width height rotate y planar) planar
    return (true, planar)

structure Box where
  x : Int16
  y : Int16
  w : Int16
  h : Int16
  deriving DecidableEq

-- The two ends of a part of the destination, in the source.
def sourceFirst (first : Int) (dst : UInt16) (src size : UInt16) : UInt16 :=
  (UInt32.ofNat (first - dst.toNat).toNat * src.toUInt32 / size.toUInt32).toUInt16

def sourceEnd (last : Int) (dst : UInt16) (src size : UInt16) : UInt16 :=
  ((UInt32.ofNat (last - dst.toNat).toNat * src.toUInt32 + size.toUInt32 - 1) /
    size.toUInt32).toUInt16

-- `camera_ai_transform_rect`, with what has become of the box. Nothing overflows an `int` here.
def transformRect (width height : UInt16) (rotate : UInt8) (box : Box) : Bool × Box :=
  if box.w ≤ 0 ∨ box.h ≤ 0 then
    (false, box)
  else
    match viewport width height rotate with
    | none      => (false, box)
    | some view =>
      let x₀ := max box.x.toInt view.dstX.toNat
      let y₀ := max box.y.toInt view.dstY.toNat
      let x₁ := min (box.x.toInt + box.w.toInt) (view.dstX.toNat + view.dstW.toNat)
      let y₁ := min (box.y.toInt + box.h.toInt) (view.dstY.toNat + view.dstH.toNat)
      if x₁ ≤ x₀ ∨ y₁ ≤ y₀ then
        (false, box)
      else
        let u₀ := (sourceFirst x₀ view.dstX view.srcW view.dstW).toNat
        let v₀ := (sourceFirst y₀ view.dstY view.srcH view.dstH).toNat
        let u₁ := (sourceEnd x₁ view.dstX view.srcW view.dstW).toNat
        let v₁ := (sourceEnd y₁ view.dstY view.srcH view.dstH).toNat
        let box : Box := {
          x := .ofInt (if rotate ≠ 0 then v₀ else u₀)
          y := .ofInt (if rotate ≠ 0 then height.toNat - u₁ else v₀)
          w := .ofInt (if rotate ≠ 0 then v₁ - v₀ else u₁ - u₀)
          h := .ofInt (if rotate ≠ 0 then u₁ - u₀ else v₁ - v₀) }
        (box.w > 0 ∧ box.h > 0, box)

end CameraAi
