import HackyLens.Core.Viewport

-- `camera_view.c`: how the frames of the camera are shown on the display, and the boxes that are
-- found in them. The `Option` of a function that works on an image is `none` where a place outside
-- of it would be accessed.

namespace CameraView

open Core

-- What is required of the display of a board, none of which is larger than this.
structure Screen where
  width : UInt16
  height : UInt16
  bounded : width ≤ 640 ∧ height ≤ 480

-- `camera_view_frame_t`. The pixels are those of a buffer of the size of the frame, if there is
-- one. The texts are without the zeros at their ends.
structure Frame where
  pixels : Option (List UInt16)
  width : UInt16
  height : UInt16
  rotate : UInt8
  fit : UInt32
  fpsOverlay : UInt8
  lightOverlay : UInt8
  fpsText : List UInt8
  lightText : List UInt8
  full : ∀ p ∈ pixels, p.length = width.toNat * height.toNat

-- `hk_ui_display_surface_t`
structure Surface where
  rgb565 : List UInt8
  width : UInt16
  height : UInt16
  strideBytes : UInt16
  leaseId : UInt32
  size : rgb565.length = strideBytes.toNat * height.toNat
  room : 2 * width.toNat ≤ strideBytes.toNat

-- The coordinates of the source for those of the destination, and the viewport that they are for.
structure Maps where
  x : Nat → UInt16
  y : Nat → UInt16
  viewport : Viewport
  valid : Bool

def Maps.zero : Maps :=
  ⟨fun _ => 0, fun _ => 0, ⟨0, 0, 0, 0, 0, 0, 0, 0⟩, false⟩

variable (screen : Screen)

-- `camera_view_viewport`
def viewport (width height : UInt16) (rotate : UInt8) (fit : UInt32) : Option Viewport :=
  viewportCalculate (if rotate ≠ 0 then height else width) (if rotate ≠ 0 then width else height)
    screen.width screen.height fit

def writePixel (bytes : List UInt8) (i : Nat) (color : UInt16) : Option (List UInt8) :=
  if i + 1 < bytes.length then
    some ((bytes.set i (color >>> 8).toUInt8).set (i + 1) (color &&& 0xFF).toUInt8)
  else
    none

-- Where a row starts in the memory of a surface.
def rowStart (strideBytes : UInt16) (y : UInt32) : Nat :=
  (y * strideBytes.toUInt32).toNat

-- The body of the loops over the places of the viewport. A pixel of the source is at the start of
-- its row and the place in it.
def copyPixel (pixels : List UInt16) (strideBytes dstX dstY : UInt16) (index : Nat → Nat → Nat)
    (y x : Nat) (bytes : List UInt8) : Option (List UInt8) := do
  let color ← pixels[index x y]?
  writePixel bytes
    (rowStart strideBytes (dstY.toUInt32 + .ofNat y) + (dstX.toUInt32 * 2).toNat + 2 * x) color

def copyPixels (pixels : List UInt16) (strideBytes dstX dstY dstW dstH : UInt16)
    (index : Nat → Nat → Nat) (bytes : List UInt8) : Option (List UInt8) :=
  (List.range dstH.toNat).foldlM (fun bytes y =>
    (List.range dstW.toNat).foldlM (fun bytes x =>
      copyPixel pixels strideBytes dstX dstY index y x bytes) bytes) bytes

-- The two steps in the source, which are equal, if `camera_view_compose_direct` does not return 0.
def directStep (frame : Frame) (view : Viewport) : Option UInt32 :=
  if frame.rotate ≠ 0 ∨ view.srcX ≠ 0 ∨ view.srcY ≠ 0 ∨ view.srcW ≠ frame.width ∨
      view.srcH ≠ frame.height ∨ view.dstX ≠ 0 ∨ view.dstY ≠ 0 ∨ view.dstW ≠ screen.width ∨
      view.dstH ≠ screen.height then
    none
  else if frame.width.toUInt32 = view.dstW.toUInt32 * 2 ∧
      frame.height.toUInt32 = view.dstH.toUInt32 * 2 then
    some 2
  else if frame.width = view.dstW ∧ frame.height = view.dstH then
    some 1
  else if frame.width.toUInt32 * 2 = view.dstW.toUInt32 ∧
      frame.height.toUInt32 * 2 = view.dstH.toUInt32 then
    some 0
  else
    none

def stepped (step : UInt32) (i : Nat) : UInt32 :=
  if step ≠ 0 then UInt32.ofNat i * step else UInt32.ofNat i >>> 1

def directIndex (frame : Frame) (step : UInt32) (x y : Nat) : Nat :=
  (stepped step y * frame.width.toUInt32).toNat + (stepped step x).toNat

def mapAxis (old : Nat → UInt16) (src srcSize dstSize : UInt16) (i : Nat) : UInt16 :=
  if i < dstSize.toNat then
    (src.toUInt32 + UInt32.ofNat i * srcSize.toUInt32 / dstSize.toUInt32).toUInt16
  else
    old i

-- `camera_view_prepare_maps`
def prepareMaps (maps : Maps) (view : Viewport) : Maps :=
  if maps.valid ∧ maps.viewport.srcX = view.srcX ∧ maps.viewport.srcY = view.srcY ∧
      maps.viewport.srcW = view.srcW ∧ maps.viewport.srcH = view.srcH ∧
      maps.viewport.dstW = view.dstW ∧ maps.viewport.dstH = view.dstH then
    maps
  else
    { x        := mapAxis maps.x view.srcX view.srcW view.dstW
      y        := mapAxis maps.y view.srcY view.srcH view.dstH
      viewport := view
      valid    := true }

def mappedIndex (frame : Frame) (maps : Maps) (x y : Nat) : Nat :=
  let logicalX := (maps.x x).toUInt32
  let logicalY := (maps.y y).toUInt32
  let srcX := if frame.rotate ≠ 0 then logicalY else logicalX
  let srcY := if frame.rotate ≠ 0 then frame.height.toUInt32 - 1 - logicalX else logicalY
  (srcY * frame.width.toUInt32 + srcX).toNat

def fontW : Nat := 14
def fontH : Nat := 24
def fontRowBytes : Nat := 2
def colorTermGreen : UInt16 := 0x07E0

-- `hk_font_glyph`
variable (glyph : UInt8 → Nat → UInt8)

def fillZero (bytes : List UInt8) (i count : Nat) : Option (List UInt8) :=
  if i + count ≤ bytes.length then
    some (bytes.take i ++ .replicate count 0 ++ bytes.drop (i + count))
  else
    none

def overlayPixel (bits : Nat → UInt8) (surface : Surface) (textY : UInt16) (glyphX y x : Nat)
    (bytes : List UInt8) : Option (List UInt8) :=
  if bits (y * fontRowBytes + x / 8) &&& (0x80 : UInt8) >>> (UInt8.ofNat x &&& 7) ≠ 0 then
    writePixel bytes
      (rowStart surface.strideBytes (textY.toUInt32 + .ofNat y) + (glyphX + x) * 2) colorTermGreen
  else
    some bytes

-- The rows of a character, up to the end of the surface.
def overlayGlyph (bits : Nat → UInt8) (surface : Surface) (textY : UInt16) (glyphX : Nat)
    (bytes : List UInt8) : Option (List UInt8) :=
  (List.range (min fontH (surface.height.toNat - textY.toNat))).foldlM (fun bytes y =>
    (List.range fontW).foldlM (fun bytes x =>
      overlayPixel bits surface textY glyphX y x bytes) bytes) bytes

-- The characters that fit.
def overlayText (surface : Surface) (textX textY : UInt16) (limit : Nat) :
    Nat → List UInt8 → List UInt8 → Option (List UInt8)
  | _, [], bytes            => some bytes
  | index, c :: text, bytes =>
    if textX.toNat + (index + 1) * fontW ≤ limit then do
      let bytes ← overlayGlyph (glyph c) surface textY (textX.toNat + index * fontW) bytes
      overlayText surface textX textY limit (index + 1) text bytes
    else
      some bytes

-- `camera_view_compose_overlay`
def composeOverlay (surface : Surface) (text : List UInt8) (enabled : UInt8)
    (boxX boxY boxW : UInt16) (bytes : List UInt8) : Option (List UInt8) :=
  let boxH : UInt16 := .ofNat fontH + 4
  if enabled = 0 ∨ boxX ≥ surface.width ∨ boxY ≥ surface.height then
    some bytes
  else do
    let clippedW := min boxW.toNat (surface.width.toNat - boxX.toNat)
    let clippedH := min boxH.toNat (surface.height.toNat - boxY.toNat)
    let bytes ← (List.range clippedH).foldlM (fun bytes y =>
      fillZero bytes (rowStart surface.strideBytes (boxY.toUInt32 + .ofNat y) + boxX.toNat * 2)
        (clippedW * 2)) bytes
    overlayText glyph surface (boxX + 4) (boxY + 2) (boxX.toNat + clippedW) 0 text bytes

-- `camera_view_overlay_width`
def overlayWidth (text : List UInt8) : UInt16 :=
  let maxWidth := screen.width / 2 - 4
  let width := UInt32.ofNat text.length * UInt32.ofNat fontW + 8
  if width > maxWidth.toUInt32 then maxWidth else width.toUInt16

-- The image, without the texts over it.
def composeImage (maps : Maps) (frame : Frame) (pixels : List UInt16) (surface : Surface)
    (view : Viewport) (bytes : List UInt8) : Option (List UInt8 × Maps) :=
  match directStep screen frame view with
  | some step => do
    let bytes ← copyPixels pixels surface.strideBytes 0 0 screen.width screen.height
      (directIndex frame step) bytes
    return (bytes, maps)
  | none => do
    let maps := prepareMaps maps view
    let bytes ← copyPixels pixels surface.strideBytes view.dstX view.dstY view.dstW view.dstH
      (mappedIndex frame maps) bytes
    return (bytes, maps)

-- What is left of `camera_view_compose_frame` when there is a viewport in the surface.
def composeViewport (maps : Maps) (frame : Frame) (pixels : List UInt16) (surface : Surface)
    (view : Viewport) : Option (List UInt8 × Maps) := do
  let bytes ← fillZero surface.rgb565 0
    (surface.strideBytes.toUInt32 * surface.height.toUInt32).toNat
  let (bytes, maps) ← composeImage screen maps frame pixels surface view bytes
  let fpsWidth := overlayWidth screen frame.fpsText
  let lightWidth := overlayWidth screen frame.lightText
  let bytes ← composeOverlay glyph surface frame.fpsText frame.fpsOverlay 2 2 fpsWidth bytes
  let bytes ← composeOverlay glyph surface frame.lightText frame.lightOverlay
    (screen.width - lightWidth - 2) 2 lightWidth bytes
  return (bytes, maps)

-- `camera_view_compose_frame`, with the surface that is acquired for it, if there is one. What it
-- returns is what has been drawn.
def composeFrame (maps : Maps) (frame : Frame) (acquired : Option Surface) :
    Option (Option (List UInt8) × Maps) :=
  match frame.pixels, acquired with
  | some pixels, some surface =>
    if frame.width = 0 ∨ frame.height = 0 then
      some (none, maps)
    else
      match viewport screen frame.width frame.height frame.rotate frame.fit with
      | none      => some (none, maps)
      | some view =>
        if view.dstX.toNat + view.dstW.toNat > surface.width.toNat ∨
            view.dstY.toNat + view.dstH.toNat > surface.height.toNat then
          some (none, maps)
        else do
          let (bytes, maps) ← composeViewport screen glyph maps frame pixels surface view
          return (some bytes, maps)
  | _, _ => some (none, maps)

-- `camera_view_rect_t`
structure Rect where
  x : Int16
  y : Int16
  w : Int16
  h : Int16
  deriving DecidableEq

def mappedFirst (first : Int) (src srcSize dst dstSize : UInt16) : Int16 :=
  .ofInt (dst.toUInt32 +
    UInt32.ofNat (first - src.toNat).toNat * dstSize.toUInt32 / srcSize.toUInt32).toNat

def mappedSize (size : Int) (srcSize dstSize : UInt16) : Int16 :=
  .ofInt ((UInt32.ofNat size.toNat * dstSize.toUInt32 + srcSize.toUInt32 - 1) /
    srcSize.toUInt32).toNat

-- `camera_view_map_rect`. Nothing overflows an `int32_t` here.
def mapRect (frame : Frame) (source : Rect) : Option Rect :=
  if frame.width = 0 ∨ frame.height = 0 ∨ source.w ≤ 0 ∨ source.h ≤ 0 then
    none
  else
    let x₀ := max source.x.toInt 0
    let y₀ := max source.y.toInt 0
    let x₁ := min (source.x.toInt + source.w.toInt) frame.width.toNat
    let y₁ := min (source.y.toInt + source.h.toInt) frame.height.toNat
    if x₁ ≤ x₀ ∨ y₁ ≤ y₀ then
      none
    else
      match viewport screen frame.width frame.height frame.rotate frame.fit with
      | none      => none
      | some view =>
        let u₀ := if frame.rotate ≠ 0 then frame.height.toNat - y₁ else x₀
        let u₁ := if frame.rotate ≠ 0 then frame.height.toNat - y₀ else x₁
        let v₀ := if frame.rotate ≠ 0 then x₀ else y₀
        let v₁ := if frame.rotate ≠ 0 then x₁ else y₁
        let u₀ := max u₀ view.srcX.toNat
        let v₀ := max v₀ view.srcY.toNat
        let u₁ := min u₁ (view.srcX.toNat + view.srcW.toNat)
        let v₁ := min v₁ (view.srcY.toNat + view.srcH.toNat)
        if u₁ ≤ u₀ ∨ v₁ ≤ v₀ then
          none
        else
          some {
            x := mappedFirst u₀ view.srcX view.srcW view.dstX view.dstW
            y := mappedFirst v₀ view.srcY view.srcH view.dstY view.dstH
            w := mappedSize (u₁ - u₀) view.srcW view.dstW
            h := mappedSize (v₁ - v₀) view.srcH view.dstH }

end CameraView
