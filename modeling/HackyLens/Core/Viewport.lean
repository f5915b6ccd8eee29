import Mathlib.Data.UInt

-- `image_viewport.c`: which part of an image is shown in which part of a destination.

namespace Core

-- `image_viewport_mode_t`
def viewportContain : UInt32 := 0
def viewportCover : UInt32 := 1

-- `image_viewport_t`
structure Viewport where
  srcX : UInt16
  srcY : UInt16
  srcW : UInt16
  srcH : UInt16
  dstX : UInt16
  dstY : UInt16
  dstW : UInt16
  dstH : UInt16
  deriving DecidableEq

-- What is left on the one side of two that are equally large.
def margin (outer inner : UInt16) : UInt16 :=
  ((outer.toUInt32 - inner.toUInt32) / 2).toUInt16

def nonzero (size : UInt32) : UInt16 :=
  (if size ≠ 0 then size else 1).toUInt16

-- `image_viewport_calculate`
def viewportCalculate (srcW srcH dstW dstH : UInt16) (mode : UInt32) : Option Viewport :=
  if srcW = 0 ∨ srcH = 0 ∨ dstW = 0 ∨ dstH = 0 ∨
      (mode ≠ viewportContain ∧ mode ≠ viewportCover) then
    none
  else
    let view : Viewport := ⟨0, 0, srcW, srcH, 0, 0, dstW, dstH⟩
    let sourceIsWider : Prop := srcW.toUInt32 * dstH.toUInt32 > srcH.toUInt32 * dstW.toUInt32
    if mode = viewportCover then
      if sourceIsWider then
        let cropW := nonzero (srcH.toUInt32 * dstW.toUInt32 / dstH.toUInt32)
        some { view with srcW := cropW, srcX := margin srcW cropW }
      else
        let cropH := nonzero (srcW.toUInt32 * dstH.toUInt32 / dstW.toUInt32)
        some { view with srcH := cropH, srcY := margin srcH cropH }
    else if sourceIsWider then
      let fitH := nonzero ((srcH.toUInt32 * dstW.toUInt32 + srcW.toUInt32 / 2) / srcW.toUInt32)
      some { view with dstH := fitH, dstX := margin dstW dstW, dstY := margin dstH fitH }
    else
      let fitW := nonzero ((srcW.toUInt32 * dstH.toUInt32 + srcH.toUInt32 / 2) / srcH.toUInt32)
      some { view with dstW := fitW, dstX := margin dstW fitW, dstY := margin dstH dstH }

end Core
