import HackyLens.Camera.View
import HackyLens.Camera.Theorems.AiTransform

-- The quick ways to show a frame lead to what the viewport says.

namespace CameraView

open Core
open CameraAi (foldlM_range scaled_lt place_inj)

-- A coordinate of the turned source for one of the viewport.
def logical (src srcSize dstSize : UInt16) (i : Nat) : Nat :=
  src.toNat + i * srcSize.toNat / dstSize.toNat

-- The pixel of the source for a place in the viewport.
def sourceX (frame : Frame) (view : Viewport) (x y : Nat) : Nat :=
  if frame.rotate ≠ 0 then
    logical view.srcY view.srcH view.dstH y
  else
    logical view.srcX view.srcW view.dstW x

def sourceY (frame : Frame) (view : Viewport) (x y : Nat) : Nat :=
  if frame.rotate ≠ 0 then
    frame.height.toNat - 1 - logical view.srcX view.srcW view.dstW x
  else
    logical view.srcY view.srcH view.dstH y

variable {screen : Screen} {frame : Frame} {view : Viewport} {maps : Maps} {x y : Nat}

structure Shown (screen : Screen) (frame : Frame) (view : Viewport) : Prop where
  inside : view.Inside (if frame.rotate ≠ 0 then frame.height else frame.width)
    (if frame.rotate ≠ 0 then frame.width else frame.height) screen.width screen.height

theorem shown (h : viewport screen frame.width frame.height frame.rotate frame.fit = some view) :
    Shown screen frame view :=
  ⟨viewportCalculate_inside h⟩

theorem logical_lt {src srcSize dstSize : UInt16} {i size : Nat} (hi : i < dstSize.toNat)
    (hs : 0 < srcSize.toNat) (h : src.toNat + srcSize.toNat ≤ size) :
    logical src srcSize dstSize i < size := by
  have hlt := scaled_lt hi hs
  rw [logical]
  omega

theorem source_lt (h : Shown screen frame view) (hx : x < view.dstW.toNat)
    (hy : y < view.dstH.toNat) :
    sourceX frame view x y < frame.width.toNat ∧ sourceY frame view x y < frame.height.toNat := by
  have hlx := logical_lt hx h.inside.srcW_pos h.inside.srcX_le
  have hly := logical_lt hy h.inside.srcH_pos h.inside.srcY_le
  rw [sourceX, sourceY]
  split
  case isTrue hr  =>
    rw [if_pos hr] at hlx hly
    exact ⟨hly, by omega⟩
  case isFalse hr =>
    rw [if_neg hr] at hlx hly
    exact ⟨hlx, hly⟩

theorem ofNat_toNat {i : Nat} {bound : UInt16} (h : i < bound.toNat) : (UInt32.ofNat i).toNat = i :=
  UInt32.toNat_ofNat_of_lt' (show i < 4294967296 by have := bound.toNat_lt; omega)

-- The place of a row in a buffer does not overflow.
theorem rowIndex_toNat {row width : UInt32} (hr : row.toNat < 65536) (hw : width.toNat < 65536) :
    (row * width).toNat = row.toNat * width.toNat := by
  have hmul : row.toNat * width.toNat ≤ 65535 * 65535 := Nat.mul_le_mul (by omega) (by omega)
  rw [UInt32.toNat_mul]
  exact Nat.mod_eq_of_lt (by omega)

theorem pixelIndex_toNat {row column width : UInt32} (hr : row.toNat < 65536)
    (hw : width.toNat < 65536) (hc : column.toNat < width.toNat) :
    (row * width + column).toNat = row.toNat * width.toNat + column.toNat := by
  have hmul : row.toNat * width.toNat ≤ 65535 * 65535 := Nat.mul_le_mul (by omega) (by omega)
  rw [UInt32.toNat_add, rowIndex_toNat hr hw]
  exact Nat.mod_eq_of_lt (by omega)

theorem rowStart_eq {strideBytes base : UInt16} {row : Nat} (h : base.toNat + row < 65536) :
    rowStart strideBytes (base.toUInt32 + UInt32.ofNat row) =
      (base.toNat + row) * strideBytes.toNat := by
  have hrow : (base.toUInt32 + UInt32.ofNat row).toNat = base.toNat + row := by
    rw [UInt32.toNat_add, UInt16.toNat_toUInt32,
      UInt32.toNat_ofNat_of_lt' (show row < 4294967296 by omega)]
    exact Nat.mod_eq_of_lt (by omega)
  rw [rowStart, rowIndex_toNat (by rw [hrow]; exact h)
    (by rw [UInt16.toNat_toUInt32]; exact strideBytes.toNat_lt), hrow, UInt16.toNat_toUInt32]

theorem mapAxis_toNat {old : Nat → UInt16} {src srcSize dstSize : UInt16} {i : Nat} {size : UInt16}
    (hi : i < dstSize.toNat) (hs : 0 < srcSize.toNat) (h : src.toNat + srcSize.toNat ≤ size.toNat) :
    (mapAxis old src srcSize dstSize i).toNat = logical src srcSize dstSize i := by
  have hlt := logical_lt hi hs h
  have hsize := size.toNat_lt
  have hmul : i * srcSize.toNat < 4294967296 := by
    have hd := dstSize.toNat_lt
    have hl := srcSize.toNat_lt
    have hle : i * srcSize.toNat ≤ 65535 * 65535 := Nat.mul_le_mul (by omega) (by omega)
    omega
  rw [logical] at *
  rw [mapAxis, if_pos hi, UInt32.toNat_toUInt16, UInt32.toNat_add, UInt32.toNat_div,
    UInt32.toNat_mul, ofNat_toNat hi, UInt16.toNat_toUInt32, UInt16.toNat_toUInt32,
    UInt16.toNat_toUInt32, Nat.mod_eq_of_lt hmul, Nat.mod_eq_of_lt (show _ < 4294967296 by omega)]
  exact Nat.mod_eq_of_lt (by omega)

-- The maps are those of a viewport.
structure Maps.Of (maps : Maps) (view : Viewport) : Prop where
  x {i : Nat} : i < view.dstW.toNat →
    (maps.x i).toNat = logical view.srcX view.srcW view.dstW i
  y {i : Nat} : i < view.dstH.toNat →
    (maps.y i).toNat = logical view.srcY view.srcH view.dstH i

-- What is kept for later frames is what has been calculated for an earlier one.
def Maps.Sound (maps : Maps) : Prop :=
  maps.valid → maps.Of maps.viewport

theorem prepareMaps_of (h : maps.Sound) (hs : Shown screen frame view) :
    (prepareMaps maps view).Of view ∧ (prepareMaps maps view).Sound := by
  rw [prepareMaps]
  split
  case isTrue hsame =>
    obtain ⟨hvalid, hx, hy, hw, hh, hdw, hdh⟩ := hsame
    have hof := h hvalid
    refine ⟨⟨fun hi => ?_, fun hi => ?_⟩, h⟩
    · rw [← hx, ← hw, ← hdw]
      exact hof.x (hdw ▸ hi)
    · rw [← hy, ← hh, ← hdh]
      exact hof.y (hdh ▸ hi)
  case isFalse =>
    have hof (i : Viewport) (hv : i = view) : Maps.Of ⟨mapAxis maps.x view.srcX view.srcW view.dstW,
        mapAxis maps.y view.srcY view.srcH view.dstH, view, true⟩ i := by
      subst hv
      exact ⟨fun hi => mapAxis_toNat hi hs.inside.srcW_pos hs.inside.srcX_le,
        fun hi => mapAxis_toNat hi hs.inside.srcH_pos hs.inside.srcY_le⟩
    exact ⟨hof view rfl, fun _ => hof view rfl⟩

theorem mappedIndex_eq (h : maps.Of view) (hs : Shown screen frame view)
    (hx : x < view.dstW.toNat) (hy : y < view.dstH.toNat) :
    mappedIndex frame maps x y =
      sourceY frame view x y * frame.width.toNat + sourceX frame view x y := by
  obtain ⟨hlx, hly⟩ := source_lt hs hx hy
  have hcolumn : (if frame.rotate ≠ 0 then (maps.y y).toUInt32 else (maps.x x).toUInt32).toNat =
      sourceX frame view x y := by
    rw [sourceX]
    split
    case isTrue  => rw [UInt16.toNat_toUInt32, h.y hy]
    case isFalse => rw [UInt16.toNat_toUInt32, h.x hx]
  have hrow : (if frame.rotate ≠ 0 then frame.height.toUInt32 - 1 - (maps.x x).toUInt32
      else (maps.y y).toUInt32).toNat = sourceY frame view x y := by
    have hmx := h.x hx
    rw [sourceY]
    split
    case isFalse   => rw [UInt16.toNat_toUInt32, h.y hy]
    case isTrue hr =>
      have hlt := logical_lt hx hs.inside.srcW_pos hs.inside.srcX_le
      have hh := frame.height.toNat_lt
      rw [if_pos hr] at hlt
      rw [UInt32.toNat_sub, UInt32.toNat_sub, UInt16.toNat_toUInt32, UInt16.toNat_toUInt32, hmx]
      have h1 : (1 : UInt32).toNat = 1 := rfl
      omega
  rw [mappedIndex]
  have hh := frame.height.toNat_lt
  rw [pixelIndex_toNat (by rw [hrow]; omega)
    (by rw [UInt16.toNat_toUInt32]; exact frame.width.toNat_lt)
    (by rw [hcolumn, UInt16.toNat_toUInt32]; exact hlx), hcolumn, hrow, UInt16.toNat_toUInt32]

-- What the steps are for.
structure Direct (screen : Screen) (frame : Frame) (view : Viewport) (step : UInt32) : Prop where
  rotate : frame.rotate = 0
  srcX : view.srcX = 0
  srcY : view.srcY = 0
  srcW : view.srcW = frame.width
  srcH : view.srcH = frame.height
  dstX : view.dstX = 0
  dstY : view.dstY = 0
  dstW : view.dstW = screen.width
  dstH : view.dstH = screen.height
  steps : step = 2 ∧ frame.width.toNat = view.dstW.toNat * 2 ∧
      frame.height.toNat = view.dstH.toNat * 2 ∨
    step = 1 ∧ frame.width.toNat = view.dstW.toNat ∧ frame.height.toNat = view.dstH.toNat ∨
    step = 0 ∧ frame.width.toNat * 2 = view.dstW.toNat ∧ frame.height.toNat * 2 = view.dstH.toNat

theorem double_toNat (n : UInt16) : (n.toUInt32 * 2).toNat = n.toNat * 2 := by
  have hn := n.toNat_lt
  have h2 : (2 : UInt32).toNat = 2 := rfl
  rw [UInt32.toNat_mul, UInt16.toNat_toUInt32, h2]
  exact Nat.mod_eq_of_lt (by omega)

theorem direct {step : UInt32} (h : directStep screen frame view = some step) :
    Direct screen frame view step := by
  rw [directStep] at h
  split at h
  case isTrue => cases h
  case isFalse hn =>
    simp only [not_or, not_not, ne_eq] at hn
    obtain ⟨hr, hx, hy, hw, hh, hdx, hdy, hdw, hdh⟩ := hn
    refine ⟨hr, hx, hy, hw, hh, hdx, hdy, hdw, hdh, ?_⟩
    simp only [← UInt32.toNat_inj, ← UInt16.toNat_inj, double_toNat, UInt16.toNat_toUInt32] at h
    split at h
    case isTrue hs => exact .inl ⟨(Option.some.inj h).symm, hs⟩
    case isFalse =>
      split at h
      case isTrue hs => exact .inr <| .inl ⟨(Option.some.inj h).symm, hs⟩
      case isFalse =>
        split at h
        case isTrue hs => exact .inr <| .inr ⟨(Option.some.inj h).symm, hs⟩
        case isFalse   => cases h

theorem stepped_toNat {step : UInt32} {src dst i : Nat} {bound : UInt16} (hd : dst = bound.toNat)
    (hi : i < dst)
    (hs : step = 2 ∧ src = dst * 2 ∨ step = 1 ∧ src = dst ∨ step = 0 ∧ src * 2 = dst) :
    (stepped step i).toNat = i * src / dst := by
  subst hd
  have hb := bound.toNat_lt
  have hn := ofNat_toNat hi
  have hpos : 0 < bound.toNat := by omega
  rcases hs with ⟨rfl, rfl⟩ | ⟨rfl, rfl⟩ | ⟨rfl, hdst⟩
  · rw [stepped, if_pos (by decide), UInt32.toNat_mul, hn, ← Nat.mul_assoc, Nat.mul_right_comm,
      Nat.mul_div_cancel _ hpos]
    exact Nat.mod_eq_of_lt (show i * 2 < 4294967296 by omega)
  · rw [stepped, if_pos (by decide), UInt32.toNat_mul, hn, Nat.mul_div_cancel _ hpos]
    exact (Nat.mod_eq_of_lt (show i * 1 < 4294967296 by omega)).trans (Nat.mul_one i)
  · rw [stepped, if_neg (by decide), UInt32.toNat_shiftRight, hn, ← hdst, Nat.mul_comm src,
      Nat.mul_div_mul_right _ _ (by omega)]
    exact Nat.shiftRight_eq_div_pow i 1

theorem directIndex_eq {step : UInt32} (h : Direct screen frame view step)
    (hs : Shown screen frame view) (hx : x < view.dstW.toNat) (hy : y < view.dstH.toNat) :
    directIndex frame step x y =
      sourceY frame view x y * frame.width.toNat + sourceX frame view x y := by
  obtain ⟨hlx, hly⟩ := source_lt hs hx hy
  have hr : ¬frame.rotate ≠ 0 := not_not_intro h.rotate
  have hcolumn : (stepped step x).toNat = sourceX frame view x y := by
    rw [sourceX, if_neg hr, logical, h.srcX, h.srcW, UInt16.toNat_zero, Nat.zero_add]
    exact stepped_toNat rfl hx (h.steps.imp (fun s => ⟨s.left, s.right.left⟩)
      (Or.imp (fun s => ⟨s.left, s.right.left⟩) fun s => ⟨s.left, s.right.left⟩))
  have hrow : (stepped step y).toNat = sourceY frame view x y := by
    rw [sourceY, if_neg hr, logical, h.srcY, h.srcH, UInt16.toNat_zero, Nat.zero_add]
    exact stepped_toNat rfl hy (h.steps.imp (fun s => ⟨s.left, s.right.right⟩)
      (Or.imp (fun s => ⟨s.left, s.right.right⟩) fun s => ⟨s.left, s.right.right⟩))
  have hh := frame.height.toNat_lt
  rw [directIndex, rowIndex_toNat (by rw [hrow]; omega)
    (by rw [UInt16.toNat_toUInt32]; exact frame.width.toNat_lt), hcolumn, hrow,
    UInt16.toNat_toUInt32]

-- The two bytes of a pixel of a surface.
def pixelAt (bytes : List UInt8) (strideBytes x y : Nat) : Option UInt8 × Option UInt8 :=
  (bytes[y * strideBytes + 2 * x]?, bytes[y * strideBytes + 2 * x + 1]?)

def bigEndian (color : UInt16) : Option UInt8 × Option UInt8 :=
  (some (color >>> 8).toUInt8, some (color &&& 0xFF).toUInt8)

def written (bytes : List UInt8) (i : Nat) (color : UInt16) : List UInt8 :=
  (bytes.set i (color >>> 8).toUInt8).set (i + 1) (color &&& 0xFF).toUInt8

@[simp]
theorem written_length {bytes : List UInt8} {i : Nat} {color : UInt16} :
    (written bytes i color).length = bytes.length := by
  rw [written, List.length_set, List.length_set]

section

variable {bytes : List UInt8} {stride width height i : Nat} {color : UInt16}

theorem pixel_lt (hw : 2 * width ≤ stride) (hx : x < width) (hy : y < height) :
    y * stride + 2 * x + 1 < stride * height := by
  calc y * stride + 2 * x + 1 < y * stride + stride := by omega
    _ = (y + 1) * stride := (Nat.succ_mul ..).symm
    _ ≤ height * stride := Nat.mul_le_mul_right _ hy
    _ = stride * height := Nat.mul_comm ..

theorem writePixel_eq (hl : bytes.length = stride * height) (hw : 2 * width ≤ stride)
    (hx : x < width) (hy : y < height) :
    writePixel bytes (y * stride + 2 * x) color =
      some (written bytes (y * stride + 2 * x) color) := by
  rw [writePixel, if_pos (hl ▸ pixel_lt hw hx hy)]
  rfl

theorem pixelAt_written (hl : bytes.length = stride * height) (hw : 2 * width ≤ stride)
    (hx : x < width) (hy : y < height) :
    pixelAt (written bytes (y * stride + 2 * x) color) stride x y = bigEndian color := by
  have hlt := pixel_lt hw hx hy
  rw [← hl] at hlt
  rw [pixelAt, written, bigEndian, List.getElem?_set_ne (Nat.succ_ne_self _),
    List.getElem?_set_self (by omega), List.getElem?_set_self (by rw [List.length_set]; omega)]

theorem pixelAt_written_of_ne {x' y' : Nat} (hw : 2 * width ≤ stride) (hx : x < width)
    (hx' : x' < width) (hne : ¬(x' = x ∧ y' = y)) :
    pixelAt (written bytes (y * stride + 2 * x) color) stride x' y' =
      pixelAt bytes stride x' y' := by
  have apart (b b' : Nat) (hb : b < 2) (hb' : b' < 2) :
      y * stride + 2 * x + b ≠ y' * stride + 2 * x' + b' := by
    intro h
    rw [Nat.add_assoc, Nat.add_assoc] at h
    obtain ⟨hy, h⟩ := place_inj (by omega) (by omega) h
    exact hne ⟨by omega, hy.symm⟩
  have kept (b : Nat) (hb : b < 2) : (written bytes (y * stride + 2 * x) color)[y' * stride +
      2 * x' + b]? = bytes[y' * stride + 2 * x' + b]? := by
    rw [written, List.getElem?_set_ne (apart 1 b (by decide) hb),
      List.getElem?_set_ne (show y * stride + 2 * x ≠ _ from apart 0 b (by decide) hb)]
  exact Prod.ext (kept 0 (by decide)) (kept 1 (by decide))

end

-- How far the pixels of the viewport have been copied, where all else is black.
structure Painted (surface : Surface) (pixels : List UInt16) (index : Nat → Nat → Nat)
    (dstX dstY dstW dstH : UInt16) (Done : Nat → Nat → Prop) (bytes : List UInt8) : Prop where
  length : bytes.length = surface.strideBytes.toNat * surface.height.toNat
  drawn {x y : Nat} (hx : x < dstW.toNat) (hy : y < dstH.toNat) (h : Done x y) :
    ∃ color, pixels[index x y]? = some color ∧
      pixelAt bytes surface.strideBytes.toNat (dstX.toNat + x) (dstY.toNat + y) = bigEndian color
  blank {x y : Nat} (hx : x < surface.width.toNat) (hy : y < surface.height.toNat)
    (h : ∀ x' y', x' < dstW.toNat → y' < dstH.toNat → Done x' y' →
      ¬(x = dstX.toNat + x' ∧ y = dstY.toNat + y')) :
    pixelAt bytes surface.strideBytes.toNat x y = (some 0, some 0)

section

variable {surface : Surface} {pixels : List UInt16} {index : Nat → Nat → Nat}
variable {dstX dstY dstW dstH : UInt16} {Done Done' : Nat → Nat → Prop} {bytes : List UInt8}

theorem Painted.congr (h : Painted surface pixels index dstX dstY dstW dstH Done bytes)
    (hd : ∀ x y, x < dstW.toNat → y < dstH.toNat → (Done' x y ↔ Done x y)) :
    Painted surface pixels index dstX dstY dstW dstH Done' bytes where
  length := h.length
  drawn hx hy hxy := h.drawn hx hy ((hd _ _ hx hy).mp hxy)
  blank hx hy hxy := h.blank hx hy fun x' y' hx' hy' h' =>
    hxy x' y' hx' hy' ((hd _ _ hx' hy').mpr h')

-- The viewport is in the surface, and its pixels are those of the source.
structure Fits (surface : Surface) (pixels : List UInt16) (index : Nat → Nat → Nat)
    (dstX dstY dstW dstH : UInt16) : Prop where
  x : dstX.toNat + dstW.toNat ≤ surface.width.toNat
  y : dstY.toNat + dstH.toNat ≤ surface.height.toNat
  index {x y : Nat} : x < dstW.toNat → y < dstH.toNat → index x y < pixels.length

theorem copyPixel_eq (hf : Fits surface pixels index dstX dstY dstW dstH)
    (hl : bytes.length = surface.strideBytes.toNat * surface.height.toNat) (hx : x < dstW.toNat)
    (hy : y < dstH.toNat) {color : UInt16} (hc : pixels[index x y]? = some color) :
    copyPixel pixels surface.strideBytes dstX dstY index y x bytes =
      some (written bytes ((dstY.toNat + y) * surface.strideBytes.toNat + 2 * (dstX.toNat + x))
        color) := by
  have hfx := hf.x
  have hfy := hf.y
  have hh := surface.height.toNat_lt
  rw [copyPixel, hc, rowStart_eq (by omega), double_toNat, Nat.add_assoc,
    Nat.mul_comm dstX.toNat, ← Nat.mul_add]
  exact writePixel_eq hl surface.room (by omega) (by omega)

theorem Painted.pixel (h : Painted surface pixels index dstX dstY dstW dstH Done bytes)
    (hf : Fits surface pixels index dstX dstY dstW dstH) (hx : x < dstW.toNat)
    (hy : y < dstH.toNat) :
    ∃ bytes', copyPixel pixels surface.strideBytes dstX dstY index y x bytes = some bytes' ∧
      Painted surface pixels index dstX dstY dstW dstH (fun x' y' => Done x' y' ∨ x' = x ∧ y' = y)
        bytes' := by
  have hfx := hf.x
  have hfy := hf.y
  have hc := List.getElem?_eq_getElem (hf.index hx hy)
  have hroom := surface.room
  refine ⟨_, copyPixel_eq hf h.length hx hy hc, ?_⟩
  constructor
  case length => rw [written_length, h.length]
  case drawn =>
    intro x' y' hx' hy' hd
    by_cases he : x' = x ∧ y' = y
    case pos =>
      rw [he.left, he.right]
      exact ⟨_, hc, pixelAt_written h.length hroom (by omega) (by omega)⟩
    case neg =>
      obtain ⟨color, hcolor, hat⟩ := h.drawn hx' hy' (hd.resolve_right he)
      refine ⟨color, hcolor, ?_⟩
      rw [pixelAt_written_of_ne hroom (by omega) (by omega) (by omega), hat]
  case blank =>
    intro x' y' hx' hy' hd
    have hne := hd x y hx hy (.inr ⟨rfl, rfl⟩)
    rw [pixelAt_written_of_ne hroom (by omega) hx' hne]
    exact h.blank hx' hy' fun a b ha hb hab => hd a b ha hb (.inl hab)

theorem Painted.row
    (h : Painted surface pixels index dstX dstY dstW dstH (fun _ y' => y' < y) bytes)
    (hf : Fits surface pixels index dstX dstY dstW dstH) (hy : y < dstH.toNat) :
    ∃ bytes', (List.range dstW.toNat).foldlM (fun bytes x =>
        copyPixel pixels surface.strideBytes dstX dstY index y x bytes) bytes = some bytes' ∧
      Painted surface pixels index dstX dstY dstW dstH (fun _ y' => y' < y + 1) bytes' := by
  have hrun := @foldlM_range _
    (fun bytes x => copyPixel pixels surface.strideBytes dstX dstY index y x bytes) dstW.toNat bytes
    (fun i => Painted surface pixels index dstX dstY dstW dstH fun x' y' =>
      y' < y ∨ x' < i ∧ y' = y)
    (h.congr fun x' y' _ _ => by omega)
    (fun i hi bytes hp => by
      obtain ⟨bytes', hb, hp'⟩ := hp.pixel hf hi hy
      exact ⟨bytes', hb, hp'.congr fun x' y' _ _ => by omega⟩)
  obtain ⟨bytes', hb, hp⟩ := hrun
  exact ⟨bytes', hb, hp.congr fun x' y' hx' _ => by omega⟩

theorem copyPixels_painted
    (h : Painted surface pixels index dstX dstY dstW dstH (fun _ _ => False) bytes)
    (hf : Fits surface pixels index dstX dstY dstW dstH) :
    ∃ bytes', copyPixels pixels surface.strideBytes dstX dstY dstW dstH index bytes = some bytes' ∧
      Painted surface pixels index dstX dstY dstW dstH (fun _ _ => True) bytes' := by
  have hrun := @foldlM_range _
    (fun bytes y => (List.range dstW.toNat).foldlM (fun bytes x =>
      copyPixel pixels surface.strideBytes dstX dstY index y x bytes) bytes) dstH.toNat bytes
    (fun j => Painted surface pixels index dstX dstY dstW dstH fun _ y' => y' < j)
    (h.congr fun x' y' _ _ => iff_of_false (Nat.not_lt_zero _) id)
    (fun j hj bytes hp => hp.row hf hj)
  obtain ⟨bytes', hb, hp⟩ := hrun
  exact ⟨bytes', hb, hp.congr fun x' y' _ hy' => iff_of_true trivial hy'⟩

-- A cleared surface.
theorem blank_painted (hl : bytes.length = surface.strideBytes.toNat * surface.height.toNat)
    (hz : ∀ b ∈ bytes, b = 0) :
    Painted surface pixels index dstX dstY dstW dstH (fun _ _ => False) bytes where
  length       := hl
  drawn _ _ h  := h.elim
  blank {x y} hx hy _ := by
    have hlt := pixel_lt surface.room hx hy
    rw [← hl] at hlt
    have zero (i : Nat) (hi : i < bytes.length) : bytes[i]? = some 0 := by
      rw [List.getElem?_eq_getElem hi, hz _ (List.getElem_mem hi)]
    exact Prod.ext (zero _ (by omega)) (zero _ hlt)

-- The texts over the image stay inside of the surface.
def Kept (bytes : List UInt8) (result : Option (List UInt8)) : Prop :=
  ∃ bytes', result = some bytes' ∧ bytes'.length = bytes.length

theorem foldlM_kept {f : List UInt8 → Nat → Option (List UInt8)} {n : Nat}
    (h : ∀ i < n, ∀ b, b.length = bytes.length → Kept b (f b i)) :
    Kept bytes ((List.range n).foldlM f bytes) :=
  foldlM_range (fun _ (b : List UInt8) => b.length = bytes.length) rfl fun i hi b hb => by
    obtain ⟨b', hf, hl⟩ := h i hi b hb
    exact ⟨b', hf, hl.trans hb⟩

variable {glyph : UInt8 → Nat → UInt8} {bits : Nat → UInt8} {textX textY : UInt16}

theorem overlayPixel_kept {glyphX : Nat}
    (hl : bytes.length = surface.strideBytes.toNat * surface.height.toNat)
    (hx : glyphX + x < surface.width.toNat) (hy : textY.toNat + y < surface.height.toNat) :
    Kept bytes (overlayPixel bits surface textY glyphX y x bytes) := by
  have hh := surface.height.toNat_lt
  rw [overlayPixel]
  split
  case isFalse => exact ⟨bytes, rfl, rfl⟩
  case isTrue  =>
    rw [rowStart_eq (by omega), Nat.mul_comm (glyphX + x), writePixel_eq hl surface.room hx hy]
    exact ⟨_, rfl, written_length⟩

theorem overlayGlyph_kept {glyphX : Nat}
    (hl : bytes.length = surface.strideBytes.toNat * surface.height.toNat)
    (hx : glyphX + fontW ≤ surface.width.toNat) :
    Kept bytes (overlayGlyph bits surface textY glyphX bytes) := by
  refine foldlM_kept fun i hi b hb => ?_
  refine foldlM_kept fun j hj b' hb' => ?_
  exact overlayPixel_kept (hb'.trans (hb.trans hl)) (by omega) (by omega)

theorem overlayText_kept {limit index : Nat} {text : List UInt8}
    (hl : bytes.length = surface.strideBytes.toNat * surface.height.toNat)
    (hlimit : limit ≤ surface.width.toNat) :
    Kept bytes (overlayText glyph surface textX textY limit index text bytes) := by
  induction text generalizing index bytes with
  | nil            => exact ⟨bytes, rfl, rfl⟩
  | cons c text ih =>
    rw [overlayText]
    split
    case isFalse   => exact ⟨bytes, rfl, rfl⟩
    case isTrue hi =>
      rw [Nat.succ_mul] at hi
      obtain ⟨b₁, hb₁, hl₁⟩ := @overlayGlyph_kept surface bytes (glyph c) textY
        (textX.toNat + index * fontW) hl (by omega)
      obtain ⟨b₂, hb₂, hl₂⟩ := @ih b₁ (index + 1) (hl₁.trans hl)
      refine ⟨b₂, ?_, hl₂.trans hl₁⟩
      rw [hb₁]
      exact hb₂

theorem fillZero_kept {count : Nat} {i : Nat} (h : i + count ≤ bytes.length) :
    Kept bytes (fillZero bytes i count) := by
  rw [fillZero, if_pos h]
  refine ⟨_, rfl, ?_⟩
  rw [List.length_append, List.length_append, List.length_take, List.length_replicate,
    List.length_drop]
  omega

theorem composeOverlay_kept {text : List UInt8} {enabled : UInt8} {boxX boxY boxW : UInt16}
    (hl : bytes.length = surface.strideBytes.toNat * surface.height.toNat) :
    Kept bytes (composeOverlay glyph surface text enabled boxX boxY boxW bytes) := by
  rw [composeOverlay]
  split
  case isTrue     => exact ⟨bytes, rfl, rfl⟩
  case isFalse hn =>
    simp only [not_or, ge_iff_le, UInt16.not_le, UInt16.lt_iff_toNat_lt] at hn
    obtain ⟨_, hx, hy⟩ := hn
    have hroom := surface.room
    have hh := surface.height.toNat_lt
    have hfill : Kept bytes ((List.range (min (UInt16.ofNat fontH + 4).toNat
        (surface.height.toNat - boxY.toNat))).foldlM (fun bytes y =>
          fillZero bytes (rowStart surface.strideBytes (boxY.toUInt32 + UInt32.ofNat y) +
            boxX.toNat * 2) (min boxW.toNat (surface.width.toNat - boxX.toNat) * 2)) bytes) := by
      refine foldlM_kept fun i hi b hb => fillZero_kept ?_
      rw [hb, hl, rowStart_eq (by omega)]
      calc (boxY.toNat + i) * surface.strideBytes.toNat + boxX.toNat * 2 +
            min boxW.toNat (surface.width.toNat - boxX.toNat) * 2
          ≤ (boxY.toNat + i) * surface.strideBytes.toNat + surface.strideBytes.toNat := by omega
        _ = (boxY.toNat + i + 1) * surface.strideBytes.toNat := (Nat.succ_mul ..).symm
        _ ≤ surface.height.toNat * surface.strideBytes.toNat :=
          Nat.mul_le_mul_right _ (by omega)
        _ = surface.strideBytes.toNat * surface.height.toNat := Nat.mul_comm ..
    obtain ⟨b₁, hb₁, hl₁⟩ := hfill
    obtain ⟨b₂, hb₂, hl₂⟩ := @overlayText_kept surface b₁ glyph (boxX + 4) (boxY + 2)
      (boxX.toNat + min boxW.toNat (surface.width.toNat - boxX.toNat)) 0 text (hl₁.trans hl)
      (by omega)
    refine ⟨b₂, ?_, hl₂.trans hl₁⟩
    dsimp only
    rw [hb₁]
    exact hb₂

theorem composeOverlay_disabled {text : List UInt8} {boxX boxY boxW : UInt16} :
    composeOverlay glyph surface text 0 boxX boxY boxW bytes = some bytes := by
  rw [composeOverlay, if_pos (.inl rfl)]

theorem cleared {surface : Surface} : ∃ bytes, fillZero surface.rgb565 0
    (surface.strideBytes.toUInt32 * surface.height.toUInt32).toNat = some bytes ∧
      bytes.length = surface.strideBytes.toNat * surface.height.toNat ∧ ∀ b ∈ bytes, b = 0 := by
  have hcount : (surface.strideBytes.toUInt32 * surface.height.toUInt32).toNat =
      surface.rgb565.length := by
    rw [toUInt32_mul, surface.size]
  rw [hcount, fillZero, if_pos (by omega)]
  refine ⟨_, rfl, ?_, fun b hb => ?_⟩
  · rw [List.take_zero, List.nil_append, Nat.zero_add, List.drop_length, List.append_nil,
      List.length_replicate, surface.size]
  · rw [List.take_zero, List.nil_append, Nat.zero_add, List.drop_length, List.append_nil] at hb
    exact (List.mem_replicate.mp hb).right

-- What is to be seen of a frame.
structure Plain (frame : Frame) (view : Viewport) (pixels : List UInt16) (surface : Surface)
    (bytes : List UInt8) : Prop where
  drawn {x y : Nat} (hx : x < view.dstW.toNat) (hy : y < view.dstH.toNat) :
    ∃ color, pixels[sourceY frame view x y * frame.width.toNat + sourceX frame view x y]? =
        some color ∧
      pixelAt bytes surface.strideBytes.toNat (view.dstX.toNat + x) (view.dstY.toNat + y) =
        bigEndian color
  blank {x y : Nat} (hx : x < surface.width.toNat) (hy : y < surface.height.toNat)
    (h : ¬(view.dstX.toNat ≤ x ∧ x < view.dstX.toNat + view.dstW.toNat ∧
      view.dstY.toNat ≤ y ∧ y < view.dstY.toNat + view.dstH.toNat)) :
    pixelAt bytes surface.strideBytes.toNat x y = (some 0, some 0)

theorem Painted.plain (h : Painted surface pixels index view.dstX view.dstY view.dstW view.dstH
    (fun _ _ => True) bytes) (hi : ∀ x y, x < view.dstW.toNat → y < view.dstH.toNat → index x y =
      sourceY frame view x y * frame.width.toNat + sourceX frame view x y) :
    Plain frame view pixels surface bytes where
  drawn hx hy := hi _ _ hx hy ▸ h.drawn hx hy trivial
  blank hx hy hne := h.blank hx hy fun x' y' hx' hy' _ he =>
    hne ⟨by omega, by omega, by omega, by omega⟩

theorem sourceIndex_lt (hs : Shown screen frame view) (hp : frame.pixels = some pixels)
    (hx : x < view.dstW.toNat) (hy : y < view.dstH.toNat) :
    sourceY frame view x y * frame.width.toNat + sourceX frame view x y < pixels.length := by
  obtain ⟨hlx, hly⟩ := source_lt hs hx hy
  rw [frame.full pixels hp]
  exact CameraAi.place_lt hly hlx

theorem composeImage_plain (hm : maps.Sound) (hs : Shown screen frame view)
    (hp : frame.pixels = some pixels)
    (hfx : view.dstX.toNat + view.dstW.toNat ≤ surface.width.toNat)
    (hfy : view.dstY.toNat + view.dstH.toNat ≤ surface.height.toNat)
    (hl : bytes.length = surface.strideBytes.toNat * surface.height.toNat)
    (hz : ∀ b ∈ bytes, b = 0) :
    ∃ bytes' maps', composeImage screen maps frame pixels surface view bytes =
        some (bytes', maps') ∧ maps'.Sound ∧ bytes'.length = bytes.length ∧
      Plain frame view pixels surface bytes' := by
  rw [composeImage]
  split
  case h_1 step hstep =>
    have hd := direct hstep
    have hi (x y : Nat) (hx : x < view.dstW.toNat) (hy : y < view.dstH.toNat) :=
      directIndex_eq hd hs hx hy
    have hfits : Fits surface pixels (directIndex frame step) view.dstX view.dstY view.dstW
        view.dstH := ⟨hfx, hfy, fun hx hy => hi _ _ hx hy ▸ sourceIndex_lt hs hp hx hy⟩
    obtain ⟨bytes', hb, hpainted⟩ := copyPixels_painted (blank_painted hl hz) hfits
    rw [hd.dstX, hd.dstY, hd.dstW, hd.dstH] at hb
    refine ⟨bytes', maps, ?_, hm, hpainted.length.trans hl.symm, hpainted.plain hi⟩
    rw [hb]
    rfl
  case h_2 =>
    obtain ⟨hof, hsound⟩ := prepareMaps_of hm hs
    have hi (x y : Nat) (hx : x < view.dstW.toNat) (hy : y < view.dstH.toNat) :=
      mappedIndex_eq hof hs hx hy
    have hfits : Fits surface pixels (mappedIndex frame (prepareMaps maps view)) view.dstX
        view.dstY view.dstW view.dstH :=
      ⟨hfx, hfy, fun hx hy => hi _ _ hx hy ▸ sourceIndex_lt hs hp hx hy⟩
    obtain ⟨bytes', hb, hpainted⟩ := copyPixels_painted (blank_painted hl hz) hfits
    refine ⟨bytes', prepareMaps maps view, ?_, hsound, hpainted.length.trans hl.symm,
      hpainted.plain hi⟩
    dsimp only
    rw [hb]
    rfl

theorem composeViewport_plain (hm : maps.Sound) (hs : Shown screen frame view)
    (hp : frame.pixels = some pixels)
    (hfx : view.dstX.toNat + view.dstW.toNat ≤ surface.width.toNat)
    (hfy : view.dstY.toNat + view.dstH.toNat ≤ surface.height.toNat) :
    ∃ bytes maps', composeViewport screen glyph maps frame pixels surface view =
        some (bytes, maps') ∧ maps'.Sound ∧
      bytes.length = surface.strideBytes.toNat * surface.height.toNat ∧
      (frame.fpsOverlay = 0 → frame.lightOverlay = 0 → Plain frame view pixels surface bytes) := by
  obtain ⟨b₀, hb₀, hl₀, hz⟩ := @cleared surface
  obtain ⟨b₁, maps', hb₁, hm', hl₁, hplain⟩ := composeImage_plain hm hs hp hfx hfy hl₀ hz
  have hl₁ := hl₁.trans hl₀
  obtain ⟨b₂, hb₂, hl₂⟩ := @composeOverlay_kept surface b₁ glyph frame.fpsText frame.fpsOverlay 2 2
    (overlayWidth screen frame.fpsText) hl₁
  obtain ⟨b₃, hb₃, hl₃⟩ := @composeOverlay_kept surface b₂ glyph frame.lightText frame.lightOverlay
    (screen.width - overlayWidth screen frame.lightText - 2) 2
    (overlayWidth screen frame.lightText) (hl₂.trans hl₁)
  refine ⟨b₃, maps', ?_, hm', hl₃.trans (hl₂.trans hl₁), fun hfps hlight => ?_⟩
  · rw [composeViewport, hb₀]
    simp only [Option.bind_eq_bind, Option.bind_some]
    rw [hb₁, Option.bind_some, hb₂, Option.bind_some, hb₃]
    rfl
  · rw [hfps, composeOverlay_disabled] at hb₂
    rw [hlight, composeOverlay_disabled] at hb₃
    rw [← Option.some.inj hb₃, ← Option.some.inj hb₂]
    exact hplain

end

-- What there is after a call that has returned 1, and what it has been called with.
structure Presented (screen : Screen) (frame : Frame) (acquired : Option Surface) (view : Viewport)
    (pixels : List UInt16) (surface : Surface) (bytes : List UInt8) : Prop where
  lease : acquired = some surface
  source : frame.pixels = some pixels
  shown : viewport screen frame.width frame.height frame.rotate frame.fit = some view
  x : view.dstX.toNat + view.dstW.toNat ≤ surface.width.toNat
  y : view.dstY.toNat + view.dstH.toNat ≤ surface.height.toNat
  length : bytes.length = surface.rgb565.length
  plain : frame.fpsOverlay = 0 → frame.lightOverlay = 0 → Plain frame view pixels surface bytes

section

variable {glyph : UInt8 → Nat → UInt8} {acquired : Option Surface} {maps' : Maps}
variable {result : Option (List UInt8)}

theorem composeFrame_presented (hm : maps.Sound) (frame : Frame) (acquired : Option Surface) :
    ∃ result maps', composeFrame screen glyph maps frame acquired = some (result, maps') ∧
      maps'.Sound ∧ ∀ bytes ∈ result, ∃ view pixels surface,
        Presented screen frame acquired view pixels surface bytes := by
  have none : ∀ bytes ∈ (none : Option (List UInt8)), ∃ view pixels surface,
      Presented screen frame acquired view pixels surface bytes := fun _ h => by cases h
  rw [composeFrame.eq_def]
  split
  case h_2 => exact ⟨_, maps, rfl, hm, none⟩
  case h_1 pixels surface hp =>
    split
    case isTrue  => exact ⟨_, maps, rfl, hm, none⟩
    case isFalse =>
      split
      case h_1         => exact ⟨_, maps, rfl, hm, none⟩
      case h_2 view hv =>
        split
        case isTrue      => exact ⟨_, maps, rfl, hm, none⟩
        case isFalse hin =>
          obtain ⟨hx, hy⟩ := not_or.mp hin
          have hx := Nat.not_lt.mp hx
          have hy := Nat.not_lt.mp hy
          have hc := @composeViewport_plain screen frame view maps surface pixels glyph hm
            (shown hv) hp hx hy
          obtain ⟨bytes, maps', hb, hm', hl, hplain⟩ := hc
          refine ⟨some bytes, maps', by rw [hb]; rfl, hm', fun b hb => ?_⟩
          obtain rfl := Option.some.inj hb
          exact ⟨view, pixels, surface, rfl, hp, hv, hx, hy, hl.trans surface.size.symm, hplain⟩

theorem composeFrame_sound (hm : maps.Sound)
    (h : composeFrame screen glyph maps frame acquired = some (result, maps')) : maps'.Sound := by
  obtain ⟨result', maps'', hc, hm', _⟩ :=
    @composeFrame_presented screen maps glyph hm frame acquired
  rw [hc] at h
  obtain rfl : maps'' = maps' := congrArg Prod.snd (Option.some.inj h)
  exact hm'

end

-- The maps that earlier frames can have left.
inductive Reached (screen : Screen) (glyph : UInt8 → Nat → UInt8) : Maps → Prop
  | zero : Reached screen glyph .zero
  | frame {maps maps' : Maps} {frame : Frame} {acquired : Option Surface}
      {result : Option (List UInt8)} : Reached screen glyph maps →
    composeFrame screen glyph maps frame acquired = some (result, maps') →
      Reached screen glyph maps'

theorem Reached.sound {glyph : UInt8 → Nat → UInt8} (h : Reached screen glyph maps) :
    maps.Sound := by
  induction h with
  | zero         => exact fun hv => absurd hv Bool.false_ne_true
  | frame _ hc ih => exact composeFrame_sound ih hc

-- Whatever has been shown before, no place outside of the source or of the surface is accessed, and
-- a frame without texts is shown as its viewport says.
theorem composeFrame_shows {glyph : UInt8 → Nat → UInt8} (h : Reached screen glyph maps)
    (frame : Frame) (acquired : Option Surface) :
    ∃ result maps', composeFrame screen glyph maps frame acquired = some (result, maps') ∧
      ∀ bytes ∈ result, ∃ view pixels surface,
        Presented screen frame acquired view pixels surface bytes := by
  obtain ⟨result, maps', hc, _, hp⟩ :=
    @composeFrame_presented screen maps glyph h.sound frame acquired
  exact ⟨result, maps', hc, hp⟩

def tinyScreen : Screen :=
  ⟨2, 2, by decide⟩

-- Two pixels, which are turned.
def tinyFrame : Frame :=
  ⟨some [0x1234, 0x5678], 2, 1, 1, viewportContain, 0, 0, [], [], by
    intro p hp
    obtain rfl := Option.some.inj hp
    rfl⟩

def tinySurface : Surface :=
  ⟨.replicate 8 0xFF, 2, 2, 4, 1, rfl, by decide⟩

theorem composeFrame_shows_tiny :
    (composeFrame tinyScreen (fun _ _ => 0) .zero tinyFrame (some tinySurface)).map Prod.fst =
      some (some [0x12, 0x34, 0, 0, 0x56, 0x78, 0, 0]) ∧
    ∃ result maps', composeFrame tinyScreen (fun _ _ => 0) .zero tinyFrame (some tinySurface) =
        some (result, maps') ∧
      ∀ bytes ∈ result, ∃ view pixels surface,
        Presented tinyScreen tinyFrame (some tinySurface) view pixels surface bytes :=
  ⟨by decide +kernel, composeFrame_shows .zero tinyFrame (some tinySurface)⟩

end CameraView
