import HackyLens.Camera.Theorems.View
import HackyLens.Lib.Scaling

-- A box is marked where its pixels are shown, unless the two roundings of its ends lose the last of
-- them.

namespace CameraView

open Core

def Rect.Has (r : Rect) (x y : Int) : Prop :=
  (r.x.toInt ≤ x ∧ x < r.x.toInt + r.w.toInt) ∧ r.y.toInt ≤ y ∧ y < r.y.toInt + r.h.toInt

-- A box on one of the axes of the turned frame, with the parts of the frame and of the display that
-- belong together there.
structure Axis where
  first : Int
  last : Int
  src : UInt16
  size : UInt16
  dst : UInt16
  dstSize : UInt16

def columns (frame : Frame) (view : Viewport) (source : Rect) : Axis where
  first   := if frame.rotate ≠ 0 then frame.height.toNat - (source.y.toInt + source.h.toInt)
    else source.x.toInt
  last    := if frame.rotate ≠ 0 then frame.height.toNat - source.y.toInt
    else source.x.toInt + source.w.toInt
  src     := view.srcX
  size    := view.srcW
  dst     := view.dstX
  dstSize := view.dstW

def rows (frame : Frame) (view : Viewport) (source : Rect) : Axis where
  first   := if frame.rotate ≠ 0 then source.x.toInt else source.y.toInt
  last    := if frame.rotate ≠ 0 then source.x.toInt + source.w.toInt
    else source.y.toInt + source.h.toInt
  src     := view.srcY
  size    := view.srcH
  dst     := view.dstY
  dstSize := view.dstH

namespace Axis

variable (a : Axis)

-- The part of the box that is shown.
def lo : Nat :=
  (max a.first a.src.toNat - a.src.toNat).toNat

def hi : Nat :=
  (min a.last (a.src.toNat + a.size.toNat) - a.src.toNat).toNat

-- The place has its pixel from the box.
def Has (i : Nat) : Prop :=
  a.first ≤ logical a.src a.size a.dstSize i ∧ logical a.src a.size a.dstSize i < a.last

def Even : Prop :=
  Scaling.Even a.size.toNat a.dstSize.toNat a.lo a.hi

def Mapped (first size : Int16) : Prop :=
  first.toInt = a.dst.toNat + Scaling.first a.size.toNat a.dstSize.toNat a.lo ∧
    size.toInt = Scaling.extent a.size.toNat a.dstSize.toNat (a.hi - a.lo)

end Axis

-- The pixel is in the part of the frame that is shown.
def InView (frame : Frame) (view : Viewport) (x y : Nat) : Prop :=
  let u := if frame.rotate ≠ 0 then frame.height.toNat - 1 - y else x
  let v := if frame.rotate ≠ 0 then x else y
  x < frame.width.toNat ∧ y < frame.height.toNat ∧
    (view.srcX.toNat ≤ u ∧ u < view.srcX.toNat + view.srcW.toNat) ∧
    view.srcY.toNat ≤ v ∧ v < view.srcY.toNat + view.srcH.toNat

def Meets (frame : Frame) (view : Viewport) (source : Rect) : Prop :=
  ∃ x y : Nat, source.Has x y ∧ InView frame view x y

-- A pixel of the box is shown there.
def Shows (frame : Frame) (view : Viewport) (source : Rect) (x y : Nat) : Prop :=
  x < view.dstW.toNat ∧ y < view.dstH.toNat ∧
    source.Has (sourceX frame view x y) (sourceY frame view x y)

-- What is marked: a part of the viewport which has all places that show the box.
structure Covers (frame : Frame) (view : Viewport) (source mapped : Rect) : Prop where
  nonempty : 0 < mapped.w.toInt ∧ 0 < mapped.h.toInt
  x : view.dstX.toNat ≤ mapped.x.toInt ∧
    mapped.x.toInt + mapped.w.toInt ≤ view.dstX.toNat + view.dstW.toNat
  y : view.dstY.toNat ≤ mapped.y.toInt ∧
    mapped.y.toInt + mapped.h.toInt ≤ view.dstY.toNat + view.dstH.toNat
  shown {x y : Nat} : Shows frame view source x y →
    mapped.Has (view.dstX.toNat + x) (view.dstY.toNat + y)

def Marks (screen : Screen) (frame : Frame) (view : Viewport) (source : Rect) : Prop :=
  ((mapRect screen frame source).isSome ↔ Meets frame view source) ∧
    ∀ mapped ∈ mapRect screen frame source, Covers frame view source mapped

variable {screen : Screen} {frame : Frame} {view : Viewport} {source : Rect} {x y : Nat}

theorem has_iff (hs : Shown screen frame view) (hx : x < view.dstW.toNat) :
    source.Has (sourceX frame view x y) (sourceY frame view x y) ↔
      (columns frame view source).Has x ∧ (rows frame view source).Has y := by
  have hlx := logical_lt hx hs.inside.srcW_pos hs.inside.srcX_le
  rw [Rect.Has, Axis.Has, Axis.Has, columns, rows, sourceX, sourceY]
  dsimp only
  by_cases hr : frame.rotate ≠ 0
  case pos =>
    rw [if_pos hr] at hlx
    simp only [if_pos hr]
    omega
  case neg =>
    simp only [if_neg hr]

theorem meets_iff (hs : Shown screen frame view) : Meets frame view source ↔
    (columns frame view source).lo < (columns frame view source).hi ∧
      (rows frame view source).lo < (rows frame view source).hi := by
  have hx := hs.inside.srcX_le
  have hy := hs.inside.srcY_le
  simp only [Meets, InView, Rect.Has, Axis.lo, Axis.hi, columns, rows]
  by_cases hr : frame.rotate ≠ 0
  case neg =>
    simp only [if_neg hr] at *
    constructor
    · rintro ⟨x, y, h⟩
      omega
    · intro h
      refine ⟨(max source.x.toInt view.srcX.toNat).toNat,
        (max source.y.toInt view.srcY.toNat).toNat, ?_⟩
      omega
  case pos =>
    simp only [if_pos hr] at *
    constructor
    · rintro ⟨x, y, h⟩
      omega
    · intro h
      refine ⟨(max source.x.toInt view.srcY.toNat).toNat, frame.height.toNat - 1 -
        (max (frame.height.toNat - (source.y.toInt + source.h.toInt)) view.srcX.toNat).toNat, ?_⟩
      omega

-- An axis of a viewport in a display.
structure Axis.Placed (a : Axis) : Prop where
  size : 0 < a.size.toNat
  dstSize : 0 < a.dstSize.toNat
  dst : a.dst.toNat + a.dstSize.toNat ≤ 640

theorem placed (hs : Shown screen frame view) :
    (columns frame view source).Placed ∧ (rows frame view source).Placed := by
  have hin := hs.inside
  have hw : screen.width.toNat ≤ 640 := UInt16.le_iff_toNat_le.mp screen.bounded.left
  have hh : screen.height.toNat ≤ 480 := UInt16.le_iff_toNat_le.mp screen.bounded.right
  exact ⟨⟨hin.srcW_pos, hin.dstW_pos, hin.dstX_le.trans hw⟩,
    ⟨hin.srcH_pos, hin.dstH_pos, hin.dstY_le.trans (by omega)⟩⟩

namespace Axis

variable {a : Axis}

theorem hi_le : a.hi ≤ a.size.toNat := by
  rw [hi]
  omega

theorem small_toInt {i : Nat} (h : i ≤ 640) : (Int16.ofInt i).toInt = i :=
  Int16.toInt_ofInt_of_le (by omega) (by omega)

theorem mappedFirst_toInt (h : a.Placed) (hlt : a.lo < a.hi) {first : Int}
    (hf : (first - a.src.toNat).toNat = a.lo) :
    (mappedFirst first a.src a.size a.dst a.dstSize).toInt =
      a.dst.toNat + Scaling.first a.size.toNat a.dstSize.toNat a.lo := by
  have hle := @hi_le a
  have hfit := Scaling.first_add_extent_le a.dstSize.toNat h.size hlt hle
  have hdst := h.dst
  have hsize := a.size.toNat_lt
  have hlo : (UInt32.ofNat a.lo).toNat = a.lo :=
    UInt32.toNat_ofNat_of_lt' (show a.lo < 4294967296 by omega)
  have hmul : a.lo * a.dstSize.toNat ≤ 65535 * 640 := Nat.mul_le_mul (by omega) (by omega)
  have hdiv : (a.dst.toUInt32 + UInt32.ofNat a.lo * a.dstSize.toUInt32 / a.size.toUInt32).toNat =
      a.dst.toNat + Scaling.first a.size.toNat a.dstSize.toNat a.lo := by
    rw [UInt32.toNat_add, UInt32.toNat_div, UInt32.toNat_mul, hlo, UInt16.toNat_toUInt32,
      UInt16.toNat_toUInt32, UInt16.toNat_toUInt32,
      Nat.mod_eq_of_lt (show a.lo * a.dstSize.toNat < 4294967296 by omega)]
    exact Nat.mod_eq_of_lt (show a.dst.toNat + Scaling.first a.size.toNat a.dstSize.toNat a.lo <
      4294967296 by omega)
  rw [mappedFirst, hf, hdiv, small_toInt (by omega)]
  exact Int.natCast_add ..

theorem mappedSize_toInt (h : a.Placed) (hlt : a.lo < a.hi) {size : Int}
    (hf : size.toNat = a.hi - a.lo) : (mappedSize size a.size a.dstSize).toInt =
      Scaling.extent a.size.toNat a.dstSize.toNat (a.hi - a.lo) := by
  have hle := @hi_le a
  have hfit := Scaling.first_add_extent_le a.dstSize.toNat h.size hlt hle
  have hdst := h.dst
  have hsize := a.size.toNat_lt
  have hlen : (UInt32.ofNat (a.hi - a.lo)).toNat = a.hi - a.lo :=
    UInt32.toNat_ofNat_of_lt' (show a.hi - a.lo < 4294967296 by omega)
  have hmul : (a.hi - a.lo) * a.dstSize.toNat ≤ 65535 * 640 := Nat.mul_le_mul (by omega) (by omega)
  have h1 : (1 : UInt32).toNat = 1 := rfl
  have hpos := h.size
  have hnum : (UInt32.ofNat (a.hi - a.lo) * a.dstSize.toUInt32 + a.size.toUInt32 - 1).toNat =
      (a.hi - a.lo) * a.dstSize.toNat + a.size.toNat - 1 := by
    have hsum : (UInt32.ofNat (a.hi - a.lo) * a.dstSize.toUInt32 + a.size.toUInt32).toNat =
        (a.hi - a.lo) * a.dstSize.toNat + a.size.toNat := by
      rw [UInt32.toNat_add, UInt32.toNat_mul, hlen, UInt16.toNat_toUInt32, UInt16.toNat_toUInt32,
        Nat.mod_eq_of_lt (show (a.hi - a.lo) * a.dstSize.toNat < 4294967296 by omega)]
      exact Nat.mod_eq_of_lt (by omega)
    rw [UInt32.toNat_sub_of_le _ _ (UInt32.le_iff_toNat_le.mpr (by omega)), hsum, h1]
  rw [mappedSize, hf, UInt32.toNat_div, hnum, UInt16.toNat_toUInt32]
  exact small_toInt (by rw [Scaling.extent] at hfit; omega)

-- What is marked on the axis.
theorem mapped_inside (h : a.Placed) (hlt : a.lo < a.hi) {first size : Int16}
    (hm : a.Mapped first size) : 0 < size.toInt ∧ a.dst.toNat ≤ first.toInt ∧
      first.toInt + size.toInt ≤ a.dst.toNat + a.dstSize.toNat := by
  have hpos := Scaling.extent_pos h.size h.dstSize hlt
  have hfit := Scaling.first_add_extent_le a.dstSize.toNat h.size hlt hi_le
  obtain ⟨hf, hs⟩ := hm
  omega

theorem has_iff_source (h : a.Placed) {i : Nat} (hi : i < a.dstSize.toNat) : a.Has i ↔
    a.lo ≤ Scaling.source a.size.toNat a.dstSize.toNat i ∧
      Scaling.source a.size.toNat a.dstSize.toNat i < a.hi := by
  have hlt := Scaling.source_lt h.size hi
  rw [Has, logical, lo, Axis.hi]
  rw [Scaling.source] at *
  generalize i * a.size.toNat / a.dstSize.toNat = q at *
  omega

theorem mapped_has (h : a.Placed) {first size : Int16} (hm : a.Mapped first size) (he : a.Even)
    {i : Nat} (hi : i < a.dstSize.toNat) (hh : a.Has i) :
    first.toInt ≤ (a.dst.toNat + i : Int) ∧
      (a.dst.toNat + i : Int) < first.toInt + size.toInt := by
  obtain ⟨hlo, hhi⟩ := (has_iff_source h hi).mp hh
  obtain ⟨hf, hs⟩ := hm
  have hcovers := Scaling.covers h.size h.dstSize (by omega) he hlo hhi
  omega

theorem mapped_misses (h : a.Placed) (hlt : a.lo < a.hi) {first size : Int16}
    (hm : a.Mapped first size) (he : ¬a.Even) :
    ∃ i < a.dstSize.toNat, a.Has i ∧ first.toInt + size.toInt ≤ (a.dst.toNat + i : Int) := by
  obtain ⟨i, hi, hlo, hhi, hout⟩ := Scaling.misses h.size h.dstSize hlt hi_le he
  obtain ⟨hf, hs⟩ := hm
  exact ⟨i, hi, (has_iff_source h hi).mpr ⟨hlo, hhi⟩, by omega⟩

end Axis

theorem Shown.size_ne (hs : Shown screen frame view) : frame.width ≠ 0 ∧ frame.height ≠ 0 := by
  have hx := hs.inside.srcX_le
  have hy := hs.inside.srcY_le
  have hw := hs.inside.srcW_pos
  have hh := hs.inside.srcH_pos
  have pos {n : UInt16} (h : 0 < n.toNat) : n ≠ 0 := fun hz => by
    rw [hz, UInt16.toNat_zero] at h
    omega
  by_cases hr : frame.rotate ≠ 0
  case pos =>
    simp only [if_pos hr] at hx hy
    exact ⟨pos (by omega), pos (by omega)⟩
  case neg =>
    simp only [if_neg hr] at hx hy
    exact ⟨pos (by omega), pos (by omega)⟩

-- The two ways to clip a box, first to the frame and then to the part that is shown, or at once.
theorem Axis.clipped {a : Axis} {length : Nat} (hle : a.src.toNat + a.size.toNat ≤ length)
    (hlt : a.lo < a.hi) :
    ¬min (min a.last length) (a.src.toNat + a.size.toNat) ≤ max (max a.first 0) a.src.toNat ∧
    (max (max a.first 0) a.src.toNat - a.src.toNat).toNat = a.lo ∧
    (min (min a.last length) (a.src.toNat + a.size.toNat) -
      max (max a.first 0) a.src.toNat).toNat = a.hi - a.lo := by
  rw [Axis.lo, Axis.hi] at *
  omega

theorem Axis.clipped_away {a : Axis} {length : Nat} (hle : a.src.toNat + a.size.toNat ≤ length)
    (hn : ¬a.lo < a.hi) :
    min (min a.last length) (a.src.toNat + a.size.toNat) ≤ max (max a.first 0) a.src.toNat := by
  rw [Axis.lo, Axis.hi] at hn
  omega

-- The other way round.
theorem sub_max (n i : Int) : n - max i 0 = min (n - i) n := by
  omega

theorem sub_min (n i : Int) : n - min i n = max (n - i) 0 := by
  omega

-- What is empty after the first step is empty after the second one.
theorem not_le_of_clipped {first last src size length : Int}
    (h : ¬min (min last length) (src + size) ≤ max (max first 0) src) :
    ¬min last length ≤ max first 0 := by
  omega

-- A box that is shown is mapped on both axes, and no other one is.
theorem mapRect_some (hv : viewport screen frame.width frame.height frame.rotate frame.fit =
      some view) (hw : 0 < source.w.toInt) (hh : 0 < source.h.toInt)
    (hx : (columns frame view source).lo < (columns frame view source).hi)
    (hy : (rows frame view source).lo < (rows frame view source).hi) :
    ∃ mapped, mapRect screen frame source = some mapped ∧
      (columns frame view source).Mapped mapped.x mapped.w ∧
      (rows frame view source).Mapped mapped.y mapped.h := by
  have hs := shown hv
  obtain ⟨hpx, hpy⟩ := @placed screen frame view source hs
  obtain ⟨hcx, hlox, hsizex⟩ := Axis.clipped hs.inside.srcX_le hx
  obtain ⟨hcy, hloy, hsizey⟩ := Axis.clipped hs.inside.srcY_le hy
  have hne : ¬(frame.width = 0 ∨ frame.height = 0 ∨ source.w ≤ 0 ∨ source.h ≤ 0) := by
    simp only [not_or, Int16.not_le, Int16.lt_iff_toInt_lt]
    exact ⟨hs.size_ne.left, hs.size_ne.right, hw, hh⟩
  have hmx := Axis.mappedFirst_toInt hpx hx hlox
  have hmw := Axis.mappedSize_toInt hpx hx hsizex
  have hmy := Axis.mappedFirst_toInt hpy hy hloy
  have hmh := Axis.mappedSize_toInt hpy hy hsizey
  rw [mapRect, if_neg hne]
  dsimp only
  by_cases hr : frame.rotate ≠ 0
  case neg =>
    simp only [columns, rows, if_neg hr] at hcx hcy
    rw [if_neg (not_or.mpr ⟨not_le_of_clipped hcx, not_le_of_clipped hcy⟩), hv]
    simp only [if_neg hr]
    rw [if_neg (not_or.mpr ⟨hcx, hcy⟩)]
    simp only [columns, rows, if_neg hr] at hmx hmw hmy hmh ⊢
    exact ⟨_, rfl, ⟨hmx, hmw⟩, hmy, hmh⟩
  case pos =>
    simp only [columns, rows, if_pos hr] at hcx hcy
    have hclip := not_le_of_clipped hcx
    rw [if_neg (not_or.mpr ⟨not_le_of_clipped hcy, by omega⟩), hv]
    simp only [if_pos hr, sub_max, sub_min]
    rw [if_neg (not_or.mpr ⟨hcx, hcy⟩)]
    simp only [columns, rows, if_pos hr] at hmx hmw hmy hmh ⊢
    exact ⟨_, rfl, ⟨hmx, hmw⟩, hmy, hmh⟩

theorem mapRect_none (hv : viewport screen frame.width frame.height frame.rotate frame.fit =
      some view) (hn : ¬((columns frame view source).lo < (columns frame view source).hi ∧
        (rows frame view source).lo < (rows frame view source).hi)) :
    mapRect screen frame source = none := by
  have hs := shown hv
  have hempty : _ ∨ _ := (not_and_or.mp hn).imp (Axis.clipped_away hs.inside.srcX_le)
    (Axis.clipped_away hs.inside.srcY_le)
  rw [mapRect]
  split
  case isTrue  => rfl
  case isFalse =>
    dsimp only
    split
    case isTrue  => rfl
    case isFalse =>
      rw [hv]
      by_cases hr : frame.rotate ≠ 0
      case pos =>
        simp only [columns, rows, if_pos hr] at hempty
        simp only [if_pos hr, sub_max, sub_min]
        rw [if_pos hempty]
      case neg =>
        simp only [columns, rows, if_neg hr] at hempty
        simp only [if_neg hr]
        rw [if_pos hempty]

section

variable (hv : viewport screen frame.width frame.height frame.rotate frame.fit = some view)
variable (hw : 0 < source.w.toInt) (hh : 0 < source.h.toInt)

include hv hw hh

theorem mapRect_isSome_iff : (mapRect screen frame source).isSome ↔ Meets frame view source := by
  rw [meets_iff (shown hv)]
  constructor
  · intro h
    by_contra hn
    rw [mapRect_none hv hn] at h
    exact absurd h Bool.false_ne_true
  · intro h
    obtain ⟨mapped, hm, _⟩ := mapRect_some hv hw hh h.left h.right
    rw [hm]
    rfl

-- A box that has a place in the viewport is shown on both axes.
theorem shows_lt (h : Shows frame view source x y) :
    (columns frame view source).lo < (columns frame view source).hi ∧
      (rows frame view source).lo < (rows frame view source).hi := by
  have hs := shown hv
  obtain ⟨hpx, hpy⟩ := @placed screen frame view source hs
  obtain ⟨hx, hy, hhas⟩ := h
  obtain ⟨hcolumn, hrow⟩ := (has_iff hs hx).mp hhas
  have hc := (Axis.has_iff_source hpx hx).mp hcolumn
  have hr := (Axis.has_iff_source hpy hy).mp hrow
  exact ⟨Nat.lt_of_le_of_lt hc.left hc.right, Nat.lt_of_le_of_lt hr.left hr.right⟩

theorem covers_of_even {mapped : Rect} (hm : mapRect screen frame source = some mapped)
    (he : ∀ x y, Shows frame view source x y →
      (columns frame view source).Even ∧ (rows frame view source).Even) :
    Covers frame view source mapped := by
  have hs := shown hv
  obtain ⟨hpx, hpy⟩ := @placed screen frame view source hs
  have hlt := (meets_iff hs).mp ((mapRect_isSome_iff hv hw hh).mp (hm ▸ rfl))
  obtain ⟨mapped', hm', hmx, hmy⟩ := mapRect_some hv hw hh hlt.left hlt.right
  rw [hm] at hm'
  obtain rfl := Option.some.inj hm'
  have hx := Axis.mapped_inside hpx hlt.left hmx
  have hy := Axis.mapped_inside hpy hlt.right hmy
  refine ⟨⟨hx.left, hy.left⟩, hx.right, hy.right, fun h => ?_⟩
  obtain ⟨hex, hey⟩ := he _ _ h
  obtain ⟨hltx, hlty, hhas⟩ := h
  obtain ⟨hcolumn, hrow⟩ := (has_iff hs hltx).mp hhas
  exact ⟨Axis.mapped_has hpx hmx hex hltx hcolumn, Axis.mapped_has hpy hmy hey hlty hrow⟩

theorem even_of_covers (hc : ∀ mapped ∈ mapRect screen frame source,
    Covers frame view source mapped) (h : Shows frame view source x y) :
    (columns frame view source).Even ∧ (rows frame view source).Even := by
  have hs := shown hv
  obtain ⟨hpx, hpy⟩ := @placed screen frame view source hs
  have hlt := shows_lt hv hw hh h
  obtain ⟨mapped, hm, hmx, hmy⟩ := mapRect_some hv hw hh hlt.left hlt.right
  have hcovers := hc mapped hm
  obtain ⟨hx, hy, hhas⟩ := h
  obtain ⟨hcolumn, hrow⟩ := (has_iff hs hx).mp hhas
  constructor
  · by_contra hne
    obtain ⟨i, hi, hin, hout⟩ := Axis.mapped_misses hpx hlt.left hmx hne
    have hmapped := (hcovers.shown ⟨hi, hy, (has_iff hs hi).mpr ⟨hin, hrow⟩⟩).left.right
    exact absurd hmapped (Int.not_lt.mpr hout)
  · by_contra hne
    obtain ⟨i, hi, hin, hout⟩ := Axis.mapped_misses hpy hlt.right hmy hne
    have hmapped := (hcovers.shown ⟨hx, hi, (has_iff hs hx).mpr ⟨hcolumn, hin⟩⟩).right.right
    exact absurd hmapped (Int.not_lt.mpr hout)

-- A box with shown pixels is covered if the two roundings of its ends do not lose a place.
theorem marks_iff_even : Marks screen frame view source ↔
    ∀ x y, Shows frame view source x y →
      (columns frame view source).Even ∧ (rows frame view source).Even := by
  constructor
  · intro h x y hshows
    exact even_of_covers hv hw hh h.right hshows
  · intro h
    exact ⟨mapRect_isSome_iff hv hw hh, fun mapped hm => covers_of_even hv hw hh hm h⟩

end

-- A display of 240 × 240, and a frame of 320 × 240.
def squareScreen : Screen :=
  ⟨240, 240, by decide⟩

def wideFrame : Frame :=
  ⟨none, 320, 240, 0, viewportContain, 0, 0, [], [], fun _ h => by cases h⟩

def wideView : Viewport :=
  ⟨0, 0, 320, 240, 0, 30, 240, 180⟩

theorem wideView_eq : viewport squareScreen 320 240 0 viewportContain = some wideView := by
  decide

-- The box of the four pixels from (1, 1) on, of which the one at (2, 2) is not marked.
theorem marks_not_square : mapRect squareScreen wideFrame ⟨1, 1, 2, 2⟩ = some ⟨0, 30, 2, 2⟩ ∧
    Shows wideFrame wideView ⟨1, 1, 2, 2⟩ 2 2 ∧
    ¬Marks squareScreen wideFrame wideView ⟨1, 1, 2, 2⟩ := by
  have hmapped : mapRect squareScreen wideFrame ⟨1, 1, 2, 2⟩ = some ⟨0, 30, 2, 2⟩ := by decide
  have hshows : Shows wideFrame wideView ⟨1, 1, 2, 2⟩ 2 2 := by
    refine ⟨by decide, by decide, ?_⟩
    rw [Rect.Has]
    decide
  refine ⟨hmapped, hshows, fun h => ?_⟩
  have hhas := (h.right _ hmapped).shown hshows
  exact absurd hhas.left.right (by decide)

theorem marks_iff_even_square : Marks squareScreen wideFrame wideView ⟨0, 0, 4, 4⟩ ↔
    ∀ x y, Shows wideFrame wideView ⟨0, 0, 4, 4⟩ x y →
      (columns wideFrame wideView ⟨0, 0, 4, 4⟩).Even ∧
        (rows wideFrame wideView ⟨0, 0, 4, 4⟩).Even :=
  marks_iff_even wideView_eq (by decide) (by decide)

end CameraView
