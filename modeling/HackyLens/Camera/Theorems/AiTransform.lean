import HackyLens.Camera.AiTransform
import HackyLens.Core.Theorems.Viewport

-- The transformed image is made of pixels of the source, and boxes in it lead back to them.

namespace CameraAi

open Core

-- What each round of a loop over a range keeps, if no round fails.
theorem foldlM_range {β : Type} {f : β → Nat → Option β} {n : Nat} {b : β} (P : Nat → β → Prop)
    (h : P 0 b) (hf : ∀ i < n, ∀ b, P i b → ∃ b', f b i = some b' ∧ P (i + 1) b') :
    ∃ b', (List.range n).foldlM f b = some b' ∧ P n b' := by
  induction n with
  | zero => exact ⟨b, rfl, h⟩
  | succ n ih =>
    obtain ⟨b₁, hb₁, h₁⟩ := ih fun i hi => hf i (Nat.lt_succ_of_lt hi)
    obtain ⟨b₂, hb₂, h₂⟩ := hf n (Nat.lt_succ_self n) b₁ h₁
    refine ⟨b₂, ?_, h₂⟩
    rw [List.range_succ, List.foldlM_append, hb₁]
    simp [hb₂]

variable {width height : UInt16} {rotate : UInt8} {view : Viewport} {x y : Nat}

structure Shown (width height : UInt16) (rotate : UInt8) (view : Viewport) : Prop where
  width_le : width.toNat ≤ 320
  height_le : height.toNat ≤ 240
  inside : view.Inside (if rotate ≠ 0 then height else width) (if rotate ≠ 0 then width else height)
    width height

theorem shown (h : viewport width height rotate = some view) : Shown width height rotate view := by
  rw [viewport] at h
  split at h
  case isFalse  => cases h
  case isTrue hs =>
    have h320 : (320 : UInt16).toNat = 320 := rfl
    have h240 : (240 : UInt16).toNat = 240 := rfl
    refine ⟨?_, ?_, viewportCalculate_inside h⟩
    · rw [← h320]
      exact UInt16.le_iff_toNat_le.mp hs.left
    · rw [← h240]
      exact UInt16.le_iff_toNat_le.mp hs.right.left

-- Where a pixel comes from.
def sourceColumn (view : Viewport) (rotate : UInt8) (x y : Nat) : Nat :=
  if rotate ≠ 0 then
    y * view.srcH.toNat / view.dstH.toNat
  else
    x * view.srcW.toNat / view.dstW.toNat

def sourceRow (view : Viewport) (height : UInt16) (rotate : UInt8) (x y : Nat) : Nat :=
  if rotate ≠ 0 then
    height.toNat - 1 - x * view.srcW.toNat / view.dstW.toNat
  else
    y * view.srcH.toNat / view.dstH.toNat

theorem scaled_lt {i dst src : Nat} (h : i < dst) (hs : 0 < src) : i * src / dst < src :=
  Nat.div_lt_of_lt_mul (by
    rw [Nat.mul_comm dst]
    exact Nat.mul_comm i src ▸ Nat.mul_lt_mul_of_pos_left h hs)

theorem scaled_toNat {src dst : UInt16} {i : Nat} (h : i < dst.toNat) (hs : 0 < src.toNat) :
    ((UInt16.ofNat i).toUInt32 * src.toUInt32 / dst.toUInt32).toUInt16.toNat =
      i * src.toNat / dst.toNat := by
  have hd := dst.toNat_lt
  have hsl := src.toNat_lt
  have hi : (UInt16.ofNat i).toNat = i := UInt16.toNat_ofNat_of_lt' (show i < 65536 by omega)
  rw [UInt32.toNat_toUInt16, UInt32.toNat_div, toUInt32_mul, UInt16.toNat_toUInt32, hi]
  exact Nat.mod_eq_of_lt (Nat.lt_trans (scaled_lt h hs) (by omega))

theorem column_toNat (h : Shown width height rotate view) (hx : x < view.dstW.toNat) :
    (column view (.ofNat x)).toNat = x * view.srcW.toNat / view.dstW.toNat :=
  scaled_toNat hx h.inside.srcW_pos

theorem row_toNat (h : Shown width height rotate view) (hy : y < view.dstH.toNat) :
    (row view (.ofNat y)).toNat = y * view.srcH.toNat / view.dstH.toNat :=
  scaled_toNat hy h.inside.srcH_pos

theorem source_lt (h : Shown width height rotate view) (hx : x < view.dstW.toNat)
    (hy : y < view.dstH.toNat) : sourceColumn view rotate x y < width.toNat ∧
      sourceRow view height rotate x y < height.toNat := by
  have hc := scaled_lt hx h.inside.srcW_pos
  have hr := scaled_lt hy h.inside.srcH_pos
  have hw := h.inside.srcX_le
  have hh := h.inside.srcY_le
  by_cases hrot : rotate ≠ 0
  case pos =>
    simp only [sourceColumn, sourceRow, if_pos hrot] at hw hh ⊢
    have hpos := h.inside.srcW_pos
    exact ⟨by omega, Nat.lt_of_le_of_lt (Nat.sub_le _ _) (by omega)⟩
  case neg =>
    simp only [sourceColumn, sourceRow, if_neg hrot] at hw hh ⊢
    omega

-- No index overflows.
theorem index_toNat {a b w : UInt32} {m n k : Nat} (ha : a.toNat = m) (hb : b.toNat = n)
    (hw : w.toNat = k) (hm : m < 240) (hn : n < 320) (hk : k ≤ 320) :
    (a * w + b).toNat = m * k + n := by
  have hmul : m * k ≤ 240 * 320 := Nat.mul_le_mul (Nat.le_of_lt hm) hk
  rw [UInt32.toNat_add, UInt32.toNat_mul, ha, hb, hw,
    Nat.mod_eq_of_lt (show m * k < 4294967296 by omega)]
  exact Nat.mod_eq_of_lt (show _ < 4294967296 by omega)

theorem sourceIndex_toNat (h : Shown width height rotate view) (hx : x < view.dstW.toNat)
    (hy : y < view.dstH.toNat) :
    (sourceIndex view width height rotate (.ofNat x) (.ofNat y)).toNat =
      sourceRow view height rotate x y * width.toNat + sourceColumn view rotate x y := by
  have hlt := source_lt h hx hy
  have hc := column_toNat h hx
  have hr := row_toNat h hy
  have hw := h.width_le
  have hh := h.height_le
  rw [sourceIndex]
  by_cases hrot : rotate ≠ 0
  case pos =>
    simp only [sourceRow, sourceColumn, if_pos hrot] at hlt ⊢
    refine index_toNat ?_ (by rw [UInt16.toNat_toUInt32, hr]) (UInt16.toNat_toUInt32 _) (by omega)
      (by omega) hw
    have hsrc := h.inside.srcX_le
    rw [if_pos hrot] at hsrc
    have hcl := scaled_lt hx h.inside.srcW_pos
    have h1 : (1 : UInt32).toNat = 1 := rfl
    have hle : (1 : UInt32) ≤ height.toUInt32 := by
      rw [UInt32.le_iff_toNat_le, UInt16.toNat_toUInt32, h1]
      omega
    have hsub := UInt32.toNat_sub_of_le _ _ hle
    rw [UInt16.toNat_toUInt32, h1] at hsub
    rw [UInt32.toNat_sub_of_le, hsub, UInt16.toNat_toUInt32, hc]
    rw [UInt32.le_iff_toNat_le, hsub, UInt16.toNat_toUInt32, hc]
    omega
  case neg =>
    simp only [sourceRow, sourceColumn, if_neg hrot] at hlt ⊢
    exact index_toNat (by rw [UInt16.toNat_toUInt32, hr]) (by rw [UInt16.toNat_toUInt32, hc])
      (UInt16.toNat_toUInt32 _) (by omega) (by omega) hw

theorem targetIndex_toNat (h : Shown width height rotate view) (hx : x < view.dstW.toNat)
    (hy : y < view.dstH.toNat) : (targetIndex view width (.ofNat x) (.ofNat y)).toNat =
      (y + view.dstY.toNat) * width.toNat + (x + view.dstX.toNat) := by
  have hw := h.width_le
  have hh := h.height_le
  have hdx := h.inside.dstX_le
  have hdy := h.inside.dstY_le
  have to32 {i : Nat} (hi : i < 65536) : (UInt16.ofNat i).toUInt32.toNat = i := by
    rw [UInt16.toNat_toUInt32]
    exact UInt16.toNat_ofNat_of_lt' hi
  have sum {i : Nat} {d : UInt16} (hi : i + d.toNat < 65536) :
      ((UInt16.ofNat i).toUInt32 + d.toUInt32).toNat = i + d.toNat := by
    rw [UInt32.toNat_add, to32 (by omega), UInt16.toNat_toUInt32]
    exact Nat.mod_eq_of_lt (show _ < 4294967296 by omega)
  rw [targetIndex, UInt32.add_assoc]
  exact index_toNat (sum (by omega)) (sum (by omega)) (UInt16.toNat_toUInt32 _) (by omega)
    (by omega) hw

-- Two places of an image.
theorem place_inj {w a b c d : Nat} (hb : b < w) (hd : d < w) (h : a * w + b = c * w + d) :
    a = c ∧ b = d := by
  have hw : 0 < w := Nat.lt_of_le_of_lt (Nat.zero_le b) hb
  have parts {i j : Nat} (hj : j < w) : (i * w + j) / w = i ∧ (i * w + j) % w = j :=
    (Nat.div_mod_unique hw).mpr ⟨by rw [Nat.mul_comm w, Nat.add_comm], hj⟩
  obtain ⟨ha, hb⟩ := @parts a b hb
  obtain ⟨hc, hd⟩ := @parts c d hd
  exact ⟨by rw [← ha, ← hc, h], by rw [← hb, ← hd, h]⟩

theorem place_lt {w n a b : Nat} (ha : a < n) (hb : b < w) : a * w + b < w * n := by
  calc a * w + b < a * w + w := Nat.add_lt_add_left hb _
    _ = (a + 1) * w := (Nat.succ_mul a w).symm
    _ ≤ n * w := Nat.mul_le_mul_right w ha
    _ = w * n := Nat.mul_comm n w

theorem plane_toNat (h : Shown width height rotate view) :
    (width.toUInt32 * height.toUInt32).toNat = width.toNat * height.toNat ∧
      width.toNat * height.toNat ≤ 76800 :=
  ⟨toUInt32_mul _ _, Nat.mul_le_mul h.width_le h.height_le⟩

def rgb (pixel : UInt16) : Option UInt8 × Option UInt8 × Option UInt8 :=
  (some (red pixel), some (green pixel), some (blue pixel))

-- What the three planes have at a place.
def pixelAt (planar : List UInt8) (plane place : Nat) :
    Option UInt8 × Option UInt8 × Option UInt8 :=
  (planar[place]?, planar[plane + place]?, planar[plane * 2 + place]?)

theorem store_of_lt {planar : List UInt8} {i : UInt32} {n : Nat} {value : UInt8} (hi : i.toNat = n)
    (h : n < planar.length) : store planar i value = some (planar.set n value) := by
  rw [store, hi, if_pos h]

-- The three stores of a pixel.
def stored (planar : List UInt8) (plane place : Nat) (pixel : UInt16) : List UInt8 :=
  ((planar.set place (red pixel)).set (plane + place) (green pixel)).set (plane * 2 + place)
    (blue pixel)

@[simp]
theorem stored_length {planar : List UInt8} {plane place : Nat} {pixel : UInt16} :
    (stored planar plane place pixel).length = planar.length := by
  simp [stored]

theorem pixelAt_stored {planar : List UInt8} {plane place : Nat} {pixel : UInt16}
    (hl : planar.length = 3 * plane) (h : place < plane) :
    pixelAt (stored planar plane place pixel) plane place = rgb pixel := by
  have h₁ : plane * 2 + place ≠ place := by omega
  have h₂ : plane * 2 + place ≠ plane + place := by omega
  have h₃ : plane + place ≠ place := by omega
  rw [pixelAt, stored, rgb, List.getElem?_set_ne h₁, List.getElem?_set_ne h₃,
    List.getElem?_set_ne h₂, List.getElem?_set_self, List.getElem?_set_self,
    List.getElem?_set_self]
  all_goals
    repeat rw [List.length_set]
    omega

theorem pixelAt_stored_of_ne {planar : List UInt8} {plane place other : Nat} {pixel : UInt16}
    (h : place < plane) (ho : other < plane) (hne : place ≠ other) :
    pixelAt (stored planar plane place pixel) plane other = pixelAt planar plane other := by
  have h₁ : plane + place ≠ other := by omega
  have h₂ : plane * 2 + place ≠ other := by omega
  have h₃ : place ≠ plane + other := by omega
  have h₄ : plane + place ≠ plane + other := by omega
  have h₅ : plane * 2 + place ≠ plane + other := by omega
  have h₆ : place ≠ plane * 2 + other := by omega
  have h₇ : plane + place ≠ plane * 2 + other := by omega
  have h₈ : plane * 2 + place ≠ plane * 2 + other := by omega
  simp only [pixelAt, stored, List.getElem?_set_ne, ne_eq, not_false_eq_true, *]

-- What the loops have done, where `Done` are the places of the drawn area that they have been at.
structure Filled (source : List UInt16) (view : Viewport) (width height : UInt16) (rotate : UInt8)
    (Done : Nat → Nat → Prop) (planar : List UInt8) : Prop where
  length : planar.length = 3 * (width.toNat * height.toNat)
  drawn {i j : Nat} (hi : i < view.dstW.toNat) (hj : j < view.dstH.toNat) (h : Done i j) :
    ∃ pixel, source[sourceRow view height rotate i j * width.toNat +
      sourceColumn view rotate i j]? = some pixel ∧
      pixelAt planar (width.toNat * height.toNat)
        ((j + view.dstY.toNat) * width.toNat + (i + view.dstX.toNat)) = rgb pixel
  blank {i j : Nat} (hi : i < width.toNat) (hj : j < height.toNat)
    (h : ∀ i' j', i' < view.dstW.toNat → j' < view.dstH.toNat → Done i' j' →
      ¬(i = i' + view.dstX.toNat ∧ j = j' + view.dstY.toNat)) :
    pixelAt planar (width.toNat * height.toNat) (j * width.toNat + i) = (some 0, some 0, some 0)

variable {source : List UInt16} {planar : List UInt8} {Done Done' : Nat → Nat → Prop}

theorem Filled.congr (h : Filled source view width height rotate Done planar)
    (hd : ∀ x y, x < view.dstW.toNat → y < view.dstH.toNat → (Done' x y ↔ Done x y)) :
    Filled source view width height rotate Done' planar where
  length := h.length
  drawn hx hy hxy := h.drawn hx hy ((hd _ _ hx hy).mp hxy)
  blank hx hy hxy := h.blank hx hy fun x' y' hx' hy' h' =>
    hxy x' y' hx' hy' ((hd _ _ hx' hy').mpr h')

theorem transformPixel_eq (hs : Shown width height rotate view)
    (hl : planar.length = 3 * (width.toNat * height.toNat)) (hx : x < view.dstW.toNat)
    (hy : y < view.dstH.toNat) {pixel : UInt16}
    (hp : source[sourceRow view height rotate x y * width.toNat +
      sourceColumn view rotate x y]? = some pixel) :
    transformPixel source view width height rotate y x planar =
      some (stored planar (width.toNat * height.toNat)
        ((y + view.dstY.toNat) * width.toNat + (x + view.dstX.toNat)) pixel) := by
  obtain ⟨hplane, hle⟩ := plane_toNat hs
  have htarget := targetIndex_toNat hs hx hy
  have hdx := hs.inside.dstX_le
  have hdy := hs.inside.dstY_le
  have hlt : (y + view.dstY.toNat) * width.toNat + (x + view.dstX.toNat) <
      width.toNat * height.toNat := place_lt (by omega) (by omega)
  have h2 : (2 : UInt32).toNat = 2 := rfl
  rw [transformPixel, sourceIndex_toNat hs hx hy, hp]
  generalize width.toNat * height.toNat = plane at *
  generalize (y + view.dstY.toNat) * width.toNat + (x + view.dstX.toNat) = place at *
  have hgreen : (width.toUInt32 * height.toUInt32 +
      targetIndex view width (.ofNat x) (.ofNat y)).toNat = plane + place := by
    rw [UInt32.toNat_add, hplane, htarget]
    exact Nat.mod_eq_of_lt (show _ < 4294967296 by omega)
  have hblue : (width.toUInt32 * height.toUInt32 * 2 +
      targetIndex view width (.ofNat x) (.ofNat y)).toNat = plane * 2 + place := by
    rw [UInt32.toNat_add, UInt32.toNat_mul, hplane, htarget, h2,
      Nat.mod_eq_of_lt (show plane * 2 < 4294967296 by omega)]
    exact Nat.mod_eq_of_lt (show _ < 4294967296 by omega)
  simp only [Option.bind_eq_bind, Option.bind_some]
  rw [store_of_lt htarget (by omega), Option.bind_some,
    store_of_lt hgreen (by rw [List.length_set]; omega), Option.bind_some,
    store_of_lt hblue (by rw [List.length_set, List.length_set]; omega)]
  rfl

theorem Filled.pixel (h : Filled source view width height rotate Done planar)
    (hs : Shown width height rotate view) (hl : source.length = width.toNat * height.toNat)
    (hx : x < view.dstW.toNat) (hy : y < view.dstH.toNat) :
    ∃ planar', transformPixel source view width height rotate y x planar = some planar' ∧
      Filled source view width height rotate (fun x' y' => Done x' y' ∨ x' = x ∧ y' = y)
        planar' := by
  obtain ⟨hcolumn, hrow⟩ := source_lt hs hx hy
  have hlt : sourceRow view height rotate x y * width.toNat + sourceColumn view rotate x y <
      source.length := hl ▸ place_lt hrow hcolumn
  have hp := List.getElem?_eq_getElem hlt
  have hdx := hs.inside.dstX_le
  have hdy := hs.inside.dstY_le
  have hplace {x y : Nat} (hx : x < view.dstW.toNat) (hy : y < view.dstH.toNat) :
      (y + view.dstY.toNat) * width.toNat + (x + view.dstX.toNat) < width.toNat * height.toNat :=
    place_lt (by omega) (by omega)
  refine ⟨_, transformPixel_eq hs h.length hx hy hp, ?_⟩
  constructor
  case length => rw [stored_length, h.length]
  case drawn =>
    intro x' y' hx' hy' hd
    by_cases he : x' = x ∧ y' = y
    case pos =>
      rw [he.left, he.right]
      exact ⟨_, hp, pixelAt_stored h.length (hplace hx hy)⟩
    case neg =>
      obtain ⟨pixel, hpixel, hat⟩ := h.drawn hx' hy' (hd.resolve_right he)
      refine ⟨pixel, hpixel, ?_⟩
      rw [pixelAt_stored_of_ne (hplace hx hy) (hplace hx' hy') ?_, hat]
      intro heq
      obtain ⟨hey, hex⟩ := place_inj (by omega) (by omega) heq
      exact he ⟨by omega, by omega⟩
  case blank =>
    intro x' y' hx' hy' hd
    rw [pixelAt_stored_of_ne (hplace hx hy) (place_lt hy' hx') ?_,
      h.blank hx' hy' fun a b ha hb hab => hd a b ha hb (.inl hab)]
    intro heq
    obtain ⟨hey, hex⟩ := place_inj (by omega) (by omega) heq
    exact hd x y hx hy (.inr ⟨rfl, rfl⟩) ⟨hex.symm, hey.symm⟩

theorem Filled.row (h : Filled source view width height rotate (fun _ y' => y' < y) planar)
    (hs : Shown width height rotate view) (hl : source.length = width.toNat * height.toNat)
    (hy : y < view.dstH.toNat) :
    ∃ planar', transformRow source view width height rotate y planar = some planar' ∧
      Filled source view width height rotate (fun _ y' => y' < y + 1) planar' := by
  have hrun := @foldlM_range _
    (fun planar x => transformPixel source view width height rotate y x planar) view.dstW.toNat
    planar
    (fun i => Filled source view width height rotate fun x' y' => y' < y ∨ x' < i ∧ y' = y)
    (h.congr fun x' y' _ _ => by omega)
    (fun i hi planar hf => by
      obtain ⟨planar', hp, hf'⟩ := hf.pixel hs hl hi hy
      exact ⟨planar', hp, hf'.congr fun x' y' _ _ => by omega⟩)
  obtain ⟨planar', hp, hf⟩ := hrun
  exact ⟨planar', hp, hf.congr fun x' y' hx' _ => by omega⟩

theorem clear_filled (hs : Shown width height rotate view)
    (h : planar.length = 3 * (width.toNat * height.toNat)) :
    ∃ planar', clear planar (width.toUInt32 * height.toUInt32 * 3) = some planar' ∧
      Filled source view width height rotate (fun _ y' => y' < 0) planar' := by
  obtain ⟨hplane, hle⟩ := plane_toNat hs
  have h3 : (3 : UInt32).toNat = 3 := rfl
  have hcount : (width.toUInt32 * height.toUInt32 * 3).toNat =
      3 * (width.toNat * height.toNat) := by
    rw [UInt32.toNat_mul, hplane, h3, Nat.mul_comm _ 3]
    exact Nat.mod_eq_of_lt (show _ < 4294967296 by omega)
  rw [clear, hcount, if_pos (Nat.le_of_eq h.symm), List.drop_of_length_le (Nat.le_of_eq h),
    List.append_nil]
  refine ⟨_, rfl, ?_⟩
  constructor
  case length => exact List.length_replicate
  case drawn => exact fun _ _ h0 => absurd h0 (Nat.not_lt_zero _)
  case blank =>
    intro x y hx hy _
    have hlt := place_lt hy hx
    have zero {i : Nat} (hi : i < 3 * (width.toNat * height.toNat)) :
        (List.replicate (3 * (width.toNat * height.toNat)) (0 : UInt8))[i]? = some 0 := by
      rw [List.getElem?_replicate, if_pos hi]
    rw [pixelAt, zero (by omega), zero (by omega), zero (by omega)]

-- The image as it is returned.
theorem transformRgb565_filled (hv : viewport width height rotate = some view)
    (hl : source.length = width.toNat * height.toNat)
    (h : planar.length = 3 * (width.toNat * height.toNat)) :
    ∃ planar', transformRgb565 source width height rotate planar = some (true, planar') ∧
      Filled source view width height rotate (fun _ _ => True) planar' := by
  have hs := shown hv
  obtain ⟨planar₀, h₀, hf₀⟩ := @clear_filled width height rotate view source planar hs h
  have hrun := @foldlM_range _
    (fun planar y => transformRow source view width height rotate y planar) view.dstH.toNat planar₀
    (fun i => Filled source view width height rotate fun _ y' => y' < i) hf₀
    (fun i hi planar hf => hf.row hs hl hi)
  obtain ⟨planar', hp, hf⟩ := hrun
  refine ⟨planar', ?_, hf.congr fun x' y' _ hy' => by simp [hy']⟩
  rw [transformRgb565, hv]
  simp only [Option.bind_eq_bind, Option.pure_def, h₀, Option.bind_some, hp]

-- In every image, the result has at `i` and `j` the source's pixel at `column` and `row`.
def Fills (width height : UInt16) (rotate : UInt8) (column row i j : Nat) : Prop :=
  column < width.toNat ∧ row < height.toNat ∧ i < width.toNat ∧ j < height.toNat ∧
    ∀ source planar, source.length = width.toNat * height.toNat →
      planar.length = 3 * (width.toNat * height.toNat) →
      ∃ planar' pixel, transformRgb565 source width height rotate planar = some (true, planar') ∧
        source[row * width.toNat + column]? = some pixel ∧
        pixelAt planar' (width.toNat * height.toNat) (j * width.toNat + i) = rgb pixel

theorem fills_drawn (hv : viewport width height rotate = some view) (hx : x < view.dstW.toNat)
    (hy : y < view.dstH.toNat) :
    Fills width height rotate (sourceColumn view rotate x y) (sourceRow view height rotate x y)
      (x + view.dstX.toNat) (y + view.dstY.toNat) := by
  have hs := shown hv
  have hdx := hs.inside.dstX_le
  have hdy := hs.inside.dstY_le
  obtain ⟨hcolumn, hrow⟩ := source_lt hs hx hy
  refine ⟨hcolumn, hrow, by omega, by omega, fun source planar hl hp => ?_⟩
  obtain ⟨planar', ht, hf⟩ := transformRgb565_filled hv hl hp
  obtain ⟨pixel, hpixel, hat⟩ := hf.drawn hx hy trivial
  exact ⟨planar', pixel, ht, hpixel, hat⟩

-- A source that is white in one place and black elsewhere tells where a pixel is from.
theorem fills_iff (hv : viewport width height rotate = some view) {column row i j : Nat} :
    Fills width height rotate column row i j ↔
      ∃ x y, x < view.dstW.toNat ∧ y < view.dstH.toNat ∧ column = sourceColumn view rotate x y ∧
        row = sourceRow view height rotate x y ∧ i = x + view.dstX.toNat ∧
        j = y + view.dstY.toNat := by
  constructor
  case mpr =>
    rintro ⟨x, y, hx, hy, rfl, rfl, rfl, rfl⟩
    exact fills_drawn hv hx hy
  case mp =>
    rintro ⟨hcolumn, hrow, hi, hj, hfills⟩
    have hs := shown hv
    have hlt := place_lt hrow hcolumn
    have hl : ((List.replicate (width.toNat * height.toNat) (0 : UInt16)).set
        (row * width.toNat + column) 65535).length = width.toNat * height.toNat := by
      rw [List.length_set, List.length_replicate]
    have hp : (List.replicate (3 * (width.toNat * height.toNat)) (0 : UInt8)).length =
      3 * (width.toNat * height.toNat) := List.length_replicate
    obtain ⟨planar', pixel, ht, hpixel, hat⟩ := hfills _ _ hl hp
    obtain ⟨planar'', ht', hf⟩ := transformRgb565_filled hv hl hp
    rw [ht'] at ht
    cases ht
    rw [List.getElem?_set_self (by rw [List.length_replicate]; exact hlt)] at hpixel
    cases hpixel
    by_cases hdrawn : ∃ x y, x < view.dstW.toNat ∧ y < view.dstH.toNat ∧
      i = x + view.dstX.toNat ∧ j = y + view.dstY.toNat
    case pos =>
      obtain ⟨x, y, hx, hy, rfl, rfl⟩ := hdrawn
      obtain ⟨other, hother, hat'⟩ := hf.drawn hx hy trivial
      obtain ⟨hcolumn', hrow'⟩ := source_lt hs hx hy
      refine ⟨x, y, hx, hy, ?_⟩
      by_cases he : row * width.toNat + column =
        sourceRow view height rotate x y * width.toNat + sourceColumn view rotate x y
      case pos =>
        obtain ⟨hr, hc⟩ := place_inj hcolumn hcolumn' he
        exact ⟨hc, hr, rfl, rfl⟩
      case neg =>
        rw [List.getElem?_set_ne he, List.getElem?_replicate,
          if_pos (place_lt hrow' hcolumn')] at hother
        cases hother
        rw [hat'] at hat
        exact absurd hat (by decide)
    case neg =>
      rw [hf.blank hi hj fun x y hx hy _ h => hdrawn ⟨x, y, hx, hy, h⟩] at hat
      exact absurd hat (by decide)

-- Where the image is not shown, nothing is drawn.
theorem not_fills (hv : viewport width height rotate = none) {column row i j : Nat} :
    ¬Fills width height rotate column row i j := by
  rintro ⟨_, _, _, _, hfills⟩
  obtain ⟨planar', pixel, ht, _⟩ := hfills (.replicate (width.toNat * height.toNat) 0)
    (.replicate (3 * (width.toNat * height.toNat)) 0) List.length_replicate List.length_replicate
  rw [transformRgb565, hv] at ht
  cases ht

def Box.Has (box : Box) (i j : Nat) : Prop :=
  box.x.toInt ≤ i ∧ i < box.x.toInt + box.w.toInt ∧
    box.y.toInt ≤ j ∧ j < box.y.toInt + box.h.toInt

-- One axis of a box that is led back.
structure Led (first last : Int) (dst src size : UInt16) : Prop where
  lt : (sourceFirst first dst src size).toNat < (sourceEnd last dst src size).toNat
  le : (sourceEnd last dst src size).toNat ≤ src.toNat
  mem {i : Nat} (hi : first ≤ i + dst.toNat) (hl : i + dst.toNat < last) :
    (sourceFirst first dst src size).toNat ≤ i * src.toNat / size.toNat ∧
      i * src.toNat / size.toNat < (sourceEnd last dst src size).toNat

theorem sourceFirst_toNat {first : Int} {dst src size : UInt16} {a : Nat}
    (ha : first = dst.toNat + a) (h : a < size.toNat) (hs : 0 < src.toNat) :
    (sourceFirst first dst src size).toNat = a * src.toNat / size.toNat := by
  have hsl := src.toNat_lt
  have hd := size.toNat_lt
  have he : (first - dst.toNat).toNat = a := by omega
  have hmul := toUInt32_mul_le (.ofNat a) src
  have ha' : (UInt16.ofNat a).toNat = a := UInt16.toNat_ofNat_of_lt' (show a < 65536 by omega)
  have ha'' : (UInt32.ofNat a).toNat = a :=
    UInt32.toNat_ofNat_of_lt' (show a < 4294967296 by omega)
  rw [ha'] at hmul
  rw [sourceFirst, he, UInt32.toNat_toUInt16, UInt32.toNat_div, UInt32.toNat_mul, ha'',
    UInt16.toNat_toUInt32, UInt16.toNat_toUInt32,
    Nat.mod_eq_of_lt (show a * _ < 4294967296 by omega)]
  exact Nat.mod_eq_of_lt (Nat.lt_trans (scaled_lt h hs) (by omega))

theorem sourceEnd_toNat {last : Int} {dst src size : UInt16} {b : Nat}
    (hb : last = dst.toNat + b) (h : b ≤ size.toNat) (hd : 0 < size.toNat) :
    (sourceEnd last dst src size).toNat = (b * src.toNat + size.toNat - 1) / size.toNat ∧
      (b * src.toNat + size.toNat - 1) / size.toNat ≤ src.toNat := by
  have hsl := src.toNat_lt
  have hdl := size.toNat_lt
  have he : (last - dst.toNat).toNat = b := by omega
  have hmul := toUInt32_mul_le (.ofNat b) src
  have hb' : (UInt16.ofNat b).toNat = b := UInt16.toNat_ofNat_of_lt' (show b < 65536 by omega)
  have hb'' : (UInt32.ofNat b).toNat = b :=
    UInt32.toNat_ofNat_of_lt' (show b < 4294967296 by omega)
  rw [hb'] at hmul
  have hle : (b * src.toNat + size.toNat - 1) / size.toNat ≤ src.toNat := by
    refine Nat.lt_succ_iff.mp (Nat.div_lt_of_lt_mul ?_)
    have := Nat.mul_le_mul_right src.toNat h
    rw [Nat.mul_succ]
    omega
  refine ⟨?_, hle⟩
  have h1 : (1 : UInt32).toNat = 1 := rfl
  have hsum : (UInt32.ofNat b * src.toUInt32 + size.toUInt32).toNat =
      b * src.toNat + size.toNat := by
    rw [UInt32.toNat_add, UInt32.toNat_mul, hb'', UInt16.toNat_toUInt32, UInt16.toNat_toUInt32,
      Nat.mod_eq_of_lt (show b * _ < 4294967296 by omega)]
    exact Nat.mod_eq_of_lt (show _ < 4294967296 by omega)
  have hone : (1 : UInt32) ≤ UInt32.ofNat b * src.toUInt32 + size.toUInt32 := by
    rw [UInt32.le_iff_toNat_le, hsum, h1]
    omega
  rw [sourceEnd, he, UInt32.toNat_toUInt16, UInt32.toNat_div, UInt32.toNat_sub_of_le _ _ hone, hsum,
    h1, UInt16.toNat_toUInt32]
  exact Nat.mod_eq_of_lt (Nat.lt_of_le_of_lt hle hsl)

-- What is rounded down is below what is rounded up further on.
theorem floor_lt_ceil {i b src size : Nat} (h : i < b) (hs : 0 < src) (hd : 0 < size) :
    i * src / size < (b * src + size - 1) / size := by
  have hle : i * src + src ≤ b * src := by
    rw [← Nat.succ_mul]
    exact Nat.mul_le_mul_right src h
  calc i * src / size < i * src / size + 1 := Nat.lt_succ_self _
    _ = (i * src + size) / size := (Nat.add_div_right _ hd).symm
    _ ≤ (b * src + size - 1) / size := Nat.div_le_div_right (by omega)

theorem led {first last : Int} {dst src size : UInt16} (hf : dst.toNat ≤ first) (h : first < last)
    (hl : last ≤ dst.toNat + size.toNat) (hs : 0 < src.toNat) : Led first last dst src size := by
  obtain ⟨a, ha⟩ := Int.eq_ofNat_of_zero_le (show 0 ≤ first - dst.toNat by omega)
  obtain ⟨b, hb⟩ := Int.eq_ofNat_of_zero_le (show 0 ≤ last - dst.toNat by omega)
  have hfirst := @sourceFirst_toNat first dst src size a (by omega) (by omega) hs
  obtain ⟨hend, hle⟩ := @sourceEnd_toNat last dst src size b (by omega) (by omega) (by omega)
  constructor
  case lt =>
    rw [hfirst, hend]
    exact floor_lt_ceil (by omega) hs (by omega)
  case le => rw [hend]; exact hle
  case mem =>
    intro i hi hil
    rw [hfirst, hend]
    exact ⟨Nat.div_le_div_right (Nat.mul_le_mul_right _ (by omega)),
      floor_lt_ceil (by omega) hs (by omega)⟩

structure Box.Within (box : Box) (width height : UInt16) : Prop where
  x_nonneg : 0 ≤ box.x.toInt
  y_nonneg : 0 ≤ box.y.toInt
  w_pos : 0 < box.w.toInt
  h_pos : 0 < box.h.toInt
  x_le : box.x.toInt + box.w.toInt ≤ width.toNat
  y_le : box.y.toInt + box.h.toInt ≤ height.toNat

theorem toInt_pos_iff {i : Int16} : i > 0 ↔ 0 < i.toInt :=
  Int16.lt_iff_toInt_lt

variable {box : Box}

-- What the rectangle is like when the box meets the drawn area.
theorem transformRect_met (hv : viewport width height rotate = some view) (hw : 0 < box.w.toInt)
    (hh : 0 < box.h.toInt)
    (hx : max box.x.toInt view.dstX.toNat <
      min (box.x.toInt + box.w.toInt) (view.dstX.toNat + view.dstW.toNat))
    (hy : max box.y.toInt view.dstY.toNat <
      min (box.y.toInt + box.h.toInt) (view.dstY.toNat + view.dstH.toNat)) :
    (transformRect width height rotate box).1 = true ∧
      (transformRect width height rotate box).2.Within width height ∧
      ∀ column row i j, Fills width height rotate column row i j → box.Has i j →
        (transformRect width height rotate box).2.Has column row := by
  have hs := shown hv
  have hc := @led _ _ view.dstX view.srcW view.dstW (Int.le_max_right _ _) hx (Int.min_le_right _ _)
    hs.inside.srcW_pos
  have hr := @led _ _ view.dstY view.srcH view.dstH (Int.le_max_right _ _) hy (Int.min_le_right _ _)
    hs.inside.srcH_pos
  have hwl := hs.width_le
  have hhl := hs.height_le
  have hsx := hs.inside.srcX_le
  have hsy := hs.inside.srcY_le
  have hn : ¬(box.w ≤ 0 ∨ box.h ≤ 0) := by
    rw [not_or, Int16.not_le, Int16.not_le]
    exact ⟨Int16.lt_iff_toInt_lt.mpr hw, Int16.lt_iff_toInt_lt.mpr hh⟩
  have small {i : Int} (h₀ : 0 ≤ i) (h₁ : i ≤ 320) : (Int16.ofInt i).toInt = i :=
    Int16.toInt_ofInt_of_le (by omega) (by omega)
  rw [transformRect, if_neg hn, hv]
  dsimp only
  rw [if_neg (by omega)]
  simp only [fills_iff hv]
  obtain ⟨hclt, hcle, hcmem⟩ := hc
  obtain ⟨hrlt, hrle, hrmem⟩ := hr
  generalize (sourceFirst (max box.x.toInt view.dstX.toNat) _ _ _).toNat = u₀ at *
  generalize (sourceFirst (max box.y.toInt view.dstY.toNat) _ _ _).toNat = v₀ at *
  generalize (sourceEnd (min (box.x.toInt + box.w.toInt) _) _ _ _).toNat = u₁ at *
  generalize (sourceEnd (min (box.y.toInt + box.h.toInt) _) _ _ _).toNat = v₁ at *
  by_cases hrot : rotate ≠ 0
  case pos =>
    simp only [if_pos hrot, sourceColumn, sourceRow] at hsx hsy ⊢
    have hx := @small v₀ (by omega) (by omega)
    have hy := @small (height.toNat - u₁) (by omega) (by omega)
    have hw := @small (v₁ - v₀) (by omega) (by omega)
    have hh := @small (u₁ - u₀) (by omega) (by omega)
    refine ⟨decide_eq_true ⟨toInt_pos_iff.mpr (by omega), toInt_pos_iff.mpr (by omega)⟩,
      by constructor <;> dsimp only <;> omega, ?_⟩
    rintro _ _ _ _ ⟨x, y, hxl, hyl, rfl, rfl, rfl, rfl⟩ ⟨h₁, h₂, h₃, h₄⟩
    have hcolumn := @hcmem x (by omega) (by omega)
    have hrow := @hrmem y (by omega) (by omega)
    simp only [Box.Has, hx, hy, hw, hh]
    omega
  case neg =>
    simp only [if_neg hrot, sourceColumn, sourceRow] at hsx hsy ⊢
    have hx := @small u₀ (by omega) (by omega)
    have hy := @small v₀ (by omega) (by omega)
    have hw := @small (u₁ - u₀) (by omega) (by omega)
    have hh := @small (v₁ - v₀) (by omega) (by omega)
    refine ⟨decide_eq_true ⟨toInt_pos_iff.mpr (by omega), toInt_pos_iff.mpr (by omega)⟩,
      by constructor <;> dsimp only <;> omega, ?_⟩
    rintro _ _ _ _ ⟨x, y, hxl, hyl, rfl, rfl, rfl, rfl⟩ ⟨h₁, h₂, h₃, h₄⟩
    have hcolumn := @hcmem x (by omega) (by omega)
    have hrow := @hrmem y (by omega) (by omega)
    simp only [Box.Has, hx, hy, hw, hh]
    omega

theorem transformRect_isSome_iff (hw : 0 < box.w.toInt) (hh : 0 < box.h.toInt) :
    (transformRect width height rotate box).1 = true ↔
      ∃ column row i j, Fills width height rotate column row i j ∧ box.Has i j := by
  have hn : ¬(box.w ≤ 0 ∨ box.h ≤ 0) := by
    rw [not_or, Int16.not_le, Int16.not_le]
    exact ⟨Int16.lt_iff_toInt_lt.mpr hw, Int16.lt_iff_toInt_lt.mpr hh⟩
  cases hv : viewport width height rotate
  case none =>
    rw [transformRect, if_neg hn, hv]
    constructor
    case mp => exact fun h => nomatch h
    case mpr => exact fun ⟨_, _, _, _, hf, _⟩ => absurd hf (not_fills hv)
  case some view =>
    have hs := shown hv
    have hdx := hs.inside.dstX_le
    have hdy := hs.inside.dstY_le
    have hwl := hs.width_le
    have hhl := hs.height_le
    constructor
    case mp =>
      intro h
      rw [transformRect, if_neg hn, hv] at h
      dsimp only at h
      split at h
      case isTrue  => cases h
      case isFalse hmet =>
        -- The upper left corner of what they share.
        obtain ⟨x, hx⟩ := Int.eq_ofNat_of_zero_le
          (show 0 ≤ max box.x.toInt view.dstX.toNat - view.dstX.toNat by omega)
        obtain ⟨y, hy⟩ := Int.eq_ofNat_of_zero_le
          (show 0 ≤ max box.y.toInt view.dstY.toNat - view.dstY.toNat by omega)
        refine ⟨_, _, _, _, fills_drawn hv (show x < _ by omega) (show y < _ by omega), ?_⟩
        rw [Box.Has]
        omega
    case mpr =>
      rintro ⟨column, row, i, j, hf, h₁, h₂, h₃, h₄⟩
      obtain ⟨x, y, hx, hy, rfl, rfl, rfl, rfl⟩ := (fills_iff hv).mp hf
      exact (transformRect_met hv hw hh (by omega) (by omega)).left

-- What is returned true of is inside of the source.
theorem transformRect_within (hw : 0 < box.w.toInt) (hh : 0 < box.h.toInt)
    (h : (transformRect width height rotate box).1 = true) :
    (transformRect width height rotate box).2.Within width height ∧
      ∀ column row i j, Fills width height rotate column row i j → box.Has i j →
        (transformRect width height rotate box).2.Has column row := by
  obtain ⟨column, row, i, j, hf, h₁, h₂, h₃, h₄⟩ := (transformRect_isSome_iff hw hh).mp h
  cases hv : viewport width height rotate
  case none => exact absurd hf (not_fills hv)
  case some view =>
    obtain ⟨x, y, hx, hy, rfl, rfl, rfl, rfl⟩ := (fills_iff hv).mp hf
    exact (transformRect_met hv hw hh (by omega) (by omega)).right

-- No place outside of the source or of the planes is accessed.
theorem transformRgb565_total {source : List UInt16} {planar : List UInt8}
    (hl : source.length = width.toNat * height.toNat)
    (hp : planar.length = 3 * (width.toNat * height.toNat)) :
    ∃ done planar', transformRgb565 source width height rotate planar = some (done, planar') ∧
      planar'.length = planar.length := by
  cases hv : viewport width height rotate
  case none => exact ⟨false, planar, by rw [transformRgb565, hv]; rfl, rfl⟩
  case some view =>
    obtain ⟨planar', ht, hf⟩ := transformRgb565_filled hv hl hp
    exact ⟨true, planar', ht, hf.length.trans hp.symm⟩

theorem boxes_lead_back (width height : UInt16) (rotate : UInt8) :
    (∀ srcW srcH dstW dstH mode view, viewportCalculate srcW srcH dstW dstH mode = some view →
      view.Inside srcW srcH dstW dstH) ∧
    (∀ source planar, source.length = width.toNat * height.toNat →
      planar.length = 3 * (width.toNat * height.toNat) → ∃ done planar',
        transformRgb565 source width height rotate planar = some (done, planar') ∧
          planar'.length = planar.length) ∧
    ∀ box : Box, 0 < box.w.toInt → 0 < box.h.toInt →
      ((transformRect width height rotate box).1 = true ↔
        ∃ column row i j, Fills width height rotate column row i j ∧ box.Has i j) ∧
      ((transformRect width height rotate box).1 = true →
        (transformRect width height rotate box).2.Within width height ∧
          ∀ column row i j, Fills width height rotate column row i j → box.Has i j →
            (transformRect width height rotate box).2.Has column row) :=
  ⟨fun _ _ _ _ _ _ => viewportCalculate_inside, fun _ _ => transformRgb565_total,
    fun _ hw hh => ⟨transformRect_isSome_iff hw hh, transformRect_within hw hh⟩⟩

-- A quarter turn of an image with margins on both sides.
theorem boxes_lead_back_turned :
    (transformRect 4 3 1 ⟨0, 0, 2, 2⟩).1 = true ∧
      (transformRect 4 3 1 ⟨0, 0, 2, 2⟩).2.Within 4 3 := by
  have h := (boxes_lead_back 4 3 1).right.right ⟨0, 0, 2, 2⟩ (by decide) (by decide)
  exact ⟨by decide, (h.right (by decide)).left⟩

end CameraAi
