import HackyLens.Photo.Theorems.Decoding

-- Which photos the viewer shows as they were taken.

open LittleEndian Core

namespace Files

open Photo

variable {image : Image} {width height : Nat} {format : PhotoFormat}

section Pixels

variable {dataOffset rowBytes bpp r x k : Nat} {bgrOrder : Bool}

theorem row_col {s : Nat} (hk : k < s) : (r * s + k) / s = r ∧ (r * s + k) % s = k := by
  have hs : 0 < s := Nat.zero_lt_of_lt hk
  constructor
  · rw [Nat.mul_comm, Nat.mul_add_div hs, Nat.div_eq_of_lt hk, Nat.add_zero]
  · rw [Nat.mul_comm, Nat.mul_add_mod, Nat.mod_eq_of_lt hk]

theorem row_lt {s : Nat} (hr : r < height) (hk : k < s) : r * s + k < s * height := by
  have : (r + 1) * s ≤ height * s := Nat.mul_le_mul_right s hr
  rw [Nat.succ_mul, Nat.mul_comm height s] at this
  omega

-- A byte in a row of the file.
theorem at'_row {i : Nat} (hi : k + i < rowBytes)
    (hf : dataOffset + (r + 1) * rowBytes ≤ formatSize format width height) :
    at' (((photo image width height format).drop (dataOffset + r * rowBytes)).take rowBytes) k i =
      fileByte image width height format (dataOffset + (r * rowBytes + (k + i))) := by
  rw [Nat.succ_mul] at hf
  rw [photo_piece (by omega), at'_map_range hi, Nat.add_assoc]

theorem bmp565Byte_row (hr : r < height) (hx : x < width) {i : Nat} (hi : i < 2) :
    bmp565Byte image width height (bmp565HeaderSize + (r * bmp565RowBytes width + (x * 2 + i))) =
      half (image x (height - 1 - r)) (i = 1) := by
  have hk : x * 2 + i < bmp565RowBytes width := by
    simp only [bmp565RowBytes, align4]
    omega
  obtain ⟨hrow, hcol⟩ := row_col (r := r) hk
  have hlt := row_lt hr hk
  have hx' : (x * 2 + i) / 2 = x := by omega
  have hi' : (x * 2 + i) % 2 = i := by omega
  rw [bmp565Byte, if_neg (by omega)]
  simp only [Nat.add_sub_cancel_left, hrow, hcol, hx', hi']
  rw [if_neg (by omega), if_neg (by omega)]

-- The byte `i` of a pixel in a bitmap of 24 bits, and in a pixmap.
def bgrByte (color : UInt16) (i : Nat) : UInt8 :=
  if i = 0 then blue color else if i = 1 then green color else red color

def rgbByte (color : UInt16) (i : Nat) : UInt8 :=
  if i = 0 then red color else if i = 1 then green color else blue color

theorem bmp24Byte_row (hr : r < height) (hx : x < width) {i : Nat} (hi : i < 3) :
    bmp24Byte image width height (bmpHeaderSize + (r * (width * 3) + (x * 3 + i))) =
      bgrByte (image x (height - 1 - r)) i := by
  have hk : x * 3 + i < width * 3 := by omega
  obtain ⟨hrow, hcol⟩ := row_col (r := r) hk
  have hlt := row_lt hr hk
  have hx' : (x * 3 + i) / 3 = x := by omega
  have hi' : (x * 3 + i) % 3 = i := by omega
  rw [bmp24Byte, if_neg (by omega)]
  simp only [Nat.add_sub_cancel_left, rgb888RowBytes, hrow, hcol, hx', hi']
  rw [if_neg (by omega), if_neg (by omega)]
  rfl

theorem ppmByte_row (hr : r < height) (hx : x < width) {i : Nat} (hi : i < 3) :
    ppmByte image width height
      ((makePpmHeader width height).length + (r * bmp24RowBytes width + (x * 3 + i))) =
        rgbByte (image x r) i := by
  have hk : x * 3 + i < bmp24RowBytes width := by
    simp only [bmp24RowBytes, align4]
    omega
  obtain ⟨hrow, hcol⟩ := row_col (r := r) hk
  have hlt := row_lt hr hk
  have hx' : (x * 3 + i) / 3 = x := by omega
  have hi' : (x * 3 + i) % 3 = i := by omega
  rw [ppmByte, if_neg (by omega)]
  simp only [Nat.add_sub_cancel_left, hrow, hcol, hx', hi']
  rw [if_neg (by omega), if_neg (by omega)]
  rfl

end Pixels
-- What is to be seen of a pixel.
def shown (format : PhotoFormat) (color : UInt16) : UInt16 :=
  match format with
  | .bmp24 | .ppm     => rgb565 (red color) (green color) (blue color)
  | .bmp565 | .raw565 => color

-- The viewer renders each row of the image once.
structure Viewed (format : PhotoFormat) (image : Image) (width height : Nat)
    (outcome : FileResult × List RowSpan) : Prop where
  ok     : outcome.fst = .ok
  rows   : (outcome.snd.map (·.srcY)).Perm (List.range height)
  size   : ∀ span ∈ outcome.snd, span.srcW = width ∧ span.srcH = height
  pixels : ∀ span ∈ outcome.snd, ∀ x < width, span.pixel x = shown format (image x span.srcY)

section Rows

variable {file : List UInt8} {dataOffset rowBytes bpp : Nat} {bgrOrder : Bool} {y : Nat → Nat}

theorem fileRows_viewed (hy : ((List.range height).map y).Perm (List.range height))
    (hp : ∀ r < height, ∀ x < width,
      (fileRow file dataOffset rowBytes width height bpp bgrOrder y r).pixel x =
        shown format (image x (y r))) :
    Viewed format image width height
      (.ok, fileRows file dataOffset rowBytes width height bpp bgrOrder y) where
  ok   := rfl
  rows   := by simpa [fileRows, Function.comp_def, fileRow] using hy
  size   := by simp [fileRows, fileRow]
  pixels span hs x hx := by
    obtain ⟨r, hr, rfl⟩ := List.mem_map.mp hs
    exact hp r (List.mem_range.mp hr) x hx

theorem Viewed.pixel {r x : Nat} (h : Viewed format image width height
    (.ok, fileRows file dataOffset rowBytes width height bpp bgrOrder y)) (hr : r < height)
    (hx : x < width) :
    (fileRow file dataOffset rowBytes width height bpp bgrOrder y r).pixel x =
      shown format (image x (y r)) :=
  h.pixels _ (List.mem_map_of_mem (List.mem_range.mpr hr)) x hx

theorem fileRow_pixel_24 {r x : Nat} :
    (fileRow file dataOffset rowBytes width height 24 bgrOrder y r).pixel x =
      let px := at' (fileRow file dataOffset rowBytes width height 24 bgrOrder y r).row (x * 3)
      if bgrOrder then rgb565 (px 2) (px 1) (px 0) else rgb565 (px 0) (px 1) (px 2) :=
  rfl

theorem map_sub_range : (List.range height).map (height - 1 - ·) = (List.range height).reverse := by
  refine List.ext_getElem (by simp) fun i _ _ => ?_
  simp

theorem perm_map_sub : ((List.range height).map (height - 1 - ·)).Perm (List.range height) :=
  map_sub_range ▸ List.reverse_perm _

end Rows

theorem bmp565_viewed (h : Fits width height) :
    Viewed .bmp565 image width height
      (openPhoto .bmp565 (photo image width height .bmp565) true) := by
  rw [openPhoto_bmp565 h]
  refine fileRows_viewed perm_map_sub fun r hr x hx => ?_
  have hk (i) (hi : i < 2) : x * 2 + i < bmp565RowBytes width := by
    simp only [bmp565RowBytes, align4]
    omega
  have hf : bmp565HeaderSize + (r + 1) * bmp565RowBytes width ≤ formatSize .bmp565 width height := by
    rw [formatSize, Nat.mul_comm (bmp565RowBytes width)]
    exact Nat.add_le_add_left (Nat.mul_le_mul_right _ hr) _
  have hv : u16 (at' (bytes16 (image x (height - 1 - r))) 0) = image x (height - 1 - r) := by
    simpa using u16_bytes16 [] (image x (height - 1 - r)) []
  refine (u16_congr fun i hi => ?_).trans hv
  simp only [fileRow]
  rw [at'_row (hk i hi) hf]
  refine (bmp565Byte_row hr hx hi).trans ?_
  obtain rfl | rfl : i = 0 ∨ i = 1 := by omega
  all_goals rfl

-- The rows begin in the file where they begin among the pixels.
def Aligned (width height : Nat) : Prop :=
  ∀ r < height, r * bmp24RowBytes width = r * (width * 3)

theorem aligned (h : width % 4 = 0 ∨ height = 1) : Aligned width height := by
  intro r hr
  rcases h with h | rfl
  case inl =>
    congr 1
    simp only [bmp24RowBytes, align4]
    omega
  case inr =>
    obtain rfl := Nat.lt_one_iff.mp hr
    rw [Nat.zero_mul, Nat.zero_mul]

theorem bmp24_viewed (h : Fits width height)
    (hsize : bmp565HeaderSize ≤ formatSize .bmp24 width height) (ha : Aligned width height) :
    Viewed .bmp24 image width height (openPhoto .bmp24 (photo image width height .bmp24) true) := by
  rw [openPhoto_bmp24 h hsize]
  refine fileRows_viewed perm_map_sub fun r hr x hx => ?_
  have hk (i) (hi : i < 3) : x * 3 + i < bmp24RowBytes width := by
    simp only [bmp24RowBytes, align4]
    omega
  have hf : bmpHeaderSize + (r + 1) * bmp24RowBytes width ≤ formatSize .bmp24 width height := by
    rw [formatSize, Nat.mul_comm (bmp24RowBytes width)]
    exact Nat.add_le_add_left (Nat.mul_le_mul_right _ hr) _
  have hb (i) (hi : i < 3) : at' (fileRow (photo image width height .bmp24) bmpHeaderSize
      (bmp24RowBytes width) width height 24 true (height - 1 - ·) r).row (x * 3) i =
        bgrByte (image x (height - 1 - r)) i := by
    simp only [fileRow]
    rw [at'_row (hk i hi) hf, ha r hr]
    exact bmp24Byte_row hr hx hi
  simp only [fileRow_pixel_24, hb 0 (by decide), hb 1 (by decide), hb 2 (by decide)]
  rfl

theorem ppm_viewed (h : Fits width height)
    (hsize : bmp565HeaderSize ≤ formatSize .ppm width height) (ha : Aligned width height) :
    Viewed .ppm image width height (openPhoto .ppm (photo image width height .ppm) true) := by
  rw [openPhoto_ppm h hsize]
  refine fileRows_viewed (by simp) fun r hr x hx => ?_
  have hf : (makePpmHeader width height).length + (r + 1) * (width * 3) ≤
      formatSize .ppm width height := by
    rw [formatSize, rgb888RowBytes, Nat.mul_comm (width * 3)]
    exact Nat.add_le_add_left (Nat.mul_le_mul_right _ hr) _
  have hb (i) (hi : i < 3) : at' (fileRow (photo image width height .ppm)
      (makePpmHeader width height).length (width * 3) width height 24 false id r).row (x * 3) i =
        rgbByte (image x r) i := by
    simp only [fileRow]
    rw [at'_row (by omega) hf, ← ha r hr]
    exact ppmByte_row hr hx hi
  simp only [fileRow_pixel_24, hb 0 (by decide), hb 1 (by decide), hb 2 (by decide)]
  rfl

section Skewed

-- Without red there is no pixel that is all red.
theorem rgb565_zero_ne (g b : UInt8) : rgb565 0 g b ≠ shown .bmp24 0xF800 := by
  have hs : (shown .bmp24 0xF800).toBitVec.getLsbD 15 = true := by decide
  intro h
  rw [← h] at hs
  simp [rgb565] at hs

theorem black : red 0 = 0 ∧ green 0 = 0 ∧ blue 0 = 0 := by
  decide

-- One pixel is red.
def redDot (x₀ y₀ : Nat) : Image :=
  fun x y => if x = x₀ ∧ y = y₀ then 0xF800 else 0

-- How far the padded rows are ahead of the others, after one row.
theorem padding (hw : width % 4 ≠ 0) :
    width * 3 < bmp24RowBytes width ∧ bmp24RowBytes width ≤ width * 3 + 3 := by
  simp only [bmp24RowBytes, align4]
  omega

-- The end of the second row is taken from the third, or it is past all pixels.
theorem bmp24_skewed (hw : width % 4 ≠ 0) (hh : height ≠ 1) (h : Fits width height)
    (hsize : bmp565HeaderSize ≤ formatSize .bmp24 width height) :
    ¬Viewed .bmp24 (redDot (width - 1) (height - 2)) width height
      (openPhoto .bmp24 (photo (redDot (width - 1) (height - 2)) width height .bmp24) true) := by
  intro hv
  have hpos := h.height_pos
  have hwp := h.width_pos
  obtain ⟨hp₁, hp₃⟩ := padding hw
  have hr : 1 < height := by omega
  have hx : width - 1 < width := by omega
  have hf : bmpHeaderSize + (1 + 1) * bmp24RowBytes width ≤ formatSize .bmp24 width height := by
    rw [formatSize, Nat.mul_comm (bmp24RowBytes width)]
    exact Nat.add_le_add_left (Nat.mul_le_mul_right _ hr) _
  rw [openPhoto_bmp24 h hsize] at hv
  have hp := hv.pixel hr hx
  have hred : bmp24Byte (redDot (width - 1) (height - 2)) width height
      (bmpHeaderSize + (1 * bmp24RowBytes width + ((width - 1) * 3 + 2))) = 0 := by
    obtain ⟨c, hc, he⟩ : ∃ c < 3, 1 * bmp24RowBytes width + ((width - 1) * 3 + 2) =
        2 * (width * 3) + c := ⟨bmp24RowBytes width - (width * 3 + 1), by omega, by omega⟩
    obtain ⟨hrow, hcol⟩ := row_col (r := 2) (k := c) (s := width * 3) (by omega)
    rw [he, bmp24Byte, if_neg (by omega)]
    simp only [Nat.add_sub_cancel_left, rgb888RowBytes]
    split
    case isTrue     => rfl
    case isFalse hd =>
      have h₂ : height ≠ 2 := by
        rintro rfl
        omega
      have hy : height - 1 - 2 ≠ height - 2 := by omega
      simp only [hrow, hcol, redDot, hy, and_false, if_false, black, ite_self]
  have hy : height - 1 - 1 = height - 2 := by omega
  have hrow : at' (fileRow (photo (redDot (width - 1) (height - 2)) width height .bmp24)
      bmpHeaderSize (bmp24RowBytes width) width height 24 true (height - 1 - ·) 1).row
        ((width - 1) * 3) 2 = 0 := by
    simp only [fileRow]
    rw [at'_row (by omega) hf]
    exact hred
  simp only [fileRow_pixel_24, hrow, redDot, hy, and_self, if_true] at hp
  exact rgb565_zero_ne _ _ hp

-- The beginning of the second row is taken from the padding of the first.
theorem ppm_skewed (hw : width % 4 ≠ 0) (hh : height ≠ 1) (h : Fits width height)
    (hsize : bmp565HeaderSize ≤ formatSize .ppm width height) :
    ¬Viewed .ppm (redDot 0 1) width height
      (openPhoto .ppm (photo (redDot 0 1) width height .ppm) true) := by
  intro hv
  have hpos := h.height_pos
  have hwp := h.width_pos
  obtain ⟨hp₁, hp₃⟩ := padding hw
  have hr : 1 < height := by omega
  have hf : (makePpmHeader width height).length + (1 + 1) * (width * 3) ≤
      formatSize .ppm width height := by
    rw [formatSize, rgb888RowBytes, Nat.mul_comm (width * 3)]
    exact Nat.add_le_add_left (Nat.mul_le_mul_right _ hr) _
  rw [openPhoto_ppm h hsize] at hv
  have hp := hv.pixel hr hwp
  have hred : ppmByte (redDot 0 1) width height
      ((makePpmHeader width height).length + (1 * (width * 3) + (0 * 3 + 0))) = 0 := by
    obtain ⟨hrow, hcol⟩ := row_col (r := 0) (k := width * 3) hp₁
    rw [Nat.zero_mul, Nat.zero_add] at hrow hcol
    have hx : ¬width * 3 / 3 < width := by omega
    rw [ppmByte, if_neg (by omega)]
    simp only [Nat.add_sub_cancel_left, Nat.one_mul, Nat.zero_mul, Nat.add_zero, hrow, hcol]
    rw [if_pos (by omega : width * 3 / 3 ≥ width), ite_self]
  have hrow : at' (fileRow (photo (redDot 0 1) width height .ppm)
      (makePpmHeader width height).length (width * 3) width height 24 false id 1).row (0 * 3) 0 =
        0 := by
    simp only [fileRow]
    rw [at'_row (by omega) hf]
    exact hred
  simp only [fileRow_pixel_24, hrow, redDot, id_eq, and_self, if_true] at hp
  exact rgb565_zero_ne _ _ hp

end Skewed

-- A photo in one of the three formats is shown as it was taken, whatever the picture is and in
-- whatever chunks the file is written, just when no row is padded in one place only.
theorem photo_viewed_iff (hf : format ≠ .raw565) (h : Fits width height)
    (hsize : bmp565HeaderSize ≤ formatSize format width height) :
    (∀ (image : Image) (chunks : List Nat), (∀ len ∈ chunks, len < 2 ^ 16) →
      chunks.sum = formatSize format width height →
      Viewed format image width height
        (openPhoto format (fillFile image width height format 0 chunks) true)) ↔
    format = .bmp565 ∨ width % 4 = 0 ∨ height = 1 := by
  have hfile (image) (chunks : List Nat) (hs : chunks.sum = formatSize format width height) :
      fillFile image width height format 0 chunks = photo image width height format := by
    rw [fillFile_eq, hs, photo]
  constructor
  case mp =>
    intro hv
    by_contra hn
    rw [not_or, not_or] at hn
    obtain ⟨hn, hw, hh⟩ := hn
    have hone (image : Image) :
        Viewed format image width height (openPhoto format (photo image width height format) true) := by
      have hs : (List.replicate (formatSize format width height) 1).sum =
          formatSize format width height := by simp
      rw [← hfile image _ hs]
      refine hv image _ (fun len hl => ?_) hs
      rw [List.eq_of_mem_replicate hl]
      decide
    cases format
    case raw565 => exact hf rfl
    case bmp565 => exact hn rfl
    case bmp24  => exact bmp24_skewed hw hh h hsize (hone _)
    case ppm    => exact ppm_skewed hw hh h hsize (hone _)
  case mpr =>
    intro hc image chunks _ hs
    rw [hfile image chunks hs]
    cases format
    case raw565 => exact absurd rfl hf
    case bmp565 => exact bmp565_viewed h
    case bmp24  => exact bmp24_viewed h hsize (aligned (hc.resolve_left (by decide)))
    case ppm    => exact ppm_viewed h hsize (aligned (hc.resolve_left (by decide)))

theorem photo_viewed_iff_qqvga :
    (∀ (image : Image) (chunks : List Nat), (∀ len ∈ chunks, len < 2 ^ 16) →
      chunks.sum = formatSize .bmp24 160 120 →
      Viewed .bmp24 image 160 120
        (openPhoto .bmp24 (fillFile image 160 120 .bmp24 0 chunks) true)) ↔
    PhotoFormat.bmp24 = .bmp565 ∨ 160 % 4 = 0 ∨ 120 = 1 :=
  photo_viewed_iff (by decide) ⟨by decide, by decide, by decide, by decide⟩ (by decide)

-- A photo of two pixels by two with one red pixel, written in one call.
theorem photo_not_viewed :
    ¬Viewed .bmp24 (redDot 1 0) 2 2
      (openPhoto .bmp24 (fillFile (redDot 1 0) 2 2 .bmp24 0 [70]) true) := by
  rw [fillFile_eq]
  have h : Fits 2 2 := ⟨by decide, by decide, by decide, by decide⟩
  exact bmp24_skewed (by decide : 2 % 4 ≠ 0) (by decide : 2 ≠ 1) h (by decide)

end Files
