import HackyLens.Photo.Decode

-- What the viewer's decoders make of the headers and the rows of a photo file.

open LittleEndian Core

namespace Photo

variable {image : Image} {width height : Nat} {format : PhotoFormat} {chunks : List Nat}
variable {offset len pos : Nat}

-- A file does not depend on the chunks that it is written in.
theorem fillFile_eq : fillFile image width height format offset chunks =
    fillFileBytes image width height format offset chunks.sum := by
  induction chunks generalizing offset with
  | nil             => rfl
  | cons len chunks ih =>
    rw [fillFile, ih, List.sum_cons, fillFileBytes, fillFileBytes, fillFileBytes, List.range_add,
      List.map_append, List.map_map]
    simp [Nat.add_assoc, Function.comp_def]

-- The file of a photo of the given size.
def photo (image : Image) (width height : Nat) (format : PhotoFormat) : List UInt8 :=
  fillFileBytes image width height format 0 (formatSize format width height)

@[simp]
theorem photo_length : (photo image width height format).length = formatSize format width height := by
  simp [photo, fillFileBytes]

theorem photo_piece (h : pos + len ≤ formatSize format width height) :
    ((photo image width height format).drop pos).take len =
      (List.range len).map fun i => fileByte image width height format (pos + i) := by
  refine List.ext_getElem (by simp; omega) fun i hi _ => ?_
  simp [photo, fillFileBytes]

theorem getD_map_range {f : Nat → UInt8} {n i : Nat} (h : i < n) :
    ((List.range n).map f).getD i 0 = f i := by
  simp [h]

theorem at'_map_range {f : Nat → UInt8} {n k i : Nat} (h : k + i < n) :
    at' ((List.range n).map f) k i = f (k + i) :=
  getD_map_range h

section Headers

theorem u16_congr {p q : Bytes} (h : ∀ i < 2, p i = q i) : u16 p = u16 q := by
  simp [u16, h]

theorem u32_congr {p q : Bytes} (h : ∀ i < 4, p i = q i) : u32 p = u32 q := by
  simp [u32, h]

section Store

variable {header bytes : List UInt8} {at₁ at₂ : Nat}

@[simp]
theorem store_length : (store header at₁ bytes).length = header.length :=
  List.length_mapIdx

theorem at'_store {i : Nat} (h : at₁ + bytes.length ≤ header.length) (hi : i < bytes.length) :
    at' (store header at₁ bytes) at₁ i = bytes.getD i 0 := by
  have hl : at₁ + i < header.length := by omega
  simp [at', store, hl, hi]

-- What is stored elsewhere does not matter.
theorem at'_store_of_disjoint {i : Nat} (hi : at₂ + i < at₁ ∨ at₁ + bytes.length ≤ at₂ + i) :
    at' (store header at₁ bytes) at₂ i = at' header at₂ i := by
  have hn : ¬(at₁ ≤ at₂ + i ∧ at₂ + i < at₁ + bytes.length) := by omega
  simp [at', store, hn]

theorem u32_store {v : UInt32} (h : at₁ + 4 ≤ header.length) :
    u32 (at' (store header at₁ (wr32 v)) at₁) = v := by
  have hv : u32 (at' (bytes32 v) 0) = v := by simpa using u32_bytes32 [] v []
  refine (u32_congr fun i hi => ?_).trans hv
  rw [at'_store h hi, at', Nat.zero_add]
  rfl

theorem u16_store {v : UInt16} (h : at₁ + 2 ≤ header.length) :
    u16 (at' (store header at₁ (wr16 v)) at₁) = v := by
  have hv : u16 (at' (bytes16 v) 0) = v := by simpa using u16_bytes16 [] v []
  refine (u16_congr fun i hi => ?_).trans hv
  rw [at'_store h hi, at', Nat.zero_add]
  rfl

theorem u32_store_of_disjoint (h : at₂ + 4 ≤ at₁ ∨ at₁ + bytes.length ≤ at₂) :
    u32 (at' (store header at₁ bytes) at₂) = u32 (at' header at₂) :=
  u32_congr fun _ _ => at'_store_of_disjoint (by omega)

theorem u16_store_of_disjoint (h : at₂ + 2 ≤ at₁ ∨ at₁ + bytes.length ≤ at₂) :
    u16 (at' (store header at₁ bytes) at₂) = u16 (at' header at₂) :=
  u16_congr fun _ _ => at'_store_of_disjoint (by omega)

end Store

variable {k : Nat}

theorem bmp24Byte_header (h : k < bmpHeaderSize) :
    bmp24Byte image width height k = (makeBmpHeader width height).getD k 0 :=
  if_pos h

theorem bmp565Byte_header (h : k < bmp565HeaderSize) :
    bmp565Byte image width height k = (makeBmp565Header width height).getD k 0 :=
  if_pos h

-- The fields of a bitmap's header that the viewer reads.
structure BmpHeader (header : List UInt8) (width height dataOffset : Nat) (bpp : UInt16)
    (compression : UInt32) : Prop where
  magicB      : at' header 0 0 = 0x42
  magicM      : at' header 0 1 = 0x4D
  offsetEq    : u32 (at' header 10) = .ofNat dataOffset
  dibSizeGe   : 40 ≤ (u32 (at' header 14)).toNat
  widthEq     : u32 (at' header 18) = .ofNat width
  heightEq    : u32 (at' header 22) = .ofNat height
  bppEq       : u16 (at' header 28) = bpp
  compressEq  : u32 (at' header 30) = compression
  masks       : bpp = 16 → u32 (at' header 54) = 0x0000F800 ∧ u32 (at' header 58) = 0x000007E0 ∧
    u32 (at' header 62) = 0x0000001F

theorem dibSize_ge {size : UInt32} (h : size = 40) : 40 ≤ size.toNat := by
  rw [h]
  decide

theorem makeBmpHeader_fields :
    BmpHeader (makeBmpHeader width height) width height bmpHeaderSize bmpBpp 0 := by
  have hz : u32 (at' (List.replicate bmpHeaderSize 0) 30) = 0 := rfl
  refine ⟨?_, ?_, ?_, dibSize_ge ?_, ?_, ?_, ?_, ?_, fun h => absurd h (by decide)⟩
  all_goals simp (disch := simp [wr32, wr16, bmpHeaderSize]) only [makeBmpHeader, u32_store,
    u16_store, u32_store_of_disjoint, u16_store_of_disjoint, at'_store_of_disjoint, at'_store, hz]
  all_goals rfl

theorem makeBmp565Header_fields :
    BmpHeader (makeBmp565Header width height) width height bmp565HeaderSize 16 3 := by
  refine ⟨?_, ?_, ?_, dibSize_ge ?_, ?_, ?_, ?_, ?_, fun _ => ⟨?_, ?_, ?_⟩⟩
  all_goals simp (disch := simp [wr32, wr16, bmp565HeaderSize]) only [makeBmp565Header, u32_store,
    u16_store, u32_store_of_disjoint, u16_store_of_disjoint, at'_store_of_disjoint, at'_store]
  all_goals rfl

-- The masks are only there in a header of 66 bytes.
theorem BmpHeader.congr {header header' : List UInt8} {dataOffset : Nat} {bpp : UInt16}
    {compression : UInt32} (h : BmpHeader header width height dataOffset bpp compression)
    (hn : ∀ k < bmpHeaderSize, header'.getD k 0 = header.getD k 0)
    (hm : bpp = 16 → ∀ k < bmp565HeaderSize, header'.getD k 0 = header.getD k 0) :
    BmpHeader header' width height dataOffset bpp compression := by
  have hs : bmpHeaderSize = 54 := rfl
  have hs' : bmp565HeaderSize = 66 := rfl
  have ha (k i) (hk : k + i < 54) : at' header' k i = at' header k i := hn _ (by omega)
  have h₁₆ (k) (hk : k + 2 ≤ 54) : u16 (at' header' k) = u16 (at' header k) :=
    u16_congr fun i _ => ha k i (by omega)
  have h₃₂ (k) (hk : k + 4 ≤ 54) : u32 (at' header' k) = u32 (at' header k) :=
    u32_congr fun i _ => ha k i (by omega)
  refine ⟨(ha 0 0 (by omega)).trans h.magicB, (ha 0 1 (by omega)).trans h.magicM,
    (h₃₂ 10 (by omega)).trans h.offsetEq, (h₃₂ 14 (by omega)).symm ▸ h.dibSizeGe,
    (h₃₂ 18 (by omega)).trans h.widthEq, (h₃₂ 22 (by omega)).trans h.heightEq,
    (h₁₆ 28 (by omega)).trans h.bppEq, (h₃₂ 30 (by omega)).trans h.compressEq, fun hb => ?_⟩
  have h₆₆ (k) (hk : k + 4 ≤ 66) : u32 (at' header' k) = u32 (at' header k) :=
    u32_congr fun i _ => hm hb _ (by omega)
  obtain ⟨h₅₄, h₅₈, h₆₂⟩ := h.masks hb
  exact ⟨(h₆₆ 54 (by omega)).trans h₅₄, (h₆₆ 58 (by omega)).trans h₅₈,
    (h₆₆ 62 (by omega)).trans h₆₂⟩

end Headers
end Photo

namespace Files

open Photo

-- By induction on the rows that are left.
theorem renderRows_eq {file : List UInt8} {rowBytes rows : Nat} {span : Nat → List UInt8 → RowSpan}
    (done stream : Nat) (h : stream + rows * rowBytes ≤ file.length) :
    renderRows file rowBytes span rows done stream =
      (.ok, (List.range rows).map fun r =>
        span (done + r) ((file.drop (stream + r * rowBytes)).take rowBytes)) := by
  induction rows generalizing done stream with
  | zero         => rfl
  | succ rows ih =>
    rw [Nat.succ_mul] at h
    have hs : ¬stream + rowBytes > file.length := by omega
    rw [renderRows, streamRead, if_neg hs]
    simp only [ih (done + 1) (stream + rowBytes) (by omega)]
    rw [List.range_succ_eq_map, List.map_cons, List.map_map]
    simp only [Nat.add_zero, Nat.zero_mul, Prod.mk.injEq, List.cons.injEq, true_and]
    refine List.map_congr_left fun r _ => ?_
    simp only [Function.comp, Nat.succ_eq_add_one, Nat.succ_mul]
    congr 1
    · omega
    · congr 2
      omega

-- The size of a picture that the viewer accepts.
structure Fits (width height : Nat) : Prop where
  width_pos  : 0 < width
  width_le   : width ≤ photoViewMaxW
  height_pos : 0 < height
  height_le  : height ≤ photoViewMaxH

variable {image : Image} {width height : Nat} {format : PhotoFormat}

theorem Fits.toNat (h : Fits width height) :
    (UInt32.ofNat width).toNat = width ∧ (UInt32.ofNat height).toNat = height := by
  have h₁ := h.width_le
  have h₂ := h.height_le
  simp only [photoViewMaxW, photoViewMaxH] at h₁ h₂
  have hs : UInt32.size = 4294967296 := rfl
  exact ⟨UInt32.toNat_ofNat_of_lt' (by omega), UInt32.toNat_ofNat_of_lt' (by omega)⟩

theorem Fits.not_rejected (h : Fits width height) :
    ¬(width = 0 ∨ height = 0 ∨ width > photoViewMaxW ∨ height > photoViewMaxH) := by
  have := h.width_pos
  have := h.width_le
  have := h.height_pos
  have := h.height_le
  omega

-- The row that comes `r`-th in a file, with the row of the picture that it is.
def fileRow (file : List UInt8) (dataOffset rowBytes width height bpp : Nat) (bgrOrder : Bool)
    (y : Nat → Nat) (r : Nat) : RowSpan :=
  ⟨y r, height, (file.drop (dataOffset + r * rowBytes)).take rowBytes, width, bpp, bgrOrder⟩

def fileRows (file : List UInt8) (dataOffset rowBytes width height bpp : Nat) (bgrOrder : Bool)
    (y : Nat → Nat) : List RowSpan :=
  (List.range height).map (fileRow file dataOffset rowBytes width height bpp bgrOrder y)

section Bmp

variable {file header : List UInt8} {dataOffset : Nat}

theorem openBmp_24 (hr : readAt file 0 bmp565HeaderSize = some header) (h : Fits width height)
    (hh : BmpHeader header width height dataOffset 24 0) (hd : dataOffset < 2 ^ 32)
    (hf : dataOffset + height * bmp24RowBytes width ≤ file.length) :
    openBmp file true = (.ok, fileRows file dataOffset (bmp24RowBytes width) width height 24 true
      (height - 1 - ·)) := by
  obtain ⟨hw, hht⟩ := h.toNat
  have hmax : ¬align4 (width * 3) > photoRowMaxBytes := by
    have := h.width_le
    simp only [align4, photoRowMaxBytes, photoViewMaxW] at *
    omega
  have hopen : ¬dataOffset > file.length := by omega
  have ho : (UInt32.ofNat dataOffset).toNat = dataOffset := UInt32.toNat_ofNat_of_lt' hd
  have h₀ : header.getD 0 0 = 0x42 := hh.magicB
  have h₁ : header.getD 1 0 = 0x4D := hh.magicM
  have h₂₄ : UInt16.toNat 24 = 24 := rfl
  have h₄₀ := Nat.not_lt.mpr hh.dibSizeGe
  rw [openBmp, hr]
  simp only [rd32, rd16, hh.offsetEq, hh.widthEq, hh.heightEq, hh.bppEq,
    hh.compressEq, h₀, h₁, hw, hht, ho, h₂₄, streamOpen, if_neg hopen]
  rw [if_neg (by decide), if_neg (by simpa [h₄₀] using h.not_rejected), if_neg (by simp)]
  simp only [and_self, if_true]
  rw [bmp24RowBytes] at hf ⊢
  rw [if_neg hmax, renderRows_eq 0 dataOffset hf]
  simp only [Nat.zero_add]
  rfl

theorem openBmp_565 (hr : readAt file 0 bmp565HeaderSize = some header) (h : Fits width height)
    (hh : BmpHeader header width height dataOffset 16 3) (hd : dataOffset < 2 ^ 32)
    (hf : dataOffset + height * bmp565RowBytes width ≤ file.length) :
    openBmp file true = (.ok, fileRows file dataOffset (bmp565RowBytes width) width height 16 false
      (height - 1 - ·)) := by
  obtain ⟨hw, hht⟩ := h.toNat
  have hmax : ¬align4 (width * 2) > photoRowMaxBytes := by
    have := h.width_le
    simp only [align4, photoRowMaxBytes, photoViewMaxW] at *
    omega
  have hopen : ¬dataOffset > file.length := by omega
  have ho : (UInt32.ofNat dataOffset).toNat = dataOffset := UInt32.toNat_ofNat_of_lt' hd
  have h₀ : header.getD 0 0 = 0x42 := hh.magicB
  have h₁ : header.getD 1 0 = 0x4D := hh.magicM
  have h₁₆ : UInt16.toNat 16 = 16 := rfl
  have h₄₀ := Nat.not_lt.mpr hh.dibSizeGe
  obtain ⟨h₅₄, h₅₈, h₆₂⟩ := hh.masks rfl
  rw [openBmp, hr]
  simp only [rd32, rd16, hh.offsetEq, hh.widthEq, hh.heightEq, hh.bppEq,
    hh.compressEq, h₀, h₁, hw, hht, ho, h₁₆, h₅₄, h₅₈, h₆₂, streamOpen, if_neg hopen]
  rw [if_neg (by decide), if_neg (by simpa [h₄₀] using h.not_rejected), if_neg (by simp)]
  have h₃ : ¬((16 = 24) ∧ (3 : UInt32) = 0) := by decide
  have h₄ : ¬(16 = 24) := by decide
  simp only [if_neg h₃, if_neg h₄]
  rw [bmp565RowBytes] at hf ⊢
  rw [if_neg hmax, renderRows_eq 0 dataOffset hf]
  simp only [Nat.zero_add]
  rfl

end Bmp

section Ppm

variable {n i d value : Nat} {b : Bool} {done : List Nat} {rest : List UInt8}

theorem ppmParseLoop_digit (hd : d < 10) (hv : value * 10 + d ≤ 65535) :
    ppmParseLoop i ⟨done, value, b⟩ (UInt8.ofNat (0x30 + d) :: rest) =
      ppmParseLoop (i + 1) ⟨done, value * 10 + d, true⟩ rest := by
  have hn : (UInt8.ofNat (0x30 + d)).toNat = 0x30 + d := UInt8.toNat_ofNat_of_lt' (by
    have : UInt8.size = 256 := rfl
    omega)
  have hdigit : UInt8.ofNat (0x30 + d) ≥ 0x30 ∧ UInt8.ofNat (0x30 + d) ≤ 0x39 := by
    simp only [ge_iff_le, UInt8.le_iff_toNat_le, hn]
    exact ⟨Nat.le_add_right .., by simp; omega⟩
  have hsub : (UInt8.ofNat (0x30 + d) - 0x30).toNat = d := by
    rw [UInt8.toNat_sub_of_le _ _ hdigit.left, hn]
    simp
  rw [ppmParseLoop, if_pos hdigit]
  simp only [hsub]
  rw [if_neg (by omega)]

-- By induction on the digits, from the last one on.
theorem ppmParseLoop_decimal (hn : n ≤ 65535) :
    ppmParseLoop i ⟨done, 0, b⟩ (decimal n ++ rest) =
      ppmParseLoop (i + (decimal n).length) ⟨done, n, true⟩ rest := by
  induction n using Nat.strong_induction_on generalizing rest with
  | _ n ih =>
    rw [decimal]
    split
    case isTrue hlt =>
      have hv : 0 * 10 + n ≤ 65535 := by omega
      simpa using ppmParseLoop_digit hlt hv
    case isFalse hge =>
      rw [List.append_assoc, ih (n / 10) (by omega) (by omega), List.singleton_append,
        ppmParseLoop_digit (Nat.mod_lt _ (by decide)) (by omega)]
      simp only [List.length_append, List.length_singleton, Nat.add_assoc]
      congr 2
      omega

theorem decimal_length_le {k : Nat} (hn : n < 10 ^ (k + 1)) : (decimal n).length ≤ k + 1 := by
  induction k generalizing n with
  | zero => rw [decimal, if_pos (by simpa using hn)]; simp
  | succ k ih =>
    rw [decimal]
    split
    case isTrue  => simp
    case isFalse =>
      have hk : n / 10 < 10 ^ (k + 1) := Nat.div_lt_of_lt_mul (by rw [Nat.pow_succ] at hn; omega)
      have := ih hk
      simp only [List.length_append, List.length_singleton]
      omega

theorem decimal_length_pos : 0 < (decimal n).length := by
  rw [decimal]
  split <;> simp

-- A blank ends a number.
theorem ppmParseLoop_blank {c : UInt8} (hc : c = 0x20 ∨ c = 0x0A) (hd : done.length < 2) :
    ppmParseLoop i ⟨done, value, true⟩ (c :: rest) =
      ppmParseLoop (i + 1) ⟨done ++ [value], 0, false⟩ rest := by
  have hdigit : ¬(c ≥ 0x30 ∧ c ≤ 0x39) := by
    rcases hc with rfl | rfl <;> decide
  have hblank : c = 0x20 ∨ c = 0x0A ∨ c = 0x0D ∨ c = 0x09 := hc.imp_right .inl
  rw [ppmParseLoop, if_neg hdigit, if_pos hblank, if_pos rfl]
  cases done with
  | nil         => rfl
  | cons _ done =>
    obtain rfl : done = [] := List.eq_nil_of_length_eq_zero (by simpa using hd)
    rfl

-- The text of the header, of which nothing is cut off.
theorem makePpmHeader_eq (h : Fits width height) :
    makePpmHeader width height = [0x50, 0x36, 0x0A] ++ decimal width ++ [0x20] ++ decimal height ++
      [0x0A] ++ [0x32, 0x35, 0x35, 0x0A] := by
  have h₁ : (decimal width).length ≤ 4 + 1 := decimal_length_le (by
    have := h.width_le
    simp only [photoViewMaxW] at this
    omega)
  have h₂ : (decimal height).length ≤ 4 + 1 := decimal_length_le (by
    have := h.height_le
    simp only [photoViewMaxH] at this
    omega)
  refine List.take_of_length_le ?_
  simp only [List.length_append, List.length_cons, List.length_nil, ppmHeaderMax]
  omega

theorem ppmParseHeader_eq (h : Fits width height) :
    ppmParseHeader (makePpmHeader width height ++ rest) =
      some (width, height, (makePpmHeader width height).length) := by
  have h₁ := h.width_le
  have h₂ := h.height_le
  simp only [photoViewMaxW, photoViewMaxH] at h₁ h₂
  have hmax : [0x32, 0x35, 0x35, 0x0A] = decimal 255 ++ [0x0A] := by simp [decimal]
  have hlen := makePpmHeader_eq h
  have h8 : ¬((makePpmHeader width height ++ rest).length < 8 ∨
      (makePpmHeader width height ++ rest).getD 0 0 ≠ 0x50 ∨
      (makePpmHeader width height ++ rest).getD 1 0 ≠ 0x36) := by
    have hw : 0 < (decimal width).length := decimal_length_pos
    have hh : 0 < (decimal height).length := decimal_length_pos
    rw [hlen]
    simp
    omega
  have hdrop : (makePpmHeader width height ++ rest).drop 2 =
      0x0A :: (decimal width ++ 0x20 :: (decimal height ++ 0x0A :: (decimal 255 ++ 0x0A :: rest))) := by
    rw [hlen, hmax]
    simp
  rw [ppmParseHeader, if_neg h8, hdrop, ppmParseLoop, if_neg (by decide), if_pos (by decide)]
  simp only [Bool.false_eq_true, if_false]
  rw [ppmParseLoop_decimal (by omega), ppmParseLoop_blank (.inl rfl) (by simp),
    ppmParseLoop_decimal (by omega), ppmParseLoop_blank (.inr rfl) (by simp),
    ppmParseLoop_decimal (by omega), ppmParseLoop, if_neg (by decide), if_pos (by decide)]
  simp only [List.nil_append, List.singleton_append, if_true, true_and]
  rw [if_pos ⟨Nat.ne_of_gt h.width_pos, Nat.ne_of_gt h.height_pos⟩, hlen, hmax]
  congr 3
  simp only [List.length_append, List.length_cons, List.length_nil]
  omega

theorem openPpm_eq {file header : List UInt8} {dataOffset : Nat} (h : Fits width height)
    (hr : readAt file 0 ppmHeaderMax = some header)
    (hp : ppmParseHeader header = some (width, height, dataOffset))
    (hf : file.length = dataOffset + width * 3 * height) :
    openPpm file true =
      (.ok, fileRows file dataOffset (width * 3) width height 24 false id) := by
  have hmax : ¬width * 3 > photoRowMaxBytes := by
    have := h.width_le
    simp only [photoRowMaxBytes, photoViewMaxW] at *
    omega
  have hw := h.width_le
  have hh := h.height_le
  rw [openPpm, hr]
  simp only [hp]
  rw [if_neg (by omega), if_neg hmax, if_neg (not_not_intro hf), streamOpen, if_neg (by omega)]
  simp only [Bool.not_true, Bool.false_eq_true, if_false]
  rw [renderRows_eq 0 _ (by rw [hf, Nat.mul_comm])]
  simp only [Nat.zero_add]
  rfl

end Ppm

theorem readAt_photo {n : Nat} (hn : 0 < n) (h : n ≤ formatSize format width height) :
    readAt (photo image width height format) 0 n =
      some ((List.range n).map (fileByte image width height format)) := by
  have h₀ : ¬(0 ≥ (photo image width height format).length) := by
    rw [photo_length]
    omega
  rw [readAt, if_neg h₀, photo_piece (by omega)]
  simp

-- What the viewer makes of the three formats.
theorem openPhoto_bmp565 (h : Fits width height) :
    openPhoto .bmp565 (photo image width height .bmp565) true =
      (.ok, fileRows (photo image width height .bmp565) bmp565HeaderSize (bmp565RowBytes width)
        width height 16 false (height - 1 - ·)) := by
  have hsize : bmp565HeaderSize ≤ formatSize .bmp565 width height := Nat.le_add_right ..
  have hfield (k) (hk : k < bmp565HeaderSize) :
      ((List.range bmp565HeaderSize).map (fileByte image width height .bmp565)).getD k 0 =
        (makeBmp565Header width height).getD k 0 := by
    rw [getD_map_range hk]
    exact if_pos hk
  refine openBmp_565 (readAt_photo (by decide) hsize) h ?_ (by decide) ?_
  case refine_1 =>
    refine makeBmp565Header_fields.congr (fun k hk => hfield k ?_) fun _ => hfield
    exact Nat.lt_trans hk (by decide)
  case refine_2 => simp [formatSize, Nat.mul_comm]

theorem openPhoto_ppm (h : Fits width height)
    (hsize : bmp565HeaderSize ≤ formatSize .ppm width height) :
    openPhoto .ppm (photo image width height .ppm) true =
      (.ok, fileRows (photo image width height .ppm) (makePpmHeader width height).length
        (width * 3) width height 24 false id) := by
  have hsize' : (photo image width height .ppm).length =
      (makePpmHeader width height).length + width * 3 * height := photo_length
  have hl : (makePpmHeader width height).length ≤ ppmHeaderMax :=
    Nat.le_trans (List.length_take_le ..) (by decide)
  have hsplit : (List.range ppmHeaderMax).map (fileByte image width height .ppm) =
      makePpmHeader width height ++ (List.range (ppmHeaderMax - (makePpmHeader width height).length)).map
        fun i => fileByte image width height .ppm ((makePpmHeader width height).length + i) := by
    refine List.ext_getElem (by simp; omega) fun i hi _ => ?_
    rw [List.getElem_append, List.getElem_map, List.getElem_range]
    split
    case isTrue hi'  => simp [fileByte, ppmByte, hi']
    case isFalse hi' => simp [Nat.add_sub_of_le (Nat.le_of_not_lt hi')]
  refine openPpm_eq h (readAt_photo (by decide) (Nat.le_trans (by decide) hsize)) ?_ hsize'
  rw [hsplit]
  exact ppmParseHeader_eq h

theorem openPhoto_bmp24 (h : Fits width height)
    (hsize : bmp565HeaderSize ≤ formatSize .bmp24 width height) :
    openPhoto .bmp24 (photo image width height .bmp24) true =
      (.ok, fileRows (photo image width height .bmp24) bmpHeaderSize (bmp24RowBytes width)
        width height 24 true (height - 1 - ·)) := by
  refine openBmp_24 (readAt_photo (by decide) hsize) h ?_ (by decide) ?_
  case refine_1 =>
    refine makeBmpHeader_fields.congr (fun k hk => ?_) fun h => absurd h (by decide)
    rw [getD_map_range (Nat.lt_trans hk (by decide))]
    exact if_pos hk
  case refine_2 => simp [formatSize, Nat.mul_comm]

end Files
