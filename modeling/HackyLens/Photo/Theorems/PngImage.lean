import HackyLens.Photo.PngImage
import HackyLens.Photo.Theorems.PngData
import HackyLens.Photo.Theorems.Viewer

-- A picture whose rows are filtered is rendered as it is, from its first row to its last one.

namespace Png

open Files

section Filter

-- What a filter subtracts from a byte.
def predictor (filter a b c : UInt8) : UInt8 :=
  if filter = 1 then a
  else if filter = 2 then b
  else if filter = 3 then .ofNat ((a.toNat + b.toNat) / 2)
  else if filter = 4 then paeth a b c
  else 0

-- The byte `i` of a row, with the bytes before, above and before that one, of pixels of `bpp` bytes.
def filterByte (filter : UInt8) (bpp : Nat) (prev row : List UInt8) (i : Nat) : UInt8 :=
  row.getD i 0 - predictor filter (if i ≥ bpp then row.getD (i - bpp) 0 else 0) (prev.getD i 0)
    (if i ≥ bpp then prev.getD (i - bpp) 0 else 0)

def filterRow (filter : UInt8) (bpp : Nat) (prev row : List UInt8) : List UInt8 :=
  (List.range row.length).map (filterByte filter bpp prev row)

variable {filter : UInt8} {bpp : Nat} {prev row : List UInt8}

theorem unfilter_predictor (hf : filter ≤ 4) (x a b c : UInt8) :
    unfilter filter (x - predictor filter a b c) a b c = some x := by
  have hle : filter.toNat ≤ 4 := hf
  rw [unfilter, predictor]
  split
  case isTrue => rw [UInt8.sub_add_cancel]
  case isFalse h₁ =>
    split
    case isTrue => rw [UInt8.sub_add_cancel]
    case isFalse h₂ =>
      split
      case isTrue => rw [UInt8.sub_add_cancel]
      case isFalse h₃ =>
        split
        case isTrue => rw [UInt8.sub_add_cancel]
        case isFalse h₄ =>
          have h₀ : filter = 0 := by
            rw [← UInt8.toNat_inj] at h₁ h₂ h₃ h₄ ⊢
            simp only [UInt8.reduceToNat] at h₁ h₂ h₃ h₄ ⊢
            omega
          rw [if_neg (not_not.mpr h₀), UInt8.sub_zero]

-- By induction on the bytes that are left; those that are done are the row's own.
theorem unfilterRow_filterRow (hf : filter ≤ 4) (hb : 0 < bpp) {n i : Nat}
    (hn : i + n = row.length) :
    unfilterRow filter bpp prev
      ((List.range' i n).map (filterByte filter bpp prev row)) (row.take i) = some row := by
  induction n generalizing i with
  | zero =>
    rw [Nat.add_zero] at hn
    rw [hn, List.take_length]
    rfl
  | succ n ih =>
    have hi : i < row.length := by omega
    have hl : (row.take i).length = i := List.length_take_of_le (by omega)
    have ha : (if i ≥ bpp then (row.take i).getD (i - bpp) 0 else 0) =
        if i ≥ bpp then row.getD (i - bpp) 0 else 0 := by
      split
      case isFalse => rfl
      case isTrue  =>
        rw [List.getD_eq_getElem?_getD, List.getD_eq_getElem?_getD,
          List.getElem?_take_of_lt (by omega)]
    have hy : row.take i ++ [row.getD i 0] = row.take (i + 1) := by
      rw [List.take_add_one, List.getD_eq_getElem?_getD, List.getElem?_eq_getElem hi]
      rfl
    rw [List.range'_succ, List.map_cons, unfilterRow]
    simp only [hl, ha]
    rw [filterByte, unfilter_predictor hf]
    dsimp only
    rw [hy]
    exact ih (by omega)

end Filter

section Kind

variable {v : Fat32.Volume} {entry : Fat32.Entry} {buf : Memory} {c c' : Collect} {ok : Bool}

-- What is taken from the image's header.
def Collect.kind (c : Collect) : Bool × UInt8 × UInt8 :=
  (c.gotIhdr, c.colorType, c.bpp)

-- The pixels of an image without palette and alpha have three bytes.
def Collect.Rgb (c : Collect) : Prop :=
  c.gotIhdr = true → c.colorType = 2 → c.bpp = 3

theorem Collect.Rgb.congr (h : c.Rgb) (hk : c'.kind = c.kind) : c'.Rgb := by
  simp only [Collect.kind, Prod.mk.injEq] at hk
  obtain ⟨hg, ht, hb⟩ := hk
  rw [Collect.Rgb, hg, ht, hb]
  exact h

end Kind

section Image

variable {picture : Picture} {width height : Nat} {filters : Nat → UInt8}

-- The bytes of a row of the picture.
def rgbRow (picture : Picture) (width y : Nat) : List UInt8 :=
  (List.range width).flatMap fun x =>
    [(picture x y).1, (picture x y).2.1, (picture x y).2.2]

def rowAbove (picture : Picture) (width y : Nat) : List UInt8 :=
  if y = 0 then [] else rgbRow picture width (y - 1)

-- A row with the filter that it is written with.
def scanline (picture : Picture) (width : Nat) (filters : Nat → UInt8) (y : Nat) : List UInt8 :=
  filters y :: filterRow (filters y) 3 (rowAbove picture width y) (rgbRow picture width y)

def scanlines (picture : Picture) (width height : Nat) (filters : Nat → UInt8) : List UInt8 :=
  (List.range height).flatMap (scanline picture width filters)

theorem length_flatMap_range {n m : Nat} {f : Nat → List UInt8} (hf : ∀ i, (f i).length = m) :
    ((List.range n).flatMap f).length = n * m := by
  rw [List.length_flatMap, List.map_congr_left fun i _ => hf i, List.map_const', List.sum_replicate,
    List.length_range, smul_eq_mul]

-- One of several blocks of one size.
theorem block_flatMap_range {n m i : Nat} {f : Nat → List UInt8} (hf : ∀ i, (f i).length = m)
    (hi : i < n) : (((List.range n).flatMap f).drop (i * m)).take m = f i := by
  obtain ⟨j, rfl⟩ := Nat.exists_eq_add_of_le hi
  rw [Nat.succ_add_eq_add_succ, List.range_add, List.flatMap_append,
    List.drop_left' (length_flatMap_range hf), List.range_succ_eq_map,
    List.map_cons, List.flatMap_cons]
  exact List.take_left' (hf _)

theorem getD_flatMap_range {n m i k : Nat} {f : Nat → List UInt8} (hf : ∀ i, (f i).length = m)
    (hi : i < n) (hk : k < m) : ((List.range n).flatMap f).getD (i * m + k) 0 = (f i).getD k 0 := by
  rw [← block_flatMap_range hf hi, List.getD_eq_getElem?_getD, List.getD_eq_getElem?_getD,
    List.getElem?_take_of_lt hk, List.getElem?_drop]

theorem rgbRow_length {y : Nat} : (rgbRow picture width y).length = width * 3 :=
  length_flatMap_range fun _ => rfl

theorem rgbRow_getD {x y i : Nat} (hx : x < width) (hi : i < 3) :
    (rgbRow picture width y).getD (x * 3 + i) 0 =
      [(picture x y).1, (picture x y).2.1, (picture x y).2.2].getD i 0 :=
  getD_flatMap_range (fun _ => rfl) hx hi

theorem scanline_length {y : Nat} : (scanline picture width filters y).length = width * 3 + 1 := by
  rw [scanline, List.length_cons, filterRow, List.length_map, List.length_range, rgbRow_length]

-- The row buffer holds the row of the picture.
theorem photoRow_eq {y : Nat} :
    (List.range width).flatMap (photoPixel 2 (rgbRow picture width y)) = rgbRow picture width y := by
  refine List.flatMap_congr fun x hx => ?_
  have hx := List.mem_range.mp hx
  have h₀ := @rgbRow_getD picture width x y 0 hx (by decide)
  have h₁ := @rgbRow_getD picture width x y 1 hx (by decide)
  have h₂ := @rgbRow_getD picture width x y 2 hx (by decide)
  rw [Nat.add_zero] at h₀
  rw [photoPixel, if_neg (by decide), if_pos rfl, h₀, h₁, h₂]
  rfl

-- By induction on the rows that are left, each below the one that was rendered before.
theorem renderRows_eq (hf : ∀ y < height, filters y ≤ 4) {rows y : Nat} (hn : y + rows = height) :
    renderRows 2 3 width height (scanlines picture width height filters) rows y
        (rowAbove picture width y) =
      (.ok, (List.range' y rows).map fun y =>
        ⟨y, height, rgbRow picture width y, width, 24, false⟩) := by
  induction rows generalizing y with
  | zero => rfl
  | succ rows ih =>
    have hy : y < height := by omega
    have hline : ((scanlines picture width height filters).drop (y * (width * 3 + 1))).take
        (width * 3 + 1) = scanline picture width filters y :=
      block_flatMap_range (fun _ => scanline_length) hy
    have hrow : unfilterRow (filters y) 3 (rowAbove picture width y)
        (filterRow (filters y) 3 (rowAbove picture width y) (rgbRow picture width y)) [] =
          some (rgbRow picture width y) := by
      rw [filterRow, List.range_eq_range']
      exact unfilterRow_filterRow (hf y hy) (by decide) (Nat.zero_add _)
    have habove : rgbRow picture width y = rowAbove picture width (y + 1) := by
      rw [rowAbove, if_neg (Nat.succ_ne_zero y), Nat.add_sub_cancel]
    rw [renderRows]
    simp only [hline]
    rw [scanline]
    simp only [List.getD_cons_zero, List.drop_one, List.tail_cons, hrow]
    rw [habove, ih (by omega), ← habove, photoRow_eq, List.range'_succ, List.map_cons]

end Image
end Png
