import HackyLens.Photo.Inflate
import HackyLens.Photo.Png

-- `files_open_png` of `image_decode_png.c`.

namespace Png

open Files

-- The distance of two numbers. None of those here needs more than 16 bits.
def apart (p q : Int) : Int :=
  if p > q then p - q else q - p

def paeth (a b c : UInt8) : UInt8 :=
  let p : Int := a.toNat + b.toNat - c.toNat
  let pa := apart p a.toNat
  let pb := apart p b.toNat
  let pc := apart p c.toNat
  if pa ≤ pb ∧ pa ≤ pc then a else if pb ≤ pc then b else c

-- A byte of a row, from the byte in the file and the bytes before, above and before that one.
def unfilter (filter x a b c : UInt8) : Option UInt8 :=
  if filter = 1 then some (x + a)
  else if filter = 2 then some (x + b)
  else if filter = 3 then some (x + .ofNat ((a.toNat + b.toNat) / 2))
  else if filter = 4 then some (x + paeth a b c)
  else if filter ≠ 0 then none
  else some x

-- The bytes of a row that are left and those that are done. There is nothing above the first row.
def unfilterRow (filter : UInt8) (bpp : Nat) (prev : List UInt8) :
    List UInt8 → List UInt8 → Option (List UInt8)
  | [],      row => some row
  | x :: xs, row =>
    let i := row.length
    let a := if i ≥ bpp then row.getD (i - bpp) 0 else 0
    let b := prev.getD i 0
    let c := if i ≥ bpp then prev.getD (i - bpp) 0 else 0
    match unfilter filter x a b c with
    | none   => none
    | some y => unfilterRow filter bpp prev xs (row ++ [y])

-- The components of a pixel in the row buffer.
def photoPixel (colorType : UInt8) (row : List UInt8) (x : Nat) : List UInt8 :=
  if colorType = 0 then
    let g := row.getD x 0
    [g, g, g]
  else if colorType = 2 then
    [row.getD (x * 3) 0, row.getD (x * 3 + 1) 0, row.getD (x * 3 + 2) 0]
  else if colorType = 4 then
    let g := row.getD (x * 2) 0
    [g, g, g]
  else
    [row.getD (x * 4) 0, row.getD (x * 4 + 1) 0, row.getD (x * 4 + 2) 0]

section Rows

variable (colorType : UInt8) (bpp width height : Nat) (out : List UInt8)

-- The rows from `y` on, below the row `prev`.
def renderRows : (rows y : Nat) → (prev : List UInt8) → FileResult × List RowSpan
  | 0,        _, _    => (.ok, [])
  | rows + 1, y, prev =>
    let rowBytes := width * bpp
    let line := (out.drop (y * (rowBytes + 1))).take (rowBytes + 1)
    match unfilterRow (line.getD 0 0) bpp prev (line.drop 1) [] with
    | none     => (.unsupportedFormat, [])
    | some row =>
      let photoRow := (List.range width).flatMap (photoPixel colorType row)
      let (result, spans) := renderRows rows (y + 1) row
      (result, ⟨y, height, photoRow, width, 24, false⟩ :: spans)

end Rows

def Collect.data (c : Collect) : List UInt8 :=
  (List.range c.compSize.toNat).map fun i => (c.comp i).getD 0

-- `png_zlib_inflate_to_buffer` on a buffer and tables with arbitrary contents. There is no result
-- where it leaves an array.
def inflate (data : List UInt8) (outSize : Nat) (st : Inflate.State) :
    Option (Option (List UInt8)) :=
  let program := Inflate.zlibInflateToBuffer (data.getD · 0) (.ofNat data.length) (.ofNat outSize)
  match program.run (fun (_ : Unit) _ w => ((), w)) st [] () with
  | .done (true, st) _  => some (some ((List.range outSize).map st.out))
  | .done (false, _) _  => some none
  | .cut _ | .hung _    => none

end Png
