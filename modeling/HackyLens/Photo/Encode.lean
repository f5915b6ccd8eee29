import HackyLens.Core.Binary

-- The photo files of the camera. Widths and heights are at most 16 bits wide, and within the limits
-- of the viewer no size or position comes near 32 bits, so all of them are `Nat`.

inductive PhotoFormat
  | bmp24 | raw565 | bmp565 | ppm
  deriving DecidableEq

-- The pixel at `x` and `y` in RGB565, as the source's `read_pixel` returns it.
abbrev Image := Nat → Nat → UInt16

namespace Photo

open Core

def bmpBpp : UInt16 := 24
def bmpHeaderSize : Nat := 54
def bmp565HeaderSize : Nat := 66
def ppmHeaderMax : Nat := 32

-- `(n + 3) & ~3`
def align4 (n : Nat) : Nat :=
  (n + 3) / 4 * 4

def bmp24RowBytes (width : Nat) : Nat := align4 (width * 3)
def rgb888RowBytes (width : Nat) : Nat := width * 3
def bmp565RowBytes (width : Nat) : Nat := align4 (width * 2)

-- Stores bytes into a header.
def store (header : List UInt8) (offset : Nat) (bytes : List UInt8) : List UInt8 :=
  header.mapIdx fun i b => if offset ≤ i ∧ i < offset + bytes.length then bytes.getD (i - offset) 0 else b

-- What `%u` prints.
def decimal (n : Nat) : List UInt8 :=
  if n < 10 then [UInt8.ofNat (0x30 + n)]
  else decimal (n / 10) ++ [UInt8.ofNat (0x30 + n % 10)]

-- The used part of the header's buffer.
def makePpmHeader (width height : Nat) : List UInt8 :=
  let text := [0x50, 0x36, 0x0A] ++ decimal width ++ [0x20] ++ decimal height ++ [0x0A] ++
    [0x32, 0x35, 0x35, 0x0A]
  text.take (ppmHeaderMax - 1)

def formatSize (format : PhotoFormat) (width height : Nat) : Nat :=
  match format with
  | .raw565 => width * height * 2
  | .bmp565 => bmp565HeaderSize + bmp565RowBytes width * height
  | .ppm    => (makePpmHeader width height).length + rgb888RowBytes width * height
  | .bmp24  => bmpHeaderSize + bmp24RowBytes width * height

def makeBmpHeader (width height : Nat) : List UInt8 :=
  let rowBytes := bmp24RowBytes width
  let header := List.replicate bmpHeaderSize 0
  let header := store header 0 [0x42, 0x4D]
  let header := store header 2 (wr32 (.ofNat (bmpHeaderSize + rowBytes * height)))
  let header := store header 10 (wr32 (.ofNat bmpHeaderSize))
  let header := store header 14 (wr32 40)
  let header := store header 18 (wr32 (.ofNat width))
  let header := store header 22 (wr32 (.ofNat height))
  let header := store header 26 (wr16 1)
  let header := store header 28 (wr16 bmpBpp)
  store header 34 (wr32 (.ofNat (rowBytes * height)))

def makeBmp565Header (width height : Nat) : List UInt8 :=
  let rowBytes := bmp565RowBytes width
  let header := List.replicate bmp565HeaderSize 0
  let header := store header 0 [0x42, 0x4D]
  let header := store header 2 (wr32 (.ofNat (bmp565HeaderSize + rowBytes * height)))
  let header := store header 10 (wr32 (.ofNat bmp565HeaderSize))
  let header := store header 14 (wr32 40)
  let header := store header 18 (wr32 (.ofNat width))
  let header := store header 22 (wr32 (.ofNat height))
  let header := store header 26 (wr16 1)
  let header := store header 28 (wr16 16)
  let header := store header 30 (wr32 3)
  let header := store header 34 (wr32 (.ofNat (rowBytes * height)))
  let header := store header 54 (wr32 0x0000F800)
  let header := store header 58 (wr32 0x000007E0)
  store header 62 (wr32 0x0000001F)

-- The components of a pixel, expanded to eight bits.
def red (color : UInt16) : UInt8 := .ofNat (((color.toNat >>> 11) &&& 0x1F) * 255 / 31)
def green (color : UInt16) : UInt8 := .ofNat (((color.toNat >>> 5) &&& 0x3F) * 255 / 63)
def blue (color : UInt16) : UInt8 := .ofNat ((color.toNat &&& 0x1F) * 255 / 31)

-- The low and the high byte of a pixel.
def half (color : UInt16) (odd : Bool) : UInt8 :=
  if odd then (color >>> 8).toUInt8 else color.toUInt8

variable (image : Image) (width height : Nat)

-- The byte of a file at `pos`, one definition for each branch of the loop.

def bmp24Byte (pos : Nat) : UInt8 :=
  if pos < bmpHeaderSize then (makeBmpHeader width height).getD pos 0
  else
    let dataPos := pos - bmpHeaderSize
    -- The rows of the pixels are not padded here, those of the file's size are.
    let ppmRowBytes := rgb888RowBytes width
    if dataPos ≥ ppmRowBytes * height then 0
    else
      let row := dataPos / ppmRowBytes
      let colByte := dataPos % ppmRowBytes
      let x := colByte / 3
      let y := height - 1 - row
      if x ≥ width then 0
      else
        let color := image x y
        if colByte % 3 = 0 then blue color
        else if colByte % 3 = 1 then green color
        else red color

def bmp565Byte (pos : Nat) : UInt8 :=
  if pos < bmp565HeaderSize then (makeBmp565Header width height).getD pos 0
  else
    let dataPos := pos - bmp565HeaderSize
    if dataPos ≥ bmp565RowBytes width * height then 0
    else
      let row := dataPos / bmp565RowBytes width
      let colByte := dataPos % bmp565RowBytes width
      let x := colByte / 2
      let y := height - 1 - row
      if x ≥ width then 0
      else half (image x y) (colByte % 2 = 1)

def ppmByte (pos : Nat) : UInt8 :=
  if pos < (makePpmHeader width height).length then (makePpmHeader width height).getD pos 0
  else
    let dataPos := pos - (makePpmHeader width height).length
    -- The rows of the pixels are padded here, those of the file's size are not.
    if dataPos ≥ bmp24RowBytes width * height then 0
    else
      let row := dataPos / bmp24RowBytes width
      let colByte := dataPos % bmp24RowBytes width
      let x := colByte / 3
      if x ≥ width then 0
      else
        let color := image x row
        if colByte % 3 = 0 then red color
        else if colByte % 3 = 1 then green color
        else blue color

def raw565Byte (pos : Nat) : UInt8 :=
  if pos ≥ width * height * 2 then 0
  else
    let pixel := pos / 2
    half (image (pixel % width) (pixel / width)) (pos % 2 = 1)

def fileByte : PhotoFormat → Nat → UInt8
  | .bmp24  => bmp24Byte image width height
  | .bmp565 => bmp565Byte image width height
  | .ppm    => ppmByte image width height
  | .raw565 => raw565Byte image width height

def fillFileBytes (format : PhotoFormat) (offset len : Nat) : List UInt8 :=
  (List.range len).map fun i => fileByte image width height format (offset + i)

-- What the writer puts together, one call for each chunk.
def fillFile (format : PhotoFormat) (offset : Nat) : List Nat → List UInt8
  | []            => []
  | len :: chunks => fillFileBytes image width height format offset len ++
      fillFile format (offset + len) chunks

end Photo
