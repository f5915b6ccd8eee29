import HackyLens.Photo.Encode
import HackyLens.Storage.Fat32

-- The image decoders of the file viewer. A file is the list of its bytes.

namespace Files

open Core LittleEndian

def photoViewMaxW : Nat := 1600
def photoViewMaxH : Nat := 1200
def photoRowMaxBytes : Nat := photoViewMaxW * 3

-- The end of the file cuts a read short.
def readAt (file : List UInt8) (offset len : Nat) : Option (List UInt8) :=
  if offset ≥ file.length then
    if len = 0 then some [] else none
  else some ((file.drop offset).take len)

-- A stream is the offset of its next byte.
def streamOpen (file : List UInt8) (offset : Nat) : Option Nat :=
  if offset > file.length then none else some offset

def streamRead (file : List UInt8) (stream len : Nat) : Option (List UInt8 × Nat) :=
  if stream + len > file.length then none
  else some ((file.drop stream).take len, stream + len)

-- What the sink's `render_row_span` is called with.
structure RowSpan where
  srcY : Nat
  srcH : Nat
  row : List UInt8
  srcW : Nat
  bpp : Nat
  bgrOrder : Bool

-- The viewer's conversion of a pixel of 24 bits.
def rgb565 (r g b : UInt8) : UInt16 :=
  ((r &&& 0xF8).toUInt16 <<< 8) ||| ((g &&& 0xFC).toUInt16 <<< 3) ||| (b.toUInt16 >>> 3)

-- The pixel at `x`, as the viewer shows it when the row is not scaled.
def RowSpan.pixel (span : RowSpan) (x : Nat) : UInt16 :=
  if span.bpp = 16 then
    rd16 (at' span.row (x * 2))
  else
    let px := at' span.row (x * 3)
    if span.bgrOrder then rgb565 (px 2) (px 1) (px 0) else rgb565 (px 0) (px 1) (px 2)

-- The loop over the rows, from the row `done` on.
def renderRows (file : List UInt8) (rowBytes : Nat) (span : Nat → List UInt8 → RowSpan) :
    (rows done stream : Nat) → FileResult × List RowSpan
  | 0, _, _ => (.ok, [])
  | rows + 1, done, stream =>
    match streamRead file stream rowBytes with
    | none => (.readError, [])
    | some (row, stream) =>
      let (result, spans) := renderRows file rowBytes span rows (done + 1) stream
      (result, span done row :: spans)

-- `sink` is whether there is a sink that renders rows.
def openBmp (file : List UInt8) (sink : Bool) : FileResult × List RowSpan :=
  if !sink then (.notFound, [])
  else
    match readAt file 0 Photo.bmp565HeaderSize with
    | none => (.readError, [])
    | some header =>
      let dataOffset := (rd32 (at' header 10)).toNat
      let dibSize := (rd32 (at' header 14)).toNat
      let width := (rd32 (at' header 18)).toNat
      let height := (rd32 (at' header 22)).toNat
      let bpp := (rd16 (at' header 28)).toNat
      let compression := rd32 (at' header 30)
      if header.getD 0 0 ≠ 0x42 ∨ header.getD 1 0 ≠ 0x4D ∨ dibSize < 40 ∨ width = 0 ∨ height = 0 ∨
          width > photoViewMaxW ∨ height > photoViewMaxH then
        (.unsupportedFormat, [])
      else
        let open24 := bpp = 24 ∧ compression = 0
        let open565 := bpp = 16 ∧ compression = 3 ∧ rd32 (at' header 54) = 0x0000F800 ∧
          rd32 (at' header 58) = 0x000007E0 ∧ rd32 (at' header 62) = 0x0000001F
        if ¬open24 ∧ ¬open565 then (.unsupportedFormat, [])
        else
          let rowBytes := if open24 then Photo.align4 (width * 3) else Photo.align4 (width * 2)
          match streamOpen file dataOffset with
          | none => (.readError, [])
          | some stream =>
            if rowBytes > photoRowMaxBytes then (.tooLarge, [])
            else
              let span fileRow row : RowSpan :=
                if bpp = 24 then ⟨height - 1 - fileRow, height, row, width, 24, true⟩
                else ⟨height - 1 - fileRow, height, row, width, 16, false⟩
              renderRows file rowBytes span height 0 stream

-- The numbers that are complete, the one that is being read, and whether it has begun.
structure PpmValues where
  done : List Nat
  value : Nat
  inNumber : Bool

-- The loop of `ppm_parse_header` from the byte `i` on: the width, the height and where the data is.
def ppmParseLoop (i : Nat) (v : PpmValues) : List UInt8 → Option (Nat × Nat × Nat)
  | [] => none
  | c :: rest =>
    if c ≥ 0x30 ∧ c ≤ 0x39 then
      let value := v.value * 10 + (c - 0x30).toNat
      if value > 65535 then none
      else ppmParseLoop (i + 1) { v with value, inNumber := true } rest
    else if c = 0x20 ∨ c = 0x0A ∨ c = 0x0D ∨ c = 0x09 then
      if v.inNumber then
        match v.done with
        | [width, height] =>
          if v.value = 255 ∧ width ≠ 0 ∧ height ≠ 0 then some (width, height, i + 1) else none
        | done => ppmParseLoop (i + 1) ⟨done ++ [v.value], 0, false⟩ rest
      else ppmParseLoop (i + 1) v rest
    else none

def ppmParseHeader (data : List UInt8) : Option (Nat × Nat × Nat) :=
  if data.length < 8 ∨ data.getD 0 0 ≠ 0x50 ∨ data.getD 1 0 ≠ 0x36 then none
  else ppmParseLoop 2 ⟨[], 0, false⟩ (data.drop 2)

def openPpm (file : List UInt8) (sink : Bool) : FileResult × List RowSpan :=
  match readAt file 0 Photo.ppmHeaderMax with
  | none => (.readError, [])
  | some header =>
    match ppmParseHeader header with
    | none => (.unsupportedFormat, [])
    | some (width, height, dataOffset) =>
      if width > photoViewMaxW ∨ height > photoViewMaxH then (.unsupportedFormat, [])
      else
        let rowBytes := width * 3
        if rowBytes > photoRowMaxBytes then (.tooLarge, [])
        else if file.length ≠ dataOffset + rowBytes * height then (.unsupportedFormat, [])
        else
          match streamOpen file dataOffset with
          | none => (.readError, [])
          | some stream =>
            if !sink then (.notFound, [])
            else
              renderRows file rowBytes (fun srcY row => ⟨srcY, height, row, width, 24, false⟩)
                height 0 stream

-- The decoder that a photo's extension selects. A raw photo is none of the three.
def openPhoto : PhotoFormat → List UInt8 → Bool → FileResult × List RowSpan
  | .bmp24, file, sink | .bmp565, file, sink => openBmp file sink
  | .ppm,   file, sink => openPpm file sink
  | .raw565, _, _      => (.unsupportedFormat, [])

end Files
