import HackyLens.Photo.Decode
import HackyLens.Storage.Fat32

-- `png_collect_idat` of `image_decode_png.c`.

namespace Png

open Core Fat32

def compMax : UInt32 := 512 * 1024

def sig : List UInt8 := [0x89, 0x50, 0x4E, 0x47, 0x0D, 0x0A, 0x1A, 0x0A]

def ihdr : List UInt8 := [0x49, 0x48, 0x44, 0x52]
def idat : List UInt8 := [0x49, 0x44, 0x41, 0x54]
def iend : List UInt8 := [0x49, 0x45, 0x4E, 0x44]

-- The bytes of the buffer for the compressed data that have been written.
abbrev Comp := Nat → Option UInt8

def Comp.store (comp : Comp) (out : Nat) (bytes : List UInt8) : Comp :=
  fun i => if out ≤ i ∧ i < out + bytes.length then bytes[i - out]? else comp i

def fill (buf : Memory) (bytes : List UInt8) : Memory :=
  buf.overlay 0 bytes.length fun i => bytes.getD i 0

-- The local variables of `png_collect_idat` that outlast a pass of its loop, and what its caller
-- gets of them.
structure Collect where
  buf : Memory
  offset : UInt32
  out : UInt32
  gotIhdr : Bool
  width : UInt32
  height : UInt32
  colorType : UInt8
  bpp : UInt8
  compSize : UInt32
  comp : Comp

-- A part of a pass makes `png_collect_idat` return or goes on.
abbrev Step := (Bool × Collect) ⊕ Collect

section

variable (v : Volume) (entry : Entry)

def readIhdr (len : UInt32) (c : Collect) : Step :=
  if len ≠ 13 then
    .inl (false, c)
  else
    let (ok, bytes) := v.readAt entry c.offset 13
    let c := { c with buf := fill c.buf bytes }
    if !ok then
      .inl (false, c)
    else
      let c := { c with
        width     := rd32be c.buf
        height    := rd32be fun i => c.buf (4 + i)
        colorType := c.buf 9 }
      if c.buf 8 ≠ 8 ∨ c.buf 10 ≠ 0 ∨ c.buf 11 ≠ 0 ∨ c.buf 12 ≠ 0 ∨ c.width = 0 ∨ c.height = 0 ∨
          c.width.toNat > Files.photoViewMaxW ∨ c.height.toNat > Files.photoViewMaxH then
        .inl (false, c)
      else if c.colorType = 0 then
        .inr { c with bpp := 1, gotIhdr := true }
      else if c.colorType = 2 then
        .inr { c with bpp := 3, gotIhdr := true }
      else if c.colorType = 4 then
        .inr { c with bpp := 2, gotIhdr := true }
      else if c.colorType = 6 then
        .inr { c with bpp := 4, gotIhdr := true }
      else
        .inl (false, c)

-- The loop that copies what remains of the data of a chunk. Each round copies at least one byte, so
-- it takes at most `remain` rounds.
def copyLoop : (rounds : Nat) → (remain chunkOffset : UInt32) → Collect → Bool × Collect
  | 0, _, _, c => (true, c)
  | rounds + 1, remain, chunkOffset, c =>
    if remain = 0 then
      (true, c)
    else
      let take := if remain > 512 then 512 else remain
      let (ok, bytes) := v.readAt entry chunkOffset take
      let c := { c with comp := c.comp.store c.out.toNat bytes }
      if !ok then
        (false, c)
      else
        copyLoop rounds (remain - take) (chunkOffset + take) { c with out := c.out + take }

def copyIdat (len : UInt32) (c : Collect) : Step :=
  if !c.gotIhdr ∨ c.out + len > compMax then
    .inl (false, c)
  else
    let (ok, c) := copyLoop v entry len.toNat len c.offset c
    if ok then .inr c else .inl (false, c)

def handleChunk (type : List UInt8) (len : UInt32) (c : Collect) : Step :=
  if type = ihdr then
    readIhdr v entry len c
  else if type = idat then
    copyIdat v entry len c
  else if type = iend then
    .inl (c.gotIhdr && c.out > 0, { c with compSize := c.out })
  else
    .inr c

-- One pass of the loop over the chunks, with its condition.
def pass (c : Collect) : Step :=
  if ¬c.offset + 12 ≤ entry.size then
    .inl (false, c)
  else
    let (ok, bytes) := v.readAt entry c.offset 8
    let c := { c with buf := fill c.buf bytes }
    if !ok then
      .inl (false, c)
    else
      let len := rd32be c.buf
      let type := c.buf.read 4 4
      let c := { c with offset := c.offset + 8 }
      if c.offset + len + 4 > entry.size then
        .inl (false, c)
      else
        match handleChunk v entry type len c with
        | .inl r => .inl r
        | .inr c => .inr { c with offset := c.offset + (len + 4) }

def chunkLoop : (rounds : Nat) → Collect → Option (Bool × Collect)
  | 0, _ => none
  | rounds + 1, c =>
    match pass v entry c with
    | .inl r => some r
    | .inr c => chunkLoop rounds c

-- What precedes the loop. The bytes of `buf` are arbitrary at first.
def checkSig (buf : Memory) : Step :=
  let c : Collect := ⟨buf, 8, 0, false, 0, 0, 0, 0, 0, fun _ => none⟩
  if entry.size < 33 then
    .inl (false, c)
  else
    let (ok, bytes) := v.readAt entry 0 8
    let c := { c with buf := fill c.buf bytes }
    if !ok ∨ c.buf.read 0 8 ≠ sig then .inl (false, c) else .inr c

-- `png_collect_idat`, in so many passes.
def collectIdat (rounds : Nat) (buf : Memory) : Option (Bool × Collect) :=
  match checkSig v entry buf with
  | .inl r => some r
  | .inr c => chunkLoop v entry rounds c

end

end Png
