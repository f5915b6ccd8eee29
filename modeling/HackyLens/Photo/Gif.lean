import HackyLens.Lib.Wp
import HackyLens.Photo.Decode
import HackyLens.Storage.Fat32

-- `image_decode_gif.c`, with the streams of `fat32_file.c` that it reads from. The numbers of 8, 16
-- and 32 bits that stay far below their bounds are `Nat`.

namespace Gif

open Core Fat32

def paletteMax : Nat := 256
def lzwTableSize : Nat := 4096
def minDelayMs : Nat := 20

structure Frame where
  canvasW : Nat
  canvasH : Nat
  frameX : Nat
  frameY : Nat
  frameW : Nat
  frameH : Nat
  backgroundRgb565 : UInt16
  delayMs : Nat
  transparentIndex : Int
  disposal : Nat

-- What the decoder asks of the card and of its sink. A row is what the sink gets to read of the row
-- buffer. An index that is not in its array is a call of its own.
inductive Call
  | readBlock (lba : UInt32)
  | animationBegin (canvasW canvasH : Nat) (backgroundRgb565 : UInt16)
  | frameBegin (frame : Frame)
  | renderIndexedRow (frame : Frame) (frameRow : Nat) (indices : List UInt8)
    (palette : Nat → UInt16) (paletteSize : Nat)
  | frameEnd
  | animationEnd
  | outOfRange

abbrev Call.Reply : Call → Type
  | readBlock _                               => Option Memory
  | animationBegin .. | frameBegin _ | frameEnd => Bool
  | renderIndexedRow .. | animationEnd | outOfRange => Unit

-- `fat_stream_t`. Its entry is always the one of the session.
structure Stream where
  cluster : UInt32
  fileOffset : UInt32
  clusterOffset : UInt32
  cacheLba : UInt32
  cacheValid : Bool

-- The functions that a sink has.
structure Sink where
  animationBegin : Bool
  frameBegin : Bool
  renderIndexedRow : Bool
  frameEnd : Bool
  animationEnd : Bool

-- `gif_session_t`
structure Session where
  entry : Entry
  stream : Stream
  sink : Sink
  globalPalette : Nat → UInt16
  localPalette : Nat → UInt16
  canvasW : Nat
  canvasH : Nat
  globalPaletteSize : Nat
  backgroundRgb565 : UInt16
  delayMs : Nat
  currentDelayMs : Nat
  deadlineUs : UInt64
  pauseRemainingUs : UInt64
  framesInCycle : UInt16
  transparentIndex : Int
  disposal : Nat
  active : Bool
  playing : Bool
  paused : Bool
  deadlineArmed : Bool
  knownAnimated : Bool
  netscapeExtension : Bool

-- A session that has been cleared.
def Session.zero : Session where
  entry := ⟨0, 0⟩
  stream := ⟨0, 0, 0, 0, false⟩
  sink := ⟨false, false, false, false, false⟩
  globalPalette := fun _ => 0
  localPalette := fun _ => 0
  canvasW := 0
  canvasH := 0
  globalPaletteSize := 0
  backgroundRgb565 := 0
  delayMs := 0
  currentDelayMs := 0
  deadlineUs := 0
  pauseRemainingUs := 0
  framesInCycle := 0
  transparentIndex := 0
  disposal := 0
  active := false
  playing := false
  paused := false
  deadlineArmed := false
  knownAnimated := false
  netscapeExtension := false

-- The static variables, with the FAT driver's scratch sector and the row buffer. `emitted` counts
-- the indices that have been stored in the row buffer since `gif_decode_lzw` was entered.
structure Globals where
  gif : Session
  sectorData : Memory
  lzwPrefix : Nat → Nat
  lzwSuffix : Nat → UInt8
  lzwStack : Nat → UInt8
  row : Nat → UInt8
  emitted : Nat

abbrev M := Prog Call Call.Reply Globals

def modifyGif (f : Session → Session) : M Unit :=
  modify fun s => { s with gif := f s.gif }

-- Every access to an array is preceded by the test that its index is in range.
def check (i size : Nat) : M Unit := do
  if i < size then
    pure ()
  else
    let _ : Unit ← Prog.call Call.outOfRange
    Prog.hang

def readBlock (lba : UInt32) : M Bool := do
  let answer : Option Memory ← Prog.call (Call.readBlock lba)
  match answer with
  | none            => return false
  | some sectorData =>
    modify ({ · with sectorData })
    return true

section Stream

variable (g : Geometry)

def nextCluster (cluster : UInt32) : M UInt32 := do
  if ← readBlock (g.fatSector cluster) then
    let { sectorData, .. } ← get
    return Geometry.fatEntry sectorData cluster
  else
    return eoc

def skipClusters : Nat → UInt32 → M UInt32
  | 0,     cluster => return cluster
  | n + 1, cluster => do
    if inChain cluster then
      skipClusters n (← nextCluster g cluster)
    else
      return cluster

def streamOpen (offset : UInt32) : M Bool := do
  let { gif, .. } ← get
  if offset > gif.entry.size then
    return false
  else
    let cluster ← skipClusters g (offset / g.clusterSize).toNat gif.entry.cluster
    if !inChain cluster then
      return offset = gif.entry.size
    else
      modifyGif ({ · with stream := ⟨cluster, offset, offset % g.clusterSize, 0xFFFFFFFF, false⟩ })
      return true

-- Fills the scratch sector, if it does not hold the block already.
def fetch (lba : UInt32) : M Bool := do
  let { gif, .. } ← get
  if !gif.stream.cacheValid || gif.stream.cacheLba ≠ lba then
    if ← readBlock lba then
      modifyGif fun gif => { gif with
        stream := { gif.stream with cacheLba := lba, cacheValid := true } }
      return true
    else
      return false
  else
    return true

-- Moves the stream behind the bytes that were taken.
def advance (take : UInt32) : M Unit := do
  modifyGif fun gif => { gif with
    stream := { gif.stream with
      fileOffset    := gif.stream.fileOffset + take
      clusterOffset := gif.stream.clusterOffset + take } }
  let { gif, .. } ← get
  if gif.stream.clusterOffset ≥ g.clusterSize then
    let cluster ← nextCluster g gif.stream.cluster
    modifyGif fun gif => { gif with
      stream := { gif.stream with cluster, clusterOffset := 0, cacheValid := false } }

-- A round of the loop of `fat_stream_read`: the bytes that have been stored, and how many are left.
def streamRound (b : List UInt8 × Nat) : M ((Bool × List UInt8) ⊕ (List UInt8 × Nat)) := do
  let (bytes, len) := b
  if len = 0 then
    return .inl (true, bytes)
  else
    let { gif, .. } ← get
    if gif.stream.fileOffset ≥ gif.entry.size ∨ !inChain gif.stream.cluster then
      return .inl (false, bytes)
    else
      let sectorOffset := (gif.stream.clusterOffset % 512).toNat
      if ← fetch (g.clusterLba gif.stream.cluster + gif.stream.clusterOffset / 512) then
        let take := min (min (sdBlockSize - sectorOffset) len)
          (gif.entry.size - gif.stream.fileOffset).toNat
        let { sectorData, .. } ← get
        advance g (.ofNat take)
        return .inr (bytes ++ sectorData.read sectorOffset take, len - take)
      else
        return .inl (false, bytes)

def streamRead (len : Nat) : M (Bool × List UInt8) :=
  Prog.loop (streamRound g) (len + 1) ([], len)

-- `gif_read`. What was read is only looked at when the result is OK.
def read (len : Nat) : M (FileResult × List UInt8) := do
  let { gif, .. } ← get
  if gif.stream.fileOffset > gif.entry.size ∨
      len > (gif.entry.size - gif.stream.fileOffset).toNat then
    return (.unsupportedFormat, [])
  else
    let (ok, bytes) ← streamRead g len
    if !ok then
      return (.readError, bytes)
    else
      return (.ok, bytes)

end Stream

-- `gif_subblocks_t`
structure Subblocks where
  data : Nat → UInt8
  size : Nat
  position : Nat
  finished : Bool
  failure : FileResult

def Subblocks.zero : Subblocks :=
  ⟨fun _ => 0, 0, 0, false, .ok⟩

-- `gif_bits_t`
structure Bits where
  blocks : Subblocks
  bits : Nat
  bitCount : Nat

-- The local variables of `gif_decode_lzw` that change.
structure Lzw where
  bits : Bits
  nextCode : Nat
  codeWidth : Nat
  previous : Option Nat
  first : UInt8
  pixelCount : Nat
  rowUsed : Nat

section Decode

variable (g : Geometry)

-- The loop of `gif_read_palette`, which stores its colours with `put`.
def readColours (put : Nat → UInt16 → M Unit) : (left i : Nat) → M FileResult
  | 0, _ => return .ok
  | left + 1, i => do
    let (result, rgb) ← read g 3
    if result ≠ .ok then
      return result
    else
      check i paletteMax
      put i (Files.rgb565 (rgb.getD 0 0) (rgb.getD 1 0) (rgb.getD 2 0))
      readColours put left (i + 1)

def readPalette (put : Nat → UInt16 → M Unit) (count : Nat) : M FileResult :=
  if count = 0 ∨ count > paletteMax then
    return .unsupportedFormat
  else
    readColours g put count 0

def putGlobal (i : Nat) (colour : UInt16) : M Unit :=
  modifyGif fun gif => { gif with globalPalette := Function.update gif.globalPalette i colour }

def putLocal (i : Nat) (colour : UInt16) : M Unit :=
  modifyGif fun gif => { gif with localPalette := Function.update gif.localPalette i colour }

-- The last line of `gif_subblock_byte`.
def takeByte (blocks : Subblocks) : M (Option UInt8 × Subblocks) := do
  check blocks.position 255
  return (some (blocks.data blocks.position), { blocks with position := blocks.position + 1 })

def subblockByte (blocks : Subblocks) : M (Option UInt8 × Subblocks) := do
  if blocks.finished ∨ blocks.failure ≠ .ok then
    return (none, blocks)
  else if blocks.position ≥ blocks.size then
    let (result, bytes) ← read g 1
    if result ≠ .ok then
      return (none, { blocks with failure := result })
    else
      let size := (bytes.getD 0 0).toNat
      if size = 0 then
        return (none, { blocks with size, finished := true })
      else
        let (result, bytes) ← read g size
        if result ≠ .ok then
          return (none, { blocks with size, failure := result })
        else
          takeByte { blocks with size, data := fun i => bytes.getD i 0, position := 0 }
  else
    takeByte blocks

-- Reads on to the end of the blocks. A byte of the file or of the current block is taken each time.
def drain (blocks : Subblocks) : M Subblocks := do
  let { gif, .. } ← get
  Prog.loop (fun blocks => do
    match ← subblockByte g blocks with
    | (none, blocks)   => return .inl blocks
    | (some _, blocks) => return .inr blocks) (gif.entry.size.toNat + 256) blocks

def skipSubblocks : M FileResult := do
  return (← drain g .zero).failure

-- A round of the loop that fills up the bits.
def bitsRound (width : Nat) (b : Bits) : M ((Bool × Bits) ⊕ Bits) := do
  if b.bitCount < width then
    match ← subblockByte g b.blocks with
    | (none, blocks)       => return .inl (false, { b with blocks })
    | (some value, blocks) =>
      return .inr ⟨blocks, b.bits ||| (value.toNat <<< b.bitCount), b.bitCount + 8⟩
  else
    return .inl (true, b)

def readCode (width : Nat) (b : Bits) : M (Option Nat × Bits) := do
  let (ok, b) ← Prog.loop (bitsRound g width) (width + 1) b
  if !ok then
    return (none, b)
  else
    return (some (b.bits % 2 ^ width), { b with
      bits     := b.bits >>> width
      bitCount := b.bitCount - width })

end Decode

-- The loop over the rows of a pass: the row that was looked for, or what is left of `sequence`. The
-- row grows in each round, so there are at most `height` of them.
def interlacePass (step height : Nat) : (rounds row sequence : Nat) → Nat ⊕ Nat
  | 0, _, sequence => .inr sequence
  | rounds + 1, row, sequence =>
    if row < height then
      if sequence = 0 then
        .inl row
      else
        interlacePass step height rounds (row + step) (sequence - 1)
    else
      .inr sequence

-- `gif_interlace_row`, with its loop over the passes.
def interlaceRowFrom (height : Nat) : List (Nat × Nat) → Nat → Nat
  | [],                     _        => height
  | (start, step) :: passes, sequence =>
    match interlacePass step height height start sequence with
    | .inl row      => row
    | .inr sequence => interlaceRowFrom height passes sequence

def interlaceRow (sequence height : Nat) : Nat :=
  interlaceRowFrom height [(0, 8), (4, 8), (2, 4), (1, 2)] sequence

section Decode

variable (frame : Frame) (palette : Nat → UInt16) (paletteSize : Nat) (interlaced : Bool)

-- The row buffer of the decoders.
def storeRow (i : Nat) (index : UInt8) : M Unit := do
  check i Files.photoRowMaxBytes
  modify fun s => { s with row := Function.update s.row i index, emitted := s.emitted + 1 }

-- `gif_emit_index`, with the new `pixel_count` and `row_used`. A full row has been counted, so that
-- the subtraction stays above zero.
def emitIndex (index : UInt8) (pixelCount rowUsed : Nat) : M (FileResult × Nat × Nat) := do
  if index.toNat ≥ paletteSize then
    return (.unsupportedFormat, pixelCount, rowUsed)
  else if pixelCount ≥ frame.frameW * frame.frameH then
    return (.unsupportedFormat, pixelCount, rowUsed)
  else
    storeRow rowUsed index
    let rowUsed := rowUsed + 1
    let pixelCount := pixelCount + 1
    if rowUsed ≠ frame.frameW then
      return (.ok, pixelCount, rowUsed)
    else
      let sequence := pixelCount / frame.frameW - 1
      let rowIndex := if interlaced then interlaceRow sequence frame.frameH else sequence
      if rowIndex ≥ frame.frameH then
        return (.unsupportedFormat, pixelCount, rowUsed)
      else
        let { row, .. } ← get
        let _ : Unit ← Prog.call <| Call.renderIndexedRow frame rowIndex
          ((List.range frame.frameW).map row) palette paletteSize
        return (.ok, pixelCount, 0)

-- The loop that empties the stack.
def emitStack : (stackSize pixelCount rowUsed : Nat) → M (FileResult × Nat × Nat)
  | 0,             pixelCount, rowUsed => return (.ok, pixelCount, rowUsed)
  | stackSize + 1, pixelCount, rowUsed => do
    check stackSize lzwTableSize
    let { lzwStack, .. } ← get
    let (result, pixelCount, rowUsed) ←
      emitIndex frame palette paletteSize interlaced (lzwStack stackSize) pixelCount rowUsed
    if result ≠ .ok then
      return (result, pixelCount, rowUsed)
    else
      emitStack stackSize pixelCount rowUsed

def push (stackSize : Nat) (index : UInt8) : M Unit := do
  check stackSize lzwTableSize
  modify fun s => { s with lzwStack := Function.update s.lzwStack stackSize index }

-- A round of the loop that walks down the prefixes of a code: the code and the stack's size.
def walkRound (clearCode nextCode : Nat) (b : Nat × Nat) :
    M (Option (Nat × Nat) ⊕ (Nat × Nat)) := do
  let (code, stackSize) := b
  if code ≥ clearCode then
    if code ≥ nextCode ∨ stackSize ≥ lzwTableSize then
      return .inl none
    else
      check code lzwTableSize
      let { lzwPrefix, lzwSuffix, .. } ← get
      push stackSize (lzwSuffix code)
      return .inr (lzwPrefix code, stackSize + 1)
  else
    return .inl (some (code, stackSize))

-- The new entry of the table, and the width that the codes have from then on.
def addEntry (first : UInt8) (l : Lzw) : M Lzw := do
  match l.previous with
  | some previous =>
    if l.nextCode < lzwTableSize then
      check l.nextCode lzwTableSize
      modify fun s => { s with
        lzwPrefix := Function.update s.lzwPrefix l.nextCode previous
        lzwSuffix := Function.update s.lzwSuffix l.nextCode first }
      let nextCode := l.nextCode + 1
      let codeWidth := if nextCode = 2 ^ l.codeWidth ∧ l.codeWidth < 12 then l.codeWidth + 1
        else l.codeWidth
      return { l with nextCode, codeWidth }
    else
      return l
  | none => return l

-- The code that the walk starts from, with the index that is above it on the stack when the code is
-- the one that is about to be added.
def walkStart (code : Nat) (l : Lzw) : M (Nat × Nat) := do
  if code = l.nextCode then
    push 0 l.first
    return (l.previous.getD 0, 1)
  else
    return (code, 0)

-- What follows the walk, which has ended at an index.
def emitCode (code last stackSize : Nat) (l : Lzw) : M (FileResult ⊕ Lzw) := do
  let first := UInt8.ofNat last
  if stackSize ≥ lzwTableSize then
    return .inl .unsupportedFormat
  else
    push stackSize first
    let (result, pixelCount, rowUsed) ←
      emitStack frame palette paletteSize interlaced (stackSize + 1) l.pixelCount l.rowUsed
    if result ≠ .ok then
      return .inl result
    else
      let l ← addEntry first { l with pixelCount, rowUsed, first }
      return .inr { l with previous := some code }

-- What is done with a code that stands for indices. It makes `gif_decode_lzw` return or go on.
def decodeCode (clearCode code : Nat) (l : Lzw) : M (FileResult ⊕ Lzw) := do
  if code > l.nextCode ∨ code = l.nextCode ∧ l.previous.isNone then
    return .inl .unsupportedFormat
  else
    let start ← walkStart code l
    match ← Prog.loop (walkRound clearCode l.nextCode) (lzwTableSize + 1) start with
    | none                   => return .inl .unsupportedFormat
    | some (last, stackSize) => emitCode frame palette paletteSize interlaced code last stackSize l

variable (g : Geometry)

-- A round of the main loop, which makes `gif_decode_lzw` return, leaves the loop with `saw_end` or
-- goes on.
def lzwRound (minimumCodeSize : Nat) (l : Lzw) : M ((FileResult ⊕ (Bool × Lzw)) ⊕ Lzw) := do
  let clearCode := 2 ^ minimumCodeSize
  let endCode := clearCode + 1
  match ← readCode g l.codeWidth l.bits with
  | (none, bits)      => return .inl (.inr (false, { l with bits }))
  | (some code, bits) =>
    let l := { l with bits }
    if code = clearCode then
      return .inr { l with
        nextCode  := endCode + 1
        codeWidth := minimumCodeSize + 1
        previous  := none }
    else if code = endCode then
      return .inl (.inr (true, l))
    else
      match ← decodeCode frame palette paletteSize interlaced clearCode code l with
      | .inl result => return .inl (.inl result)
      | .inr l      => return .inr l

-- A round takes at least three bits of the file, of the current block or of the code buffer.
def decodeLzw : M FileResult := do
  modify ({ · with emitted := 0 })
  let (result, bytes) ← read g 1
  if result ≠ .ok then
    return result
  else
    let minimumCodeSize := (bytes.getD 0 0).toNat
    if minimumCodeSize < 2 ∨ minimumCodeSize > 8 ∨ frame.frameW > Files.photoRowMaxBytes then
      return .unsupportedFormat
    else
      let clearCode := 2 ^ minimumCodeSize
      check (clearCode - 1) lzwTableSize
      modify fun s => { s with
        lzwSuffix := fun i => if i < clearCode then .ofNat i else s.lzwSuffix i }
      let { gif, .. } ← get
      let l : Lzw := ⟨⟨.zero, 0, 0⟩, clearCode + 2, minimumCodeSize + 1, none, 0, 0, 0⟩
      match ← Prog.loop (lzwRound frame palette paletteSize interlaced g minimumCodeSize)
          (8 * (gif.entry.size.toNat + 256)) l with
      | .inl result       => return result
      | .inr (sawEnd, l) =>
        let blocks ← drain g l.bits.blocks
        if blocks.failure ≠ .ok then
          return blocks.failure
        else if !sawEnd ∨ l.pixelCount ≠ frame.frameW * frame.frameH ∨ l.rowUsed ≠ 0 then
          return .unsupportedFormat
        else
          return .ok

end Decode

def rd16At (data : List UInt8) (offset : Nat) : Nat :=
  (rd16 (LittleEndian.at' data offset)).toNat

def resetGraphicsControl : M Unit :=
  modifyGif ({ · with delayMs := minDelayMs, transparentIndex := -1, disposal := 0 })

section Session

variable (g : Geometry)

def readGraphicsControl : M FileResult := do
  let (result, data) ← read g 6
  if result ≠ .ok then
    return result
  else if data.getD 0 0 ≠ 4 ∨ data.getD 5 0 ≠ 0 then
    return .unsupportedFormat
  else
    let disposal := ((data.getD 1 0 >>> 2) &&& 7).toNat
    let delay := rd16At data 2
    modifyGif ({ · with
      disposal         := if disposal > 3 then 0 else disposal
      delayMs          := if delay < 2 then minDelayMs else delay * 10
      transparentIndex := if data.getD 1 0 &&& 1 ≠ 0 then (data.getD 4 0).toNat else -1 })
    return .ok

def netscape : List UInt8 := [0x4E, 0x45, 0x54, 0x53, 0x43, 0x41, 0x50, 0x45, 0x32, 0x2E, 0x30]
def animexts : List UInt8 := [0x41, 0x4E, 0x49, 0x4D, 0x45, 0x58, 0x54, 0x53, 0x31, 0x2E, 0x30]

def readApplicationExtension : M FileResult := do
  let (result, bytes) ← read g 1
  if result ≠ .ok then
    return result
  else
    let size := (bytes.getD 0 0).toNat
    if size = 0 then
      return .unsupportedFormat
    else
      let (result, app) ← read g size
      if result ≠ .ok then
        return result
      else
        if size = 11 ∧ (app = netscape ∨ app = animexts) then
          modifyGif ({ · with netscapeExtension := true })
        skipSubblocks g

def skipExtensionHeader : M FileResult := do
  let (result, bytes) ← read g 1
  if result ≠ .ok then
    return result
  else
    let size := (bytes.getD 0 0).toNat
    if size ≠ 0 then
      let (result, _) ← read g size
      if result ≠ .ok then
        return result
      else
        skipSubblocks g
    else
      skipSubblocks g

-- The palette of a frame and its size.
def framePalette (packed : UInt8) : M (FileResult × (Nat → UInt16) × Nat) := do
  if packed &&& 0x80 ≠ 0 then
    let paletteSize := 2 * 2 ^ (packed &&& 7).toNat
    let result ← readPalette g putLocal paletteSize
    let { gif, .. } ← get
    return (result, gif.localPalette, paletteSize)
  else
    let { gif, .. } ← get
    if gif.globalPaletteSize = 0 then
      return (.unsupportedFormat, gif.globalPalette, 0)
    else
      return (.ok, gif.globalPalette, gif.globalPaletteSize)

-- What `gif_decode_frame` does with the frame that it has read the descriptor of.
def showFrame (frame : Frame) (palette : Nat → UInt16) (paletteSize : Nat) (interlaced : Bool) :
    M FileResult := do
  let begun : Bool ← Prog.call (Call.frameBegin frame)
  if !begun then
    return .readError
  else
    let result ← decodeLzw frame palette paletteSize interlaced g
    if result ≠ .ok then
      return result
    else
      let ended : Bool ← Prog.call Call.frameEnd
      if !ended then
        return .readError
      else
        modifyGif fun gif => { gif with
          framesInCycle  := gif.framesInCycle + 1
          knownAnimated  := gif.knownAnimated || gif.framesInCycle + 1 ≥ 2
          currentDelayMs := frame.delayMs }
        resetGraphicsControl
        return .ok

def decodeFrame : M FileResult := do
  let (result, descriptor) ← read g 9
  if result ≠ .ok then
    return result
  else
    let { gif, .. } ← get
    let frame : Frame := {
      canvasW          := gif.canvasW
      canvasH          := gif.canvasH
      frameX           := rd16At descriptor 0
      frameY           := rd16At descriptor 2
      frameW           := rd16At descriptor 4
      frameH           := rd16At descriptor 6
      backgroundRgb565 := gif.backgroundRgb565
      delayMs          := gif.delayMs
      transparentIndex := gif.transparentIndex
      disposal         := gif.disposal }
    let packed := descriptor.getD 8 0
    if frame.frameW = 0 ∨ frame.frameH = 0 ∨ frame.frameX + frame.frameW > frame.canvasW ∨
        frame.frameY + frame.frameH > frame.canvasH then
      return .unsupportedFormat
    else if frame.frameW > Files.photoViewMaxW ∨ frame.frameH > Files.photoViewMaxH then
      return .tooLarge
    else
      let (result, palette, paletteSize) ← framePalette g packed
      if result ≠ .ok then
        return result
      else
        let transparentIndex :=
          if frame.transparentIndex ≥ paletteSize then -1 else frame.transparentIndex
        showFrame g { frame with transparentIndex } palette paletteSize (packed &&& 0x40 ≠ 0)

def gif87a : List UInt8 := [0x47, 0x49, 0x46, 0x38, 0x37, 0x61]
def gif89a : List UInt8 := [0x47, 0x49, 0x46, 0x38, 0x39, 0x61]

-- The global palette, and the background that the header selects from it.
def headerPalette (packed backgroundIndex : UInt8) : M FileResult := do
  modifyGif ({ · with globalPaletteSize := 0, backgroundRgb565 := 0 })
  if packed &&& 0x80 ≠ 0 then
    let globalPaletteSize := 2 * 2 ^ (packed &&& 7).toNat
    modifyGif ({ · with globalPaletteSize })
    let result ← readPalette g putGlobal globalPaletteSize
    if result ≠ .ok then
      return result
    else
      if backgroundIndex.toNat < globalPaletteSize then
        modifyGif fun gif => { gif with
          backgroundRgb565 := gif.globalPalette backgroundIndex.toNat }
      return .ok
  else
    return .ok

def parseHeader (resetCanvas : Bool) : M FileResult := do
  if ← streamOpen g 0 then
    let (result, header) ← read g 13
    if result ≠ .ok then
      return result
    else if header.take 6 ≠ gif87a ∧ header.take 6 ≠ gif89a then
      return .unsupportedFormat
    else
      let canvasW := rd16At header 6
      let canvasH := rd16At header 8
      modifyGif ({ · with canvasW, canvasH })
      if canvasW = 0 ∨ canvasH = 0 ∨ canvasW > Files.photoViewMaxW ∨
          canvasH > Files.photoViewMaxH then
        return .tooLarge
      else
        let result ← headerPalette g (header.getD 10 0) (header.getD 11 0)
        if result ≠ .ok then
          return result
        else
          resetGraphicsControl
          modifyGif ({ · with framesInCycle := 0 })
          if resetCanvas then
            let { gif, .. } ← get
            let begun : Bool ←
              Prog.call (Call.animationBegin gif.canvasW gif.canvasH gif.backgroundRgb565)
            return if begun then .ok else .readError
          else
            return .ok
  else
    return .readError

-- What an extension's label selects.
def readExtension : M FileResult := do
  let (result, bytes) ← read g 1
  if result ≠ .ok then
    return result
  else
    let label := bytes.getD 0 0
    if label = 0xF9 then
      readGraphicsControl g
    else if label = 0xFF then
      readApplicationExtension g
    else if label = 0x01 then
      skipExtensionHeader g
    else
      skipSubblocks g

-- The trailer makes `gif_decode_next` return, or go on from the start of the file.
def atTrailer (allowRestart : Bool) : M (FileResult ⊕ Unit) := do
  let { gif, .. } ← get
  if gif.framesInCycle = 0 then
    return .inl .unsupportedFormat
  else if !gif.knownAnimated ∧ gif.framesInCycle = 1 then
    modifyGif ({ · with playing := false })
    return .inl .ok
  else if !allowRestart then
    return .inl .ok
  else
    let result ← parseHeader g true
    return if result ≠ .ok then .inl result else .inr ()

def nextRound (allowRestart : Bool) (_ : Unit) : M (FileResult ⊕ Unit) := do
  let (result, bytes) ← read g 1
  if result ≠ .ok then
    return .inl result
  else
    let marker := bytes.getD 0 0
    if marker = 0x2C then
      return .inl (← decodeFrame g)
    else if marker = 0x3B then
      atTrailer g allowRestart
    else if marker = 0x21 then
      let result ← readExtension g
      return if result ≠ .ok then .inl result else .inr ()
    else
      return .inl .unsupportedFormat

-- A round reads at least one byte, and the file is restarted at most once.
def decodeNext (allowRestart : Bool) : M FileResult := do
  let { gif, .. } ← get
  Prog.loop (nextRound g allowRestart) (2 * gif.entry.size.toNat + 3) ()

def close : M Unit := do
  let { gif, .. } ← get
  if gif.active && gif.sink.animationEnd then
    let _ : Unit ← Prog.call Call.animationEnd
  modifyGif fun _ => .zero

-- What `files_open_gif` reads.
def openFirst : M FileResult := do
  let result ← parseHeader g true
  if result = .ok then
    decodeNext g false
  else
    return result

-- `files_open_gif`. An entry or a sink that is NULL is none.
def openGif (entry : Option Entry) (sink : Option Sink) : M FileResult := do
  close
  match entry, sink with
  | some entry, some sink =>
    if !sink.animationBegin ∨ !sink.frameBegin ∨ !sink.renderIndexedRow ∨ !sink.frameEnd then
      return .notFound
    else
      modifyGif fun _ => { Session.zero with entry, sink, active := true, playing := true }
      let result ← openFirst g
      if result ≠ .ok then
        close
      return result
  | _, _ => return .notFound

def tick (nowUs : UInt64) : M FileResult := do
  let { gif, .. } ← get
  if !gif.active ∨ !gif.playing ∨ gif.paused then
    return .ok
  else if !gif.deadlineArmed then
    modifyGif fun gif => { gif with
      deadlineUs    := nowUs + .ofNat gif.currentDelayMs * 1000
      deadlineArmed := true }
    return .ok
  else if nowUs < gif.deadlineUs then
    return .ok
  else
    modifyGif fun gif => { gif with stream := { gif.stream with cacheValid := false } }
    let result ← decodeNext g true
    if result ≠ .ok then
      close
      return result
    else
      modifyGif fun gif => { gif with
        deadlineUs    := nowUs + .ofNat gif.currentDelayMs * 1000
        deadlineArmed := true }
      return .ok

end Session

-- `files_gif_toggle_pause`, without its result.
def togglePause (nowUs : UInt64) : M Unit := do
  let { gif, .. } ← get
  if gif.active && gif.playing then
    if gif.paused then
      modifyGif ({ · with
        deadlineUs    := nowUs + gif.pauseRemainingUs
        deadlineArmed := true
        paused        := false })
    else
      modifyGif ({ · with
        pauseRemainingUs :=
          if gif.deadlineArmed && gif.deadlineUs > nowUs then gif.deadlineUs - nowUs else 0
        paused := true })

-- What can be asked of the decoder, each time with the volume as it is mounted then. The scratch
-- sector and the row buffer are also used by others.
inductive Op
  | openGif (g : Geometry) (entry : Option Entry) (sink : Option Sink)
  | tick (g : Geometry) (nowUs : UInt64)
  | togglePause (nowUs : UInt64)
  | close
  | others (sectorData : Memory) (row : Nat → UInt8)

def Op.run : Op → M FileResult
  | openGif g entry sink  => Gif.openGif g entry sink
  | tick g nowUs          => Gif.tick g nowUs
  | togglePause nowUs     => do
    Gif.togglePause nowUs
    return .ok
  | close                 => do
    Gif.close
    return .ok
  | others sectorData row => do
    modify ({ · with sectorData, row })
    return .ok

end Gif
