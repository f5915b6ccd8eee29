import HackyLens.Lib.Memory
import HackyLens.Lib.Prog

-- `image_decode_png_inflate.c`. Numbers that wrap around somewhere have their own types or are
-- reduced. `inflate_need` never fails, so that `ok` always stays set.

namespace Inflate

def pngOutMax : Nat := 614400
def huffTableBits : Nat := 15
def huffTableSize : Nat := 2 ^ huffTableBits
def huffInvalid : UInt16 := 0xFFFF

-- An index that is not in its array, and a byte that does not fit into the bit buffer.
inductive Call
  | outOfRange
  | bitsLost

abbrev Call.Reply (_ : Call) : Type := Unit

-- `inflate_stream_t`. Its data is the source without the header.
structure Stream where
  size : UInt32
  pos : UInt32
  bitbuf : Nat
  bitcount : Nat

-- `g_huff_lit_table` and `g_huff_dist_table`
inductive Table
  | lit | dist
  deriving DecidableEq

structure State where
  s : Stream
  tables : Table → Nat → UInt16
  out : Nat → UInt8
  outPos : UInt32

abbrev M := Prog Call Call.Reply State

def modifyStream (f : Stream → Stream) : M Unit :=
  modify fun st => { st with s := f st.s }

-- Every access to an array is preceded by the test that its index is in range.
def check (i size : Nat) : M Unit := do
  if i < size then
    pure ()
  else
    let _ : Unit ← Prog.call Call.outOfRange
    Prog.hang

-- The buffer has 32 bits.
def checkShift (bitcount : Nat) : M Unit := do
  if bitcount + 8 ≤ 32 then
    pure ()
  else
    let _ : Unit ← Prog.call Call.bitsLost
    Prog.hang

def huffReverse : (len code out : Nat) → Nat
  | 0,       _,    out => out
  | len + 1, code, out => huffReverse len (code / 2) (out * 2 + code % 2)

section Table

variable (lengths : Nat → Nat) (base size : Nat) (t : Table)

-- The first loop over the symbols, which may find a length that is too long.
def countLengths : (left i : Nat) → (blCount : Nat → Nat) → M (Option (Nat → Nat))
  | 0,        _, blCount => return some blCount
  | left + 1, i, blCount => do
    check (base + i) size
    let len := lengths (base + i)
    if len > huffTableBits then
      return none
    else if len ≠ 0 then
      check len (huffTableBits + 1)
      countLengths left (i + 1) (Function.update blCount len (blCount len + 1))
    else
      countLengths left (i + 1) blCount

-- The first code of each length.
def nextCode (blCount : Nat → Nat) : Nat → Nat
  | 0        => 0
  | bits + 1 => (nextCode blCount bits + blCount bits) * 2 % 2 ^ 16

-- A round of the loop over the entries that begin with a code.
def fillRound (value : UInt16) (step idx : Nat) : M (Unit ⊕ Nat) := do
  if idx < huffTableSize then
    check idx huffTableSize
    modify fun st => { st with
      tables := Function.update st.tables t (Function.update (st.tables t) idx value) }
    return .inr (idx + step)
  else
    return .inl ()

def fillTable : (left sym : Nat) → (nextCode : Nat → Nat) → M Unit
  | 0,        _,   _        => return ()
  | left + 1, sym, nextCode => do
    check (base + sym) size
    let len := lengths (base + sym)
    if len = 0 then
      fillTable left (sym + 1) nextCode
    else
      check len (huffTableBits + 1)
      let rev := huffReverse len (nextCode len) 0
      let value := UInt16.ofNat (len * 512 ||| sym)
      Prog.loop (fillRound t value (2 ^ len)) (huffTableSize + 1) rev
      fillTable left (sym + 1) (Function.update nextCode len ((nextCode len + 1) % 2 ^ 16))

-- `huff_build_table` for `count` lengths of the array `lengths`, which has `size` elements.
def huffBuildTable (count : Nat) : M Bool := do
  modify fun st => { st with tables := Function.update st.tables t fun _ => huffInvalid }
  match ← countLengths lengths base size count 0 fun _ => 0 with
  | none         => return false
  | some blCount =>
    fillTable lengths base size t count 0 (nextCode blCount)
    return true

end Table

section Source

variable (src : Memory) (srcSize : UInt32)

-- A round of the loop that fills up the buffer.
def needRound (bits : Nat) (_ : Unit) : M (Unit ⊕ Unit) := do
  let { s, .. } ← get
  if s.bitcount < bits then
    if s.pos ≥ s.size then
      modifyStream ({ · with bitcount := bits })
      return .inl ()
    else
      check (2 + s.pos.toNat) srcSize.toNat
      checkShift s.bitcount
      modifyStream ({ · with
        bitbuf   := (s.bitbuf ||| (src (2 + s.pos.toNat)).toNat <<< s.bitcount) % 2 ^ 32
        pos      := s.pos + 1
        bitcount := (s.bitcount + 8) % 2 ^ 8 })
      return .inr ()
  else
    return .inl ()

def need (bits : Nat) : M Unit :=
  Prog.loop (needRound src srcSize bits) (bits + 1) ()

-- Takes bits from the buffer that it holds.
def dropBits (bits : Nat) : M Unit :=
  modifyStream fun s => { s with
    bitbuf   := s.bitbuf >>> bits
    bitcount := (s.bitcount + 2 ^ 8 - bits) % 2 ^ 8 }

def getBits (bits : Nat) : M Nat := do
  need src srcSize bits
  let { s, .. } ← get
  dropBits bits
  return s.bitbuf % 2 ^ bits

def huffDecode (t : Table) : M (Option Nat) := do
  need src srcSize huffTableBits
  let { s, tables, .. } ← get
  check (s.bitbuf % huffTableSize) huffTableSize
  let entry := tables t (s.bitbuf % huffTableSize)
  if entry = huffInvalid then
    return none
  else
    dropBits (entry.toNat / 512)
    return some (entry.toNat % 512)

end Source

def fixedLitLengths (i : Nat) : Nat :=
  if i ≤ 143 then 8 else if i ≤ 255 then 9 else if i ≤ 279 then 7 else 8

def buildFixedTables : M Bool := do
  if ← huffBuildTable fixedLitLengths 0 288 .lit 288 then
    huffBuildTable (fun _ => 5) 0 32 .dist 32
  else
    return false

def order : List Nat :=
  [16, 17, 18, 0, 8, 7, 9, 6, 10, 5, 11, 4, 12, 3, 13, 2, 14, 1, 15]

section Source

variable (src : Memory) (srcSize : UInt32)

-- The lengths of the codes that the code lengths are written in.
def readClLengths : (left j : Nat) → (clLengths : Nat → Nat) → M (Nat → Nat)
  | 0,        _, clLengths => return clLengths
  | left + 1, j, clLengths => do
    check j 19
    check (order.getD j 0) 19
    let len ← getBits src srcSize 3
    readClLengths left (j + 1) (Function.update clLengths (order.getD j 0) len)

end Source

-- Stores a length `repeat` times.
def repeatLength (len : Nat) : (left i : Nat) → (lengths : Nat → Nat) → M (Nat × (Nat → Nat))
  | 0,        i, lengths => return (i, lengths)
  | left + 1, i, lengths => do
    check i 320
    repeatLength len left (i + 1) (Function.update lengths i len)

-- The check that is made before a length is repeated.
def tryRepeat (total len left i : Nat) (lengths : Nat → Nat) :
    M (Option (Nat × (Nat → Nat)) ⊕ (Nat × (Nat → Nat))) := do
  if i + left > total then
    return .inl none
  else
    return .inr (← repeatLength len left i lengths)

section Source

variable (src : Memory) (srcSize : UInt32)

-- A round of the loop over the code lengths: how many have been stored, and the array.
def lengthRound (total : Nat) (b : Nat × (Nat → Nat)) :
    M (Option (Nat × (Nat → Nat)) ⊕ (Nat × (Nat → Nat))) := do
  let (i, lengths) := b
  if i < total then
    match ← huffDecode src srcSize .dist with
    | none     => return .inl none
    | some sym =>
      if sym ≤ 15 then
        check i 320
        return .inr (i + 1, Function.update lengths i sym)
      else if sym = 16 then
        if i = 0 then
          return .inl none
        else
          let left := (← getBits src srcSize 2) + 3
          check (i - 1) 320
          tryRepeat total (lengths (i - 1)) left i lengths
      else if sym = 17 then
        let left := (← getBits src srcSize 3) + 3
        tryRepeat total 0 left i lengths
      else if sym = 18 then
        let left := (← getBits src srcSize 7) + 11
        tryRepeat total 0 left i lengths
      else
        return .inl none
  else
    return .inl (some (i, lengths))

-- What follows the lengths that the codes are written in. Each round stores at least one of them.
def readTables (hlit hdist : Nat) : M Bool := do
  match ← Prog.loop (lengthRound src srcSize (hlit + hdist)) (hlit + hdist + 1)
      (0, fun _ => 0) with
  | none              => return false
  | some (_, lengths) =>
    if ← huffBuildTable lengths 0 320 .lit hlit then
      huffBuildTable lengths hlit 320 .dist hdist
    else
      return false

def buildDynamicTables : M Bool := do
  let hlit := (← getBits src srcSize 5) + 257
  let hdist := (← getBits src srcSize 5) + 1
  let hclen := (← getBits src srcSize 4) + 4
  if hlit > 288 ∨ hdist > 32 then
    return false
  else
    let clLengths ← readClLengths src srcSize hclen 0 fun _ => 0
    if ← huffBuildTable clLengths 0 19 .dist 19 then
      readTables src srcSize hlit hdist
    else
      return false

def lenBase : List Nat :=
  [3, 4, 5, 6, 7, 8, 9, 10, 11, 13, 15, 17, 19, 23, 27, 31, 35, 43, 51, 59, 67, 83, 99, 115, 131,
    163, 195, 227, 258]

def lenExtra : List Nat :=
  [0, 0, 0, 0, 0, 0, 0, 0, 1, 1, 1, 1, 2, 2, 2, 2, 3, 3, 3, 3, 4, 4, 4, 4, 5, 5, 5, 5, 0]

def distBase : List Nat :=
  [1, 2, 3, 4, 5, 7, 9, 13, 17, 25, 33, 49, 65, 97, 129, 193, 257, 385, 513, 769, 1025, 1537, 2049,
    3073, 4097, 6145, 8193, 12289, 16385, 24577]

def distExtra : List Nat :=
  [0, 0, 0, 0, 1, 1, 2, 2, 3, 3, 4, 4, 5, 5, 6, 6, 7, 7, 8, 8, 9, 9, 10, 10, 11, 11, 12, 12, 13, 13]

variable (outSize : UInt32)

-- Writes the next byte of the output.
def put (byte : UInt8) : M Unit := do
  let { outPos, .. } ← get
  check outPos.toNat outSize.toNat
  modify fun st => { st with
    out    := Function.update st.out outPos.toNat byte
    outPos := outPos + 1 }

def copyMatch (distance : UInt32) : (length : Nat) → M Unit
  | 0          => return ()
  | length + 1 => do
    let { out, outPos, .. } ← get
    check (outPos - distance).toNat outSize.toNat
    put outSize (out (outPos - distance).toNat)
    copyMatch distance length

-- What follows a symbol that stands for a length. It makes `inflate_codes` return or go on.
def decodeMatch (lenIndex : Nat) : M (Bool ⊕ Unit) := do
  check lenIndex 29
  let length := lenBase.getD lenIndex 0 + (← getBits src srcSize (lenExtra.getD lenIndex 0))
  match ← huffDecode src srcSize .dist with
  | none         => return .inl false
  | some distSym =>
    if distSym ≥ 30 then
      return .inl false
    else
      check distSym 30
      let distance := UInt32.ofNat <|
        distBase.getD distSym 0 + (← getBits src srcSize (distExtra.getD distSym 0))
      let { outPos, .. } ← get
      if distance = 0 ∨ distance > outPos ∨ outPos + .ofNat length > outSize then
        return .inl false
      else
        copyMatch outSize distance length
        return .inr ()

def codesRound (_ : Unit) : M (Bool ⊕ Unit) := do
  match ← huffDecode src srcSize .lit with
  | none     => return .inl false
  | some sym =>
    if sym < 256 then
      let { outPos, .. } ← get
      if outPos ≥ outSize then
        return .inl false
      else
        put outSize (.ofNat sym)
        return .inr ()
    else if sym = 256 then
      return .inl true
    else if sym > 285 then
      return .inl false
    else
      decodeMatch src srcSize outSize (sym - 257)

-- A round that goes on has written at least one byte.
def inflateCodes : M Bool :=
  Prog.loop (codesRound src srcSize outSize) (outSize.toNat + 1) ()

-- The copy of a stored block's bytes, from its `i`th on.
def copyStored (pos : UInt32) : (left i : Nat) → M Unit
  | 0,        _ => return ()
  | left + 1, i => do
    check (2 + pos.toNat + i) srcSize.toNat
    put outSize (src (2 + pos.toNat + i))
    copyStored pos left (i + 1)

-- The number of two bytes at a position.
def stored16 (pos : UInt32) : M UInt16 := do
  check (2 + pos.toNat) srcSize.toNat
  check (2 + (pos + 1).toNat) srcSize.toNat
  return (src (2 + pos.toNat)).toUInt16 ||| (src (2 + (pos + 1).toNat)).toUInt16 <<< 8

def storedBlock : M Bool := do
  modifyStream ({ · with bitbuf := 0, bitcount := 0 })
  let { s, .. } ← get
  if s.pos + 4 > s.size then
    return false
  else
    let len ← stored16 src srcSize s.pos
    let nlen ← stored16 src srcSize (s.pos + 2)
    modifyStream ({ · with pos := s.pos + 4 })
    let { s, outPos, .. } ← get
    if ~~~len ≠ nlen ∨ s.pos + len.toUInt32 > s.size ∨ outPos + len.toUInt32 > outSize then
      return false
    else
      copyStored src srcSize outSize s.pos len.toNat 0
      modifyStream ({ · with pos := s.pos + len.toUInt32 })
      return true

def huffmanBlock (build : M Bool) : M Bool := do
  if ← build then
    inflateCodes src srcSize outSize
  else
    return false

def block (blockType : Nat) : M Bool :=
  if blockType = 0 then
    storedBlock src srcSize outSize
  else if blockType = 1 then
    huffmanBlock src srcSize outSize buildFixedTables
  else if blockType = 2 then
    huffmanBlock src srcSize outSize (buildDynamicTables src srcSize)
  else
    return false

def blockRound (_ : Unit) : M (Bool ⊕ Unit) := do
  let finalBlock ← getBits src srcSize 1
  let blockType ← getBits src srcSize 2
  if ← block src srcSize outSize blockType then
    if finalBlock ≠ 0 then
      let { outPos, .. } ← get
      return .inl (outPos = outSize)
    else
      return .inr ()
  else
    return .inl false

-- `png_zlib_inflate_to_buffer`. Each block takes at least one bit of the source.
def zlibInflateToBuffer : M Bool := do
  modify ({ · with outPos := 0 })
  if srcSize < 6 then
    return false
  else
    check 0 srcSize.toNat
    check 1 srcSize.toNat
    if src 0 &&& 0x0F ≠ 8 ∨ ((src 0).toNat * 256 + (src 1).toNat) % 31 ≠ 0 then
      return false
    else
      modify ({ · with s := ⟨srcSize - 6, 0, 0, 0⟩ })
      Prog.loop (blockRound src srcSize outSize) (8 * srcSize.toNat + 2) ()

end Source

end Inflate
