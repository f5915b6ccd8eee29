import HackyLens.Core.Binary

-- `external_link_protocol.c`: the frames on the external link, and the parser of what is received.
-- The outer `Option` of a function that reads a buffer is `none` where a byte outside of it would
-- be accessed.

namespace ExternalLink

open LittleEndian

def protocolVersion : UInt8 := 1
def maxPayload : Nat := 160
def frameOverhead : Nat := 10
def maxFrame : Nat := maxPayload + frameOverhead

def readU16 (data : List UInt8) (offset : Nat) : Option UInt16 := do
  let low ← data[offset]?
  let high ← data[offset + 1]?
  return low.toUInt16 ||| high.toUInt16 <<< 8

def crc16Bits : Nat → UInt16 → UInt16
  | 0,       crc => crc
  | bit + 1, crc => crc16Bits bit (if crc &&& 0x8000 ≠ 0 then crc <<< 1 ^^^ 0x1021 else crc <<< 1)

def crc16Byte (crc : UInt16) (byte : UInt8) : UInt16 :=
  crc16Bits 8 (crc ^^^ (byte.toUInt16 <<< 8))

-- `hk_link_crc16`
def crc16 (data : List UInt8) : UInt16 :=
  data.foldl crc16Byte 0xFFFF

-- The bytes from `offset` on.
def region (data : List UInt8) (offset len : Nat) : Option (List UInt8) :=
  if offset + len ≤ data.length then some ((data.drop offset).take len) else none

-- `hk_link_message_t`. The payload's length is the one of the list.
structure Message where
  type : UInt8
  sequence : UInt16
  payload : List UInt8
  deriving DecidableEq

-- What the checksum is taken of.
def frameBody (m : Message) : List UInt8 :=
  [protocolVersion, m.type] ++ bytes16 m.sequence ++ bytes16 (.ofNat m.payload.length) ++ m.payload

-- `hk_link_frame_encode` with the buffers that it needs, or nothing where it returns zero.
def frameEncode (m : Message) (capacity : Nat) : Option (List UInt8) :=
  if m.payload.length > maxPayload ∨ capacity < m.payload.length + frameOverhead then
    none
  else
    some ([0x48, 0x4B] ++ frameBody m ++ bytes16 (crc16 (frameBody m)))

-- `hk_link_frame_decode`. The frame is in a buffer, which may be longer.
def frameDecode (frame : List UInt8) (length : Nat) : Option (Option Message) :=
  if length < frameOverhead then
    return none
  else do
    if (← frame[0]?) ≠ 0x48 then
      return none
    else if (← frame[1]?) ≠ 0x4B then
      return none
    else if (← frame[2]?) ≠ protocolVersion then
      return none
    else
      let payloadLength := (← readU16 frame 6).toNat
      if payloadLength > maxPayload ∨ length ≠ payloadLength + frameOverhead then
        return none
      else
        let expectedCrc ← readU16 frame (8 + payloadLength)
        if expectedCrc ≠ crc16 (← region frame 2 (payloadLength + 6)) then
          return none
        else
          let type ← frame[3]?
          let sequence ← readU16 frame 4
          let payload ← region frame 8 payloadLength
          return some ⟨type, sequence, payload⟩

-- `hk_link_stream_parser_t`
structure StreamParser where
  data : Vector UInt8 maxFrame
  length : UInt16

namespace StreamParser

def reset (parser : StreamParser) : StreamParser :=
  { parser with length := 0 }

def store (parser : StreamParser) (i : Nat) (byte : UInt8) : Option StreamParser :=
  if h : i < maxFrame then some { parser with data := parser.data.set i byte h } else none

-- What `hk_link_stream_feed` does with a byte that is part of a frame.
def append (parser : StreamParser) (byte : UInt8) : Option (Option Message × StreamParser) := do
  let parser := if parser.length.toNat ≥ maxFrame then parser.reset else parser
  let parser ← parser.store parser.length.toNat byte
  let parser := { parser with length := parser.length + 1 }
  if parser.length < 8 then
    return (none, parser)
  else
    let expected := (← readU16 parser.data.toList 6) + .ofNat frameOverhead
    if expected.toNat > maxFrame then
      return (none, parser.reset)
    else if parser.length < expected then
      return (none, parser)
    else if parser.length = expected then
      return (← frameDecode parser.data.toList expected.toNat, parser.reset)
    else
      return (none, parser.reset)

-- `hk_link_stream_feed`
def feed (parser : StreamParser) (byte : UInt8) : Option (Option Message × StreamParser) :=
  if parser.length = 0 ∧ byte ≠ 0x48 then
    return (none, parser)
  else if parser.length = 1 ∧ byte ≠ 0x4B then do
    let parser ← parser.store 0 byte
    return (none, { parser with length := if byte = 0x48 then 1 else 0 })
  else
    parser.append byte

-- What is returned for each of the bytes.
def feedAll (parser : StreamParser) : List UInt8 → Option (List (Option Message) × StreamParser)
  | []            => some ([], parser)
  | byte :: bytes => do
    let (message, parser) ← parser.feed byte
    let (messages, parser) ← parser.feedAll bytes
    return (message :: messages, parser)

end StreamParser
end ExternalLink
