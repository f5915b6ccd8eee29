import HackyLens.Hmpy.Codec

-- The reference codec of the host tools, with its own tables and its own order of checks. Python's
-- unbounded integers are `Int`, a raised `ProtocolDecodeError` is the error of an `Except`.
namespace Host

open LittleEndian
open Hmpy (CodecStatus)

def maxPayloadSize : Nat := 1024
def headerSize : Nat := 16
def rawOverhead : Nat := headerSize + 4
def maxRawFrame : Nat := rawOverhead + maxPayloadSize
def maxEncodedPacket : Nat := maxRawFrame + maxRawFrame / 254 + 1

def messageTypes : List Int :=
  [0x01, 0x02, 0x03, 0x04, 0x10, 0x11, 0x12, 0x13, 0x20, 0x21, 0x22, 0x30, 0x31, 0x32, 0x40, 0x41,
    0x80, 0x81, 0x82, 0x83, 0x84]

def messageStdout : Int := 0x80
def messageDropped : Int := 0x84

def flagResponse : UInt16 := 0x0001
def flagError : UInt16 := 0x0002
def flagMore : UInt16 := 0x0004
def frameFlagMask : UInt16 := flagResponse ||| flagError ||| flagMore

structure Frame where
  type      : Int
  flags     : Int
  requestId : Int
  payload   : List UInt8

def coerceType (value : Int) : Except CodecStatus Int :=
  if value ∈ messageTypes then .ok value else .error .unknownType

-- Past the range check the flag set is sixteen bits wide.
def coerceFlags (value : Int) : Except CodecStatus UInt16 :=
  if value < 0 ∨ value > 0xFFFF then .error .reservedFlags
  else
    let flags := UInt16.ofNat value.toNat
    if flags &&& ~~~frameFlagMask ≠ 0 then .error .reservedFlags else .ok flags

def validateEnvelope (messageType flags requestId : Int) : Except CodecStatus (Int × UInt16) := do
  let parsedType ← coerceType messageType
  let parsedFlags ← coerceFlags flags
  if requestId < 0 ∨ requestId > 0xFFFFFFFF then .error .invalidEnvelope
  else if messageStdout ≤ parsedType ∧ parsedType ≤ messageDropped then
    if parsedFlags ≠ 0 ∨ requestId ≠ 0 then .error .invalidEnvelope
    else .ok (parsedType, parsedFlags)
  else if requestId = 0 then .error .invalidEnvelope
  else if parsedFlags &&& flagError ≠ 0 ∧ parsedFlags &&& flagResponse = 0 then
    .error .invalidEnvelope
  else if parsedFlags &&& flagMore ≠ 0 ∧ parsedFlags &&& flagResponse = 0 then
    .error .invalidEnvelope
  else .ok (parsedType, parsedFlags)

-- `binascii.crc32`, by its table.
def crc32 (data : List UInt8) : BitVec 32 :=
  ~~~(data.foldl (fun crc b => Crc.tabular Core.crc32Poly crc b.toBitVec) 0xFFFFFFFF#32)

structure CobsEncoder where
  output    : List UInt8
  codeIndex : Nat
  code      : UInt8

def CobsEncoder.close (e : CobsEncoder) : List UInt8 :=
  e.output.set e.codeIndex e.code

def CobsEncoder.finishBlock (e : CobsEncoder) : CobsEncoder where
  output    := e.close ++ [0]
  codeIndex := e.output.length
  code      := 1

def cobsEncodeByte (e : CobsEncoder) (value : UInt8) : CobsEncoder :=
  if value = 0 then e.finishBlock
  else
    let e := { e with output := e.output ++ [value], code := e.code + 1 }
    if e.code = 0xFF then e.finishBlock else e

def cobsEncode (data : List UInt8) : List UInt8 :=
  (data.foldl cobsEncodeByte { output := [0], codeIndex := 0, code := 1 }).close

def cobsDecodeLoop (source output : List UInt8) : Except CodecStatus (List UInt8) :=
  match source with
  | [] => .ok output
  | code :: rest =>
    let copyLength := code.toNat - 1
    if code = 0 then .error .cobsMalformed
    else if copyLength > rest.length then .error .cobsMalformed
    else
      let output := output ++ rest.take copyLength
      let output := if code ≠ 0xFF ∧ rest.drop copyLength ≠ [] then output ++ [0] else output
      if output.length > maxRawFrame then .error .encodedTooLarge
      else cobsDecodeLoop (rest.drop copyLength) output
termination_by source.length
decreasing_by simp

def cobsDecode (packet : List UInt8) : Except CodecStatus (List UInt8) :=
  if packet = [] then .error .cobsMalformed
  else if 0 ∈ packet then .error .cobsMalformed
  else cobsDecodeLoop packet []

-- `HEADER.pack` of the fields, which the envelope check has put in range, and the payload.
def packHeader (messageType : Int) (flags : UInt16) (requestId : Int) (payload : List UInt8) :
    List UInt8 :=
  [0x48, 0x4D, 0x50, 0x59, 1, UInt8.ofNat messageType.toNat] ++ bytes16 flags ++
    bytes32 (UInt32.ofNat requestId.toNat) ++ bytes32 (UInt32.ofNat payload.length) ++ payload

def encodeRaw (f : Frame) : Except CodecStatus (List UInt8) := do
  let (messageType, flags) ← validateEnvelope f.type f.flags f.requestId
  if f.payload.length > maxPayloadSize then .error .payloadTooLarge
  else
    let raw := packHeader messageType flags f.requestId f.payload
    .ok (raw ++ bytes32 (UInt32.ofBitVec (crc32 raw)))

def encodeFrame (f : Frame) : Except CodecStatus (List UInt8) := do
  let raw ← encodeRaw f
  let encoded := cobsEncode raw
  if encoded.length > maxEncodedPacket then .error .encodedTooLarge else .ok (encoded ++ [0])

def decodeRaw (source : List UInt8) : Except CodecStatus Frame :=
  if source.length < rawOverhead then .error .frameTooShort
  else if source.take 4 ≠ [0x48, 0x4D, 0x50, 0x59] then .error .badMagic
  else if source.getD 4 0 ≠ 1 then .error .unsupportedVersion
  else
    let messageType : Int := (source.getD 5 0).toNat
    let flags : Int := (u16 (at' source 6)).toNat
    let requestId : Int := (u32 (at' source 8)).toNat
    let payloadLength := (u32 (at' source 12)).toNat
    if payloadLength > maxPayloadSize then .error .payloadTooLarge
    else if source.length ≠ rawOverhead + payloadLength then .error .lengthMismatch
    else do
      let (parsedType, parsedFlags) ← validateEnvelope messageType flags requestId
      let crcOffset := headerSize + payloadLength
      if crc32 (source.take crcOffset) ≠ (u32 (at' source crcOffset)).toBitVec then
        .error .crcMismatch
      else .ok {
        type      := parsedType
        flags     := parsedFlags.toNat
        requestId := requestId
        payload   := (source.take crcOffset).drop headerSize
      }

def decodePacket (packet : List UInt8) : Except CodecStatus Frame :=
  if packet.length > maxEncodedPacket then .error .encodedTooLarge
  else cobsDecode packet >>= decodeRaw

structure StreamDecoder where
  buffer     : List UInt8
  discarding : Bool
  errorCount : Nat
  lastError  : Option CodecStatus

-- An event carries a frame or the status of an error.
abbrev StreamEvent :=
  Except CodecStatus Frame

namespace StreamDecoder

def init : StreamDecoder where
  buffer     := []
  discarding := false
  errorCount := 0
  lastError  := none

def reset (d : StreamDecoder) : StreamDecoder :=
  { d with buffer := [], discarding := false, lastError := none }

def errorEvent (d : StreamDecoder) (status : CodecStatus) : StreamEvent × StreamDecoder :=
  (.error status, { d with errorCount := d.errorCount + 1, lastError := some status })

-- One round of the loop in `feed`.
def feedByte (d : StreamDecoder) (value : UInt8) : Option StreamEvent × StreamDecoder :=
  if value ≠ 0 then
    if d.discarding then (none, d)
    else if d.buffer.length ≥ maxEncodedPacket then
      (none, { d with buffer := [], discarding := true })
    else (none, { d with buffer := d.buffer ++ [value] })
  else if d.discarding then
    let (event, d) := { d with discarding := false, buffer := [] }.errorEvent .encodedTooLarge
    (some event, d)
  else if d.buffer = [] then (none, d)
  else
    match decodePacket d.buffer with
    | .error status =>
      let (event, d) := { d with buffer := [] }.errorEvent status
      (some event, d)
    | .ok frame => (some (.ok frame), { d with buffer := [], lastError := none })

def feed (d : StreamDecoder) : List UInt8 → List StreamEvent × StreamDecoder
  | [] => ([], d)
  | value :: values =>
    let (event, d₁) := d.feedByte value
    let (events, d₂) := d₁.feed values
    (event.toList ++ events, d₂)

-- The calls a caller makes when the stream reaches it in the given chunks.
def feedChunks (d : StreamDecoder) : List (List UInt8) → List StreamEvent × StreamDecoder
  | [] => ([], d)
  | chunk :: chunks =>
    let (events₁, d₁) := d.feed chunk
    let (events₂, d₂) := d₁.feedChunks chunks
    (events₁ ++ events₂, d₂)

end StreamDecoder
end Host
