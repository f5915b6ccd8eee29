import HackyLens.Core.Binary

namespace Hmpy

open LittleEndian

def protocolVersion : UInt8 := 1
def headerSize : Nat := 16
def crcSize : Nat := 4
def rawOverhead : Nat := headerSize + crcSize
def maxPayloadSize : Nat := 1024
def maxRawFrame : Nat := rawOverhead + maxPayloadSize
def maxEncodedPacket : Nat := maxRawFrame + maxRawFrame / 254 + 1
def maxWireFrame : Nat := maxEncodedPacket + 1

inductive MessageType
  | hello | list | stat | read
  | uploadBegin | uploadChunk | uploadCommit | uploadAbort
  | delete | setStartup | format
  | run | stop | status
  | ping | sessionClose
  | stdout | stderr | state | fileChanged | dropped
  deriving DecidableEq

def MessageType.value : MessageType → UInt8
  | hello        => 0x01
  | list         => 0x02
  | stat         => 0x03
  | read         => 0x04
  | uploadBegin  => 0x10
  | uploadChunk  => 0x11
  | uploadCommit => 0x12
  | uploadAbort  => 0x13
  | delete       => 0x20
  | setStartup   => 0x21
  | format       => 0x22
  | run          => 0x30
  | stop         => 0x31
  | status       => 0x32
  | ping         => 0x40
  | sessionClose => 0x41
  | stdout       => 0x80
  | stderr       => 0x81
  | state        => 0x82
  | fileChanged  => 0x83
  | dropped      => 0x84

def MessageType.all : List MessageType :=
  [hello, list, stat, read, uploadBegin, uploadChunk, uploadCommit, uploadAbort, delete, setStartup,
    format, run, stop, status, ping, sessionClose, stdout, stderr, state, fileChanged, dropped]

def flagResponse : UInt16 := 0x0001
def flagError : UInt16 := 0x0002
def flagMore : UInt16 := 0x0004
def flagMask : UInt16 := flagResponse ||| flagError ||| flagMore

inductive CodecStatus
  | ok | incomplete | frameReady
  | argument | outputTooSmall | cobsMalformed | encodedTooLarge | frameTooShort | badMagic
  | unsupportedVersion | unknownType | reservedFlags | invalidEnvelope | payloadTooLarge
  | lengthMismatch | crcMismatch
  deriving DecidableEq

-- The payload length of a frame is the length of its payload.
@[ext]
structure Frame where
  type      : UInt8
  flags     : UInt16
  requestId : UInt32
  payload   : List UInt8
  deriving DecidableEq

def typeIsKnown (type : UInt8) : Bool :=
  MessageType.all.any (·.value == type)

def typeIsEvent (type : UInt8) : Bool :=
  type ≥ MessageType.stdout.value && type ≤ MessageType.dropped.value

def validateEnvelope (type : UInt8) (flags : UInt16) (requestId : UInt32) : CodecStatus :=
  if !typeIsKnown type then .unknownType
  else if flags &&& ~~~flagMask ≠ 0 then .reservedFlags
  else if typeIsEvent type then
    if flags ≠ 0 ∨ requestId ≠ 0 then .invalidEnvelope else .ok
  else if requestId = 0 then .invalidEnvelope
  else if flags &&& flagError ≠ 0 ∧ flags &&& flagResponse = 0 then .invalidEnvelope
  else if flags &&& flagMore ≠ 0 ∧ flags &&& flagResponse = 0 then .invalidEnvelope
  else .ok

def crc32 (data : List UInt8) : UInt32 :=
  ~~~(data.foldl Core.crc32Byte 0xFFFFFFFF)

-- The first `write_index` bytes of the output buffer. The byte at `codeIndex` is reserved for the
-- code of the open block and holds nothing yet.
structure CobsEncoder where
  output    : List UInt8
  codeIndex : Nat
  code      : UInt8

def CobsEncoder.start : CobsEncoder where
  output    := [0]
  codeIndex := 0
  code      := 1

def CobsEncoder.close (e : CobsEncoder) : List UInt8 :=
  e.output.set e.codeIndex e.code

def CobsEncoder.finishBlock (e : CobsEncoder) (capacity : Nat) : Except CodecStatus CobsEncoder :=
  let output := e.close
  if output.length ≥ capacity then .error .outputTooSmall
  else .ok { output := output ++ [0], codeIndex := output.length, code := 1 }

def cobsEncodeByte (capacity : Nat) (e : CobsEncoder) (value : UInt8) :
    Except CodecStatus CobsEncoder :=
  if value = 0 then e.finishBlock capacity
  else if e.output.length ≥ capacity then .error .outputTooSmall
  else
    let e := { e with output := e.output ++ [value], code := e.code + 1 }
    if e.code = 0xFF then e.finishBlock capacity else .ok e

def cobsEncode (input : List UInt8) (capacity : Nat) : Except CodecStatus (List UInt8) :=
  if capacity = 0 then .error .outputTooSmall
  else CobsEncoder.close <$> input.foldlM (cobsEncodeByte capacity) .start

-- One round for each block; `input` is what is left from `read_index` on.
def cobsDecodeLoop (capacity : Nat) (input output : List UInt8) :
    Except CodecStatus (List UInt8) :=
  match input with
  | [] => .ok output
  | code :: rest =>
    let copyLength := code.toNat - 1
    if code = 0 then .error .cobsMalformed
    else if copyLength > rest.length then .error .cobsMalformed
    else if copyLength > capacity - output.length then .error .outputTooSmall
    else
      let output := output ++ rest.take copyLength
      if code ≠ 0xFF ∧ rest.drop copyLength ≠ [] then
        if output.length ≥ capacity then .error .outputTooSmall
        else cobsDecodeLoop capacity (rest.drop copyLength) (output ++ [0])
      else cobsDecodeLoop capacity (rest.drop copyLength) output
termination_by input.length
decreasing_by all_goals simp

def cobsDecode (input : List UInt8) (capacity : Nat) : Except CodecStatus (List UInt8) :=
  if input.length = 0 then .error .cobsMalformed
  else if 0 ∈ input then .error .cobsMalformed
  else cobsDecodeLoop capacity input []

-- The raw frame up to its checksum.
def rawHeader (f : Frame) : List UInt8 :=
  [0x48, 0x4D, 0x50, 0x59, protocolVersion, f.type] ++ bytes16 f.flags ++ bytes32 f.requestId ++
    bytes32 (UInt32.ofNat f.payload.length)

-- The raw frame, checksum included, that goes to the stuffing stage.
def rawFrame (f : Frame) : List UInt8 :=
  rawHeader f ++ f.payload ++ bytes32 (crc32 (rawHeader f ++ f.payload))

def frameEncode (f : Frame) (capacity : Nat) : Except CodecStatus (List UInt8) :=
  if f.payload.length > maxPayloadSize then .error .payloadTooLarge
  else if validateEnvelope f.type f.flags f.requestId ≠ .ok then
    .error (validateEnvelope f.type f.flags f.requestId)
  else if capacity = 0 then .error .outputTooSmall
  else do
    let encoded ← cobsEncode (rawFrame f) (capacity - 1)
    if encoded.length ≥ capacity then .error .outputTooSmall else .ok (encoded ++ [0])

def frameDecodeRaw (raw : List UInt8) : Except CodecStatus Frame :=
  if raw.length < rawOverhead then .error .frameTooShort
  else if raw.take 4 ≠ [0x48, 0x4D, 0x50, 0x59] then .error .badMagic
  else if raw.getD 4 0 ≠ protocolVersion then .error .unsupportedVersion
  else
    let payloadLength := (u32 (at' raw 12)).toNat
    if payloadLength > maxPayloadSize then .error .payloadTooLarge
    else if raw.length ≠ rawOverhead + payloadLength then .error .lengthMismatch
    else
      let status := validateEnvelope (raw.getD 5 0) (u16 (at' raw 6)) (u32 (at' raw 8))
      let crcOffset := headerSize + payloadLength
      if status ≠ .ok then .error status
      else if crc32 (raw.take crcOffset) ≠ u32 (at' raw crcOffset) then .error .crcMismatch
      else .ok {
        type      := raw.getD 5 0
        flags     := u16 (at' raw 6)
        requestId := u32 (at' raw 8)
        payload   := (raw.drop headerSize).take payloadLength
      }

def frameDecodePacket (packet : List UInt8) (rawCapacity : Nat) : Except CodecStatus Frame :=
  if packet.length > maxEncodedPacket then .error .encodedTooLarge
  else
    match cobsDecode packet rawCapacity with
    | .error .outputTooSmall =>
      if rawCapacity ≥ maxRawFrame then .error .encodedTooLarge else .error .outputTooSmall
    | .error status => .error status
    | .ok raw =>
      if raw.length > maxRawFrame then .error .encodedTooLarge else frameDecodeRaw raw

-- `encoded` is the used part of the fixed packet buffer, so it never outgrows the buffer.
structure StreamDecoder where
  encoded    : List UInt8
  errorCount : UInt32
  lastError  : CodecStatus
  discarding : Bool
  bounded    : encoded.length ≤ maxEncodedPacket

inductive FeedResult
  | incomplete
  | frameReady (frame : Frame)
  | error (status : CodecStatus)

namespace StreamDecoder

def clearPacket (d : StreamDecoder) : StreamDecoder :=
  { d with encoded := [], bounded := by simp }

def init : StreamDecoder where
  encoded    := []
  errorCount := 0
  lastError  := .ok
  discarding := false
  bounded    := by simp

def reset (d : StreamDecoder) : StreamDecoder :=
  { d.clearPacket with lastError := .ok, discarding := false }

def streamError (d : StreamDecoder) (status : CodecStatus) : FeedResult × StreamDecoder :=
  (.error status, { d with lastError := status, errorCount := d.errorCount + 1 })

def feed (d : StreamDecoder) (byte : UInt8) : FeedResult × StreamDecoder :=
  if byte ≠ 0 then
    if d.discarding then (.incomplete, d)
    else if h : d.encoded.length ≥ maxEncodedPacket then
      (.incomplete, { d.clearPacket with discarding := true })
    else
      (.incomplete, { d with encoded := d.encoded ++ [byte], bounded := by simp; omega })
  else if d.discarding then
    { d.clearPacket with discarding := false }.streamError .encodedTooLarge
  else if d.encoded.length = 0 then (.incomplete, d)
  else
    match frameDecodePacket d.encoded maxRawFrame with
    | .error status => d.clearPacket.streamError status
    | .ok frame     => (.frameReady frame, { d.clearPacket with lastError := .ok })

end StreamDecoder
end Hmpy
