import HackyLens.Hmpy.Host

-- The synchronous client of the host tools. A call consumes what the transport's `read` returns, one
-- list of bytes a read, an empty one when nothing has come; when there are no more of them, the
-- call's deadline has passed.
namespace Host

open LittleEndian
open Hmpy (CodecStatus)

def nameMax : Nat := 63
def readMax : Nat := 256

def messageStderr : Int := 0x81
def messageState : Int := 0x82
def messageFileChanged : Int := 0x83

-- What a call can raise. The text of a remote error is decoded from the bytes of its detail.
inductive ClientError
  | protocol (status : CodecStatus)
  | client (text : String)
  | unsupportedEvent (type : Int)
  | remote (code : Nat) (detail : List UInt8)
  | timeout (type : Int)
  deriving DecidableEq

structure HmpyEvent where
  type          : Int
  runId         : Nat := 0
  sequence      : Nat := 0
  data          : List UInt8 := []
  state         : Option Nat := none
  exitReason    : Option Nat := none
  droppedStream : Option Nat := none
  droppedCount  : Nat := 0
  fileOperation : Option Nat := none
  fileName      : String := ""
  deriving DecidableEq

def Frame.has (f : Frame) (flag : UInt16) : Bool :=
  UInt16.ofNat f.flags.toNat &&& flag ≠ 0

-- The name and the offset of what follows it.
def unpackName (payload : List UInt8) (offset : Nat) : Except ClientError (String × Nat) :=
  if offset ≥ payload.length then .error (.client "missing HMPY name length")
  else
    let length := (payload.getD offset 0).toNat
    let offset := offset + 1
    if length > nameMax ∨ length > payload.length - offset then
      .error (.client "invalid HMPY name")
    else
      match String.fromUTF8? ⟨((payload.drop offset).take length).toArray⟩ with
      | none      => .error (.client "invalid UTF-8 name")
      | some name => .ok (name, offset + length)

def remoteError (f : Frame) : ClientError :=
  if f.payload.length < 4 then
    .remote 16 "malformed error envelope".toUTF8.toList
  else if (u16 (at' f.payload 2)).toNat ≠ f.payload.length - 4 then
    .remote 16 "malformed error detail".toUTF8.toList
  else
    .remote (u16 (at' f.payload 0)).toNat (f.payload.drop 4)

def decodeEvent (f : Frame) : Except ClientError HmpyEvent :=
  let payload := f.payload
  if f.type = messageStdout ∨ f.type = messageStderr then
    if payload.length < 8 then .error (.client "short output event")
    else .ok {
      type     := f.type
      runId    := (u32 (at' payload 0)).toNat
      sequence := (u32 (at' payload 4)).toNat
      data     := payload.drop 8
    }
  else if f.type = messageState then
    if payload.length ≠ 14 then .error (.client "invalid state event")
    else .ok {
      type       := f.type
      runId      := (u32 (at' payload 2)).toNat
      sequence   := (u32 (at' payload 6)).toNat + 2 ^ 32 * (u32 (at' payload 10)).toNat
      state      := some (payload.getD 0 0).toNat
      exitReason := some (payload.getD 1 0).toNat
    }
  else if f.type = messageDropped then
    if payload.length ≠ 9 then .error (.client "invalid dropped event")
    else .ok {
      type          := f.type
      runId         := (u32 (at' payload 1)).toNat
      droppedStream := some (payload.getD 0 0).toNat
      droppedCount  := (u32 (at' payload 5)).toNat
    }
  else if f.type = messageFileChanged then
    if payload.length < 2 then .error (.client "invalid file event")
    else do
      let (name, last) ← unpackName payload 1
      if last ≠ payload.length then .error (.client "trailing file event data")
      else .ok {
        type          := f.type
        fileOperation := some (payload.getD 0 0).toNat
        fileName      := name
      }
  else .error (.unsupportedEvent f.type)

-- The transport takes whatever is written to it. `handled` is what the event handler was called
-- with.
structure Client where
  decoder   : StreamDecoder
  requestId : Nat
  active    : Bool
  output    : List UInt8
  events    : List HmpyEvent
  handled   : List HmpyEvent

namespace Client

def emitEvent (c : Client) (f : Frame) : Except ClientError Unit × Client :=
  match decodeEvent f with
  | .error e  => (.error e, c)
  | .ok event => (.ok (), { c with events := c.events ++ [event], handled := c.handled ++ [event] })

def nextRequestId (c : Client) : Nat :=
  let requestId := (c.requestId + 1) % 2 ^ 32
  if requestId = 0 then 1 else requestId

-- The loop of `request` over what one read has completed.
def requestBatch (c : Client) (requestId : Nat) (messageType : Int) (responses : List Frame)
    (completed : Bool) : List StreamEvent → Except ClientError (List Frame × Bool) × Client
  | [] => (.ok (responses, completed), c)
  | .error status :: _ => (.error (.protocol status), c)
  | .ok frame :: rest =>
    if frame.requestId = 0 then
      match c.emitEvent frame with
      | (.error e, c) => (.error e, c)
      | (.ok _, c)    => c.requestBatch requestId messageType responses completed rest
    else if frame.requestId ≠ requestId ∨ frame.type ≠ messageType then
      (.error (.client "unexpected HMPY response"), c)
    else if !frame.has flagResponse then
      (.error (.client "response flag missing"), c)
    else if frame.has flagError then
      (.error (remoteError frame), c)
    else
      c.requestBatch requestId messageType (responses ++ [frame])
        (completed || !frame.has flagMore) rest

-- The loop of `request` over the reads, with the reads that are left for later calls.
def requestLoop (c : Client) (requestId : Nat) (messageType : Int) (responses : List Frame) :
    List (List UInt8) → Except ClientError (List Frame) × Client × List (List UInt8)
  | [] => (.error (.timeout messageType), c, [])
  | data :: reads =>
    if data = [] then c.requestLoop requestId messageType responses reads
    else
      let (events, decoder) := c.decoder.feed data
      match { c with decoder }.requestBatch requestId messageType responses false events with
      | (.error e, c)                    => (.error e, c, reads)
      | (.ok (responses, completed), c) =>
        if completed then (.ok responses, c, reads)
        else c.requestLoop requestId messageType responses reads

def request (c : Client) (messageType : Int) (payload : List UInt8) (reads : List (List UInt8)) :
    Except ClientError (List Frame) × Client × List (List UInt8) :=
  if !c.active then (.error (.client "HMPY session is not open"), c, reads)
  else
    let requestId := c.nextRequestId
    let c := { c with requestId }
    match encodeFrame ⟨messageType, 0, requestId, payload⟩ with
    | .error status => (.error (.protocol status), c, reads)
    | .ok wire      =>
      { c with output := c.output ++ wire }.requestLoop requestId messageType [] reads

-- The loop of `poll` over what one read has completed.
def pollBatch (c : Client) : List StreamEvent → Except ClientError Unit × Client
  | [] => (.ok (), c)
  | .error status :: _ => (.error (.protocol status), c)
  | .ok frame :: rest =>
    if frame.requestId ≠ 0 then (.error (.client "unsolicited response"), c)
    else
      match c.emitEvent frame with
      | (.error e, c) => (.error e, c)
      | (.ok _, c)    => c.pollBatch rest

-- `waits` is whether the duration is positive.
def pollLoop (c : Client) (waits : Bool) :
    List (List UInt8) → Except ClientError Unit × Client × List (List UInt8)
  | [] => (.ok (), c, [])
  | data :: reads =>
    if data = [] then
      if !waits then (.ok (), c, reads) else c.pollLoop waits reads
    else
      let (events, decoder) := c.decoder.feed data
      match { c with decoder }.pollBatch events with
      | (.error e, c) => (.error e, c, reads)
      | (.ok _, c)    => c.pollLoop waits reads

def poll (c : Client) (waits : Bool) (reads : List (List UInt8)) :
    Except ClientError (List HmpyEvent) × Client × List (List UInt8) :=
  match c.pollLoop waits reads with
  | (.error e, c', reads) => (.error e, c', reads)
  | (.ok _, c', reads)    => (.ok (c'.events.drop c.events.length), c', reads)

end Client
end Host
