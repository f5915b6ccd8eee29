import HackyLens.Hmpy.Device

-- The device's side of an HMPY session: `hmpy_session.c`.

open Userfs (nameMax fileMax Result cString)
open Lfs (CString ascii)
open Micropython (runtimeMaxLimitMs runtimeSourceMax)
open LittleEndian

namespace Hmpy

-- `hmpy_error_code_t`
inductive ErrorCode
  | ok
  | invalidRequest | unsupportedVersion | unsupportedType | invalidPayload | notFound
  | alreadyExists | busy | permissionDenied | noSpace | io | crcMismatch | offsetMismatch
  | limitExceeded | notRunning | timeout | internal | confirmationRequired | sessionExpired
  deriving DecidableEq

def ErrorCode.value : ErrorCode → UInt16
  | ok                   => 0
  | invalidRequest       => 1
  | unsupportedVersion   => 2
  | unsupportedType      => 3
  | invalidPayload       => 4
  | notFound             => 5
  | alreadyExists        => 6
  | busy                 => 7
  | permissionDenied     => 8
  | noSpace              => 9
  | io                   => 10
  | crcMismatch          => 11
  | offsetMismatch       => 12
  | limitExceeded        => 13
  | notRunning           => 14
  | timeout              => 15
  | internal             => 16
  | confirmationRequired => 17
  | sessionExpired       => 18

-- The type of a frame that has one.
def MessageType.ofValue (type : UInt8) : Option MessageType :=
  all.find? (·.value == type)

namespace Session

def sessionLeaseUs : UInt64 := 10000000
def readDataMax : UInt32 := 512
def eventDataMax : Nat := 504
def formatToken : CString := ascii "ERASE USERFS"
def lineReady : CString := ascii "HKMPROTO 1 READY"

def capFiles : UInt32 := 0x001
def capAtomicUpload : UInt32 := 0x002
def capStartup : UInt32 := 0x004
def capRunStop : UInt32 := 0x008
def capStdout : UInt32 := 0x010
def capStderr : UInt32 := 0x020
def capFormat : UInt32 := 0x040
def capBindingsV1 : UInt32 := 0x080
def capBootFlags : UInt32 := 0x100

def bootFlagWdt1Recovery : UInt8 := 0x01

-- What the build is called. `HACKYLENS_VERSION` comes from the configuration and `HK_BOARD_ID` from
-- a generated header.
structure Build where
  version : CString
  board : CString
  versionBound : version.length ≤ 255
  boardBound : board.length ≤ 255

def bytes64 (v : UInt64) : List UInt8 :=
  bytes32 v.toUInt32 ++ bytes32 (v >>> 32).toUInt32

-- `userfs_state_t`
def fsStateValue : Userfs.State → UInt8
  | .uninitialized    => 0
  | .unsupportedFlash => 1
  | .unformatted      => 2
  | .corrupt          => 3
  | .ioError          => 4
  | .mounted          => 5

-- `userfs_result_t`
def fsResultValue : Result → UInt8
  | .ok                    => 0
  | .errorInvalidArgument  => 1
  | .errorNotMounted       => 2
  | .errorUnsupportedFlash => 3
  | .errorUnformatted      => 4
  | .errorCorrupt          => 5
  | .errorIo               => 6
  | .errorNotFound         => 7
  | .errorExists           => 8
  | .errorNoSpace          => 9
  | .errorBusy             => 10
  | .errorOutOfOrder       => 11
  | .errorSize             => 12
  | .errorCrc              => 13

def send (frame : Frame) : Task Bool := do
  match frameEncode frame maxWireFrame with
  | .error _ => return false
  | .ok wire =>
    ask (.writeWire wire)
    return true

def response (type : UInt8) (requestId : UInt32) (payload : List UInt8) (more : Bool) : Task Bool :=
  send ⟨type, if more then flagResponse ||| flagMore else flagResponse, requestId, payload⟩

def errorPayload (code : ErrorCode) (detail : CString) : List UInt8 :=
  let detail := detail.take (maxPayloadSize - 4)
  bytes16 code.value ++ bytes16 detail.length.toUInt16 ++ detail

def error (type : UInt8) (requestId : UInt32) (code : ErrorCode) (detail : CString) :
    Task Unit := do
  let _ ← send ⟨type, flagResponse ||| flagError, requestId, errorPayload code detail⟩

def userfsError : Result → ErrorCode
  | .errorInvalidArgument  => .invalidPayload
  | .errorNotFound         => .notFound
  | .errorExists           => .alreadyExists
  | .errorNoSpace          => .noSpace
  | .errorBusy             => .busy
  | .errorOutOfOrder       => .offsetMismatch
  | .errorSize             => .limitExceeded
  | .errorCrc              => .crcMismatch
  | .errorUnformatted      => .confirmationRequired
  | .errorUnsupportedFlash => .permissionDenied
  | _                      => .io

def programError : Micropython.ProgramResult → ErrorCode
  | .invalidArgument => .invalidPayload
  | .notFound        => .notFound
  | .tooLarge        => .limitExceeded
  | .busy            => .busy
  | _                => .io

-- How a request is refused.
def refuse (frame : Frame) (code : ErrorCode) (detail : CString) : Task Unit :=
  error frame.type frame.requestId code detail

def refuseResult (frame : Frame) (result : Result) : Task Unit :=
  refuse frame (userfsError result) (Micropython.resultName result)

-- The string that the name's buffer holds, and what comes after the name in the payload.
def parseName (payload : List UInt8) (allowEmpty : Bool) : Option (CString × List UInt8) :=
  match payload with
  | []                 => none
  | nameLength :: rest =>
    let nameLength := nameLength.toNat
    if (!allowEmpty && nameLength = 0) || nameLength > nameMax || nameLength > rest.length then none
    else some (cString (rest.take nameLength), rest.drop nameLength)

def emitFileChanged (operation : UInt8) (name : CString) : Task Unit := do
  let name := name.take nameMax
  let _ ← send ⟨MessageType.fileChanged.value, 0, 0, operation :: name.length.toUInt8 :: name⟩

def emitDropped (stream : UInt8) (runId count : UInt32) : Task Unit := do
  let _ ← send ⟨MessageType.dropped.value, 0, 0, stream :: bytes32 runId ++ bytes32 count⟩

def capabilities : UInt32 :=
  capFiles ||| capAtomicUpload ||| capStartup ||| capRunStop ||| capStdout ||| capStderr |||
    capFormat ||| capBindingsV1 ||| capBootFlags

def handleHello (build : Build) (fuel : Nat) (frame : Frame) : Task Unit := do
  if frame.payload ≠ [] then
    return ← refuse frame .invalidPayload (ascii "hello payload")
  let _ ← userfs (Userfs.mount fuel)
  let filesystem ← userfs Userfs.getStatus
  let runtime ← ask .runtimeStatus
  let recovered ← ask .watchdogResetDetected
  let _ ← response frame.type frame.requestId
    ([protocolVersion, fsStateValue filesystem.state, runtime.state.value,
        if recovered then bootFlagWdt1Recovery else 0] ++
      bytes32 capabilities ++ bytes16 maxPayloadSize.toUInt16 ++ bytes16 uploadDataMax.toUInt16 ++
      bytes16 nameMax.toUInt16 ++ bytes16 runtimeSourceMax.toUInt16 ++ bytes32 fileMax ++
      bytes32 filesystem.totalBytes ++ bytes32 filesystem.usedBytes ++
      build.version.length.toUInt8 :: build.version ++ build.board.length.toUInt8 :: build.board)
    false

-- `userfs_list`, whose callback talks to the host here.
def userfsList (fuel : Nat) (callback : CString → UInt32 → Task Bool) : Task Result := do
  let ram := (← get).userfs
  if ram.state ≠ .mounted then
    return ← userfs (Userfs.remember .errorNotMounted)
  if ram.upload.active then
    return ← userfs (Userfs.remember .errorBusy)
  match ← userfs (Userfs.lfs (.dirOpen (ascii "/"))) with
  | .error e => userfs (Userfs.remember (Userfs.fromError e))
  | .ok _    =>
    let result ← .loop (fun _ => do
      match ← userfs (Userfs.lfs .dirRead) with
      | .error e        => return .inl (Userfs.fromError e)
      | .ok none        => return .inl .ok
      | .ok (some info) =>
        if info.type ≠ .reg || info.name.head? == some 46 then
          return .inr ()
        return if ← callback info.name info.size then .inr () else .inl .ok) fuel ()
    let _ ← userfs (Userfs.lfs .dirClose)
    userfs (Userfs.remember result)

def listItem (requestId : UInt32) (name : CString) (size : UInt32) : Task Bool :=
  response MessageType.list.value requestId (name.length.toUInt8 :: name ++ bytes32 size) true

def handleList (fuel : Nat) (frame : Frame) : Task Unit := do
  if frame.payload ≠ [] then
    return ← refuse frame .invalidPayload (ascii "list payload")
  let result ← userfsList fuel (listItem frame.requestId)
  if result ≠ .ok then
    return ← refuseResult frame result
  let _ ← response frame.type frame.requestId [] false

def handleStat (frame : Frame) : Task Unit := do
  let some (name, []) := parseName frame.payload false
    | refuse frame .invalidPayload (ascii "stat name")
  let (result, size) ← userfs (Userfs.stat (some name) true)
  if result ≠ .ok then
    return ← refuseResult frame result
  let (_, startup) ← userfs (Userfs.getStartup true (nameMax + 1))
  let _ ← response frame.type frame.requestId
    (bytes32 (size.getD 0) ++ [if name = startup.getD [] then 1 else 0]) false

def handleRead (frame : Frame) : Task Unit := do
  if (← get).session.readActive then
    return ← refuse frame .busy (ascii "read in progress")
  let some (name, rest) := parseName frame.payload false
    | refuse frame .invalidPayload (ascii "read payload")
  if rest.length ≠ 8 then
    return ← refuse frame .invalidPayload (ascii "read payload")
  let offset := u32 (at' rest 0)
  let requested := u32 (at' rest 4)
  let (result, size) ← userfs (Userfs.stat (some name) true)
  if result ≠ .ok then
    return ← refuseResult frame result
  let size := size.getD 0
  if offset > size then
    return ← refuse frame .offsetMismatch (ascii "offset past eof")
  let requested := if requested = 0 ∨ requested > size - offset then size - offset else requested
  modifySession fun s => { s with
    readName      := name.take nameMax
    readRequestId := frame.requestId
    readOffset    := offset
    readSize      := size
    readEnd       := offset + requested
    readActive    := true
  }

def readChunk (remaining : UInt32) : UInt32 :=
  if remaining > readDataMax then readDataMax else remaining

def pumpRead : Task Unit := do
  let s := (← get).session
  if !s.readActive then
    return
  let chunk := readChunk (s.readEnd - s.readOffset)
  let (result, data) ← userfs (Userfs.read (some s.readName) s.readOffset true chunk.toNat true)
  if result ≠ .ok ∨ data.length ≠ chunk.toNat then
    error MessageType.read.value s.readRequestId (if result = .ok then .io else userfsError result)
      (ascii "read failed")
    return ← modifySession fun s => { s with readActive := false }
  let offset := s.readOffset + data.length.toUInt32
  modifySession fun s => { s with readOffset := offset }
  let _ ← response MessageType.read.value s.readRequestId
    (bytes32 s.readOffset ++ bytes32 s.readSize ++ data) (offset < s.readEnd)
  let now ← ask .timeUs
  modifySession fun s => { s with lastReceiveUs := now }
  if offset ≥ s.readEnd then
    modifySession fun s => { s with readActive := false }

def handleUploadBegin (frame : Frame) : Task Unit := do
  let some (name, rest) := parseName frame.payload false
    | refuse frame .invalidPayload (ascii "upload begin")
  if rest.length ≠ 8 then
    return ← refuse frame .invalidPayload (ascii "upload begin")
  let size := u32 (at' rest 0)
  let crc := u32 (at' rest 4)
  let (result, uploadId) ← userfs (Userfs.uploadBegin (some name) size crc true)
  if result ≠ .ok then
    return ← refuseResult frame result
  let uploadId := uploadId.getD 0
  modifySession fun s => { s with
    uploadId
    uploadLastLength := 0
    uploadName := name.take nameMax
  }
  let _ ← response frame.type frame.requestId (bytes32 uploadId ++ bytes32 0) false

-- The response to a chunk names the upload and the offset of the next chunk.
def acceptChunk (frame : Frame) (uploadId next : UInt32) : Task Unit := do
  let _ ← response frame.type frame.requestId (bytes32 uploadId ++ bytes32 next) false

def handleUploadChunk (frame : Frame) : Task Unit := do
  if frame.payload.length < 8 then
    return ← refuse frame .invalidPayload (ascii "upload chunk")
  let uploadId := u32 (at' frame.payload 0)
  let offset := u32 (at' frame.payload 4)
  let data := frame.payload.drop 8
  let length := data.length.toUInt32
  let s := (← get).session
  if uploadId ≠ s.uploadId ∨ uploadId = 0 then
    return ← refuse frame .invalidRequest (ascii "upload id")
  if data.length > uploadDataMax then
    return ← refuse frame .limitExceeded (ascii "chunk too large")
  if s.uploadLastLength = length ∧ s.uploadLastOffset = offset ∧
      s.uploadLastData.take data.length = data then
    return ← acceptChunk frame uploadId (offset + length)
  let result ← userfs (Userfs.uploadWrite uploadId offset (.bytes data))
  if result ≠ .ok then
    return ← refuseResult frame result
  modifySession fun s => { s with
    uploadLastOffset := offset
    uploadLastLength := length
    uploadLastData   := data ++ s.uploadLastData.drop data.length
  }
  acceptChunk frame uploadId (offset + length)

def handleUploadFinish (fuel : Nat) (frame : Frame) (abort : Bool) : Task Unit := do
  if frame.payload.length ≠ 4 then
    return ← refuse frame .invalidPayload (ascii "upload id")
  let uploadId := u32 (at' frame.payload 0)
  if uploadId = 0 ∨ uploadId ≠ (← get).session.uploadId then
    return ← refuse frame .invalidRequest (ascii "upload id")
  let result ← userfs <|
    if abort then Userfs.uploadAbort uploadId else Userfs.uploadCommit fuel uploadId
  if result ≠ .ok then
    return ← refuseResult frame result
  let _ ← response frame.type frame.requestId [] false
  if !abort then
    emitFileChanged 1 (← get).session.uploadName
  modifySession fun s => { s with uploadId := 0, uploadLastLength := 0, uploadName := [] }

def handleDelete (frame : Frame) : Task Unit := do
  let some (name, []) := parseName frame.payload false
    | refuse frame .invalidPayload (ascii "delete name")
  let result ← userfs (Userfs.remove (some name))
  if result ≠ .ok then
    return ← refuseResult frame result
  let _ ← response frame.type frame.requestId [] false
  emitFileChanged 2 name

def handleSetStartup (frame : Frame) : Task Unit := do
  let some (name, []) := parseName frame.payload true
    | refuse frame .invalidPayload (ascii "startup name")
  let result ← userfs (Userfs.setStartup (some name))
  if result ≠ .ok then
    return ← refuseResult frame result
  let _ ← response frame.type frame.requestId [] false
  emitFileChanged 3 name

def handleFormat (fuel : Nat) (frame : Frame) : Task Unit := do
  if (← get).session.uploadId ≠ 0 then
    return ← refuse frame .busy (ascii "upload active")
  if frame.payload ≠ formatToken then
    return ← refuse frame .confirmationRequired formatToken
  let result ← userfs (Userfs.formatExplicit fuel)
  if result ≠ .ok then
    return ← refuseResult frame result
  let _ ← response frame.type frame.requestId [] false
  emitFileChanged 4 []

def runProgram (fuel : Nat) (name : CString) (timeLimitMs : UInt32) :
    Task (Micropython.ProgramResult × UInt32) :=
  if name ≠ [] then Program.runFile fuel name timeLimitMs else Program.runStartup fuel timeLimitMs

def handleRun (fuel : Nat) (frame : Frame) : Task Unit := do
  let some (name, rest) := parseName frame.payload true
    | refuse frame .invalidPayload (ascii "run payload")
  if rest.length ≠ 4 then
    return ← refuse frame .invalidPayload (ascii "run payload")
  let timeLimitMs := u32 (at' rest 0)
  if timeLimitMs > runtimeMaxLimitMs then
    return ← refuse frame .limitExceeded (ascii "run time limit")
  let (result, runId) ← runProgram fuel name timeLimitMs
  if result ≠ .ok then
    return ← refuse frame (programError result) result.name
  let _ ← response frame.type frame.requestId (bytes32 runId) false

def handleStop (frame : Frame) : Task Unit := do
  if frame.payload ≠ [] then
    return ← refuse frame .invalidPayload (ascii "stop payload")
  if !(← ask .requestStop) then
    return ← refuse frame .notRunning (ascii "not running")
  let _ ← response frame.type frame.requestId [] false

def statusPayload : Task (List UInt8) := do
  let runtime ← ask .runtimeStatus
  let filesystem ← userfs Userfs.getStatus
  return [runtime.state.value, runtime.exitReason.value, fsStateValue filesystem.state,
      fsResultValue filesystem.lastError] ++
    bytes32 runtime.runId ++ bytes32 runtime.sourceBytes ++ bytes32 runtime.outputPending ++
    bytes32 runtime.outputDropped ++ bytes64 runtime.startedUs ++ bytes64 runtime.heartbeatUs ++
    bytes64 runtime.deadlineUs ++ bytes32 filesystem.totalBytes ++ bytes32 filesystem.usedBytes

def handleStatus (frame : Frame) : Task Unit := do
  if frame.payload ≠ [] then
    return ← refuse frame .invalidPayload (ascii "status payload")
  let payload ← statusPayload
  let _ ← response frame.type frame.requestId payload false

def handlePing (frame : Frame) : Task Unit := do
  let _ ← response frame.type frame.requestId frame.payload false

def sessionFinish : Task Unit := do
  let s := (← get).session
  if s.uploadId ≠ 0 then
    let _ ← userfs (Userfs.uploadAbort s.uploadId)
  modifySession fun s => { s with
    uploadId   := 0
    readActive := false
    active     := false
    decoder    := s.decoder.reset
  }
  ask (.setFramedMode false)

def handleSessionClose (frame : Frame) : Task Unit := do
  if frame.payload ≠ [] then
    return ← refuse frame .invalidPayload (ascii "close payload")
  let _ ← response frame.type frame.requestId [] false
  sessionFinish

-- The requests that are answered while a file is being read.
def duringRead : MessageType → Bool
  | .ping | .stop | .status | .sessionClose => true
  | _                                       => false

def handleFrame (build : Build) (fuel : Nat) (frame : Frame) : Task Unit := do
  let type := MessageType.ofValue frame.type
  if frame.flags ≠ 0 ∨ frame.requestId = 0 ∨ typeIsEvent frame.type then
    if frame.requestId ≠ 0 then
      return ← refuse frame .invalidRequest (ascii "host request envelope")
    return
  if (← get).session.readActive && !type.any duringRead then
    return ← refuse frame .busy (ascii "read in progress")
  match type with
  | some .hello        => handleHello build fuel frame
  | some .list         => handleList fuel frame
  | some .stat         => handleStat frame
  | some .read         => handleRead frame
  | some .uploadBegin  => handleUploadBegin frame
  | some .uploadChunk  => handleUploadChunk frame
  | some .uploadCommit => handleUploadFinish fuel frame false
  | some .uploadAbort  => handleUploadFinish fuel frame true
  | some .delete       => handleDelete frame
  | some .setStartup   => handleSetStartup frame
  | some .format       => handleFormat fuel frame
  | some .run          => handleRun fuel frame
  | some .stop         => handleStop frame
  | some .status       => handleStatus frame
  | some .ping         => handlePing frame
  | some .sessionClose => handleSessionClose frame
  | _                  => refuse frame .unsupportedType (ascii "unsupported type")

def pumpRuntimeState : Task Bool := do
  ask .runtimePoll
  let runtime ← ask .runtimeStatus
  let s := (← get).session
  if s.lastState = runtime.state.value ∧ s.lastExit = runtime.exitReason.value ∧
      s.lastRunId = runtime.runId then
    return false
  modifySession fun s => { s with
    lastState    := runtime.state.value
    lastExit     := runtime.exitReason.value
    lastRunId    := runtime.runId
    outputCursor := if s.lastRunId ≠ runtime.runId then 0 else s.outputCursor
  }
  let _ ← send ⟨MessageType.state.value, 0, 0, runtime.state.value :: runtime.exitReason.value ::
    bytes32 runtime.runId ++ bytes64 runtime.heartbeatUs⟩
  return true

def reportLost (stream : UInt8) (runId lost : UInt32) : Task Unit := do
  if lost ≠ 0 then
    emitDropped stream runId lost

-- What the two pumps below do with what they got from a ring. The bytes are in the payload's buffer
-- from 8 on when `emitDropped` writes the first 9 places of it.
def sendDrained {capacity : Nat} (type : MessageType) (stream : UInt8) (runId : UInt32)
    (drained : Drained capacity) : Task Unit := do
  reportLost stream runId drained.lost
  if drained.data = [] then
    return
  let data :=
    if drained.lost ≠ 0 then (drained.lost >>> 24).toUInt8 :: drained.data.tail else drained.data
  let sequence := drained.cursor - drained.data.length.toUInt32
  let _ ← send ⟨type.value, 0, 0, bytes32 runId ++ bytes32 sequence ++ data⟩

def pumpRuntimeOutput : Task Unit := do
  let runtime ← ask .runtimeStatus
  let drained ← ask (.readOutputSince (← get).session.outputCursor eventDataMax)
  modifySession fun s => { s with outputCursor := drained.cursor }
  sendDrained .stdout 1 runtime.runId drained

def pumpDiagnostics : Task Unit := do
  let runtime ← ask .runtimeStatus
  let drained ← ask (.readDiagnosticsSince (← get).session.diagnosticCursor eventDataMax)
  modifySession fun s => { s with diagnosticCursor := drained.cursor }
  sendDrained .stderr 2 runtime.runId drained

def sessionBegin (fuel : Nat) : Task Unit := do
  if (← get).session.active then
    return
  modifySession fun _ => { State.zero with active := true, lastState := 0xFF, lastExit := 0xFF }
  let now ← ask .timeUs
  let cursor ← ask .diagnosticCursor
  modifySession fun s => { s with lastReceiveUs := now, diagnosticCursor := cursor }
  ask (.writeText (lineReady ++ [10]))
  ask (.setFramedMode true)
  let _ ← userfs (Userfs.mount fuel)

def touch : Task Unit := do
  let now ← ask .timeUs
  modifySession fun s => { s with lastReceiveUs := now }

-- One round of the loop in `hmpy_session_tick`.
def receiveByte (build : Build) (fuel : Nat) : Task (Unit ⊕ Unit) := do
  if !(← get).session.active then
    return .inl ()
  let some byte ← ask .receive
    | return .inl ()
  let (result, decoder) := (← get).session.decoder.feed byte
  modifySession fun s => { s with decoder }
  match result with
  | .frameReady frame =>
    touch
    handleFrame build fuel frame
    if (← get).session.active then
      touch
    return .inr ()
  | .incomplete | .error _ => return .inr ()

-- What `hmpy_session_tick` does after it has taken all bytes.
def pump : Task Unit := do
  let s := (← get).session
  if !s.active then
    return
  if s.readActive then
    return ← pumpRead
  if ← pumpRuntimeState then
    return
  pumpRuntimeOutput
  pumpDiagnostics

def sessionTick (build : Build) (fuel : Nat) : Task Unit := do
  if !(← get).session.active then
    return
  let now ← ask .timeUs
  if now - (← get).session.lastReceiveUs ≥ sessionLeaseUs then
    return ← sessionFinish
  .loop (fun _ => receiveByte build fuel) fuel ()
  pump

end Session
end Hmpy
