import HackyLens.App.Api
import HackyLens.Hmpy.Codec
import HackyLens.Script.Screen

-- What the session of `hmpy_session.c` keeps and what it asks of the rest of the firmware, and the
-- program loader of `micropython_program.c` that it hands scripts to.

open Userfs (nameMax)
open Lfs (CString ascii)

namespace Micropython

-- `micropython_runtime_state_t`
def RuntimeState.value : RuntimeState → UInt8
  | stopped  => 0
  | starting => 1
  | running  => 2
  | stopping => 3
  | finished => 4
  | error    => 5

-- `micropython_runtime_exit_t`
def RuntimeExit.value : RuntimeExit → UInt8
  | none          => 0
  | complete      => 1
  | requested     => 2
  | timeout       => 3
  | exception     => 4
  | busy          => 5
  | invalidSource => 6
  | core1Failure  => 7

def runtimeSourceMax : UInt32 := 65535
def runtimeMaxLimitMs : UInt32 := 300000

-- `micropython_runtime_status_t`
structure RuntimeStatus extends Runtime where
  sourceBytes : UInt32
  outputPending : UInt32
  startedUs : UInt64
  heartbeatUs : UInt64
  deadlineUs : UInt64

end Micropython

namespace Hmpy.Session

def uploadDataMax : Nat := maxPayloadSize - 8

-- `hmpy_session_state_t`
structure State where
  active : Bool
  readActive : Bool
  lastState : UInt8
  lastExit : UInt8
  lastRunId : UInt32
  outputCursor : UInt32
  diagnosticCursor : UInt32
  uploadId : UInt32
  uploadLastOffset : UInt32
  uploadLastLength : UInt32
  readRequestId : UInt32
  readOffset : UInt32
  readEnd : UInt32
  readSize : UInt32
  lastReceiveUs : UInt64
  uploadName : CString
  readName : CString
  uploadLastData : List UInt8
  decoder : StreamDecoder

-- After the `memset` of `hmpy_session_begin`.
def State.zero : State where
  active           := false
  readActive       := false
  lastState        := 0
  lastExit         := 0
  lastRunId        := 0
  outputCursor     := 0
  diagnosticCursor := 0
  uploadId         := 0
  uploadLastOffset := 0
  uploadLastLength := 0
  readRequestId    := 0
  readOffset       := 0
  readEnd          := 0
  readSize         := 0
  lastReceiveUs    := 0
  uploadName       := []
  readName         := []
  uploadLastData   := .replicate uploadDataMax 0
  decoder          := .init

-- The static variables of the session, of the user file system and of `power_shutdown.c`.
structure Globals where
  userfs : Userfs.Ram
  session : State
  remount : Bool

-- After a reset.
def Globals.zero : Globals :=
  ⟨.zero, .zero, false⟩

-- What a reader of one of the two rings gets, with the new value of its cursor and the number of
-- bytes that were overwritten before it came.
structure Drained (capacity : Nat) where
  cursor : UInt32
  data : List UInt8
  lost : UInt32
  bounded : data.length ≤ capacity

inductive Call
  | timeUs
  -- `debug_console_read` of one byte.
  | receive
  | writeWire (data : List UInt8)
  | writeText (text : CString)
  | setFramedMode (enabled : Bool)
  | diagnosticCursor
  | readDiagnosticsSince (cursor : UInt32) (capacity : Nat)
  | watchdogResetDetected
  | runtimePoll
  | runtimeStatus
  | readOutputSince (cursor : UInt32) (capacity : Nat)
  | runtimeStart (source : List UInt8) (timeLimitMs : UInt32)
  | requestStop
  | settingsFlush

abbrev Call.Reply : Call → Type
  | timeUs                          => UInt64
  | receive                         => Option UInt8
  | writeWire _ | writeText _       => Unit
  | setFramedMode _ | runtimePoll   => Unit
  | diagnosticCursor                => UInt32
  | readDiagnosticsSince _ capacity => Drained capacity
  | readOutputSince _ capacity      => Drained capacity
  | runtimeStatus                   => Micropython.RuntimeStatus
  | watchdogResetDetected           => Bool
  | runtimeStart _ _                => Bool
  | requestStop | settingsFlush     => Bool

abbrev Task := Prog (Userfs.Call ⊕ Call) (Sum.elim Userfs.Call.Reply Call.Reply) Globals

variable {α : Type}

def ask (c : Call) : Task c.Reply :=
  Prog.call (Sum.inr c : Userfs.Call ⊕ Call)

def userfs (p : Userfs.Task α) : Task α :=
  p.focus Globals.userfs fun ram g => { g with userfs := ram }

def modifySession (f : State → State) : Task Unit :=
  modify fun g => { g with session := f g.session }

end Hmpy.Session

namespace Hmpy.Program

open Micropython (ProgramResult runtimeSourceMax)
open Session (ask userfs)

-- `micropython_program_from_userfs`
def fromUserfs : Userfs.Result → ProgramResult
  | .ok                                   => .ok
  | .errorNotFound                        => .notFound
  | .errorSize                            => .tooLarge
  | .errorBusy                            => .busy
  | .errorIo | .errorCorrupt | .errorCrc  => .io
  | _                                     => .filesystem

-- The second component is what `*run_id` is set to. The terminator that is put behind the source is
-- not handed over with it.
def runFile (fuel : Nat) (name : CString) (timeLimitMs : UInt32) :
    Session.Task (ProgramResult × UInt32) := do
  if name = [] then
    return (.invalidArgument, 0)
  let result ← userfs (Userfs.mount fuel)
  if result ≠ .ok then
    return (fromUserfs result, 0)
  let (result, size) ← userfs (Userfs.stat (some name) true)
  if result ≠ .ok then
    return (fromUserfs result, 0)
  let size := size.getD 0
  if size = 0 ∨ size > runtimeSourceMax then
    return (.tooLarge, 0)
  let (result, source) ← userfs (Userfs.read (some name) 0 true size.toNat true)
  if result ≠ .ok then
    return (fromUserfs result, 0)
  if source.length ≠ size.toNat then
    return (.io, 0)
  if !(← ask (.runtimeStart source timeLimitMs)) then
    return (.busy, 0)
  let status ← ask .runtimeStatus
  return (.ok, status.runId)

def runStartup (fuel : Nat) (timeLimitMs : UInt32) :
    Session.Task (ProgramResult × UInt32) := do
  let result ← userfs (Userfs.mount fuel)
  if result ≠ .ok then
    return (fromUserfs result, 0)
  let (result, name) ← userfs (Userfs.getStartup true (nameMax + 1))
  if result ≠ .ok then
    return (fromUserfs result, 0)
  runFile fuel (name.getD []) timeLimitMs

end Hmpy.Program
