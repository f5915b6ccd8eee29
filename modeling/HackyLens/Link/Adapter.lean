import HackyLens.Link.Hal
import HackyLens.Lib.Memory
import Mathlib.Data.UInt

-- `external_link_adapter.c`: the sessions, modes and operations of the external connector.

namespace ExternalLink

open App (Result)

def maxBytes : UInt32 := 256
def pollBytes : UInt32 := 32
def uartMinBaud : UInt32 := 1200
def uartMaxBaud : UInt32 := 2000000
def i2cMinHz : UInt32 := 10000
def i2cMaxHz : UInt32 := 1000000
def operationSlot : UInt32 := 1
def timeMax : UInt64 := 0xFFFFFFFFFFFFFFFF

def featureUart : UInt64 := 1
def featureI2cController : UInt64 := 2
def featureI2cTarget : UInt64 := 4
def features01 : UInt64 := featureUart ||| featureI2cController ||| featureI2cTarget

-- `HK_EXTERNAL_LINK_MODE_*`
inductive Mode
  | unconfigured | uart | i2cController | i2cTarget
  deriving DecidableEq

-- `HK_EXTERNAL_LINK_OP_*`, where the cleared record has the kind 0.
inductive Kind
  | none | uartWrite | i2cTransfer
  deriving DecidableEq

inductive OperationState
  | none | inFlight | terminal
  deriving DecidableEq

-- `k210_external_operation_t`
structure Operation where
  state : OperationState
  generation : UInt32
  kind : Kind
  deadline : UInt64
  cancel : Cancel
  tx : Nat
  rx : Nat
  txSize : UInt32
  rxSize : UInt32
  txDone : UInt32
  rxDone : UInt32
  i2cAddress : UInt16
  terminalResult : Result
  controllerStarted : Bool
  terminalObserved : Bool
  deriving DecidableEq

def Operation.zero : Operation :=
  ⟨.none, 0, .none, 0, .none, 0, 0, 0, 0, 0, 0, 0, .ok, false, false⟩

-- `hk_external_link_op_t`
structure Token where
  slot : UInt32
  generation : UInt32
  deriving DecidableEq

def Token.none : Token :=
  ⟨0, 0⟩

-- The ring of received bytes, without the bytes.
structure UartRx where
  read : UInt32
  write : UInt32
  dropped : UInt32
  deriving DecidableEq

def UartRx.zero : UartRx :=
  ⟨0, 0, 0⟩

-- `hk_external_link_target_event_t`, and the queue of such events.
inductive EventType
  | none | write | read
  deriving DecidableEq

-- What is queued for a completed transaction. A buffer slot is `none` where the code has
-- `K210_EXTERNAL_TARGET_BUFFER_NONE`.
structure TargetEvent where
  type : EventType
  receivedBytes : UInt16
  requestedBytes : UInt32
  bufferSlot : Option Bool
  deriving DecidableEq

def TargetEvent.none : TargetEvent :=
  ⟨.none, 0, 0, .none⟩

-- The `target_*` fields. The two slots of an array are told apart by a `Bool`.
structure Target where
  events : Bool → TargetEvent
  eventHead : Bool
  eventCount : Nat
  eventOverflow : Bool
  rxDiscard : Bool
  rxSize : Nat
  buffer : Bool → Memory
  responseSize : Bool → UInt16
  readIndex : UInt32
  readSize : UInt16
  preloadSlot : Bool
  activeSlot : Option Bool
  rxSlot : Option Bool
  rxActive : Bool
  preloadActive : Bool
  readActive : Bool

-- `clear_target`
def Target.clear : Target where
  events _       := .none
  eventHead      := false
  eventCount     := 0
  eventOverflow  := false
  rxDiscard      := false
  rxSize         := 0
  buffer _ _     := 0
  responseSize _ := 0
  readIndex      := 0
  readSize       := 0
  preloadSlot    := false
  activeSlot     := none
  rxSlot         := none
  rxActive       := false
  preloadActive  := false
  readActive     := false

-- `k210_external_state_t`. Sessions are addresses, and 0 is `NULL`.
structure State where
  session : Nat
  modeFeatures : UInt64
  mode : Mode
  uartBaud : UInt32
  i2cFrequencyHz : UInt32
  nextOperationGeneration : UInt32
  operation : Operation
  uartRx : UartRx
  target : Target
  active : Bool

def State.zero : State where
  session                 := 0
  modeFeatures            := 0
  mode                    := .unconfigured
  uartBaud                := 0
  i2cFrequencyHz          := 0
  nextOperationGeneration := 0
  operation               := .zero
  uartRx                  := .zero
  target                  := .clear
  active                  := false

abbrev Task := Prog Hal.Call Hal.Call.Reply State

def hal (c : Hal.Call) : Task c.Reply :=
  Prog.call c

def modifyOperation (f : Operation → Operation) : Task Unit :=
  modify fun state => { state with operation := f state.operation }

def deadlineExpired (deadline : UInt64) : Task Bool := do
  if deadline = 0 then
    return false
  else
    let now ← hal .timeUs
    return decide (now ≥ deadline)

def cancellationRequested (cancel : Cancel) : Task Bool :=
  if cancel.probe = 0 then return false else hal (.probe cancel)

def startUart : Task Unit := do
  let state ← get
  hal (.uartInit state.uartBaud)

def clearUartRx : Task Unit :=
  modify fun state => { state with uartRx := .zero }

def resetUart : Task Unit := do
  hal .uartStop
  clearUartRx
  startUart

-- The hardware that the mode uses is stopped.
def stopHardware (state : State) : Task Unit :=
  if state.mode = .i2cController ∨ state.mode = .i2cTarget then
    hal .i2cStop
  else if state.mode = .uart ∧ state.uartBaud ≠ 0 then
    hal .uartStop
  else
    return ()

def stopMode : Task Unit := do
  let state ← get
  stopHardware state
  modify fun state =>
    { state with target := .clear, uartRx := .zero, operation := .zero, mode := .unconfigured }

def State.owned (state : State) (session : Nat) : Bool :=
  state.active && state.session == session

def setMode (mode : Mode) : Task Result := do
  let state ← get
  if state.operation.state = .inFlight then
    return .busy
  else
    if state.mode ≠ .unconfigured then
      stopMode
    else
      modify fun state => { state with target := .clear, uartRx := .zero }
    modify fun state => { state with mode := mode }
    return .ok

def «open» (session : Nat) (modeFeatures : UInt64) : Task Result := do
  let state ← get
  if session = 0 ∨ modeFeatures = 0 ∨ modeFeatures &&& ~~~features01 ≠ 0 then
    return .invalidArgument
  else if state.active then
    return .busy
  else
    set { State.zero with
      nextOperationGeneration := state.nextOperationGeneration
      session := session
      modeFeatures := modeFeatures
      active := true }
    return .ok

def releaseSession : Task Unit :=
  modify fun state => { state with session := 0, modeFeatures := 0, active := false }

def close (session : Nat) (deadline : UInt64) : Task Result := do
  let state ← get
  if ¬state.owned session then
    return .internal
  else
    let expired ← deadlineExpired deadline
    if expired then
      return .deadlineExceeded
    else
      stopMode
      releaseSession
      return .ok

def retire (session : Nat) : Task Unit := do
  let state ← get
  if state.session ≠ session then
    return ()
  else
    stopMode
    releaseSession

-- The checks that the three `configure` functions share, and what each does once the mode is set.
-- `valid` is `none` where the configuration is `NULL`.
def configure (session : Nat) (feature : UInt64) (valid : Bool) (mode : Mode) (start : Task Unit) :
    Task Result := do
  let state ← get
  if ¬state.owned session then
    return .internal
  else if state.modeFeatures &&& feature = 0 then
    return .notDeclared
  else if ¬valid then
    return .invalidArgument
  else
    let result ← setMode mode
    if result ≠ .ok then
      return result
    else
      start
      return .ok

def configureUart (session : Nat) (baud : Option UInt32) : Task Result :=
  let valid := baud.any fun baud => uartMinBaud ≤ baud && baud ≤ uartMaxBaud
  configure session featureUart valid .uart do
    modify fun state => { state with uartBaud := baud.getD 0 }
    startUart

def configureI2cController (session : Nat) (frequencyHz : Option UInt32) : Task Result :=
  configure session featureI2cController
    (frequencyHz.any fun hz => i2cMinHz ≤ hz && hz ≤ i2cMaxHz) .i2cController do
      modify fun state => { state with i2cFrequencyHz := frequencyHz.getD 0 }

def configureI2cTarget (session : Nat) (address : Option UInt16) : Task Result :=
  configure session featureI2cTarget (address.any (· ≤ 0x7F)) .i2cTarget do
    hal (.i2cInit (address.getD 0).toUInt8)

-- `cancel` is `none` where it is `NULL`. The token is written even when the operation is refused.
def checkBegin (deadline : UInt64) (cancel : Option Cancel) : Task Result := do
  let state ← get
  if state.operation.state = .inFlight ∨
      (state.operation.state = .terminal ∧ ¬state.operation.terminalObserved) then
    return .busy
  else if state.nextOperationGeneration = 0xFFFFFFFF then
    return .limit
  else
    let requested ← cancellationRequested (cancel.getD .none)
    if requested then
      return .cancelled
    else
      let expired ← deadlineExpired deadline
      return if expired then .deadlineExceeded else .ok

-- What a caller asks of an operation.
structure Request where
  kind : Kind
  tx : Nat
  txSize : UInt32
  rx : Nat
  rxSize : UInt32
  i2cAddress : UInt16
  deadline : UInt64
  cancel : Option Cancel
  deriving DecidableEq

def startOperation (request : Request) : Task Token := do
  modify fun state =>
    { state with nextOperationGeneration := state.nextOperationGeneration + 1 }
  let state ← get
  let generation := state.nextOperationGeneration
  modifyOperation fun _ =>
    { Operation.zero with
      state := .inFlight
      generation
      kind := request.kind
      deadline := request.deadline
      tx := request.tx
      rx := request.rx
      txSize := request.txSize
      rxSize := request.rxSize
      terminalResult := .pending
      cancel := request.cancel.getD .none
      i2cAddress := request.i2cAddress }
  return ⟨operationSlot, generation⟩

-- The two `begin` functions, with the token that they write, if any.
def begin (session : Nat) (mode : Mode) (request : Request) : Task (Result × Option Token) := do
  let state ← get
  if ¬state.owned session then
    return (.internal, none)
  else if state.mode ≠ mode then
    return (.invalidState, none)
  else
    let result ← checkBegin request.deadline request.cancel
    if result ≠ .ok then
      return (result, some .none)
    else
      let token ← startOperation request
      return (.pending, some token)

def uartWriteBegin (session tx : Nat) (txSize : UInt32) (deadline : UInt64)
    (cancel : Option Cancel) : Task (Result × Option Token) :=
  begin session .uart ⟨.uartWrite, tx, txSize, 0, 0, 0, deadline, cancel⟩

def i2cTransferBegin (session : Nat) (address : UInt16) (tx : Nat) (txSize : UInt32) (rx : Nat)
    (rxSize : UInt32) (deadline : UInt64) (cancel : Option Cancel) :
    Task (Result × Option Token) :=
  begin session .i2cController ⟨.i2cTransfer, tx, txSize, rx, rxSize, address, deadline, cancel⟩

-- `operation` is `none` where it is `NULL`.
def operationValid (state : State) (operation : Option Token) : Bool :=
  operation.any fun token =>
    token.slot == operationSlot && token.generation != 0 &&
      token.generation == state.operation.generation && state.operation.state != .none

-- `hk_external_link_op_progress_t`
structure Progress where
  kind : Kind
  txCompletedBytes : UInt32
  rxCompletedBytes : UInt32
  rxPrefixReadable : Bool
  uartDraining : Bool
  terminal : Bool
  terminalResult : Result
  deriving DecidableEq

def fillProgress (operation : Operation) : Progress where
  kind             := operation.kind
  txCompletedBytes := operation.txDone
  rxCompletedBytes := operation.rxDone
  rxPrefixReadable := operation.rxDone != 0
  uartDraining     :=
    operation.kind == .uartWrite && operation.txDone == operation.txSize &&
      operation.state == .inFlight
  terminal         := operation.state == .terminal
  terminalResult   := operation.terminalResult

def latchTerminal (result : Result) : Task Result := do
  let state ← get
  if state.operation.state = .terminal then
    return state.operation.terminalResult
  else
    if state.operation.kind = .i2cTransfer then
      hal .i2cStop
    else if result ≠ .ok ∧ state.uartBaud ≠ 0 then
      resetUart
    modifyOperation fun operation => { operation with state := .terminal, terminalResult := result }
    return result

-- How far the two counters of the hardware are ahead of what has been reported, within the budget.
def advance (counter done budget : UInt32) : UInt32 :=
  let progress := counter - done
  if progress > budget then budget else progress

def startTransfer : Task Unit := do
  let { operation, i2cFrequencyHz, .. } ← get
  if ¬operation.controllerStarted then
    hal (.controllerStart operation.i2cAddress.toUInt8 i2cFrequencyHz operation.tx
      operation.txSize operation.rx operation.rxSize)
    modifyOperation fun operation => { operation with controllerStarted := true }

def endTransfer : Task Unit := do
  let aborted ← hal .controllerAborted
  if aborted then
    let _ ← latchTerminal .io
  else
    let { operation, .. } ← get
    if operation.txDone = operation.txSize ∧ operation.rxDone = operation.rxSize then
      let idle ← hal .controllerIdle
      if idle then
        let _ ← latchTerminal .ok

-- The bytes that were sent come first, and the received ones take what is left of the budget.
def trackTransfer : Task Unit := do
  let aborted ← hal .controllerAborted
  if aborted then
    let _ ← latchTerminal .io
  else
    let { operation, .. } ← get
    let accepted ← hal .controllerTxAccepted
    let transmitted := advance accepted operation.txDone pollBytes
    modifyOperation fun operation => { operation with txDone := operation.txDone + transmitted }
    let received ← hal .controllerRxReceived
    let budget := pollBytes - transmitted
    modifyOperation fun operation =>
      { operation with rxDone := operation.rxDone + advance received operation.rxDone budget }
    endTransfer

def pollI2c : Task Unit := do
  startTransfer
  trackTransfer

def pollUart : Task Result := do
  let { operation, .. } ← get
  let remaining := operation.txSize - operation.txDone
  let remaining := if remaining > pollBytes then pollBytes else remaining
  let sent ← hal (.uartSendReady (operation.tx + operation.txDone.toNat) remaining)
  modifyOperation fun operation => { operation with txDone := operation.txDone + sent }
  if operation.txDone + sent = operation.txSize then
    let idle ← hal .uartTxIdle
    if idle then latchTerminal .ok else return .pending
  else
    return .pending

-- What a poll does about an operation that is in flight.
def pollOperation : Task Result := do
  let { operation, .. } ← get
  let requested ← cancellationRequested operation.cancel
  if requested then
    latchTerminal .cancelled
  else
    let expired ← deadlineExpired operation.deadline
    if expired then
      latchTerminal .deadlineExceeded
    else if operation.kind = .uartWrite then
      pollUart
    else
      pollI2c
      let { operation, .. } ← get
      return if operation.state = .terminal then operation.terminalResult else .pending

-- An operation without a deadline is not polled twice.
def pollImmediate (result : Result) : Task Result := do
  let { operation, .. } ← get
  if operation.state = .inFlight ∧ operation.deadline = 0 then
    latchTerminal .deadlineExceeded
  else
    return result

def poll (session : Nat) (token : Option Token) : Task (Result × Option Progress) := do
  let state ← get
  if ¬state.owned session then
    return (.internal, none)
  else if ¬operationValid state token then
    return (.staleHandle, none)
  else if state.operation.state = .terminal then
    modifyOperation fun operation => { operation with terminalObserved := true }
    return (state.operation.terminalResult, some (fillProgress state.operation))
  else
    let result ← pollOperation
    let result ← pollImmediate result
    let { operation, .. } ← get
    if operation.state = .terminal then
      modifyOperation fun operation => { operation with terminalObserved := true }
    return (result, some (fillProgress operation))

def cancel (session : Nat) (token : Option Token) : Task (Result × Option Progress) := do
  let state ← get
  if ¬state.owned session then
    return (.internal, none)
  else if ¬operationValid state token then
    return (.staleHandle, none)
  else
    let result ←
      if state.operation.state = .inFlight then
        latchTerminal .cancelled
      else
        pure state.operation.terminalResult
    let { operation, .. } ← get
    modifyOperation fun operation => { operation with terminalObserved := true }
    return (result, some (fillProgress operation))

inductive Op
  | «open» (session : Nat) (modeFeatures : UInt64)
  | close (session : Nat) (deadline : UInt64)
  | retire (session : Nat)
  | configureUart (session : Nat) (baud : Option UInt32)
  | configureI2cController (session : Nat) (frequencyHz : Option UInt32)
  | configureI2cTarget (session : Nat) (address : Option UInt16)
  | uartWriteBegin (session tx : Nat) (txSize : UInt32) (deadline : UInt64) (cancel : Option Cancel)
  | i2cTransferBegin (session : Nat) (address : UInt16) (tx : Nat) (txSize : UInt32) (rx : Nat)
    (rxSize : UInt32) (deadline : UInt64) (cancel : Option Cancel)
  | poll (session : Nat) (token : Option Token)
  | cancel (session : Nat) (token : Option Token)
  deriving DecidableEq

inductive Reply
  | result (result : Result)
  | retired
  | begun (result : Result) (token : Option Token)
  | polled (result : Result) (progress : Option Progress)
  deriving DecidableEq

def Op.perform : Op → Task Reply
  | .open session modeFeatures          => .result <$> ExternalLink.«open» session modeFeatures
  | .close session deadline             => .result <$> ExternalLink.close session deadline
  | .retire session                     => (fun _ => .retired) <$> ExternalLink.retire session
  | .configureUart session baud         => .result <$> ExternalLink.configureUart session baud
  | .configureI2cController session hz  =>
    .result <$> ExternalLink.configureI2cController session hz
  | .configureI2cTarget session address =>
    .result <$> ExternalLink.configureI2cTarget session address
  | .uartWriteBegin session tx txSize deadline probe => do
    let begun ← ExternalLink.uartWriteBegin session tx txSize deadline probe
    return .begun begun.1 begun.2
  | .i2cTransferBegin session address tx txSize rx rxSize deadline probe => do
    let begun ← ExternalLink.i2cTransferBegin session address tx txSize rx rxSize deadline probe
    return .begun begun.1 begun.2
  | .poll session token => do
    let polled ← ExternalLink.poll session token
    return .polled polled.1 polled.2
  | .cancel session token => do
    let polled ← ExternalLink.cancel session token
    return .polled polled.1 polled.2

end ExternalLink
