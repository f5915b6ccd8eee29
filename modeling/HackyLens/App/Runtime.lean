import HackyLens.App.Surface

-- `app_runtime/runtime.c`. The functions that enter callbacks take what runs a callback as a
-- parameter.

namespace App

def callbackResult (result : Result) : Result :=
  if result = .pending then .invalidState else result

def Event.isValid (event : Event) : Bool :=
  size ≤ event.structSize && event.structVersion == version && event.reserved == 0 &&
    inputKind ≤ event.kind && event.kind ≤ wakeupKind

def validateDescriptor : Option Descriptor → Result
  | none            => .invalidArgument
  | some descriptor =>
    if descriptor.structSize ≠ descriptorSize ∨ descriptor.structVersion ≠ descriptorVersion ∨
        descriptor.id = none then
      .invalidArgument
    else
      match descriptor.entry with
      | none       => .invalidArgument
      | some entry =>
        let limits := descriptor.limits
        if entry.stateStorage = 0 ∨ limits.staticRamBytes = 0 ∨ limits.stackBytes = 0 ∨
            limits.stateBytes = 0 ∨ limits.staticRamBytes < limits.stateBytes ∨
            limits.tickIntervalUs = 0 ∨ limits.tickBudgetUs = 0 ∨ limits.renderBudgetUs = 0 ∨
            entry.stateCapacityBytes < limits.stateBytes ∨
            limits.stateAlignment ≠ stateAlignment ∨ ¬entry.start ∨ ¬entry.event ∨ ¬entry.stop then
          .invalidArgument
        else if entry.stateStorage % limits.stateAlignment.toUInt64 ≠ 0 then
          .invalidArgument
        else
          .ok

namespace Runtime

def retainError (result : Result) (runtime : Runtime) : Runtime :=
  let result := callbackResult result
  if result ≠ .ok ∧ runtime.firstError = .ok then { runtime with firstError := result } else runtime

def invalidateInstance (runtime : Runtime) : Runtime :=
  let exhausted := runtime.contextGeneration == counterMax || runtime.activeEpoch == counterMax
  let runtime :=
    if exhausted then
      runtime
    else
      { runtime with
        contextGeneration := runtime.contextGeneration + 1
        activeEpoch := runtime.activeEpoch + 1 }
  { runtime with
    contextValid := false
    teardownDeadlineValid := false
    descriptor := none
    invalidations := []
    context := ⟨none, 0⟩
    teardownDeadline := deadlineImmediate
    startEntered := false
    stopCalled := false
    closeRequested := false
    teardownStarted := false
    fullInvalidation := false
    callbackActive := false
    callbackRuntime := false
    live := false
    retired := exhausted
    stage := if exhausted then .invalidating else .reusable
    state := if exhausted then .faulted else .inactive }

-- The start of `teardown`, up to the deadline.
def beginTeardown (reason : StopReason) (runtime : Runtime) : Runtime :=
  let runtime :=
    if runtime.activeEpoch ≠ counterMax then
      { runtime with activeEpoch := runtime.activeEpoch + 1 }
    else
      { runtime with retired := true }
  { runtime with
    teardownStarted := true
    stopReason := reason.normalized
    teardownDeadline := deadlineImmediate
    teardownDeadlineValid := true }

-- The deadline that `teardown` computes, and what is wrong with it.
def setTeardownDeadline (answer : Result × Deadline) (runtime : Runtime) : Runtime :=
  let result := if answer.1 = .ok ∧ answer.2 = timeMax then .internal else answer.1
  if result = .ok then
    { runtime with teardownDeadline := answer.2 }
  else
    { runtime with teardownDeadline := deadlineImmediate }.retainError result

def beginStop (runtime : Runtime) : Runtime :=
  { runtime with state := .stopping, stage := .stopping, stopCalled := true }

def release (session : Session) (runtime : Runtime) : Runtime :=
  match session with
  | .lights slot  => { runtime with lights := runtime.lights.set slot none }
  | .display slot => { runtime with display := runtime.display.set slot none }
  | .externalLink => { runtime with externalLink := none }

-- The start of `hk_app_runtime_launch`, up to the preparation.
def adopt (descriptor : Descriptor) (runtime : Runtime) : Runtime :=
  { runtime with
    descriptor := some descriptor
    live := true
    firstError := .ok
    stopReason := .completed
    eventSequence := 0
    context := ⟨descriptor.id, runtime.contextGeneration⟩
    contextValid := true
    teardownDeadline := deadlineImmediate
    teardownDeadlineValid := false
    stage := .starting
    state := .starting }

-- Preparing can leave the display session of the base plane open.
def prepared (display : Bool) (runtime : Runtime) : Runtime :=
  if display then { runtime with display := runtime.display.set 0 (some planeBase) } else runtime

-- The end of a launch that succeeds.
def started (runtime : Runtime) : Runtime :=
  { runtime with
    stage := .running
    state := .running
    fullInvalidation := runtime.descriptor.any (·.hasRender)
    invalidations := []
    closeRequested := false }

def nextSequence (runtime : Runtime) : Runtime :=
  { runtime with eventSequence := runtime.eventSequence + 1 }

def closeEvent (reason : StopReason) (runtime : Runtime) : Event where
  structSize := Event.size
  structVersion := Event.version
  kind := Event.runtimeClose
  reserved := 0
  sequence := runtime.eventSequence
  timestampUs := 0
  data := .close reason

def validateWakeupToken (token : Token) (runtime : Runtime) : Result :=
  if token.structSize < tokenSize ∨ token.structVersion ≠ tokenVersion ∨
      token.slot ≠ runtimeSlot ∨ runtime.state ≠ .running ∨ ¬runtime.contextValid ∨
      token.contextGeneration ≠ runtime.contextGeneration ∨ token.epoch ≠ runtime.activeEpoch then
    .staleHandle
  else
    .ok

def renderPending (runtime : Runtime) : Bool :=
  runtime.state == .running && (runtime.fullInvalidation || !runtime.invalidations.isEmpty)

def renderCommitted (runtime : Runtime) : Runtime :=
  { runtime with fullInvalidation := false, invalidations := [] }

-- `hk_app_runtime_init` on a zeroed runtime.
def init (ops : Ops) (teardownBudgetUs : UInt64) : Runtime where
  ops := ops
  descriptor := none
  context := ⟨none, 0⟩
  lights := .replicate 3 none
  display := .replicate 2 none
  externalLink := none
  invalidations := []
  teardownDeadline := 0
  eventSequence := 0
  state := .inactive
  stage := .reusable
  stopReason := .completed
  firstError := .ok
  teardownBudgetUs := teardownBudgetUs
  contextGeneration := 1
  activeEpoch := 1
  contextValid := false
  teardownDeadlineValid := false
  callbackActive := false
  startEntered := false
  stopCalled := false
  closeRequested := false
  teardownStarted := false
  fullInvalidation := false
  retired := false
  live := false
  callbackRuntime := false

end Runtime

def retainError (result : Result) : Task Unit :=
  modifyRuntime (.retainError result)

def enterCallback : Task Result := do
  let { runtime, .. } ← get
  if runtime.callbackActive || runtime.callbackRuntime then
    return .invalidState
  else
    modifyRuntime ({ · with callbackActive := true, callbackRuntime := true })
    return .ok

def finishCallback (result : Result) : Task Result := do
  modifyRuntime ({ · with callbackActive := false, callbackRuntime := false })
  return callbackResult result

def retire (session : Session) : Task Unit := do
  let { runtime, .. } ← get
  let result : Result ← ask (.retire session runtime.teardownDeadline)
  modifyRuntime (.release session)
  retainError result

-- The sessions in the order in which `teardown` retires them.
def sessions : List Session :=
  [.lights 0, .lights 1, .lights 2, .display 0, .display 1, .externalLink]

section Callbacks

variable (app : Callback → Task Result)

-- The stop callback within `teardown`.
def callStop : Task Unit := do
  let { runtime, .. } ← get
  if runtime.startEntered && !runtime.stopCalled then
    modifyRuntime .beginStop
    if (← enterCallback) = .ok then
      retainError (← finishCallback (← app .stop))

def teardown (reason : StopReason) : Task Result := do
  let { runtime, .. } ← get
  if runtime.descriptor.isNone then
    return .invalidState
  else if runtime.callbackActive || runtime.teardownStarted then
    return .invalidState
  else
    modifyRuntime (.beginTeardown reason)
    let answer ← ask (.deadlineAfter .teardown runtime.teardownBudgetUs)
    modifyRuntime (.setTeardownDeadline answer)
    callStop app
    sessions.forM retire
    modifyRuntime ({ · with state := .stopping, stage := .scopeCleanup })
    let { runtime, .. } ← get
    let result : Result ← ask (.cleanup runtime.teardownDeadline)
    retainError result
    let { runtime, .. } ← get
    modifyRuntime .invalidateInstance
    return runtime.firstError

def terminateRunning (reason : StopReason) : Task Result := do
  let { runtime, .. } ← get
  if runtime.state ≠ .running ∨ runtime.descriptor.isNone ∨ runtime.callbackActive ∨
      runtime.teardownStarted then
    return .invalidState
  else
    let reason := reason.normalized
    modifyRuntime .nextSequence
    let event := runtime.nextSequence.closeEvent reason
    modifyRuntime ({ · with stage := .running })
    let result ← enterCallback
    let result ← if result = .ok then do finishCallback (← app (.event event)) else pure result
    retainError result
    teardown app reason

-- `hk_app_runtime_launch`. There is no other runtime that could be live.
def launch (descriptor : Option Descriptor) : Task Result := do
  let { runtime, .. } ← get
  if runtime.retired || runtime.state == .faulted then
    return .invalidState
  else if runtime.state != .inactive || runtime.callbackActive then
    return .busy
  else if validateDescriptor descriptor ≠ .ok then
    return validateDescriptor descriptor
  else if let some descriptor := descriptor then
    modifyRuntime (.adopt descriptor)
    let (result, display) ← ask (.prepare descriptor)
    modifyRuntime (.prepared display)
    let result := callbackResult result
    if result ≠ .ok then
      retainError result
      teardown app .forced
    else
      modifyRuntime ({ · with startEntered := true })
      if (← enterCallback) ≠ .ok then
        teardown app .startFailed
      else
        let result ← finishCallback (← app .start)
        if result ≠ .ok then
          retainError result
          teardown app .startFailed
        else
          modifyRuntime .started
          return .ok
  else
    return .invalidArgument

-- `hk_app_runtime_stop`.
def stop (reason : StopReason) : Task Result := do
  let { runtime, .. } ← get
  if runtime.callbackActive || runtime.teardownStarted then
    return .invalidState
  else if runtime.state = .inactive then
    return .ok
  else if runtime.state ≠ .running ∨ runtime.descriptor.isNone then
    return .invalidState
  else
    terminateRunning app reason

def dispatchResult (callbackStatus : Result) : Task Result := do
  let result ← finishCallback callbackStatus
  if result ≠ .ok then
    retainError result
    let _ ← terminateRunning app .callbackFailed
    return result
  else
    let { runtime, .. } ← get
    if runtime.closeRequested then
      terminateRunning app .completed
    else
      return .ok

-- `hk_app_runtime_event`.
def runtimeEvent (event : Event) : Task Result := do
  let { runtime, .. } ← get
  if ¬event.isValid then
    return .invalidArgument
  else if runtime.state ≠ .running ∨ runtime.callbackActive then
    return .invalidState
  else
    modifyRuntime ({ · with stage := .running })
    let _ ← enterCallback
    dispatchResult app (← app (.event event))

-- `hk_app_runtime_render`.
def runtimeRender : Task Result := do
  let { runtime, .. } ← get
  if runtime.state ≠ .running ∨ runtime.callbackActive then
    return .invalidState
  else if ¬runtime.descriptor.any (·.hasRender) then
    return .featureUnavailable
  else
    modifyRuntime ({ · with stage := .running })
    let _ ← enterCallback
    dispatchResult app (← app .render)

end Callbacks
end App
