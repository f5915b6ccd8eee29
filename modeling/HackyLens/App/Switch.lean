import HackyLens.App.Runtime

-- `app_runtime/switch.c`, with `render_begin` of `runtime/app_runtime_integration.c`.

namespace App

-- The descriptor that is dereferenced as `switcher->active`.
def activeApp : Task Descriptor := do
  match (← get).active with
  | some app => return app
  | none     => Prog.hang

def syncRuntimeState : Task Unit :=
  modify fun s =>
    if s.active.isSome ∧ s.runtime.state ≠ .running then
      { s with active := none, nextTickUs := 0, surface := s.surface.privateInvalidate }
    else
      s

-- The integration's `render_begin`. Its display is the runtime's first display session, which it
-- opens when it prepares an app. Beginning a batch includes reading the display's information.
def renderBegin : Task Result := do
  let { runtime, .. } ← get
  if (getElem runtime.display 0 Nat.zero_lt_two).isNone then
    return .capabilityAbsent
  else
    let (result, info) ← ask .displayBegin
    if result ≠ .ok then
      return result
    else
      let { surface, .. } ← get
      let (result, surface) := surface.privateInit runtime.contextGeneration info
      modifySurface fun _ => surface
      if result ≠ .ok then
        let _ : Result ← ask .renderAbort
        return result
      else
        return result

-- Ends a render pass that cannot be presented.
def abandon : Task Unit := do
  let _ : Result ← ask .renderAbort
  modifySurface .privateInvalidate

section Callbacks

variable (app : Callback → Task Result)

def closeActive (reason : StopReason) : Task Result := do
  if (← get).active.isNone then
    return .ok
  else
    let result ← stop app reason.normalized
    modify fun s =>
      { s with
        active := none
        nextTickUs := 0
        pendingInput := none
        surface := s.surface.privateInvalidate }
    return result

-- The time at which the first tick of an app is due.
def firstTick (descriptor : Descriptor) : Result × UInt64 → Result × UInt64
  | (result, nowUs) =>
    if result ≠ .ok then
      (result, 0)
    else if nowUs ≤ timeMax - descriptor.limits.tickIntervalUs.toUInt64 then
      (.ok, nowUs + descriptor.limits.tickIntervalUs.toUInt64)
    else
      (.limit, 0)

-- Launches an app within `hk_app_switch_open`.
def launchActive (descriptor : Descriptor) : Task Result := do
  let result ← launch app (some descriptor)
  if result ≠ .ok then
    return result
  else
    let (result, nextTickUs) := firstTick descriptor (← ask .nowUs)
    if result = .ok then
      modify ({ · with nextTickUs := nextTickUs })
      return result
    else
      let _ ← stop app .deadline
      return result

def dispatchEvent (kind : UInt32) (timestampUs : UInt64) (data : Event.Data) : Task Result := do
  modifyRuntime .nextSequence
  let { runtime, .. } ← get
  let event := ⟨Event.size, Event.version, kind, 0, runtime.eventSequence, timestampUs, data⟩
  let result ← runtimeEvent app event
  syncRuntimeState
  return result

-- `hk_app_switch_input` also says whether there is an app that consumes the input.
def switchInput (input : Option InputEvent) (consumed : Bool) : Task (Result × Bool) := do
  match input, consumed with
  | some input, true =>
    let s ← get
    if s.active.isNone then
      return (.ok, false)
    else if s.opening then
      modify ({ · with pendingInput := some input })
      return (.ok, true)
    else
      return (← dispatchEvent app Event.inputKind input.timestampUs (.input input), true)
  | _, _ => return (.invalidArgument, false)

-- The end of `hk_app_switch_open`, when the app runs.
def openPending : Task Result := do
  let s ← get
  match s.pendingClose with
  | some reason =>
    modify ({ · with pendingClose := none })
    let result ← closeActive app reason
    return if result = .ok then .cancelled else result
  | none        =>
    match s.pendingInput, s.active with
    | some input, some _ =>
      modify ({ · with pendingInput := none })
      let (result, _) ← switchInput app (some input) true
      return result
    | _, _ => return .ok

def switchOpen (descriptor : Option Descriptor) : Task Result := do
  match descriptor with
  | none            => return .invalidArgument
  | some descriptor =>
    if (← get).transitionActive then
      return .busy
    else
      modify ({ · with transitionActive := true })
      -- This does nothing when no app is active.
      let result ← closeActive app .switch
      if result ≠ .ok then
        modify ({ · with transitionActive := false })
        return result
      else
        modify fun s =>
          { s with
            opening := true
            pendingClose := none
            pendingInput := none
            active := some descriptor }
        let result ← launchActive app descriptor
        modify ({ · with opening := false, transitionActive := false })
        syncRuntimeState
        if result ≠ .ok then
          modify ({ · with active := none })
          return result
        else
          openPending app

def switchClose (reason : StopReason) : Task Result := do
  let s ← get
  if s.transitionActive then
    if ¬s.opening then
      return .invalidState
    else
      modify fun s =>
        { s with pendingClose := s.pendingClose.or (some reason.normalized) }
      return .pending
  else
    modify ({ · with transitionActive := true })
    let result ← closeActive app reason.normalized
    modify ({ · with transitionActive := false })
    return result

def switchMedia (kind generation : UInt32) (timestampUs : UInt64) : Task Result := do
  if kind < mediaInserted ∨ mediaError < kind then
    return .invalidArgument
  else if (← get).active.isNone then
    return .ok
  else
    dispatchEvent app Event.mediaKind timestampUs (.media kind generation)

def switchWakeup (token : Token) (timestampUs : UInt64) : Task Result := do
  let { runtime, .. } ← get
  if runtime.validateWakeupToken token ≠ .ok then
    return runtime.validateWakeupToken token
  else
    dispatchEvent app Event.wakeupKind timestampUs (.wakeup token)

-- `deadline_failure` and `callback_failure`, which differ in the reason.
def failure (reason : StopReason) (result : Result) : Task Result := do
  let stopResult ← switchClose app reason
  return if result ≠ .ok then result else stopResult

def deadlineFailure (result : Result) : Task Result :=
  failure app .deadline result

def callbackFailure (result : Result) : Task Result :=
  failure app .callbackFailed result

-- The end of a tick whose callback began at `startedUs`.
def finishTick (startedUs : UInt64) : Task Result := do
  let (result, finishedUs) ← ask .nowUs
  if result ≠ .ok then
    deadlineFailure app result
  else
    let { limits, .. } ← activeApp
    if finishedUs < startedUs ∨ limits.tickBudgetUs.toUInt64 < finishedUs - startedUs then
      deadlineFailure app .deadlineExceeded
    else if timeMax - limits.tickIntervalUs.toUInt64 < startedUs then
      deadlineFailure app .limit
    else
      modify ({ · with nextTickUs := startedUs + limits.tickIntervalUs.toUInt64 })
      return .ok

def pollTick (nowUs : UInt64) : Task Result := do
  let { nextTickUs, .. } ← get
  if nowUs < nextTickUs then
    return .ok
  else
    let (result, startedUs) ← ask .nowUs
    if result ≠ .ok then
      deadlineFailure app result
    else
      let { nextTickUs, .. } ← get
      let result ← dispatchEvent app Event.timerKind startedUs (.timer nextTickUs startedUs)
      if result ≠ .ok ∨ (← get).active.isNone then
        return result
      else
        finishTick app startedUs

-- Passes the pending invalidations on, until one of them fails.
def invalidateAll : List (Option Rect) → Task Result
  | []                => return .ok
  | region :: regions => do
    let result ← Surface.invalidate region
    if result ≠ .ok then return result else invalidateAll regions

-- The deadline of a render pass, and the time at which it starts.
def renderTimes : Task (Result × Deadline × UInt64) := do
  let { limits, .. } ← activeApp
  let (result, deadline) ← ask (.deadlineAfter .render limits.renderBudgetUs.toUInt64)
  if result ≠ .ok then
    return (result, deadline, 0)
  else if deadline = timeMax then
    return (.internal, deadline, 0)
  else
    let (result, startedUs) ← ask .nowUs
    return (result, deadline, startedUs)

-- The end of a render pass whose callback began at `startedUs`.
def finishRender (deadline : Deadline) (startedUs : UInt64) : Task Result := do
  let (result, finishedUs) ← ask .nowUs
  let { limits, .. } ← activeApp
  if result ≠ .ok ∨ finishedUs < startedUs ∨
      limits.renderBudgetUs.toUInt64 < finishedUs - startedUs then
    abandon
    deadlineFailure app (if result ≠ .ok then result else .deadlineExceeded)
  else
    let { surface, .. } ← get
    let result : Result ←
      if surface.invalidated then ask (.renderPresent deadline) else ask .renderAbort
    modifySurface .privateInvalidate
    if result ≠ .ok then
      let _ : Result ← ask .renderAbort
      callbackFailure app result
    else
      return .ok

-- The render pass once the transaction has begun.
def renderPass : Task Result := do
  let { runtime, .. } ← get
  let full := if runtime.fullInvalidation then [none] else []
  let result ← invalidateAll (full ++ runtime.invalidations.map some)
  if result ≠ .ok then
    abandon
    callbackFailure app result
  else
    let (result, deadline, startedUs) ← renderTimes
    if result ≠ .ok then
      abandon
      deadlineFailure app result
    else
      modifyRuntime .renderCommitted
      let result ← runtimeRender app
      syncRuntimeState
      if result ≠ .ok ∨ (← get).active.isNone then
        abandon
        return result
      else
        finishRender app deadline startedUs

def pollRender : Task Result := do
  if ¬(← get).runtime.renderPending then
    return .ok
  else
    let result ← renderBegin
    if result = .busy then
      return .ok
    else if result = .capabilityAbsent then
      modifyRuntime .renderCommitted
      return .ok
    else if result ≠ .ok then
      callbackFailure app result
    else
      renderPass app

def switchPoll (nowUs : UInt64) : Task Result := do
  if (← get).active.isNone then
    return .ok
  else
    let result ← pollTick app nowUs
    if result ≠ .ok ∨ (← get).active.isNone then
      return result
    else
      pollRender app

end Callbacks
end App
