import HackyLens.App.Switch

-- The context functions of `app_runtime/runtime.c`, what apps can do in their callbacks, and the
-- calls from outside.

namespace App

section Context

-- `validate_context`. The context pointer is the runtime's or not.
def Runtime.validateContext (ctx : Bool) (runtime : Runtime) : Result :=
  if ¬ctx ∨ ¬runtime.live ∨ ¬runtime.contextValid ∨
      runtime.context.generation ≠ runtime.contextGeneration then
    .staleHandle
  else
    .ok

def Runtime.validateCallbackContext (ctx : Bool) (runtime : Runtime) : Result :=
  if runtime.validateContext ctx ≠ .ok then runtime.validateContext ctx
  else if ¬runtime.callbackRuntime ∨ ¬runtime.live ∨ ¬runtime.callbackActive then .wrongContext
  else .ok

-- What all context functions do first.
def withContext (ctx out : Bool) (f : Runtime → Task Reply) : Task Reply := do
  let { runtime, .. } ← get
  if ¬out then
    return .result .invalidArgument
  else if runtime.validateCallbackContext ctx ≠ .ok then
    return .result (runtime.validateCallbackContext ctx)
  else
    f runtime

variable (ctx : Bool)

def contextIdentity (out : Bool) : Task Reply :=
  withContext ctx out fun runtime =>
    return .identity runtime.context.appId runtime.context.generation

def contextTime (out : Bool) : Task Reply :=
  withContext ctx out fun runtime =>
    return .result (if runtime.ops.time then .ok else .capabilityAbsent)

def contextInput (out : Bool) : Task Reply :=
  withContext ctx out fun runtime =>
    return .result (if runtime.ops.input then .ok else .capabilityAbsent)

-- Opens a session in a free slot.
def openSession (session : Session) (mode : UInt64) (hold : Runtime → Runtime) : Task Reply := do
  let result : Result ← ask (.open session mode)
  if result = .ok then
    modifyRuntime hold
    return .session session
  else
    return .result result

def contextExternalLink (modeFeatures : UInt64) (out : Bool) : Task Reply :=
  withContext ctx out fun runtime =>
    if modeFeatures = 0 ∨ modeFeatures &&& ~~~externalLinkFeatures ≠ 0 then
      return .result .invalidArgument
    else if ¬runtime.ops.externalLink then
      return .result .capabilityAbsent
    else
      match runtime.externalLink with
      | some held =>
        if held &&& modeFeatures ≠ modeFeatures then
          return .result .busy
        else
          return .session .externalLink
      | none      =>
        if runtime.teardownStarted then
          return .result .invalidState
        else
          openSession .externalLink modeFeatures
            ({ · with externalLink := some modeFeatures })

-- The first slot with a certain content.
def slotWith {n : Nat} (slots : Vector (Option UInt32) n) (content : Option UInt32) :
    Option (Fin n) :=
  (List.finRange n).find? (slots[·] == content)

theorem displaySlot_lt (slot : Fin 2) : slot.val < 2 :=
  slot.isLt

theorem lightsSlot_lt (slot : Fin 3) : slot.val < 3 :=
  slot.isLt

def contextDisplay (plane : UInt32) (out : Bool) : Task Reply :=
  withContext ctx out fun runtime =>
    if plane ≠ planeBase ∧ plane ≠ planeOverlay then
      return .result .invalidArgument
    else if ¬runtime.ops.display then
      return .result .capabilityAbsent
    else
      match slotWith runtime.display (some plane) with
      | some slot => return .session (.display slot)
      | none      =>
        if runtime.teardownStarted then
          return .result .invalidState
        else
          match slotWith runtime.display none with
          | some slot =>
            openSession (.display slot) plane.toUInt64
              fun runtime => { runtime with display := runtime.display.set slot (some plane) (displaySlot_lt slot) }
          | none      => return .result .busy

def contextLights (channels : UInt32) (out : Bool) : Task Reply :=
  withContext ctx out fun runtime =>
    if channels = 0 ∨ channels &&& ~~~lightsChannelAll ≠ 0 then
      return .result .invalidArgument
    else if ¬runtime.ops.lights then
      return .result .capabilityAbsent
    else
      match slotWith runtime.lights (some channels) with
      | some slot => return .session (.lights slot)
      | none      =>
        if runtime.teardownStarted then
          return .result .invalidState
        else
          match slotWith runtime.lights none with
          | some slot =>
            openSession (.lights slot) channels.toUInt64
              fun runtime => { runtime with lights := runtime.lights.set slot (some channels) (lightsSlot_lt slot) }
          | none      => return .result .busy

def contextState (out : Bool) : Task Reply :=
  withContext ctx out fun runtime =>
    match runtime.descriptor.bind (·.entry), runtime.descriptor with
    | some entry, some descriptor => return .state entry.stateStorage descriptor.limits.stateBytes
    | _, _                        => Prog.hang

def contextTeardownDeadline (out : Bool) : Task Reply :=
  withContext ctx out fun runtime =>
    if ¬runtime.teardownDeadlineValid ∨ runtime.stage ≠ .stopping then
      return .result .invalidState
    else
      return .deadline runtime.teardownDeadline

def contextRequestClose : Task Reply :=
  withContext ctx true fun runtime =>
    if runtime.state ≠ .running then
      return .result .invalidState
    else do
      modifyRuntime ({ · with closeRequested := true })
      return .result .ok

def contextWakeupToken (value : UInt32) (out : Bool) : Task Reply :=
  withContext ctx out fun runtime =>
    if runtime.state ≠ .running then
      return .result .invalidState
    else
      return .token ⟨tokenSize, tokenVersion, runtimeSlot, runtime.context.generation,
        runtime.activeEpoch, value⟩

def maxInvalidations : Nat := 8

def contextRequestRender (region : Option Rect) : Task Reply :=
  withContext ctx true fun runtime =>
    if runtime.state ≠ .running then
      return .result .invalidState
    else if ¬runtime.descriptor.any (·.hasRender) then
      return .result .featureUnavailable
    else
      match region with
      | none        => do
        modifyRuntime ({ · with fullInvalidation := true, invalidations := [] })
        return .result .ok
      | some region =>
        if region.width = 0 ∨ region.height = 0 then
          return .result .invalidArgument
        else if runtime.fullInvalidation then
          return .result .ok
        else if maxInvalidations ≤ runtime.invalidations.length then
          return .result .limit
        else do
          modifyRuntime ({ · with invalidations := runtime.invalidations ++ [region] })
          return .result .ok

def context : ContextCall → Task Reply
  | .identity out                  => contextIdentity ctx out
  | .time out                      => contextTime ctx out
  | .input out                     => contextInput ctx out
  | .externalLink modeFeatures out => contextExternalLink ctx modeFeatures out
  | .display plane out             => contextDisplay ctx plane out
  | .lights channels out           => contextLights ctx channels out
  | .state out                     => contextState ctx out
  | .teardownDeadline out          => contextTeardownDeadline ctx out
  | .requestClose                  => contextRequestClose ctx
  | .requestRender region          => contextRequestRender ctx region
  | .wakeupToken value out         => contextWakeupToken ctx value out

end Context

section Callbacks

variable (app : Callback → Task Result)

-- What the app gets for one of its actions.
def perform : Action → Task Reply
  | .context ctx request                => context ctx request
  | .draw drawing                       => Surface.draw drawing
  | .openApp descriptor                 => .result <$> switchOpen app descriptor
  | .close reason                       => .result <$> switchClose app reason
  | .input event consumed               =>
    (fun r => .input r.fst r.snd) <$> switchInput app event consumed
  | .media kind generation timestampUs  => .result <$> switchMedia app kind generation timestampUs
  | .wakeup token timestampUs           => .result <$> switchWakeup app token timestampUs
  | .poll nowUs                         => .result <$> switchPoll app nowUs
  | .validate token                     => do
    return .validated token ((← get).runtime.validateWakeupToken token)

-- One round of a callback.
def answer (callback : Callback) (last : Option Reply) : Task (Result ⊕ Option Reply) := do
  let next : Next ← ask (.next callback last)
  match next with
  | .done result => return .inl result
  | .act action  => do
    let reply ← perform app action
    return .inr (some reply)

end Callbacks

-- Callbacks that take at most `fuel` actions and that are nested at most `depth` times.
def runCallback (fuel : Nat) : Nat → Callback → Task Result
  | 0,         _        => Prog.hang
  | depth + 1, callback => Prog.loop (answer (runCallback fuel depth) callback) fuel none

-- `hk_app_switch_init` on a zeroed switch.
def Switch.init (ops : Ops) (teardownBudgetUs : UInt64) : Switch where
  runtime := .init ops teardownBudgetUs
  active := none
  surface := .zero
  nextTickUs := 0
  pendingInput := none
  pendingClose := none
  transitionActive := false
  opening := false

-- The events that the switch dispatches.
inductive Posted
  | input (event : InputEvent)
  | media (kind : UInt32) (generation : UInt32) (timestampUs : UInt64)
  | timer (scheduledUs nowUs : UInt64)
  | wakeup (token : Token) (timestampUs : UInt64)

-- The calls of the runtime from outside. Events come through the switch's `dispatch_event`.
inductive RuntimeCall
  | launch (descriptor : Option Descriptor)
  | event (posted : Posted)
  | render
  | stop (reason : StopReason)
  | validate (token : Token)

-- The calls of the switch from outside.
inductive SwitchCall
  | openApp (descriptor : Option Descriptor)
  | close (reason : StopReason)
  | input (event : Option InputEvent) (consumed : Bool)
  | media (kind : UInt32) (generation : UInt32) (timestampUs : UInt64)
  | wakeup (token : Token) (timestampUs : UInt64)
  | poll (nowUs : UInt64)

def dispatch (app : Callback → Task Result) : Posted → Task Result
  | .input event                       =>
    dispatchEvent app Event.inputKind event.timestampUs (.input event)
  | .media kind generation timestampUs =>
    dispatchEvent app Event.mediaKind timestampUs (.media kind generation)
  | .timer scheduledUs nowUs           =>
    dispatchEvent app Event.timerKind nowUs (.timer scheduledUs nowUs)
  | .wakeup token timestampUs          =>
    dispatchEvent app Event.wakeupKind timestampUs (.wakeup token)

section Calls

variable (fuel depth : Nat)

def runtimeCalls : RuntimeCall → Task Result
  | .launch descriptor => launch (runCallback fuel depth) descriptor
  | .event posted      => dispatch (runCallback fuel depth) posted
  | .render            => runtimeRender (runCallback fuel depth)
  | .stop reason       => stop (runCallback fuel depth) reason
  | .validate token    => do return (← get).runtime.validateWakeupToken token

def switchCalls : SwitchCall → Task Result
  | .openApp descriptor                => switchOpen (runCallback fuel depth) descriptor
  | .close reason                      => switchClose (runCallback fuel depth) reason
  | .input event consumed              =>
    Prod.fst <$> switchInput (runCallback fuel depth) event consumed
  | .media kind generation timestampUs =>
    switchMedia (runCallback fuel depth) kind generation timestampUs
  | .wakeup token timestampUs          => switchWakeup (runCallback fuel depth) token timestampUs
  | .poll nowUs                        => switchPoll (runCallback fuel depth) nowUs

end Calls
end App
