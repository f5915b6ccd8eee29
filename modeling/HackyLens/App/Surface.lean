import HackyLens.App.Api

-- `app_runtime/surface.c`, and the states of the runtime and of the switch on which all functions
-- work.

namespace App

-- `hk_app_surface_t`. The operations are all set or all cleared, except for `lock`.
structure Surface where
  structSize : UInt16
  structVersion : UInt16
  contextGeneration : UInt32
  info : DisplayInfo
  valid : Bool
  invalidated : Bool
  deriving DecidableEq

namespace Surface

-- `sizeof(hk_app_surface_t)`.
def size : UInt16 := 128
def version : UInt16 := 1

def zero : Surface :=
  ⟨0, 0, 0, ⟨0, 0, 0, 0⟩, false, false⟩

def validate (surface : Surface) : Result :=
  if ¬surface.valid ∨ surface.structSize ≠ size ∨ surface.structVersion ≠ version ∨
      surface.contextGeneration = 0 then
    .staleHandle
  else
    .ok

-- `hk_app_surface_private_init` with all the operations set.
def privateInit (surface : Surface) (contextGeneration : UInt32) (info : DisplayInfo) :
    Result × Surface :=
  if contextGeneration = 0 ∨ info.structSize < DisplayInfo.size ∨
      info.structVersion ≠ DisplayInfo.version then
    (.invalidArgument, surface)
  else
    (.ok, ⟨size, version, contextGeneration, info, true, false⟩)

def privateInvalidate (surface : Surface) : Surface :=
  { surface with valid := false }

end Surface

-- `hk_app_runtime_state_t`.
inductive State
  | inactive
  | starting
  | running
  | stopping
  | faulted
  deriving DecidableEq

-- `hk_app_runtime_stage_t`.
inductive Stage
  | reusable
  | starting
  | running
  | stopping
  | scopeCleanup
  | invalidating
  deriving DecidableEq

-- Which services `hk_app_runtime_ops_t` has.
structure Ops where
  time : Bool
  input : Bool
  lights : Bool
  display : Bool
  externalLink : Bool
  deriving DecidableEq

-- `hk_app_context_t`, as far as it is read.
structure Context where
  appId : Option String
  generation : UInt32
  deriving DecidableEq

-- `hk_app_runtime_t`, together with `s_live_runtime` and `s_callback_runtime`, which say whether they
-- point to this runtime. The event sequence is not bounded, and the invalidations are the first
-- `invalidation_count` ones. The state storage of the apps is not modelled, as it is only cleared.
structure Runtime where
  ops : Ops
  descriptor : Option Descriptor
  context : Context
  lights : Vector (Option UInt32) 3
  display : Vector (Option UInt32) 2
  externalLink : Option UInt64
  invalidations : List Rect
  teardownDeadline : Deadline
  eventSequence : Nat
  state : State
  stage : Stage
  stopReason : StopReason
  firstError : Result
  teardownBudgetUs : UInt64
  contextGeneration : UInt32
  activeEpoch : UInt32
  contextValid : Bool
  teardownDeadlineValid : Bool
  callbackActive : Bool
  startEntered : Bool
  stopCalled : Bool
  closeRequested : Bool
  teardownStarted : Bool
  fullInvalidation : Bool
  retired : Bool
  live : Bool
  callbackRuntime : Bool

-- `hk_app_switch_t`. A pending close or input is there if its flag is set.
structure Switch where
  runtime : Runtime
  active : Option Descriptor
  surface : Surface
  nextTickUs : UInt64
  pendingInput : Option InputEvent
  pendingClose : Option StopReason
  transitionActive : Bool
  opening : Bool

abbrev Task := Prog Call Call.Answer Switch

def ask (c : Call) : Task c.Answer :=
  Prog.call c

def modifyRuntime (f : Runtime → Runtime) : Task Unit :=
  modify fun s => { s with runtime := f s.runtime }

def modifySurface (f : Surface → Surface) : Task Unit :=
  modify fun s => { s with surface := f s.surface }

namespace Surface

-- `HK_APP_SURFACE_CALL`.
def perform (drawing : Draw) : Task Result := do
  let s ← get
  if s.surface.validate ≠ .ok then
    return s.surface.validate
  else
    ask (.surface drawing)

-- `hk_app_surface_invalidate`.
def invalidate (region : Option Rect) : Task Result := do
  let s ← get
  if s.surface.validate ≠ .ok then
    return s.surface.validate
  else
    let result : Result ← ask (.surface (.invalidate region))
    if result = .ok then
      modifySurface ({ · with invalidated := true })
      return result
    else
      return result

-- `hk_app_surface_get_info`.
def getInfo : Task Reply := do
  let s ← get
  if s.surface.validate ≠ .ok then
    return .result s.surface.validate
  else
    return .info s.surface.info

-- All other functions of the surface, which first check their arguments. The integration always has
-- the `lock` operation.
def draw (drawing : Draw) : Task Reply :=
  let checked (given : Bool) : Task Reply :=
    if given then .result <$> perform drawing else return .result .invalidArgument
  match drawing with
  | .getInfo out       => if out then getInfo else return .result .invalidArgument
  | .invalidate region => .result <$> invalidate region
  | .clear _           => checked true
  | .fillRect rect _   => checked rect.isSome
  | .strokeRect rect _ => checked rect.isSome
  | .text bounds utf8 _ => checked (bounds.isSome && utf8.isSome)
  | .blit destination pixels _ => checked (destination.isSome && pixels.isSome)
  | .lock out          => checked out

end Surface
end App
