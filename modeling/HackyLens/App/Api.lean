import HackyLens.Lib.Run

-- What apps, the app runtime and the world exchange: `hackylens/app/runtime.h`,
-- `hackylens/app/context.h` and the operations that the runtime is given. An app is not modelled by
-- a function. Each of its callbacks is a dialogue: the runtime reports the result of the app's last
-- action, and the app answers with another action or with the result of the callback.

namespace App

-- `hk_result_t`.
abbrev Result := Int

namespace Result

def ok : Result := 0
def pending : Result := 1
def invalidArgument : Result := -1
def capabilityAbsent : Result := -2
def featureUnavailable : Result := -4
def notDeclared : Result := -5
def busy : Result := -6
def staleHandle : Result := -8
def wrongContext : Result := -9
def invalidState : Result := -10
def deadlineExceeded : Result := -11
def cancelled : Result := -12
def overflow : Result := -13
def limit : Result := -14
def io : Result := -15
def internal : Result := -16

end Result

-- `hk_app_limits_t`.
structure Limits where
  staticRamBytes : UInt32
  stackBytes : UInt32
  stateBytes : UInt32
  stateAlignment : UInt32
  tickIntervalUs : UInt32
  tickBudgetUs : UInt32
  renderBudgetUs : UInt32
  deriving DecidableEq

-- `hk_app_v2_entry_t`. Of the callbacks it is only known which pointers are not NULL.
structure Entry where
  stateStorage : UInt64
  stateCapacityBytes : UInt32
  start : Bool
  event : Bool
  render : Bool
  stop : Bool
  deriving DecidableEq

-- `hk_app_t`, as far as the runtime reads it. Descriptors are told apart by their addresses.
structure Descriptor where
  address : UInt64
  structSize : UInt16
  structVersion : UInt16
  id : Option String
  entry : Option Entry
  limits : Limits
  deriving DecidableEq

-- `sizeof(hk_app_t)`.
def descriptorSize : UInt16 := 112
def descriptorVersion : UInt16 := 1
def stateAlignment : UInt32 := 16

def Descriptor.hasRender (descriptor : Descriptor) : Bool :=
  descriptor.entry.any (·.render)

-- `hk_app_stop_reason_t`, which can be any number when it comes from a caller.
abbrev StopReason := UInt32

namespace StopReason

def completed : StopReason := 0
def switch : StopReason := 2
def startFailed : StopReason := 3
def callbackFailed : StopReason := 4
def deadline : StopReason := 5
def forced : StopReason := 6
def shutdown : StopReason := 7

-- `normalized_reason` of both files.
def normalized (reason : StopReason) : StopReason :=
  if reason ≤ shutdown then reason else forced

end StopReason

-- `hk_input_event_t`.
structure InputEvent where
  sequence : UInt64
  timestampUs : UInt64
  state : UInt32
  changed : UInt32
  pressed : UInt32
  released : UInt32
  dropped : UInt32
  deriving DecidableEq

-- `hk_app_wakeup_token_t`.
structure Token where
  structSize : UInt16
  structVersion : UInt16
  slot : UInt32
  contextGeneration : UInt32
  epoch : UInt32
  value : UInt32
  deriving DecidableEq

-- `sizeof(hk_app_wakeup_token_t)`.
def tokenSize : UInt16 := 20
def tokenVersion : UInt16 := 1
def runtimeSlot : UInt32 := 1

inductive Event.Data
  | input (event : InputEvent)
  | media (kind : UInt32) (generation : UInt32)
  | timer (scheduledUs nowUs : UInt64)
  | close (reason : StopReason)
  | wakeup (token : Token)
  deriving DecidableEq

-- `hk_app_event_t`. The sequence has 64 bits in the source, which are not used up.
structure Event where
  structSize : UInt16
  structVersion : UInt16
  kind : UInt32
  reserved : UInt32
  sequence : Nat
  timestampUs : UInt64
  data : Event.Data
  deriving DecidableEq

namespace Event

-- `sizeof(hk_app_event_t)`.
def size : UInt16 := 72
def version : UInt16 := 1

def inputKind : UInt32 := 1
def mediaKind : UInt32 := 2
def timerKind : UInt32 := 3
def runtimeClose : UInt32 := 4
def wakeupKind : UInt32 := 5

end Event

def mediaInserted : UInt32 := 1
def mediaError : UInt32 := 4

-- `hk_display_rect_t`.
structure Rect where
  x : Int
  y : Int
  width : UInt32
  height : UInt32
  deriving DecidableEq

-- `hk_display_info_t`, as far as the surface reads it.
structure DisplayInfo where
  structSize : UInt16
  structVersion : UInt16
  width : UInt32
  height : UInt32
  deriving DecidableEq

namespace DisplayInfo

-- `sizeof(hk_display_info_t)`.
def size : UInt16 := 48
def version : UInt16 := 1

end DisplayInfo

-- `HK_DISPLAY_PLANE_BASE` and `HK_DISPLAY_PLANE_OVERLAY`.
def planeBase : UInt32 := 1
def planeOverlay : UInt32 := 2

def lightsChannelAll : UInt32 := 7
def externalLinkFeatures : UInt64 := 7

-- `hk_deadline_t`.
abbrev Deadline := UInt64

def deadlineImmediate : Deadline := 0
def timeMax : UInt64 := 0xFFFFFFFFFFFFFFFF
def counterMax : UInt32 := 0xFFFFFFFF

-- The sessions that the runtime holds for an app.
inductive Session
  | lights (slot : Fin 3)
  | display (slot : Fin 2)
  | externalLink
  deriving DecidableEq

-- The calls of `hk_app_surface_*`. Missing pointers are `none` or `false`.
inductive Draw
  | getInfo (out : Bool)
  | invalidate (region : Option Rect)
  | clear (rgb565 : UInt16)
  | fillRect (rect : Option Rect) (rgb565 : UInt16)
  | strokeRect (rect : Option Rect) (rgb565 : UInt16)
  | text (bounds : Option Rect) (utf8 : Option (List UInt8)) (rgb565 : UInt16)
  | blit (destination : Option Rect) (pixels : Option (List UInt8)) (pixelFormat : UInt32)
  | lock (out : Bool)
  deriving DecidableEq

-- The calls of `hk_app_context_*`. Where there are pointers for results, `out` says whether they
-- are given.
inductive ContextCall
  | identity (out : Bool)
  | time (out : Bool)
  | input (out : Bool)
  | externalLink (modeFeatures : UInt64) (out : Bool)
  | display (plane : UInt32) (out : Bool)
  | lights (channels : UInt32) (out : Bool)
  | state (out : Bool)
  | teardownDeadline (out : Bool)
  | requestClose
  | requestRender (region : Option Rect)
  | wakeupToken (value : UInt32) (out : Bool)
  deriving DecidableEq

-- What an app can call from a callback. Of the context pointer it matters whether it is the one that
-- the callback was given.
inductive Action
  | context (ctx : Bool) (request : ContextCall)
  | draw (drawing : Draw)
  | openApp (app : Option Descriptor)
  | close (reason : StopReason)
  | input (event : Option InputEvent) (consumed : Bool)
  | media (kind : UInt32) (generation : UInt32) (timestampUs : UInt64)
  | wakeup (token : Token) (timestampUs : UInt64)
  | poll (nowUs : UInt64)
  | validate (token : Token)
  deriving DecidableEq

-- What an app gets back. Results other than `HK_OK` come without a value.
inductive Reply
  | result (result : Result)
  | identity (id : Option String) (generation : UInt32)
  | info (info : DisplayInfo)
  | session (session : Session)
  | state (storage : UInt64) (sizeBytes : UInt32)
  | deadline (deadline : Deadline)
  | token (token : Token)
  | input (result : Result) (consumed : Bool)
  | validated (token : Token) (result : Result)
  deriving DecidableEq

inductive Callback
  | start
  | event (event : Event)
  | render
  | stop
  deriving DecidableEq

inductive Next
  | act (action : Action)
  | done (result : Result)
  deriving DecidableEq

-- What a deadline is asked for.
inductive Purpose
  | teardown
  | render
  deriving DecidableEq

inductive Call
  | prepare (app : Descriptor)
  | cleanup (deadline : Deadline)
  | deadlineAfter (purpose : Purpose) (durationUs : UInt64)
  | nowUs
  | open (session : Session) (mode : UInt64)
  | retire (session : Session) (deadline : Deadline)
  | displayBegin
  | renderPresent (deadline : Deadline)
  | renderAbort
  | surface (drawing : Draw)
  | next (callback : Callback) (last : Option Reply)
  deriving DecidableEq

-- Preparing also says whether it left the display session open.
abbrev Call.Answer : Call → Type
  | prepare _         => Result × Bool
  | deadlineAfter _ _ => Result × Deadline
  | nowUs             => Result × UInt64
  | displayBegin      => Result × DisplayInfo
  | next _ _          => Next
  | _                 => Result

-- The calls that were made and their answers, the latest first.
abbrev Log := List (Sigma Call.Answer)

-- The world answers as it likes.
def world : Prog.Handler Call Call.Answer Log ((c : Call) → c.Answer) :=
  fun d c log => (d c, ⟨c, d c⟩ :: log)

end App
