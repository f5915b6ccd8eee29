import HackyLens.Display.Adapter

-- How a script draws: the part of `micropython_capability_bridge.c` that serves its requests for
-- the overlay, and `display.c` between that and the display adapter.

namespace Script

open App (Result)
open Display (Board Call Call.Reply PlaneKind Rect)

-- `micropython_binding_result_t`
inductive BindingResult
  | ok | invalidArgument | notActive | busy | timeout | io | limit
  deriving DecidableEq

-- `hk_display_state_t` by planes. Handles are addresses, and 0 is `NULL`.
structure Service where
  claimants : PlaneKind → Nat
  quarantined : PlaneKind → Bool

-- `binding_display_transaction_t`
structure Transaction where
  ticket : UInt32
  runId : UInt32
  commandCount : Nat
  textLength : Nat
  active : Bool

-- `g_display` is told by its plane, which it only has while it is open. The first `runId` is that of
-- the shared block.
structure State where
  adapter : Display.State
  service : Service
  runId : UInt32
  display : Option PlaneKind
  displayRunId : UInt32
  displayOwned : Bool
  transaction : Transaction

abbrev Task := Prog Call Call.Reply State

def ask (c : Call) : Task c.Reply :=
  Prog.call c

def adapter {α : Type} (p : Display.Task α) : Task α :=
  Prog.zoom State.adapter (fun adapter state => { state with adapter }) p

-- The addresses of `g_display` and of a request's cancellation.
def gDisplay : Nat := 1
def cancelContext : Nat := 1

section Capability

-- `display_provider_for`
def State.providerFor (state : State) : Result :=
  match state.display with
  | none       => .staleHandle
  | some plane =>
    if state.service.claimants plane ≠ gDisplay then .staleHandle
    else if state.service.quarantined plane then .internal
    else .ok

-- `quarantine_internal`
def quarantineInternal (result : Result) : Task Unit :=
  modify fun state =>
    match state.display with
    | none       => state
    | some plane =>
      if result = .internal ∧ state.service.claimants plane = gDisplay then
        { state with
          service.quarantined := fun kind => kind = plane || state.service.quarantined kind }
      else
        state

-- What the functions of `display.c` have in common. Some of them answer more than a result.
def guarded {α : Type} (refusal : Result → α) (result : α → Result) (p : Display.Task α) :
    Task α := do
  let state ← get
  if state.providerFor ≠ .ok then
    quarantineInternal state.providerFor
    return refusal state.providerFor
  else
    let answer ← adapter p
    quarantineInternal (result answer)
    return answer

def capability (p : Display.Task Result) : Task Result :=
  guarded id id p

-- `hk_display_begin_batch`
def beginBatch (board : Board) : Task Result :=
  capability (Display.begin board gDisplay)

-- `hk_display_clear`
def clear (color : UInt16) : Task Result :=
  capability (Display.clear gDisplay color)

-- `hk_display_fill_rect`
def fillRect (rect : Rect) (color : UInt16) : Task Result :=
  capability (Display.fill gDisplay rect color)

-- `hk_display_stroke_rect`
def strokeRect (rect : Rect) (color : UInt16) : Task Result :=
  capability (Display.stroke gDisplay rect color)

-- `hk_display_text`
def text (bounds : Rect) (utf8 : List UInt8) (color : UInt16) : Task Result :=
  capability (Display.text gDisplay bounds (some utf8) color)

-- `hk_display_present`
def present (board : Board) (deadline : UInt64) (cancel : Nat) : Task Result :=
  if deadline = Display.timeMax then
    return .invalidArgument
  else
    capability (Display.present board gDisplay deadline cancel)

-- `hk_display_stage_checkpoint`
def stageCheckpoint : Task (Result × Option (Nat × Nat)) :=
  guarded (fun result => (result, none)) Prod.fst (Display.checkpoint gDisplay)

-- `hk_display_stage_restore`
def stageRestore (commands textBytes : Nat) : Task Result :=
  capability (Display.restore gDisplay commands textBytes)

-- `hk_display_open`, for a service that has everything
def «open» (plane : PlaneKind) : Task Result := do
  let { service, .. } ← get
  if service.claimants .base = gDisplay ∨ service.claimants .overlay = gDisplay ∨
      service.claimants plane ≠ 0 then
    return .busy
  else if service.quarantined plane then
    return .internal
  else
    let result ← adapter (Display.open gDisplay (some plane))
    if result ≠ .ok then
      modify fun state => { state with display := none }
      return result
    else
      modify fun state =>
        { state with
          display := some plane
          service.claimants := fun kind =>
            if kind = plane then gDisplay else state.service.claimants kind }
      return .ok

-- The part of `hk_display_retire` that may fail.
def closePlane (board : Board) (deadline : UInt64) : Task Result :=
  if deadline = Display.timeMax then
    return .invalidArgument
  else
    adapter (Display.close board gDisplay deadline)

-- `hk_display_retire`
def retire (board : Board) (deadline : UInt64) : Task Result := do
  let state ← get
  match state.display with
  | none       => return if deadline = Display.timeMax then .invalidArgument else .ok
  | some plane =>
    if state.service.claimants plane ≠ gDisplay then
      set { state with display := none }
      return .staleHandle
    else
      let result ← closePlane board deadline
      adapter (Display.retire board gDisplay)
      modify fun state =>
        { state with
          display := none
          service.claimants := fun kind =>
            if kind = plane then 0 else state.service.claimants kind
          service.quarantined := fun kind =>
            (kind = plane ∧ result ≠ .ok) || state.service.quarantined kind }
      return result

end Capability

-- The next step, unless one has failed.
def andThen (result : Result) (p : Task Result) : Task Result :=
  if result = .ok then p else return result

-- `binding_request_cancelled`, of which the other core decides.
def requestCancelled : Task Bool :=
  ask (.probe cancelContext)

-- `binding_display_deadline` with `hk_time_deadline_after_us`. It is 0 where there is no time.
def rpcTimeoutUs : UInt64 := 500000

def displayDeadline : Task UInt64 := do
  match ← ask .now with
  | none     => return 0
  | some now => return if rpcTimeoutUs ≥ Display.timeMax - now then 0 else now + rpcTimeoutUs

-- `binding_display_transaction_begin`
def transactionBegin (ticket runId : UInt32) : Task Unit := do
  let checkpoint ← stageCheckpoint
  modify fun state =>
    let counts := checkpoint.2.getD (state.transaction.commandCount, state.transaction.textLength)
    { state with transaction := ⟨ticket, runId, counts.1, counts.2, checkpoint.1 = .ok⟩ }

def transactionEnd : Task Unit :=
  modify fun state => { state with transaction.active := false }

-- `binding_display_transaction_finish`
def transactionFinish (ticket runId : UInt32) (rollback : Bool) : Task Unit := do
  let { transaction, .. } ← get
  if ¬transaction.active ∨ transaction.ticket ≠ ticket ∨ transaction.runId ≠ runId then
    return ()
  else if rollback then
    let _ ← stageRestore transaction.commandCount transaction.textLength
    transactionEnd
  else
    transactionEnd

-- `binding_display_result`
def displayResult (result : Result) : BindingResult :=
  if result = .ok then .ok
  else if result = .limit then .limit
  else if result = .cancelled ∨ result = .deadlineExceeded then .timeout
  else if result = .busy then .busy
  else if result = .invalidArgument ∨ result = .invalidState ∨ result = .featureUnavailable then
    .invalidArgument
  else .io

-- How many continuation bytes a first byte announces.
def continuation (first : UInt8) : Nat :=
  if first &&& 0x80 = 0 then 0
  else if first &&& 0xE0 = 0xC0 then 1
  else if first &&& 0xF0 = 0xE0 then 2
  else 3

-- Drops that many of them, as far as they are there.
def dropContinuation : Nat → List UInt8 → List UInt8
  | 0,     text         => text
  | _,     []           => []
  | n + 1, byte :: text =>
    if byte &&& 0xC0 = 0x80 then dropContinuation n text else byte :: text

-- `binding_display_glyph_count`. There are at most `fuel` bytes.
def glyphCount : Nat → List UInt8 → Nat
  | 0,        _             => 0
  | _,        []            => 0
  | fuel + 1, first :: text => glyphCount fuel (dropContinuation (continuation first) text) + 1

-- `MICROPYTHON_BINDING_OP_DISPLAY_*`
inductive Operation
  | clear | text | rect | present
  deriving DecidableEq

def dataMax : Nat := 256

instance sixArguments : NeZero 6 :=
  ⟨Nat.succ_ne_zero 5⟩

-- What the other core has asked for.
structure Request where
  ticket : UInt32
  operation : Operation
  arguments : Fin 6 → UInt32
  data : List UInt8

-- The overlay is not the script's, or it is that of another run.
def State.foreign (state : State) (runId : UInt32) : Prop :=
  ¬state.displayOwned ∨ state.displayRunId ≠ runId

instance {state : State} {runId : UInt32} : Decidable (state.foreign runId) :=
  inferInstanceAs (Decidable (_ ∨ _))

namespace Request

-- A place that is not on the screen, or a colour that is none.
def misplaced (board : Board) (a : Fin 6 → UInt32) : Prop :=
  (a 0).toNat ≥ board.width ∨ (a 1).toNat ≥ board.height ∨ a 2 > 0xFFFF ∨ a 3 > 0xFFFF

instance {board : Board} {a : Fin 6 → UInt32} : Decidable (misplaced board a) :=
  inferInstanceAs (Decidable (_ ∨ _))

-- Where a text is drawn.
def textBounds (board : Board) (a : Fin 6 → UInt32) (data : List UInt8) : Rect where
  x      := (a 0).toNat
  y      := (a 1).toNat
  width  := min (glyphCount data.length data * Display.fontW) (board.width - (a 0).toNat)
  height := Display.fontH

def rectBounds (a : Fin 6 → UInt32) : Rect :=
  ⟨(a 0).toNat, (a 1).toNat, (a 2).toNat, (a 3).toNat⟩

-- The cases of `binding_execute`.
def executeClear (ticket runId : UInt32) (a : Fin 6 → UInt32) : Task BindingResult := do
  let state ← get
  if state.foreign runId ∨ a 0 > 0xFFFF then
    return .notActive
  else
    transactionBegin ticket runId
    let restored ← stageRestore 0 0
    let result ← andThen restored (clear (a 0).toUInt16)
    return displayResult result

def executeText (board : Board) (ticket runId : UInt32) (a : Fin 6 → UInt32) (data : List UInt8) :
    Task BindingResult := do
  let state ← get
  if state.foreign runId then
    return .notActive
  else if misplaced board a then
    return .invalidArgument
  else
    transactionBegin ticket runId
    let bounds := textBounds board a data
    let filled ← fillRect bounds (a 3).toUInt16
    let result ← andThen filled (text bounds data (a 2).toUInt16)
    return displayResult result

def executeRect (board : Board) (ticket runId : UInt32) (a : Fin 6 → UInt32) :
    Task BindingResult := do
  let state ← get
  if state.foreign runId then
    return .notActive
  else if misplaced board a ∨ a 2 = 0 ∨ a 3 = 0 ∨ a 4 > 0xFFFF then
    return .invalidArgument
  else
    transactionBegin ticket runId
    let draw := if a 5 ≠ 0 then fillRect else strokeRect
    let result ← draw (rectBounds a) (a 4).toUInt16
    return displayResult result

def executePresent (board : Board) (runId : UInt32) : Task BindingResult := do
  let deadline ← displayDeadline
  let state ← get
  if state.foreign runId then
    return .notActive
  else
    let checkpoint ← stageCheckpoint
    let counts := checkpoint.2.getD (0, 0)
    let presented ← andThen checkpoint.1 (present board deadline cancelContext)
    let begun ← andThen presented (beginBatch board)
    let result ← andThen begun (stageRestore counts.1 counts.2)
    return displayResult result

-- `binding_execute`
def execute (board : Board) (request : Request) (runId : UInt32) : Task BindingResult := do
  if request.data.length > dataMax then
    return .limit
  else
    let cancelled ← requestCancelled
    if cancelled then
      return .timeout
    else
      match request.operation with
      | .clear   => executeClear request.ticket runId request.arguments
      | .text    => executeText board request.ticket runId request.arguments request.data
      | .rect    => executeRect board request.ticket runId request.arguments
      | .present => executePresent board runId

-- `micropython_capability_bridge_tick`, with the result that completes the request
def tick (board : Board) (request : Request) : Task BindingResult := do
  let { runId, .. } ← get
  let cancelled ← requestCancelled
  if cancelled then
    return .timeout
  else if request.data.length > dataMax then
    return .limit
  else
    let result ← request.execute board runId
    let cancelled ← requestCancelled
    transactionFinish request.ticket runId (cancelled || result != .ok)
    return if cancelled then .timeout else result

end Request

-- What `micropython_capability_bridge_prepare` does when the overlay cannot be had.
def giveUp (board : Board) (result : Result) : Task Unit := do
  let { display, .. } ← get
  if result ≠ .ok ∧ display.isSome then
    let _ ← retire board 0
    return ()
  else
    return ()

-- `micropython_capability_bridge_prepare`, as far as the overlay is concerned
def prepare (board : Board) (runId : UInt32) : Task Unit := do
  modify fun state => { state with runId, displayRunId := runId, transaction.active := false }
  let opened ← «open» .overlay
  let result ← andThen opened (beginBatch board)
  giveUp board result
  modify fun state => { state with displayOwned := result = .ok }

end Script
