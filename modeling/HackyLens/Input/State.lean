import HackyLens.App.Api

-- `input_state.c`: the buttons, of which the states are sampled, and the cursors, which read the
-- events of the same ring.

namespace Input

open App (Result)

def buttonAll : UInt32 := 0x0F
def sampleIntervalUs : UInt64 := 10000
def debounceIntervalUs : UInt64 := 20000
def eventCapacity : Nat := 8

-- `hk_input_event_t`
structure Event where
  sequence : UInt64
  timestampUs : UInt64
  state : UInt32
  changed : UInt32
  pressed : UInt32
  released : UInt32
  dropped : UInt32
  deriving DecidableEq

def Event.zero : Event :=
  ⟨0, 0, 0, 0, 0, 0, 0⟩

-- `hk_input_cursor_t`
structure Cursor where
  nextSequence : UInt64
  active : Bool
  deriving DecidableEq

def Cursor.closed : Cursor :=
  ⟨0, false⟩

-- `hk_input_state_t`. The events are those at the indices below the capacity.
structure State where
  events : Nat → Event
  sequence : UInt64
  nextSampleUs : UInt64
  candidateSinceUs : UInt64
  stableState : UInt32
  candidateState : UInt32
  initialized : Bool

namespace State

-- `hk_input_state_reset`
def reset : State where
  events _         := .zero
  sequence         := 0
  nextSampleUs     := 0
  candidateSinceUs := 0
  stableState      := 0
  candidateState   := 0
  initialized      := false

def place (sequence : UInt64) : Nat :=
  (sequence - 1).toNat % eventCapacity

-- What happens when a state has been stable for long enough.
def createEvent (s : State) (timestampUs : UInt64) (rawState : UInt32) : State :=
  let changed := rawState ^^^ s.stableState
  let sequence := s.sequence + 1
  { s with
    stableState := rawState
    sequence
    events := Function.update s.events (place sequence) {
      sequence
      timestampUs
      state    := rawState
      changed
      pressed  := changed &&& rawState
      released := changed &&& ~~~rawState &&& buttonAll
      dropped  := 0 } }

-- `hk_input_state_sample`
def sample (s : State) (timestampUs : UInt64) (rawState : UInt32) : Result × State :=
  if timestampUs = 0xFFFFFFFFFFFFFFFF ∨ rawState &&& ~~~buttonAll ≠ 0 then
    (.invalidArgument, s)
  else if !s.initialized then
    (.ok, { s with
      stableState      := rawState
      candidateState   := rawState
      candidateSinceUs := timestampUs
      nextSampleUs     := timestampUs + sampleIntervalUs
      initialized      := true })
  else if timestampUs < s.candidateSinceUs then
    (.internal, s)
  else if timestampUs < s.nextSampleUs then
    (.pending, s)
  else if timestampUs > 0xFFFFFFFFFFFFFFFF - sampleIntervalUs then
    (.limit, s)
  else
    let s := { s with nextSampleUs := timestampUs + sampleIntervalUs }
    if rawState ≠ s.candidateState then
      (.ok, { s with candidateState := rawState, candidateSinceUs := timestampUs })
    else if rawState = s.stableState ∨ timestampUs - s.candidateSinceUs < debounceIntervalUs then
      (.ok, s)
    else if s.sequence = 0xFFFFFFFFFFFFFFFF then
      (.limit, s)
    else
      (.ok, s.createEvent timestampUs rawState)

-- `hk_input_state_open_cursor`
def openCursor (s : State) (cursor : Cursor) : Result × Cursor :=
  if s.sequence = 0xFFFFFFFFFFFFFFFF then (.limit, cursor) else (.ok, ⟨s.sequence + 1, true⟩)

-- `hk_input_state_get`
def get (s : State) : Result × Option UInt32 :=
  if s.initialized then (.ok, some s.stableState) else (.invalidState, none)

def oldest (s : State) : UInt64 :=
  if s.sequence.toNat ≥ eventCapacity then s.sequence - .ofNat eventCapacity + 1 else 1

-- What is returned in place of the events that the cursor has missed.
def overflowEvent (s : State) (cursor : Cursor) : Event :=
  let dropped := s.sequence - cursor.nextSequence + 1
  { Event.zero with
    sequence    := s.sequence
    state       := s.stableState
    timestampUs := if s.sequence ≠ 0 then (s.events (place s.sequence)).timestampUs else 0
    dropped     := if dropped > 0xFFFFFFFF then 0xFFFFFFFF else dropped.toUInt32 }

-- `hk_input_state_next_event`
def nextEvent (s : State) (cursor : Cursor) : Result × Event × Cursor :=
  if !cursor.active || cursor.nextSequence = 0 then
    (.invalidState, .zero, cursor)
  else if cursor.nextSequence > s.sequence then
    (.pending, .zero, cursor)
  else if cursor.nextSequence < s.oldest then
    (.overflow, s.overflowEvent cursor, { cursor with nextSequence := s.sequence + 1 })
  else
    (.ok, s.events (place cursor.nextSequence),
      { cursor with nextSequence := cursor.nextSequence + 1 })

end State

-- The sampler and its cursors, with what has become of them: the samples that were taken, the state
-- that was the first one, and the events.
structure World where
  state : State
  cursors : Nat → Cursor
  initial : UInt32
  samples : List (UInt64 × UInt32)
  history : List Event
  -- Where each cursor was opened, and what it has received since then.
  opened : Nat → Nat
  received : Nat → List (Result × Event × State)

-- `hk_input_cursor_close` clears the cursor.
inductive Op
  | sample (timestampUs : UInt64) (rawState : UInt32)
  | openCursor (cursor : Nat)
  | closeCursor (cursor : Nat)
  | nextEvent (cursor : Nat)

namespace World

def start : World where
  state      := .reset
  cursors _  := .closed
  initial    := 0
  samples    := []
  history    := []
  opened _   := 0
  received _ := []

def sample (w : World) (timestampUs : UInt64) (rawState : UInt32) : World :=
  let (result, state) := w.state.sample timestampUs rawState
  { w with
    state
    initial := if w.state.initialized then w.initial else state.stableState
    samples := if result = .ok then w.samples ++ [(timestampUs, rawState)] else w.samples
    history :=
      if state.sequence = w.state.sequence then
        w.history
      else
        w.history ++ [state.events (State.place state.sequence)] }

def openCursor (w : World) (i : Nat) : World :=
  let (result, cursor) := w.state.openCursor (w.cursors i)
  if result = .ok then
    { w with
      cursors  := Function.update w.cursors i cursor
      opened   := Function.update w.opened i (w.state.sequence.toNat + 1)
      received := Function.update w.received i [] }
  else
    w

def nextEvent (w : World) (i : Nat) : World :=
  let (result, event, cursor) := w.state.nextEvent (w.cursors i)
  { w with
    cursors  := Function.update w.cursors i cursor
    received :=
      if result = .ok ∨ result = .overflow then
        Function.update w.received i (w.received i ++ [(result, event, w.state)])
      else
        w.received }

def step (w : World) : Op → World
  | .sample timestampUs rawState => w.sample timestampUs rawState
  | .openCursor i                => w.openCursor i
  | .closeCursor i               => { w with cursors := Function.update w.cursors i .closed }
  | .nextEvent i                 => w.nextEvent i

def run (ops : List Op) : World :=
  ops.foldl step start

end World
end Input
