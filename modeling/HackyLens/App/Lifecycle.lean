import HackyLens.App.Callback

-- What an app goes through: the law of its lifecycle, in terms of what was asked of it and of its
-- surroundings.

namespace App

-- What happens to an instance of an app.
inductive Milestone
  | prepared (app : Descriptor) (result : Result)
  | entered (callback : Callback)
  | returned (callback : Callback) (result : Result)
  | deadline (answer : Result × Deadline)
  | retired (session : Session) (deadline : Deadline) (result : Result)
  | cleaned (deadline : Deadline) (result : Result)
  deriving DecidableEq

def milestone : Sigma Call.Answer → List Milestone
  | ⟨.prepare app, result, _⟩              => [.prepared app result]
  | ⟨.next callback none, .act _⟩          => [.entered callback]
  | ⟨.next callback none, .done result⟩    => [.entered callback, .returned callback result]
  | ⟨.next callback (some _), .done result⟩ => [.returned callback result]
  | ⟨.deadlineAfter .teardown _, answer⟩   => [.deadline answer]
  | ⟨.retire session deadline, result⟩     => [.retired session deadline result]
  | ⟨.cleanup deadline, result⟩            => [.cleaned deadline result]
  | _                                      => []

-- The milestones in a log, the earliest first.
def milestones (log : Log) : List Milestone :=
  log.reverse.flatMap milestone

-- A callback that is entered and returns.
def called (callback : Callback) (result : Result) : List Milestone :=
  [.entered callback, .returned callback result]

-- The callbacks of an instance that runs, and that need not be its last ones.
def Callback.Ordinary : Callback → Prop
  | .render  => True
  | .event e => e.kind ≠ Event.runtimeClose
  | _        => False

-- The first result that is not OK. From a callback, a pending result is an error.
def firstFailure : List Result → Result
  | []                => .ok
  | result :: results =>
    if callbackResult result = .ok then firstFailure results else callbackResult result

-- What is wrong with a deadline, and the one that is used.
def deadlineResult (answer : Result × Deadline) : Result :=
  if answer.1 = .ok ∧ answer.2 = timeMax then .internal else answer.1

def deadlineOf (answer : Result × Deadline) : Deadline :=
  if deadlineResult answer = .ok then answer.2 else deadlineImmediate

-- An instance up to the point where it is ended. The turns are its event and render callbacks.
structure Life where
  app : Descriptor
  prepare : Result
  start : Option Result
  turns : List (Callback × Result)

namespace Life

def trace (life : Life) : List Milestone :=
  .prepared life.app life.prepare ::
    (life.start.toList.flatMap (called .start) ++ life.turns.flatMap fun t => called t.1 t.2)

def results (life : Life) : List Result :=
  life.prepare :: (life.start.toList ++ life.turns.map Prod.snd)

def Started (life : Life) : Prop :=
  ∃ result ∈ life.start, callbackResult result = .ok

def events (life : Life) : List Event :=
  life.turns.filterMap fun
    | (.event event, _) => some event
    | _                 => none

structure Lawful (life : Life) : Prop where
  start : life.start.isSome ↔ callbackResult life.prepare = .ok
  turns : life.turns ≠ [] → life.Started
  ordinary : ∀ t ∈ life.turns, t.1.Ordinary
  sequence : life.events.Pairwise (·.sequence < ·.sequence)

end Life

-- An instance from its preparation to its cleanup.
structure Instance where
  life : Life
  close : Option (Event × Result)
  deadline : Result × Deadline
  stop : Option Result
  retires : List (Session × Result)
  cleanup : Result

namespace Instance

def trace (i : Instance) : List Milestone :=
  i.life.trace ++ i.close.toList.flatMap (fun c => called (.event c.1) c.2) ++
    .deadline i.deadline :: (i.stop.toList.flatMap (called .stop) ++
      i.retires.map (fun r => .retired r.1 (deadlineOf i.deadline) r.2) ++
      [.cleaned (deadlineOf i.deadline) i.cleanup])

-- The result of the call that ended the instance.
def result (i : Instance) : Result :=
  firstFailure (i.life.results ++ i.close.toList.map Prod.snd ++
    deadlineResult i.deadline :: (i.stop.toList ++ i.retires.map Prod.snd ++ [i.cleanup]))

structure Lawful (i : Instance) : Prop where
  life : i.life.Lawful
  close : i.close.isSome ↔ i.life.Started
  closeKind : ∀ c ∈ i.close, c.1.kind = Event.runtimeClose
  sequence : (i.life.events ++ i.close.toList.map Prod.fst).Pairwise (·.sequence < ·.sequence)
  stop : i.stop.isSome ↔ i.life.start.isSome
  retires : i.retires.map Prod.fst = sessions

end Instance

-- A call of the runtime, with the instance that it ended.
structure Chapter where
  call : RuntimeCall
  result : Result
  ended : Option Instance

-- An app with all four callbacks.
def Descriptor.sample : Descriptor where
  address := 0x80000000
  structSize := descriptorSize
  structVersion := descriptorVersion
  id := some "sample"
  entry := some ⟨0x80001000, 64, true, true, true, true⟩
  limits := ⟨64, 1024, 64, stateAlignment, 1000, 500, 500⟩

-- A world in which nothing fails, and in which the app's next step is given.
def obliging (next : Next) : (c : Call) → c.Answer
  | .prepare _         => (.ok, true)
  | .deadlineAfter _ _ => (.ok, 1000)
  | .nowUs             => (.ok, 0)
  | .displayBegin      => (.ok, ⟨DisplayInfo.size, DisplayInfo.version, 320, 240⟩)
  | .next _ _          => next
  | .cleanup _         => Result.ok
  | .open _ _          => Result.ok
  | .retire _ _        => Result.ok
  | .renderPresent _   => Result.ok
  | .renderAbort       => Result.ok
  | .surface _         => Result.ok

end App
