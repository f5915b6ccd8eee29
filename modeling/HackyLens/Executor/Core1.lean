import Mathlib.Data.List.Basic
import Mathlib.Data.UInt

-- The mailbox of `core1_executor.c`. Each core takes a step with each access to a field of the
-- control block, and the steps of the two cores come in any order.

namespace Executor

-- `core1_executor_control_t`. `J` are the functions of jobs, and no function or context is NULL.
structure Control (J C : Type) where
  started : UInt32
  online : UInt32
  startFailed : UInt32
  requestTicket : UInt32
  completeTicket : UInt32
  job : Option J
  context : Option C

inductive Field
  | started
  | online
  | startFailed
  | requestTicket
  | completeTicket
  | job
  | context
  deriving DecidableEq

namespace Control

variable {J C : Type}

def clear (control : Control J C) : Field → Control J C
  | .started        => { control with started := 0 }
  | .online         => { control with online := 0 }
  | .startFailed    => { control with startFailed := 0 }
  | .requestTicket  => { control with requestTicket := 0 }
  | .completeTicket => { control with completeTicket := 0 }
  | .job            => { control with job := none }
  | .context        => { control with context := none }

-- What `core1_executor_complete` returns if it reads the control block now.
def complete (control : Control J C) (ticket : UInt32) : Bool :=
  ticket ≠ 0 ∧ 0 ≤ (control.completeTicket - ticket).toInt32

end Control

-- The fields that `core1_executor_control_init` writes after the first one.
def laterFields : List Field :=
  [.online, .startFailed, .requestTicket, .completeTicket, .job, .context]

inductive Call (J C : Type)
  | init
  | idle
  | submit (job : Option J) (context : Option C)
  | complete (ticket : UInt32)

-- Where `core1_executor_init` and `core1_executor_idle` return to.
inductive Caller (J C : Type)
  | client
  | submit (job : J) (context : Option C)

-- Where core 0 is, by the access that comes next.
inductive Core0 (J C : Type)
  -- outside of the executor, with the result of the last call
  | client (result : UInt32)
  -- `core1_executor_control_init`
  | clearing (field : Field) (rest : List Field) (call : Call J C)
  -- `core1_executor_init`
  | initOnline (caller : Caller J C)
  | initFailed (caller : Caller J C)
  | initStarted (caller : Caller J C)
  | setStarted (caller : Caller J C)
  | startCore (caller : Caller J C)
  | startFailed
  | waitOnline (caller : Caller J C)
  | checkOnline (caller : Caller J C)
  | waitFailed (caller : Caller J C)
  | returnOnline (caller : Caller J C)
  -- `core1_executor_idle`
  | idleOnline (caller : Caller J C)
  | idleRequest (caller : Caller J C)
  | idleComplete (caller : Caller J C) (request : UInt32)
  -- `core1_executor_submit`
  | readRequest (job : J) (context : Option C)
  | writeJob (job : J) (context : Option C) (ticket : UInt32)
  | writeContext (job : J) (context : Option C) (ticket : UInt32)
  | writeRequest (job : J) (context : Option C) (ticket : UInt32)
  -- `core1_executor_complete`
  | readComplete (ticket : UInt32)

-- Where core 1 is in `core1_executor_loop`.
inductive Core1 (J C : Type)
  | off
  | setOnline
  | readRequest
  | readComplete (ticket : UInt32)
  | readJob (ticket : UInt32)
  | readContext (ticket : UInt32) (job : Option J)
  | running (ticket : UInt32)
  | writeComplete (ticket : UInt32)

-- A job that has been accepted, and the ticket for it.
structure Accepted (J C : Type) where
  job : J
  context : Option C
  ticket : UInt32

-- The control block and what core 1 makes of it.
structure Mailbox (J C : Type) where
  control : Control J C
  core1 : Core1 J C
  -- the jobs that have been accepted and the ones that have been called so far, and how many of
  -- them have returned and are recorded in the control block
  accepted : List (Accepted J C)
  ran : List (J × Option C)
  returned : Nat
  recorded : Nat

structure State (J C : Type) extends Mailbox J C where
  -- `g_control_initialized`
  initialized : Bool
  core0 : Core0 J C

-- What the client, the clock and `hal_core1_start` do in a step of core 0.
structure Decision (J C : Type) where
  call : Call J C
  intime : Bool
  starts : Bool

def nextTicket (request : UInt32) : UInt32 :=
  if request + 1 = 0 then 1 else request + 1

namespace Core0

variable {J C : Type}

-- The first access of a call.
def enter : Call J C → Core0 J C
  | .init                      => .initOnline .client
  | .idle                      => .idleOnline .client
  | .submit none _             => .client 0
  | .submit (some job) context => .initOnline (.submit job context)
  | .complete ticket           => if ticket = 0 then .client 0 else .readComplete ticket

-- `core1_executor_init` has returned.
def afterInit : Caller J C → (result : Bool) → Core0 J C
  | .client,                  result => .client (if result then 1 else 0)
  | .submit _ _,              false  => .client 0
  | .submit job context,      true   => .idleOnline (.submit job context)

-- `core1_executor_idle` has returned.
def afterIdle : Caller J C → (result : Bool) → Core0 J C
  | .client,                  result => .client (if result then 1 else 0)
  | .submit _ _,              false  => .client 0
  | .submit job context,      true   => .readRequest job context

end Core0

namespace State

variable {J C : Type}

def clearing (s : State J C) (field : Field) (rest : List Field) (call : Call J C) : State J C :=
  match rest with
  | []           => { s with control := s.control.clear field, initialized := true,
                             core0 := .enter call }
  | next :: rest => { s with control := s.control.clear field, core0 := .clearing next rest call }

-- A step of core 0.
def stepCore0 (s : State J C) (d : Decision J C) : State J C :=
  match s.core0 with
  | .client _ =>
    { s with core0 := if s.initialized then .enter d.call
                      else .clearing .started laterFields d.call }
  | .clearing field rest call => s.clearing field rest call
  | .initOnline caller =>
    { s with core0 := if s.control.online ≠ 0 then .afterInit caller true
                      else .initFailed caller }
  | .initFailed caller =>
    { s with core0 := if s.control.startFailed ≠ 0 then .afterInit caller false
                      else .initStarted caller }
  | .initStarted caller =>
    { s with core0 := if s.control.started = 0 then .setStarted caller else .waitOnline caller }
  | .setStarted caller =>
    { s with control := { s.control with started := 1 }, core0 := .startCore caller }
  | .startCore caller =>
    if d.starts then { s with core0 := .waitOnline caller, core1 := .setOnline }
    else { s with core0 := .startFailed }
  | .startFailed =>
    { s with control := { s.control with startFailed := 1 }, core0 := .client 0 }
  | .waitOnline caller =>
    { s with core0 := if s.control.online = 0 ∧ d.intime then .waitOnline caller
                      else .checkOnline caller }
  | .checkOnline caller =>
    { s with core0 := if s.control.online = 0 then .waitFailed caller else .returnOnline caller }
  | .waitFailed caller =>
    { s with control := { s.control with startFailed := 1 }, core0 := .returnOnline caller }
  | .returnOnline caller =>
    { s with core0 := .afterInit caller (s.control.online ≠ 0) }
  | .idleOnline caller =>
    { s with core0 := if s.control.online ≠ 0 then .idleRequest caller
                      else .afterIdle caller false }
  | .idleRequest caller => { s with core0 := .idleComplete caller s.control.requestTicket }
  | .idleComplete caller request =>
    { s with core0 := .afterIdle caller (request = s.control.completeTicket) }
  | .readRequest job context =>
    { s with core0 := .writeJob job context (nextTicket s.control.requestTicket) }
  | .writeJob job context ticket =>
    { s with control := { s.control with job := some job },
             core0 := .writeContext job context ticket }
  | .writeContext job context ticket =>
    { s with control := { s.control with context := context },
             core0 := .writeRequest job context ticket }
  | .writeRequest job context ticket =>
    { s with control := { s.control with requestTicket := ticket },
             core0 := .client ticket,
             accepted := s.accepted ++ [⟨job, context, ticket⟩] }
  | .readComplete ticket =>
    { s with core0 := .client (if s.control.complete ticket then 1 else 0) }

-- A step of core 1. The return of a job is one as well.
def stepCore1 (s : State J C) : State J C :=
  match s.core1 with
  | .off => s
  | .setOnline =>
    { s with control := { s.control with online := 1 }, core1 := .readRequest }
  | .readRequest => { s with core1 := .readComplete s.control.requestTicket }
  | .readComplete ticket =>
    { s with core1 := if ticket ≠ s.control.completeTicket then .readJob ticket
                      else .readRequest }
  | .readJob ticket => { s with core1 := .readContext ticket s.control.job }
  | .readContext ticket none => { s with core1 := .writeComplete ticket }
  | .readContext ticket (some job) =>
    { s with core1 := .running ticket, ran := s.ran ++ [(job, s.control.context)] }
  | .running ticket => { s with core1 := .writeComplete ticket, returned := s.returned + 1 }
  | .writeComplete ticket =>
    { s with control := { s.control with completeTicket := ticket }, core1 := .readRequest,
             recorded := s.recorded + 1 }

inductive Label (J C : Type)
  | core0 (d : Decision J C)
  | core1

def step (s : State J C) : Label J C → State J C
  | .core0 d => s.stepCore0 d
  | .core1   => s.stepCore1

def run (s : State J C) (labels : List (Label J C)) : State J C :=
  labels.foldl step s

-- After the start of the firmware, whatever is in the memory of the control block.
def boot (control : Control J C) : State J C where
  control     := control
  initialized := false
  core0       := .client 0
  core1       := .off
  accepted    := []
  ran         := []
  returned    := 0
  recorded    := 0

end State
end Executor
