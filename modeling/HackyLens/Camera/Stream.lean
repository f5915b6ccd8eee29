import HackyLens.Lib.Prog
import Mathlib.Data.List.FinRange
import Mathlib.Logic.Function.Basic

-- The stream of camera frames, and the buffers that it shares with those who need memory for a
-- while. The frames are taken by an interrupt, which can occur whenever it is neither masked nor
-- stopped.

namespace FramePool

abbrev cameraSlotCount : Nat := 2

-- `sizeof(g_camera_slots[0])`, with two bytes for each of the pixels.
def cameraFrameBytes : UInt32 := 640 * 480 * 2

structure Pool where
  workspaceGeneration : UInt32
  workspaceActiveGeneration : UInt32
  cameraReserved : Bool

namespace Pool

def cameraReserve (pool : Pool) : Bool × Pool :=
  if pool.cameraReserved ∨ pool.workspaceActiveGeneration ≠ 0 then
    (false, pool)
  else
    (true, { pool with cameraReserved := true })

def cameraRelease (pool : Pool) : Pool :=
  { pool with cameraReserved := false }

-- The slots stand for their addresses. There is none while they are not reserved.
def cameraSlot (pool : Pool) (i : Fin cameraSlotCount) : Option (Fin cameraSlotCount) :=
  if pool.cameraReserved then some i else none

end Pool

inductive Data
  | null | cameraSlot0 | elsewhere (addr : Nat)
  deriving DecidableEq

-- `frame_workspace_borrow_t`
structure Borrow where
  data : Data
  size : UInt32
  generation : UInt32
  deriving DecidableEq

namespace Pool

-- `frame_workspace_borrow` with a place for the result.
def borrow (pool : Pool) (minimumSize : UInt32) : Option Borrow × Pool :=
  if minimumSize = 0 ∨ minimumSize > cameraFrameBytes ∨ pool.cameraReserved ∨
      pool.workspaceActiveGeneration ≠ 0 ∨ pool.workspaceGeneration = 0xFFFFFFFF then
    (none, pool)
  else
    let generation := pool.workspaceGeneration + 1
    (some ⟨.cameraSlot0, cameraFrameBytes, generation⟩,
      { pool with workspaceGeneration := generation, workspaceActiveGeneration := generation })

-- `frame_workspace_release`, which also clears the borrow that it is given.
def release (pool : Pool) (borrow : Borrow) : Bool × Pool :=
  if borrow.generation ≠ 0 ∧ borrow.generation = pool.workspaceActiveGeneration ∧
      borrow.data = .cameraSlot0 then
    (true, { pool with workspaceActiveGeneration := 0 })
  else
    (false, pool)

end Pool
end FramePool

namespace CameraStream

open FramePool (Pool Borrow cameraSlotCount)

abbrev Index := Fin cameraSlotCount

inductive SlotState
  | free | capturing | ready | leased
  deriving DecidableEq

structure Slot where
  state : SlotState
  sequence : UInt32
  leaseId : UInt32
  deriving DecidableEq

structure Counts where
  irqStart : UInt32
  irqFinish : UInt32
  convert : UInt32
  captured : UInt32
  readyDrop : UInt32
  busyDrop : UInt32

-- Where the device writes to, whether it may interrupt, and where it was told to convert a frame
-- to, the latest first.
structure Dvp where
  displayAddr : Option Index
  irqActive : Bool
  conversions : List (Option Index)

structure State where
  slots : Index → Slot
  running : Bool
  paused : Bool
  syncPending : Bool
  captureSlot : Option Index
  nextSequence : UInt32
  nextLeaseId : UInt32
  counts : Counts
  lastStatus : UInt32
  dvp : Dvp
  pool : Pool

-- After a reset.
def State.zero : State where
  slots _      := ⟨.free, 0, 0⟩
  running      := false
  paused       := false
  syncPending  := false
  captureSlot  := none
  nextSequence := 0
  nextLeaseId  := 0
  counts       := ⟨0, 0, 0, 0, 0, 0⟩
  lastStatus   := 0
  dvp          := ⟨none, false, []⟩
  pool         := ⟨0, 0, false⟩

-- `camera_stream_frame_t`
structure Frame where
  pixels : Option Index
  leaseId : UInt32
  sequence : UInt32

-- `hal_dvp_event_t`
inductive Event
  | frameStart | frameFinish
  deriving DecidableEq

namespace State

def setSlot (s : State) (i : Index) (slot : Slot) : State :=
  { s with slots := Function.update s.slots i slot }

def setDisplayAddr (s : State) (addr : Option Index) : State :=
  { s with dvp.displayAddr := addr }

def startConvert (s : State) : State :=
  { s with dvp.conversions := s.dvp.displayAddr :: s.dvp.conversions }

-- The loop of `camera_stream_capture_candidate`.
def captureCandidateFrom (slots : Index → Slot) (oldestReady : Option Index) :
    List Index → Option Index
  | []      => oldestReady
  | i :: is =>
    if (slots i).state = .free then
      some i
    else if (slots i).state = .ready ∧
        (∀ j ∈ oldestReady, (slots i).sequence < (slots j).sequence) then
      captureCandidateFrom slots (some i) is
    else
      captureCandidateFrom slots oldestReady is

def captureCandidate (s : State) : Option Index :=
  captureCandidateFrom s.slots none (List.finRange cameraSlotCount)

def onFrameFinish (s : State) : State :=
  let s := { s with counts.irqFinish := s.counts.irqFinish + 1 }
  match s.captureSlot with
  | some i =>
    if (s.slots i).state = .capturing then
      let sequence := s.nextSequence + 1
      let s := { s with nextSequence := sequence }
      let s := s.setSlot i { s.slots i with sequence, state := .ready }
      { s with captureSlot := none, counts.captured := s.counts.captured + 1 }
    else
      s
  | none => s

def onFrameStart (s : State) : State :=
  let s := { s with counts.irqStart := s.counts.irqStart + 1 }
  if !s.running || s.paused || s.captureSlot.isSome then
    s
  else if s.syncPending then
    { s with syncPending := false }
  else
    match s.captureCandidate with
    | none   => { s with counts.busyDrop := s.counts.busyDrop + 1 }
    | some i =>
      let drops : UInt32 := if (s.slots i).state = .ready then 1 else 0
      let s := { s with counts.readyDrop := s.counts.readyDrop + drops }
      let s := s.setSlot i { s.slots i with state := .capturing }
      let s := { s with captureSlot := some i }
      let s := s.setDisplayAddr (s.pool.cameraSlot i)
      let s := s.startConvert
      { s with counts.convert := s.counts.convert + 1 }

-- The handler of the interrupt. The hooks that it calls around a conversion belong to the input of
-- the AI models and do not change the stream.
def onEvent (s : State) (event : Event) (status : UInt32) : State :=
  let s := { s with lastStatus := status }
  match event with
  | .frameFinish => s.onFrameFinish
  | .frameStart  => s.onFrameStart

def freeReady (s : State) (keep : Option Index) : State :=
  let frees (i : Index) : Bool := some i ≠ keep && (s.slots i).state = .ready
  { s with slots := fun i => if frees i then { s.slots i with state := .free } else s.slots i }

def stop (s : State) : State :=
  let s := if s.running then { s with dvp.irqActive := false } else s
  { s with
    running     := false
    paused      := true
    syncPending := true
    captureSlot := none
    slots       := fun i => { s.slots i with state := .free, leaseId := 0 }
    pool        := s.pool.cameraRelease }

-- What `camera_stream_start` does once it has stopped the stream. Where the device is at that time,
-- and whether it can be made to interrupt, is up to the device.
def start (s : State) (status : UInt32) (irqStarts : Bool) : Bool × State :=
  let (reserved, pool) := s.pool.cameraReserve
  if !reserved then
    (false, { s with pool })
  else
    let s := { s with
      pool
      slots        := fun _ => ⟨.free, 0, 0⟩
      paused       := false
      syncPending  := true
      captureSlot  := none
      nextSequence := 0
      counts       := ⟨0, 0, 0, 0, 0, 0⟩
      lastStatus   := status }
    let s := s.setDisplayAddr (s.pool.cameraSlot ⟨0, Nat.zero_lt_two⟩)
    if irqStarts then
      (true, { s with running := true, dvp.irqActive := true })
    else
      (false, { s with running := false, pool := s.pool.cameraRelease })

def pause (s : State) : State :=
  { s with paused := true }

def resume (s : State) : State :=
  if s.running then
    { s.freeReady none with paused := false, syncPending := true }
  else
    s

-- The first loop of `camera_stream_acquire_latest`.
def newestReadyFrom (slots : Index → Slot) (newest : Option Index) : List Index → Option Index
  | []      => newest
  | i :: is =>
    if (slots i).state = .ready ∧ (∀ j ∈ newest, (slots i).sequence > (slots j).sequence) then
      newestReadyFrom slots (some i) is
    else
      newestReadyFrom slots newest is

def newestReady (s : State) : Option Index :=
  newestReadyFrom s.slots none (List.finRange cameraSlotCount)

def acquireLatest (s : State) : Option Frame × State :=
  match s.newestReady with
  | none   => (none, s)
  | some i =>
    if s.nextLeaseId = 0xFFFFFFFF then
      (none, s)
    else
      let drops := (List.finRange cameraSlotCount).countP fun j => j ≠ i && (s.slots j).state = .ready
      let s := { s.freeReady (some i) with
        counts.readyDrop := s.counts.readyDrop + UInt32.ofNat drops
        nextLeaseId      := s.nextLeaseId + 1 }
      let s := s.setSlot i { s.slots i with leaseId := s.nextLeaseId, state := .leased }
      (some ⟨s.pool.cameraSlot i, s.nextLeaseId, (s.slots i).sequence⟩, s)

def release (s : State) (leaseId : UInt32) : State :=
  let held (i : Index) : Bool := (s.slots i).state = .leased && (s.slots i).leaseId = leaseId
  match (List.finRange cameraSlotCount).find? held with
  | none   => s
  | some i => s.setSlot i { s.slots i with leaseId := 0, state := .free }

end State

-- What the main loop does to the state that it shares with the interrupt. Each of these is either
-- a single access or a section in which the interrupt is masked or stopped.
inductive Access
  | running
  | stop
  | start
  | pause
  | resume
  | acquireLatest
  | release (leaseId : UInt32)
  | borrow (minimumSize : UInt32)
  | giveBack (borrow : Borrow)

abbrev Access.Reply : Access → Type
  | running       => Bool
  | stop          => Unit
  | start         => Bool
  | pause         => Unit
  | resume        => Unit
  | acquireLatest => Option Frame
  | release _     => Unit
  | borrow _      => Option Borrow
  | giveBack _    => Bool

-- All functions work on the shared state only.
abbrev Driver := Prog Access Access.Reply Unit

def stop : Driver Unit :=
  Prog.call Access.stop

-- The input format is one of those that are known. The other arguments only go to the device.
def start (known : Bool) : Driver Bool := do
  if !known then
    return false
  stop
  Prog.call Access.start

def pause : Driver Unit := do
  if !(← Prog.call Access.running) then
    return
  Prog.call Access.pause

def resume : Driver Unit := do
  if !(← Prog.call Access.running) then
    return
  Prog.call Access.resume

-- There may be no place for the frame.
def acquireLatest (null : Bool) : Driver (Option Frame) := do
  if null then
    return none
  if !(← Prog.call Access.running) then
    return none
  Prog.call Access.acquireLatest

def release (leaseId : UInt32) : Driver Unit := do
  if leaseId = 0 then
    return
  if !(← Prog.call Access.running) then
    return
  Prog.call (Access.release leaseId)

def borrow (minimumSize : UInt32) (null : Bool) : Driver (Option Borrow) := do
  if null then
    return none
  Prog.call (Access.borrow minimumSize)

def giveBack (borrow : Option Borrow) : Driver Bool := do
  let some borrow := borrow
    | return false
  Prog.call (Access.giveBack borrow)

-- What can be seen of one step.
inductive Label
  | event (event : Event) (status : UInt32)
  | access (a : Access) (reply : a.Reply)

structure Entry where
  label : Label
  before : State
  after : State

-- The state, and the steps that have led to it, the latest first.
structure World where
  state : State
  log : List Entry

-- The events that occur before an access, and what the device says when the stream is started.
structure Decision where
  events : List (Event × UInt32)
  status : UInt32
  irqStarts : Bool

namespace World

def step (w : World) (label : Label) (after : State) : World :=
  ⟨after, ⟨label, w.state, after⟩ :: w.log⟩

-- No stream is assumed to take as many frames as can be numbered.
def Interrupts (s : State) (event : Event) : Prop :=
  s.dvp.irqActive ∧ ¬(event = .frameFinish ∧ s.nextSequence = 0xFFFFFFFF)

instance (s : State) (event : Event) : Decidable (Interrupts s event) :=
  inferInstanceAs (Decidable (_ ∧ _))

def interrupt (w : World) (e : Event × UInt32) : World :=
  if Interrupts w.state e.fst then
    w.step (.event e.fst e.snd) (w.state.onEvent e.fst e.snd)
  else
    w

end World

namespace State

def borrow (s : State) (minimumSize : UInt32) : Option Borrow × State :=
  let (borrow, pool) := s.pool.borrow minimumSize
  (borrow, { s with pool })

def giveBack (s : State) (borrow : Borrow) : Bool × State :=
  let (valid, pool) := s.pool.release borrow
  (valid, { s with pool })

end State

def Access.run (d : Decision) : (a : Access) → State → a.Reply × State
  | running,            s => (s.running, s)
  | stop,               s => ((), s.stop)
  | start,              s => s.start d.status d.irqStarts
  | pause,              s => ((), s.pause)
  | resume,             s => ((), s.resume)
  | acquireLatest,      s => s.acquireLatest
  | release leaseId,    s => ((), s.release leaseId)
  | borrow minimumSize, s => s.borrow minimumSize
  | giveBack b,         s => s.giveBack b

def handler : Prog.Handler Access Access.Reply World Decision :=
  fun d a w =>
    let w := d.events.foldl World.interrupt w
    let (reply, s) := a.run d w.state
    (reply, w.step (.access a reply) s)

end CameraStream
