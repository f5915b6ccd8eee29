import HackyLens.Link.Hal
import HackyLens.Lib.Drive
import HackyLens.Lib.Memory

-- `hal_external_link.c` again, now with the FIFOs of the I2C controller and with the bytes. The
-- interrupt handler goes through the registers one access at a time, and the hardware moves on
-- between any two of them.

namespace ExternalLink
namespace I2c

-- What is written to `data_cmd`.
inductive Command
  | write (byte : UInt8)
  | read
  deriving DecidableEq

-- The bits of `intr_stat` and of `intr_mask` that the code uses.
structure Interrupts where
  rxOver : Bool
  rxFull : Bool
  txEmpty : Bool
  txAbrt : Bool
  stopDet : Bool
  deriving DecidableEq

def Interrupts.none : Interrupts :=
  ⟨false, false, false, false, false⟩

def Interrupts.all : Interrupts :=
  ⟨true, true, true, true, true⟩

def fifoDepth : Nat := 8
def txThreshold : Nat := 4

-- The controller, where nothing is refused and no FIFO overflows. `issued` and `returned` are the
-- commands that were accepted and the bytes that came in since the transfer was started, and `late`
-- tells that the handler has taken a byte for one too many.
structure Wire where
  mask : Interrupts
  stopDet : Bool
  pending : List Command
  current : Option Command
  received : List UInt8
  issued : List Command
  returned : List UInt8
  late : Bool
  deriving DecidableEq

def Wire.idle : Wire where
  mask     := .none
  stopDet  := false
  pending  := []
  current  := none
  received := []
  issued   := []
  returned := []
  late     := false

-- What the hardware does by itself.
inductive Move
  | begin
  | finish (byte : UInt8)
  | stop

-- A command leaves the FIFO when it is begun. A read waits until the receive FIFO has room.
def Wire.move (wire : Wire) : Move → Wire
  | .begin =>
    match wire.current, wire.pending with
    | none, command :: pending => { wire with current := some command, pending }
    | _, _                     => wire
  | .finish byte =>
    match wire.current with
    | some (.write _) => { wire with current := none }
    | some .read      =>
      if wire.received.length < fifoDepth then
        { wire with
          current  := none
          received := wire.received ++ [byte]
          returned := wire.returned ++ [byte] }
      else
        wire
    | none            => wire
  | .stop =>
    if wire.current = none ∧ wire.pending = [] then { wire with stopDet := true } else wire

def Wire.status (wire : Wire) : Interrupts where
  rxOver  := false
  rxFull  := wire.mask.rxFull && wire.received ≠ []
  txEmpty := wire.mask.txEmpty && wire.pending.length ≤ txThreshold
  txAbrt  := false
  stopDet := wire.mask.stopDet && wire.stopDet

-- The accesses to the registers. `excess` is `rxflr` as it is read after the loop of
-- `i2c_controller_drain_rx`.
inductive Access
  | intrStat
  | rxflr
  | excess
  | readData
  | txflr
  | writeData (command : Command)
  | intrMask
  | setIntrMask (mask : Interrupts)
  | clrTxAbrt
  | clrRxOver
  | clrStopDet

abbrev Access.Reply : Access → Type
  | intrStat | intrMask    => Interrupts
  | rxflr | excess | txflr => Nat
  | readData               => UInt8
  | _                      => Unit

def Wire.access (wire : Wire) : (a : Access) → a.Reply × Wire
  | .intrStat          => (wire.status, wire)
  | .rxflr             => (wire.received.length, wire)
  | .excess            =>
    (wire.received.length, { wire with late := wire.late || wire.received ≠ [] })
  | .readData          => (wire.received.headD 0, { wire with received := wire.received.tail })
  | .txflr             => (wire.pending.length, wire)
  | .writeData command =>
    if wire.pending.length < fifoDepth then
      ((), { wire with
        pending := wire.pending ++ [command]
        issued  := wire.issued ++ [command] })
    else
      ((), wire)
  | .intrMask          => (wire.mask, wire)
  | .setIntrMask mask  => ((), { wire with mask })
  | .clrTxAbrt         => ((), wire)
  | .clrRxOver         => ((), wire)
  | .clrStopDet        => ((), { wire with stopDet := false })

-- Before an access the hardware moves as it likes.
def handler : Prog.Handler Access Access.Reply Wire (List Move) :=
  fun moves a wire => (moves.foldl Wire.move wire).access a

-- The `g_i2c_controller_*` variables, with the memory that the two buffers are in.
structure Controller where
  active : Bool
  aborted : Bool
  tx : Nat
  txSize : UInt32
  rx : Nat
  rxSize : UInt32
  commands : UInt32
  rxReceived : UInt32
  memory : Memory

def Controller.total (controller : Controller) : UInt32 :=
  controller.txSize + controller.rxSize

def Controller.command (controller : Controller) : Command :=
  if controller.commands < controller.txSize then
    .write (controller.memory (controller.tx + controller.commands.toNat))
  else
    .read

-- A received byte is stored.
def Controller.store (controller : Controller) (byte : UInt8) : Controller :=
  { controller with
    memory     := Function.update controller.memory
      (controller.rx + controller.rxReceived.toNat) byte
    rxReceived := controller.rxReceived + 1 }

abbrev Task := Prog Access Access.Reply Controller

def access (a : Access) : Task a.Reply :=
  Prog.call a

-- `i2c_controller_abort`
def abort : Task Unit := do
  modify fun controller => { controller with aborted := true }
  access (.setIntrMask .none)

def drainRound (drained : Nat) : Task (Unit ⊕ Nat) := do
  let level ← access .rxflr
  let controller ← get
  if level ≠ 0 ∧ controller.rxReceived < controller.rxSize ∧ drained < fifoDepth then
    let byte ← access .readData
    modify (·.store byte)
    return .inr (drained + 1)
  else
    return .inl ()

-- `i2c_controller_drain_rx`. A round ends the loop or counts `drained` up.
def drainRx : Task Unit := do
  Prog.loop drainRound (fifoDepth + 1) 0
  let level ← access .excess
  if level ≠ 0 then
    abort
  else
    return ()

def fillRound (_ : Unit) : Task (Unit ⊕ Unit) := do
  let level ← access .txflr
  let controller ← get
  if level < fifoDepth ∧ controller.commands < controller.total then
    access (.writeData controller.command)
    modify fun controller => { controller with commands := controller.commands + 1 }
    return .inr ()
  else
    return .inl ()

-- `i2c_controller_fill_tx`. A round ends the loop or counts `commands` up.
def fillTx : Task Unit := do
  let controller ← get
  Prog.loop fillRound ((controller.total - controller.commands).toNat + 1) ()
  let controller ← get
  if controller.commands = controller.total then
    let mask ← access .intrMask
    access (.setIntrMask { mask with txEmpty := false })
  else
    return ()

-- The end of `i2c_controller_irq`, after the receive FIFO has been looked after.
def refill (status : Interrupts) : Task Unit := do
  let controller ← get
  if ¬controller.aborted ∧ status.txEmpty then
    fillTx
  if status.stopDet then
    access .clrStopDet

-- The part of `i2c_controller_irq` that follows the checks for errors.
def service (status : Interrupts) : Task Unit := do
  if status.rxFull ∨ status.stopDet then
    drainRx
  refill status

-- `i2c_controller_irq`
def irq : Task Unit := do
  let status ← access .intrStat
  let controller ← get
  if ¬controller.active then
    return ()
  else if status.txAbrt then
    access .clrTxAbrt
    abort
  else if status.rxOver then
    access .clrRxOver
    abort
  else
    service status

-- The controller as the rest of the program finds it. `origin` is the memory as it was when the
-- transfer was started.
structure Machine where
  controller : Controller
  wire : Wire
  origin : Memory

-- A program runs to its end with interrupts disabled.
def Machine.perform (machine : Machine) (task : Task Unit) (moves : List (List Move)) : Machine :=
  match Prog.drive handler [] task machine.controller moves machine.wire with
  | some ((_, controller), wire) => { machine with controller, wire }
  | none                         => machine

-- What can happen between two steps of the rest of the program.
inductive Event
  | move (move : Move)
  | irq (moves : List (List Move))

def Machine.happen (machine : Machine) : Event → Machine
  | .move move => { machine with wire := machine.wire.move move }
  | .irq moves => machine.perform irq moves

def Machine.wait (machine : Machine) (events : List Event) : Machine :=
  events.foldl Machine.happen machine

-- `hal_external_i2c_stop`. What the controller had not carried out yet is dropped.
def Machine.stop (machine : Machine) : Machine where
  controller := ⟨false, false, 0, 0, 0, 0, 0, 0, machine.controller.memory⟩
  wire       := { Wire.idle with
    issued   := machine.wire.issued
    returned := machine.wire.returned
    late     := machine.wire.late }
  origin     := machine.origin

-- `hal_external_i2c_controller_start`, up to where the FIFO is filled.
def Machine.prepare (machine : Machine) (tx : Nat) (txSize : UInt32) (rx : Nat) (rxSize : UInt32) :
    Machine where
  controller := ⟨true, false, tx, txSize, rx, rxSize, 0, 0, machine.controller.memory⟩
  wire       := { Wire.idle with mask := .all }
  origin     := machine.controller.memory

-- The globals and registers that `hal_external_i2c_controller_idle` looks at, in its order.
def idleLooks : List (Machine → Bool) :=
  [fun machine => machine.controller.active,
    fun machine => !machine.controller.aborted,
    fun machine => machine.controller.commands == machine.controller.total,
    fun machine => machine.controller.rxReceived == machine.controller.rxSize,
    fun machine => machine.wire.current == none,
    fun machine => machine.wire.pending == []]

-- A conjunction that is evaluated from the left. Before each conjunct something can happen.
def Machine.looks (machine : Machine) : List (List Event) → List (Machine → Bool) → Bool × Machine
  | _,      []            => (true, machine)
  | events, look :: looks =>
    let machine := machine.wait (events.headD [])
    if look machine then machine.looks events.tail looks else (false, machine)

-- What is left open about a call to `hal_external_link.c`: what happens before it and in the course
-- of it, the time, and what the UART and the probe show.
structure Decision where
  events : List Event
  moves : List (List Move)
  looks : List (List Event)
  now : UInt64
  probe : Bool
  uartLevel : UInt32
  uartIdle : Bool

open Hal (Call)

def answer : Prog.Handler Call Call.Reply Machine Decision := fun d c machine =>
  let machine := machine.wait d.events
  match c with
  | .timeUs                 => (d.now, machine)
  | .probe _                => (d.probe, machine)
  | .uartInit _             => ((), machine.stop)
  | .uartStop               => ((), machine)
  | .uartSendReady data len => (Hal.uartSendReady data d.uartLevel len, machine)
  | .uartTxIdle             => (d.uartLevel == 0 && d.uartIdle, machine)
  | .i2cInit _ | .i2cStop   => ((), machine.stop)
  | .controllerStart _ _ tx txSize rx rxSize =>
    ((), (machine.prepare tx txSize rx rxSize).perform fillTx d.moves)
  -- The other reason to report an abort is `tx_abrt_source`, which stays 0.
  | .controllerAborted      => (machine.controller.aborted, machine)
  | .controllerTxAccepted   => (min machine.controller.commands machine.controller.txSize, machine)
  | .controllerRxReceived   => (machine.controller.rxReceived, machine)
  | .controllerIdle         => machine.looks d.looks idleLooks

end I2c
end ExternalLink
