import HackyLens.App.Api
import HackyLens.Lib.Returns

-- The UART and the I2C controller of the external connector, as `hal_external_link.c` offers them
-- to the adapter, with the time and the cancellation probes of the callers.

namespace ExternalLink

open App (Result)

-- `hk_cancel_t`. The numbers are addresses, and 0 is `NULL`.
structure Cancel where
  probe : Nat
  context : Nat
  deriving DecidableEq

def Cancel.none : Cancel :=
  ⟨0, 0⟩

namespace Hal

inductive Call
  | timeUs
  | probe (cancel : Cancel)
  | uartInit (baud : UInt32)
  | uartStop
  | uartSendReady (data : Nat) (len : UInt32)
  | uartTxIdle
  | i2cInit (address : UInt8)
  | i2cStop
  | controllerStart (address : UInt8) (frequencyHz : UInt32) (tx : Nat) (txSize : UInt32) (rx : Nat)
    (rxSize : UInt32)
  | controllerAborted
  | controllerTxAccepted
  | controllerRxReceived
  | controllerIdle

abbrev Call.Reply : Call → Type
  | timeUs                                                          => UInt64
  | uartSendReady _ _ | controllerTxAccepted | controllerRxReceived => UInt32
  | probe _ | uartTxIdle | controllerAborted | controllerIdle       => Bool
  | _                                                               => Unit

-- The `g_i2c_controller_*` variables. The bytes themselves are left out.
structure Controller where
  active : Bool
  aborted : Bool
  txSize : UInt32
  rxSize : UInt32
  commands : UInt32
  rxReceived : UInt32
  deriving DecidableEq

def Controller.stopped : Controller :=
  ⟨false, false, 0, 0, 0, 0⟩

def fifoDepth : UInt32 := 8

-- What the hardware shows to one run of the interrupt handler: the bits of the status, how often
-- the receive FIFO is seen to hold a byte, whether it still does at the end, and how often the
-- command FIFO is seen to have room.
structure Irq where
  abort : Bool
  drains : Bool
  available : UInt32
  more : Bool
  fills : Bool
  room : UInt32

-- `i2c_controller_drain_rx`
def Controller.drainRx (controller : Controller) (irq : Irq) : Controller :=
  let drained := min irq.available (min fifoDepth (controller.rxSize - controller.rxReceived))
  { controller with
    rxReceived := controller.rxReceived + drained
    aborted    := controller.aborted || irq.more }

-- `i2c_controller_fill_tx`
def Controller.fillTx (controller : Controller) (room : UInt32) : Controller :=
  let total := controller.txSize + controller.rxSize
  { controller with commands := controller.commands + min room (total - controller.commands) }

-- `i2c_controller_irq`
def Controller.irq (controller : Controller) (irq : Irq) : Controller :=
  if ¬controller.active then
    controller
  else if irq.abort then
    { controller with aborted := true }
  else
    let controller := if irq.drains then controller.drainRx irq else controller
    if ¬controller.aborted ∧ irq.fills then controller.fillTx irq.room else controller

-- What is left open about a call: the interrupts before it, the time, and what the registers and
-- the probe show.
structure Decision where
  irqs : List Irq
  now : UInt64
  probe : Bool
  uartLevel : UInt32
  uartIdle : Bool
  abortSource : Bool
  idle : Bool
  room : UInt32

-- `hal_external_uart_send_ready`
def uartSendReady (data : Nat) (level len : UInt32) : UInt32 :=
  if data = 0 ∨ level ≥ fifoDepth then 0 else min (fifoDepth - level) len

def handler : Prog.Handler Call Call.Reply Controller Decision := fun d c controller =>
  let controller := d.irqs.foldl Controller.irq controller
  match c with
  | .timeUs                => (d.now, controller)
  | .probe _               => (d.probe, controller)
  | .uartInit _            => ((), .stopped)
  | .uartStop              => ((), controller)
  | .uartSendReady data len => (uartSendReady data d.uartLevel len, controller)
  | .uartTxIdle            => (d.uartLevel == 0 && d.uartIdle, controller)
  | .i2cInit _ | .i2cStop  => ((), .stopped)
  | .controllerStart _ _ _ txSize _ rxSize =>
    ((), Controller.fillTx ⟨true, false, txSize, rxSize, 0, 0⟩ d.room)
  | .controllerAborted     => (controller.aborted || d.abortSource, controller)
  | .controllerTxAccepted  => (min controller.commands controller.txSize, controller)
  | .controllerRxReceived  => (controller.rxReceived, controller)
  | .controllerIdle        =>
    (controller.active && !controller.aborted &&
      controller.commands == controller.txSize + controller.rxSize &&
      controller.rxReceived == controller.rxSize && d.idle, controller)

end Hal
end ExternalLink
