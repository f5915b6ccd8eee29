import HackyLens.Link.Adapter

-- The bytes that come in over the UART. `uart_receive` of `external_link_adapter.c` is called by an
-- interrupt, which can occur between any two accesses of the main loop while it is enabled.

namespace ExternalLink.Uart

open App (Result)

-- What the two share. The interrupt is enabled by `hal_external_uart_init` and disabled by
-- `hal_external_uart_stop`. The ring is kept in `target_buffer[0]`.
structure Shared where
  active : Bool
  session : Nat
  mode : Mode
  irqEnabled : Bool
  rxRead : UInt32
  rxWrite : UInt32
  rxDropped : UInt32
  buffer : Memory

def Shared.zero : Shared :=
  ⟨false, 0, .unconfigured, false, 0, 0, 0, fun _ => 0⟩

-- Where a counter points to.
def slot (counter : UInt32) : Nat :=
  (counter &&& (maxBytes - 1)).toNat

-- `uart_receive`, and whether the byte has been kept.
def Shared.receive (s : Shared) (byte : UInt8) : Bool × Shared :=
  if ¬s.active ∨ s.mode ≠ .uart then
    (false, s)
  else if s.rxWrite - s.rxRead ≥ maxBytes then
    (false, { s with rxDropped := s.rxDropped + 1 })
  else
    (true, { s with
      buffer  := Function.update s.buffer (slot s.rxWrite) byte
      rxWrite := s.rxWrite + 1 })

-- What has happened to the ring, the latest first.
inductive Event
  | received (byte : UInt8) (kept : Bool)
  | reset
  deriving DecidableEq

structure World where
  shared : Shared
  log : List Event

def World.interrupt (w : World) (byte : UInt8) : World :=
  if w.shared.irqEnabled then
    let (kept, s) := w.shared.receive byte
    ⟨s, .received byte kept :: w.log⟩
  else
    w

-- The accesses of the main loop. A group of stores is one access where the interrupt is disabled.
inductive Access
  | owner
  | dropped
  | read
  | write
  | byte (i : Nat)
  | advance (counter : UInt32)
  | uartStop
  | uartInit
  | clearUartRx
  | clearTarget
  | setMode (mode : Mode)
  | «open» (session : Nat)
  | release
  | target (left : Memory)

abbrev Access.Reply : Access → Type
  | owner                  => Bool × Nat × Mode
  | dropped | read | write => UInt32
  | byte _                 => UInt8
  | _                      => Unit

def Access.run : (a : Access) → World → a.Reply × World
  | owner,         w => ((w.shared.active, w.shared.session, w.shared.mode), w)
  | dropped,       w => (w.shared.rxDropped, w)
  | read,          w => (w.shared.rxRead, w)
  | write,         w => (w.shared.rxWrite, w)
  | byte i,        w => (w.shared.buffer i, w)
  | advance n,     w => ((), { w with shared.rxRead := n })
  | uartStop,      w => ((), { w with shared.irqEnabled := false })
  | uartInit,      w => ((), { w with shared.irqEnabled := true })
  | clearUartRx,   w =>
    ((), ⟨{ w.shared with rxRead := 0, rxWrite := 0, rxDropped := 0 }, .reset :: w.log⟩)
  | clearTarget,   w => ((), { w with shared.buffer := fun _ => 0 })
  | setMode mode,  w => ((), { w with shared.mode := mode })
  | «open» session, w =>
    ((), ⟨{ Shared.zero with active := true, session, irqEnabled := w.shared.irqEnabled },
      .reset :: w.log⟩)
  | release,       w => ((), { w with shared.active := false, shared.session := 0 })
  | target left,   w => ((), { w with shared.buffer := left })

abbrev Driver := Prog Access Access.Reply Unit

-- The bytes that come in before an access.
def handler : Prog.Handler Access Access.Reply World (List UInt8) :=
  fun bytes a w => a.run (bytes.foldl World.interrupt w)

-- `validate_state`, with the mode.
def validateState (session : Nat) : Driver (Bool × Mode) := do
  let (active, owner, mode) ← Prog.call Access.owner
  return (active && owner == session, mode)

def resetUart : Driver Unit := do
  Prog.call Access.uartStop
  Prog.call Access.clearUartRx
  Prog.call Access.uartInit

def stopHardware (mode : Mode) : Driver Unit :=
  if mode = .uart then Prog.call Access.uartStop else return ()

def clear : Driver Unit := do
  Prog.call Access.clearTarget
  Prog.call Access.clearUartRx

def stopMode (mode : Mode) : Driver Unit := do
  stopHardware mode
  clear
  Prog.call (Access.setMode .unconfigured)

def leaveMode (mode : Mode) : Driver Unit :=
  if mode ≠ .unconfigured then stopMode mode else clear

-- No operation is in flight.
def setMode (current mode : Mode) : Driver Unit := do
  leaveMode current
  Prog.call (Access.setMode mode)

def «open» (session : Nat) : Driver Result := do
  let (active, _, _) ← Prog.call Access.owner
  if session = 0 ∨ active then
    return if session = 0 then .invalidArgument else .busy
  else
    Prog.call (Access.open session)
    return .ok

-- What an operation does after `validate_state`.
def validated (session : Nat) (operation : Mode → Driver Result) : Driver Result := do
  let (owned, mode) ← validateState session
  if ¬owned then return .internal else operation mode

-- The configuration is one that is valid and declared.
def configureUart (session : Nat) : Driver Result :=
  validated session fun mode => do
    setMode mode .uart
    Prog.call Access.uartInit
    return .ok

-- The I2C target mode, and what it leaves in the storage.
def configureI2cTarget (session : Nat) (left : Memory) : Driver Result :=
  validated session fun mode => do
    setMode mode .i2cTarget
    Prog.call (Access.target left)
    return .ok

-- The end of a write that has failed or was cancelled.
def failWrite (session : Nat) : Driver Result :=
  validated session fun mode =>
    if mode ≠ .uart then
      return .invalidState
    else do
      resetUart
      return .ok

def close (session : Nat) : Driver Result :=
  validated session fun mode => do
    stopMode mode
    Prog.call Access.release
    return .ok

-- The copying loop of `k210_external_uart_read`.
def copy (read : UInt32) : Nat → Driver (List UInt8)
  | 0     => return []
  | n + 1 => do
    let byte ← Prog.call (Access.byte (slot read))
    let bytes ← copy (read + 1) n
    return byte :: bytes

def capacity (size available : UInt32) : UInt32 :=
  let capacity := if size > pollBytes then pollBytes else size
  if capacity > available then available else capacity

def readAvailable (size : UInt32) : Driver (Result × List UInt8) := do
  let read ← Prog.call Access.read
  let write ← Prog.call Access.write
  let capacity := capacity size (write - read)
  let bytes ← copy read capacity.toNat
  Prog.call (Access.advance (read + capacity))
  return (.ok, bytes)

-- `k210_external_uart_read`, with the bytes that it stores.
def uartRead (session : Nat) (size : UInt32) : Driver (Result × List UInt8) := do
  let (owned, mode) ← validateState session
  if ¬owned then
    return (.internal, [])
  else if mode ≠ .uart then
    return (.invalidState, [])
  else
    let dropped ← Prog.call Access.dropped
    if dropped ≠ 0 then
      resetUart
      return (.overflow, [])
    else
      readAvailable size

inductive Op
  | «open» (session : Nat)
  | configureUart (session : Nat)
  | configureI2cTarget (session : Nat) (left : Memory)
  | failWrite (session : Nat)
  | close (session : Nat)
  | uartRead (session : Nat) (size : UInt32)

def Op.run : Op → Driver (Result × List UInt8)
  | «open» session                  => (·, []) <$> Uart.open session
  | configureUart session           => (·, []) <$> Uart.configureUart session
  | configureI2cTarget session left => (·, []) <$> Uart.configureI2cTarget session left
  | failWrite session               => (·, []) <$> Uart.failWrite session
  | close session                   => (·, []) <$> Uart.close session
  | uartRead session size           => Uart.uartRead session size

end ExternalLink.Uart
