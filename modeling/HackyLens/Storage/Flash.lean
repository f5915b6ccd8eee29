import HackyLens.Lib.Memory
import HackyLens.Lib.Wp

-- The driver of the boot flash, and the partitions of the flash. The results of both are only ever
-- compared with `BOOT_FLASH_OK` and `INTERNAL_FLASH_OK`.

-- What `board.toml` says of the flash and of the partitions of the settings.
inductive Board
  | huskylensSen0305 | sipeedMaixCube
  deriving DecidableEq

namespace Board

def flashMinCapacity : Board → Nat
  | huskylensSen0305 => 0x00800000
  | sipeedMaixCube   => 0x01000000

def flashMaxCapacity : Board → Nat
  | huskylensSen0305 | sipeedMaixCube => 0x01000000

def settingsRequiredCapacity : Board → Nat
  | huskylensSen0305 => 0x00800000
  | sipeedMaixCube   => 0x01000000

end Board

namespace BootFlash

def eraseSize : Nat := 0x1000
def programSize : Nat := 0x100

-- What is exchanged with the flash when it is written. The last part of a write is to wait for the
-- device, and then to check that it has accepted the instruction.
inductive Command
  | waitReady
  | writeEnable
  | sectorErase (addr : Nat)
  | pageProgram (addr : Nat) (data : List UInt8)
  | finishWrite

inductive Call
  | readId
  | receive (addr len : Nat)
  | command (c : Command)

abbrev Call.Reply : Call → Type
  | readId      => Option (UInt8 × UInt8 × UInt8)
  | receive _ _ => Option (List UInt8)
  | command _   => Bool

-- The part of `boot_flash_info_t` that the driver looks at.
structure Info where
  capacity : Nat
  initialized : Bool
  faulted : Bool
  deriving DecidableEq

-- After a reset.
def Info.zero : Info :=
  ⟨0, false, false⟩

abbrev Driver := Prog Call Call.Reply Info

def markFault : Driver Unit :=
  modify fun info => { info with faulted := true }

-- An exchange with the device. When it fails, no further ones are made until the next `init`.
def command (c : Command) : Driver Bool := do
  let ok ← Prog.call (Call.command c)
  if ok then
    return true
  else
    markFault
    return false

def validate (addr len : Nat) : Driver Bool := do
  let info ← get
  return info.initialized && !info.faulted && addr ≤ info.capacity && len ≤ info.capacity - addr

-- The processor that runs a function is `mhartid`.
def onCore0 (mhartid : Nat) : Bool :=
  mhartid == 0

def init (board : Board) (mhartid : Nat) (hz : Nat) : Driver Bool := do
  if !onCore0 mhartid then
    return false
  if hz = 0 then
    return false
  set Info.zero
  let some (manufacturer, _, capacityLog2) ← Prog.call Call.readId
    | do
      markFault
      return false
  if manufacturer = 0x00 ∨ manufacturer = 0xFF ∨ capacityLog2 ≥ 32 then
    return false
  let capacity := 2 ^ capacityLog2.toNat
  if capacity < board.flashMinCapacity ∨ capacity > board.flashMaxCapacity then
    return false
  modify fun info => { info with capacity }
  let ready ← command .waitReady
  if ready then
    modify fun info => { info with initialized := true }
    return true
  else
    return false

-- One round of the loop in `boot_flash_read`, with what has been read before.
def readChunk : Nat × Nat × List UInt8 → Driver (Option (List UInt8) ⊕ Nat × Nat × List UInt8)
  | (addr, len, data) => do
    if len = 0 then
      return .inl (some data)
    let chunk := min len programSize
    let some bytes ← Prog.call (Call.receive addr chunk)
      | do
        markFault
        return .inl none
    return .inr (addr + chunk, len - chunk, data ++ bytes)

def read (mhartid : Nat) (addr len : Nat) : Driver (Option (List UInt8)) := do
  if !onCore0 mhartid then
    return none
  if !(← validate addr len) then
    return none
  Prog.loop readChunk (len + 1) (addr, len, [])

def sectorErase (mhartid : Nat) (addr : Nat) : Driver Bool := do
  if !onCore0 mhartid then
    return false
  if addr % eraseSize ≠ 0 then
    return false
  if !(← validate addr eraseSize) then
    return false
  if !(← command .writeEnable) then
    return false
  if !(← command (.sectorErase addr)) then
    return false
  command .finishWrite

def pageProgramUnlocked (addr : Nat) (data : List UInt8) : Driver Bool := do
  if !(← command .writeEnable) then
    return false
  if !(← command (.pageProgram addr data)) then
    return false
  command .finishWrite

-- One round of the loop in `boot_flash_program`.
def programPage : Nat × List UInt8 → Driver (Bool ⊕ Nat × List UInt8)
  | (addr, data) => do
    if data.length = 0 then
      return .inl true
    let chunk := min (programSize - addr % programSize) data.length
    if !(← pageProgramUnlocked addr (data.take chunk)) then
      return .inl false
    return .inr (addr + chunk, data.drop chunk)

def program (mhartid : Nat) (addr : Nat) (data : List UInt8) : Driver Bool := do
  if !onCore0 mhartid then
    return false
  if !(← validate addr data.length) then
    return false
  Prog.loop programPage (data.length + 1) (addr, data)

end BootFlash

namespace InternalFlash

open BootFlash (Driver)

-- The partitions that hold the settings. They can be written at run time.
inductive Partition
  | settings0 | settings1
  deriving DecidableEq

namespace Partition

def offset : Partition → Nat
  | settings0 => 0x007FE000
  | settings1 => 0x007FF000

def size : Partition → Nat
  | settings0 | settings1 => 0x1000

end Partition

def rangeValid (partitionSize offset len : Nat) : Bool :=
  offset ≤ partitionSize && len ≤ partitionSize - offset

variable (board : Board) (mhartid : Nat) (partition : Partition) (offset len : Nat)

def validate : Driver Bool := do
  let info ← get
  return info.initialized && !info.faulted && board.settingsRequiredCapacity ≤ info.capacity &&
    rangeValid partition.size offset len

def init (hz : Nat) : Driver Bool :=
  BootFlash.init board mhartid hz

def read : Driver (Option (List UInt8)) := do
  if !(← validate board partition offset len) then
    return none
  BootFlash.read mhartid (partition.offset + offset) len

-- One round of the loop in `internal_flash_erase`.
def eraseSector : Nat × Nat → Driver (Bool ⊕ Nat × Nat)
  | (offset, len) => do
    if len = 0 then
      return .inl true
    if !(← BootFlash.sectorErase mhartid (partition.offset + offset)) then
      return .inl false
    return .inr (offset + BootFlash.eraseSize, len - BootFlash.eraseSize)

def erase : Driver Bool := do
  if !(← validate board partition offset len) then
    return false
  if offset % BootFlash.eraseSize ≠ 0 ∨ len % BootFlash.eraseSize ≠ 0 then
    return false
  Prog.loop (eraseSector mhartid partition) (len + 1) (offset, len)

def program (data : List UInt8) : Driver Bool := do
  if !(← validate board partition offset data.length) then
    return false
  BootFlash.program mhartid (partition.offset + offset) data

end InternalFlash

-- What the device is assumed to do. While it works on a write, anything can be found where it
-- writes, and so it stays when the write fails or the power is lost.
namespace BootFlash

-- What a write leads to when it is finished.
structure Write where
  addr : Nat
  len : Nat
  content : Memory

namespace Write

def erase (addr : Nat) : Write :=
  ⟨addr, eraseSize, fun _ => 0xFF⟩

-- Bits are only ever set by an erase.
def program (memory : Memory) (addr : Nat) (data : List UInt8) : Write :=
  ⟨addr, data.length, fun a => memory a &&& data.getD (a - addr) 0⟩

end Write

structure Device where
  memory : Memory
  busy : Option Write

-- Whether an exchange works, and what the write that takes place has damaged by then. An exchange
-- that fails may also have had no effect.
structure Decision where
  works : Bool
  id : UInt8 × UInt8 × UInt8
  damage : Option Memory

namespace Device

def hurt (device : Device) (write : Write) (d : Decision) : Memory :=
  match d.damage with
  | some damage => device.memory.overlay write.addr write.len damage
  | none        => device.memory

def begin (device : Device) (write : Write) (d : Decision) : Device :=
  ⟨device.hurt write d, some write⟩

def finish (device : Device) (d : Decision) : Device :=
  match device.busy with
  | none       => device
  | some write =>
    if d.works then
      ⟨device.memory.overlay write.addr write.len write.content, none⟩
    else
      ⟨device.hurt write d, none⟩

def execute (device : Device) (d : Decision) : Command → Device
  | .waitReady             => { device with busy := none }
  | .writeEnable           => device
  | .sectorErase addr      => device.begin (.erase addr) d
  | .pageProgram addr data => device.begin (.program device.memory addr data) d
  | .finishWrite           => device.finish d

end Device

def handler : Prog.Handler Call Call.Reply Device Decision
  | d, .readId,           device => (if d.works then some d.id else none, device)
  | d, .receive addr len, device =>
    (if d.works then some (device.memory.read addr len) else none, device)
  | d, .command c,        device => (d.works, device.execute d c)

-- An exchange that goes well.
def Decision.passes : Decision :=
  ⟨true, (0xEF, 0x40, 24), none⟩

end BootFlash
