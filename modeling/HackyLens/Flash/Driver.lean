import HackyLens.Lib.Nor
import HackyLens.Lib.Wp

-- The internal flash, down to the bytes that are exchanged with the device: `boot_flash.c` and, on
-- top of it, `internal_flash.c`. Only core 0 gets past the checks, so the lock that keeps the calls
-- apart is never contended and is left out. So are the board's pins and the clock of the bus.

namespace Flash

def eraseSize : UInt64 := 0x1000
def programSize : UInt64 := 0x100

structure Partition where
  name : String
  offset : UInt32
  size : UInt32
  requiredCapacity : UInt32
  runtimeWritable : Bool

-- What the generated `board_config.h` says about the flash, with what is checked of it: that the
-- partitions are adjacent, consist of sectors, and end where three bytes can still address them.
structure Layout where
  minCapacity : UInt32
  maxCapacity : UInt32
  firmware : Partition
  settings0 : Partition
  settings1 : Partition
  legacyReserved : Partition
  userfs : Partition
  addressable : maxCapacity.toNat ≤ 2 ^ 24
  firmware_settings0 : firmware.offset.toNat + firmware.size.toNat = settings0.offset.toNat
  settings0_settings1 : settings0.offset.toNat + settings0.size.toNat = settings1.offset.toNat
  settings1_legacyReserved :
    settings1.offset.toNat + settings1.size.toNat = legacyReserved.offset.toNat
  legacyReserved_userfs : legacyReserved.offset.toNat + legacyReserved.size.toNat = userfs.offset.toNat
  userfs_maxCapacity : userfs.offset.toNat + userfs.size.toNat = maxCapacity.toNat
  sectors : ∀ p ∈ [firmware, settings0, settings1, legacyReserved, userfs],
    p.offset.toNat % eraseSize.toNat = 0 ∧ p.size.toNat % eraseSize.toNat = 0

namespace Layout

def partitions (layout : Layout) : List Partition :=
  [layout.firmware, layout.settings0, layout.settings1, layout.legacyReserved, layout.userfs]

def huskylensSen0305 : Layout where
  minCapacity    := 0x00800000
  maxCapacity    := 0x01000000
  firmware       := ⟨"firmware", 0x00000000, 0x007FE000, 0x00800000, false⟩
  settings0      := ⟨"settings_0", 0x007FE000, 0x00001000, 0x00800000, true⟩
  settings1      := ⟨"settings_1", 0x007FF000, 0x00001000, 0x00800000, true⟩
  legacyReserved := ⟨"legacy_reserved", 0x00800000, 0x00470000, 0x01000000, false⟩
  userfs         := ⟨"userfs", 0x00C70000, 0x00390000, 0x01000000, true⟩
  addressable              := by decide
  firmware_settings0       := by decide
  settings0_settings1      := by decide
  settings1_legacyReserved := by decide
  legacyReserved_userfs    := by decide
  userfs_maxCapacity       := by decide
  sectors                  := by decide

def sipeedMaixCube : Layout where
  minCapacity    := 0x01000000
  maxCapacity    := 0x01000000
  firmware       := ⟨"firmware", 0x00000000, 0x007FE000, 0x01000000, false⟩
  settings0      := ⟨"settings_0", 0x007FE000, 0x00001000, 0x01000000, true⟩
  settings1      := ⟨"settings_1", 0x007FF000, 0x00001000, 0x01000000, true⟩
  legacyReserved := ⟨"legacy_reserved", 0x00800000, 0x00470000, 0x01000000, false⟩
  userfs         := ⟨"userfs", 0x00C70000, 0x00390000, 0x01000000, true⟩
  addressable              := by decide
  firmware_settings0       := by decide
  settings0_settings1      := by decide
  settings1_legacyReserved := by decide
  legacyReserved_userfs    := by decide
  userfs_maxCapacity       := by decide
  sectors                  := by decide

end Layout

namespace Boot

inductive Result
  | ok | invalidArgument | notInitialized | wrongCore | unsupportedDevice | outOfBounds | alignment
  | timeout | writeEnable | faulted
  deriving DecidableEq

inductive Call
  -- A frame of two segments.
  | send (first second : List UInt8)
  | receive (cmd : List UInt8) (len : Nat)
  | timeUs
  -- Not an exchange: this puts on record that the driver has marked a fault.
  | fault

-- When a transfer fails, there may be less received than was asked for.
abbrev Call.Reply : Call → Type
  | send _ _    => Bool
  | receive _ _ => Bool × List UInt8
  | timeUs      => UInt64
  | fault       => Unit

structure Info where
  jedecId : List UInt8
  capacity : UInt32
  initialized : Bool
  faulted : Bool

def Info.zero : Info :=
  ⟨[0, 0, 0], 0, false, false⟩

abbrev Driver := Prog Call Call.Reply Info

def programTimeoutUs : UInt32 := 500000
def eraseTimeoutUs : UInt32 := 3000000
def initTimeoutUs : UInt32 := 3000000
def pollFailsafe : UInt32 := 5000000

def statusBusy : UInt8 := 0x01
def statusWel : UInt8 := 0x02

def onCore0 (mhartid : Nat) : Bool :=
  mhartid == 0

def markFault (result : Result) : Driver Result := do
  modify fun info => { info with faulted := true }
  Prog.call Call.fault
  return result

def addressed (cmd : UInt8) (addr : UInt32) : List UInt8 :=
  [cmd, (addr >>> 16).toUInt8, (addr >>> 8).toUInt8, addr.toUInt8]

def cmd (cmd : List UInt8) : Driver Result := do
  if !(← Prog.call (Call.send cmd [])) then
    return ← markFault .timeout
  return .ok

-- The status is only there when the result is `ok`.
def readStatusUnlocked : Driver (Result × UInt8) := do
  let (done, status) ← Prog.call (Call.receive [Nor.readStatus] 1)
  if !done then
    return (← markFault .timeout, 0)
  return (.ok, status.getD 0 0)

-- One round of the loop in `boot_flash_wait_ready_unlocked`.
def poll (timeoutUs : UInt32) (started : UInt64) (polls : UInt32) : Driver (Result ⊕ UInt32) := do
  let (result, status) ← readStatusUnlocked
  if result ≠ .ok then
    return .inl result
  if status &&& statusBusy = 0 then
    return .inl .ok
  let now ← Prog.call Call.timeUs
  if now - started ≥ timeoutUs.toUInt64 ∨ polls + 1 ≥ pollFailsafe then
    return .inl (← markFault .timeout)
  return .inr (polls + 1)

def waitReadyUnlocked (timeoutUs : UInt32) : Driver Result := do
  let started ← Prog.call Call.timeUs
  Prog.loop (poll timeoutUs started) pollFailsafe.toNat 0

-- A pointer is given by what it points to. `NULL` points to nothing.
def validateUnlocked (addr : UInt32) (null : Bool) (len : UInt64) : Driver Result := do
  let info ← get
  if !info.initialized then
    return .notInitialized
  if info.faulted then
    return .faulted
  if len ≠ 0 ∧ null then
    return .invalidArgument
  if addr > info.capacity ∨ len > (info.capacity - addr).toUInt64 then
    return .outOfBounds
  return .ok

def writeEnableUnlocked : Driver Result := do
  let result ← cmd [Nor.writeEnable]
  if result ≠ .ok then
    return result
  let (result, status) ← readStatusUnlocked
  if result ≠ .ok then
    return result
  if status &&& statusWel = 0 then
    return ← markFault .writeEnable
  return .ok

def finishWriteUnlocked (timeoutUs : UInt32) : Driver Result := do
  let result ← waitReadyUnlocked timeoutUs
  if result ≠ .ok then
    return result
  -- The latch is reset when the device has accepted the instruction.
  let (result, status) ← readStatusUnlocked
  if result ≠ .ok then
    return result
  if status &&& statusWel ≠ 0 then
    return ← markFault .writeEnable
  return .ok

def pageProgramUnlocked (addr : UInt32) (data : Memory) (len : UInt64) : Driver Result := do
  let result ← writeEnableUnlocked
  if result ≠ .ok then
    return result
  if !(← Prog.call (Call.send (addressed Nor.pageProgram addr) (data.read 0 len.toNat))) then
    return ← markFault .timeout
  finishWriteUnlocked programTimeoutUs

def init (layout : Layout) (mhartid : Nat) (hz : UInt32) : Driver Result := do
  if !onCore0 mhartid then
    return .wrongCore
  if hz = 0 then
    return .invalidArgument
  set Info.zero
  let (done, id) ← Prog.call (Call.receive [Nor.readId] 3)
  let jedecId := id ++ Info.zero.jedecId.drop id.length
  modify fun info => { info with jedecId }
  if !done then
    return ← markFault .timeout
  let capacityLog2 := jedecId.getD 2 0
  if jedecId.getD 0 0 = 0x00 ∨ jedecId.getD 0 0 = 0xFF ∨ capacityLog2 ≥ 32 then
    return .unsupportedDevice
  let capacity : UInt32 := 1 <<< capacityLog2.toUInt32
  if capacity < layout.minCapacity ∨ capacity > layout.maxCapacity then
    return .unsupportedDevice
  modify fun info => { info with capacity }
  let result ← waitReadyUnlocked initTimeoutUs
  if result = .ok then
    modify fun info => { info with initialized := true }
  return result

-- One round of the loop in `boot_flash_read`, with what has been read before.
def readChunk :
    UInt32 × UInt64 × List UInt8 → Driver ((Result × List UInt8) ⊕ UInt32 × UInt64 × List UInt8)
  | (addr, len, data) => do
    if len = 0 then
      return .inl (.ok, data)
    let chunk := if len > programSize then programSize else len
    let (done, bytes) ← Prog.call (Call.receive (addressed Nor.readData addr) chunk.toNat)
    if !done then
      return .inl (← markFault .timeout, data ++ bytes)
    return .inr (addr + chunk.toUInt32, len - chunk, data ++ bytes)

def read (mhartid : Nat) (addr : UInt32) (null : Bool) (len : UInt64) :
    Driver (Result × List UInt8) := do
  if !onCore0 mhartid then
    return (.wrongCore, [])
  let result ← validateUnlocked addr null len
  if result ≠ .ok then
    return (result, [])
  Prog.loop readChunk (len.toNat + 1) (addr, len, [])

def sectorErase (mhartid : Nat) (addr : UInt32) : Driver Result := do
  if !onCore0 mhartid then
    return .wrongCore
  if addr.toUInt64 % eraseSize ≠ 0 then
    return .alignment
  let result ← validateUnlocked addr false eraseSize
  if result ≠ .ok then
    return result
  let result ← writeEnableUnlocked
  if result ≠ .ok then
    return result
  let result ← cmd (addressed Nor.sectorErase addr)
  if result ≠ .ok then
    return result
  finishWriteUnlocked eraseTimeoutUs

-- One round of the loop in `boot_flash_program`.
def programPage : UInt32 × Memory × UInt64 → Driver (Result ⊕ UInt32 × Memory × UInt64)
  | (addr, data, len) => do
    if len = 0 then
      return .inl .ok
    let chunk := programSize - addr.toUInt64 % programSize
    let chunk := if chunk > len then len else chunk
    let result ← pageProgramUnlocked addr data chunk
    if result ≠ .ok then
      return .inl result
    return .inr (addr + chunk.toUInt32, fun i => data (chunk.toNat + i), len - chunk)

def program (mhartid : Nat) (addr : UInt32) (data : Option Memory) (len : UInt64) :
    Driver Result := do
  if !onCore0 mhartid then
    return .wrongCore
  let result ← validateUnlocked addr data.isNone len
  if result ≠ .ok then
    return result
  Prog.loop programPage (len.toNat + 1) (addr, data.getD (fun _ => 0), len)

-- The device, and what the driver has done with it so far, the latest first.
structure Bus where
  chip : Nor.Chip
  record : List Call

-- How far a transfer gets before it fails, whether the device executes a write, and whether the one
-- it works on is finished.
structure Decision where
  done : Bool
  count : Nat
  accepts : Bool
  finished : Bool
  noise : Memory
  now : UInt64

def handler : Prog.Handler Call Call.Reply Bus Decision
  | d, .send first second, bus =>
    let frame := (first ++ second).take (if d.done then first.length + second.length else d.count)
    (d.done, ⟨(bus.chip.settle d.finished).execute d.accepts frame, .send first second :: bus.record⟩)
  | d, .receive cmd len, bus =>
    let chip := bus.chip.settle d.finished
    let data := (chip.reply d.noise cmd len).take (if d.done then len else d.count)
    ((d.done, data), ⟨chip, .receive cmd len :: bus.record⟩)
  | d, .timeUs, bus => (d.now, ⟨bus.chip.settle d.finished, .timeUs :: bus.record⟩)
  | _, .fault,  bus => ((), ⟨bus.chip, .fault :: bus.record⟩)

-- The commands that change the contents of the flash.
def Call.writes : Call → Bool
  | send (cmd :: _) _ => cmd == Nor.sectorErase || cmd == Nor.pageProgram
  | _                 => false

-- There was a fault, and no initialization has begun since then.
def faulted : List Call → Bool
  | []                   => false
  | .fault :: _          => true
  | .receive cmd _ :: cs => cmd != [Nor.readId] && faulted cs
  | _ :: cs              => faulted cs

-- No such command was sent after a fault.
def Heeded : List Call → Prop
  | []      => True
  | c :: cs => (c.writes → faulted cs = false) ∧ Heeded cs

end Boot

namespace Internal

inductive Result
  | ok | invalidArgument | notInitialized | wrongCore | unsupportedDevice | partitionUnavailable
  | outOfBounds | alignment | readOnly | timeout | writeEnable | faulted
  deriving DecidableEq

def fromBoot : Boot.Result → Result
  | .ok                => .ok
  | .invalidArgument   => .invalidArgument
  | .notInitialized    => .notInitialized
  | .wrongCore         => .wrongCore
  | .unsupportedDevice => .unsupportedDevice
  | .outOfBounds       => .outOfBounds
  | .alignment         => .alignment
  | .timeout           => .timeout
  | .writeEnable       => .writeEnable
  | .faulted           => .faulted

-- `g_boot_flash_info` and `g_internal_flash_info`.
structure Globals where
  boot : Boot.Info
  internal : Boot.Info

-- After a reset.
def Globals.zero : Globals :=
  ⟨.zero, .zero⟩

abbrev Driver := Prog Boot.Call Boot.Call.Reply Globals

def boot {α : Type} (p : Boot.Driver α) : Driver α :=
  Prog.zoom Globals.boot (fun boot globals => { globals with boot }) p

def refreshInfo : Driver PUnit :=
  modify fun globals => { globals with internal := globals.boot }

def rangeValid (partitionSize offset : UInt32) (len : UInt64) : Bool :=
  offset ≤ partitionSize && len ≤ (partitionSize - offset).toUInt64

variable (layout : Layout) (mhartid : Nat) (id offset : UInt32) (len : UInt64)

def partition : Option Partition :=
  layout.partitions[id.toNat]?

def validate (requireWritable : Bool) : Driver (Except Result Partition) := do
  refreshInfo
  let info := (← get).internal
  if !info.initialized then
    return .error .notInitialized
  if info.faulted then
    return .error .faulted
  let some selected := partition layout id
    | return .error .invalidArgument
  if selected.requiredCapacity > info.capacity then
    return .error .partitionUnavailable
  if !rangeValid selected.size offset len then
    return .error .outOfBounds
  if requireWritable && !selected.runtimeWritable then
    return .error .readOnly
  return .ok selected

def init (hz : UInt32) : Driver Result := do
  let result ← boot (Boot.init layout mhartid hz)
  refreshInfo
  return fromBoot result

def read (null : Bool) : Driver (Result × List UInt8) := do
  match ← validate layout id offset len false with
  | .error result => return (result, [])
  | .ok partition =>
    if len ≠ 0 ∧ null then
      return (.invalidArgument, [])
    let (result, data) ← boot (Boot.read mhartid (partition.offset + offset) null len)
    return (fromBoot result, data)

-- One round of the loop in `internal_flash_erase`.
def eraseSector (partition : Partition) : UInt32 × UInt64 → Driver (Result ⊕ UInt32 × UInt64)
  | (offset, len) => do
    if len = 0 then
      return .inl .ok
    let result ← boot (Boot.sectorErase mhartid (partition.offset + offset))
    if result ≠ .ok then
      return .inl (fromBoot result)
    return .inr (offset + eraseSize.toUInt32, len - eraseSize)

def erase : Driver Result := do
  match ← validate layout id offset len true with
  | .error result => return result
  | .ok partition =>
    if offset.toUInt64 % eraseSize ≠ 0 ∨ len % eraseSize ≠ 0 then
      return .alignment
    Prog.loop (eraseSector mhartid partition) (len.toNat + 1) (offset, len)

def program (data : Option Memory) : Driver Result := do
  match ← validate layout id offset len true with
  | .error result => return result
  | .ok partition =>
    if len ≠ 0 ∧ data.isNone then
      return .invalidArgument
    return fromBoot (← boot (Boot.program mhartid (partition.offset + offset) data len))

end Internal
end Flash
