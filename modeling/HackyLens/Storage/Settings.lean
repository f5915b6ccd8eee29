import HackyLens.Core.Binary
import HackyLens.Storage.Flash

namespace Settings

open LittleEndian (Bytes at')
open InternalFlash (Partition)

def flashSlotSize : Nat := 0x1000
def magic : UInt32 := 0x484B5331
def storageVersion : UInt16 := 5
def storageV4Version : UInt16 := 4
def storageV3Version : UInt16 := 3
def storageV2Version : UInt16 := 2
def storageLegacyVersion : UInt16 := 1
def autostartV3Count : UInt8 := 9
def appDataV2Size : Nat := 80
def appDataSize : Nat := 88

-- `settings_payload_t`. The fields before `app_data` are the ones of `settings_payload_v1_t`, which
-- are only ever copied together.
structure Payload where
  head : Vector UInt8 16
  appData : Vector UInt8 appDataSize
  autostartId : UInt16
  deriving DecidableEq

def Payload.zero : Payload :=
  ⟨.replicate 16 0, .replicate appDataSize 0, 0⟩

def Payload.bytes (payload : Payload) : List UInt8 :=
  payload.head.toList ++ payload.appData.toList ++ Core.wr16 payload.autostartId

-- What tells the record types apart, besides the fields of their payloads: the version, the size of
-- the payload, and where the checksum is after padding.
structure Layout where
  version : UInt16
  payloadSize : Nat
  crcOffset : Nat

def recordLayout : Layout := ⟨storageVersion, 106, 120⟩
def recordV4Layout : Layout := ⟨storageV4Version, 105, 120⟩
def recordV3Layout : Layout := ⟨storageV3Version, 97, 112⟩
def recordV2Layout : Layout := ⟨storageV2Version, 96, 108⟩
def recordV1Layout : Layout := ⟨storageLegacyVersion, 16, 28⟩

-- `sizeof(settings_record_t)`, which is also the size of `settings_slot_t`.
def recordSize : Nat := 124

section Record

variable (record : List UInt8)

def recordMagic : UInt32 := Core.rd32 (at' record 0)
def recordVersion : UInt16 := Core.rd16 (at' record 4)
def recordPayloadSize : UInt16 := Core.rd16 (at' record 6)
def recordSequence : UInt32 := Core.rd32 (at' record 8)
def Layout.crc32 (l : Layout) : UInt32 := Core.rd32 (at' record l.crcOffset)

def field (offset size : Nat) : List UInt8 :=
  (record.drop offset).take size

def Layout.recordCrc (l : Layout) : UInt32 :=
  let crc := 0
  let crc := Core.crc32Update crc (field record 0 4)
  let crc := Core.crc32Update crc (field record 4 2)
  let crc := Core.crc32Update crc (field record 6 2)
  let crc := Core.crc32Update crc (field record 8 4)
  Core.crc32Update crc (field record 12 l.payloadSize)

def Layout.recordValid (l : Layout) : Bool :=
  recordMagic record == magic && recordVersion record == l.version &&
    recordPayloadSize record == l.payloadSize.toUInt16 && l.crc32 record == l.recordCrc record

def settingsRecordCrc : UInt32 := recordLayout.recordCrc record
def settingsRecordV4Crc : UInt32 := recordV4Layout.recordCrc record
def settingsRecordV3Crc : UInt32 := recordV3Layout.recordCrc record
def settingsRecordV2Crc : UInt32 := recordV2Layout.recordCrc record
def settingsRecordV1Crc : UInt32 := recordV1Layout.recordCrc record

def settingsRecordValid : Bool := recordLayout.recordValid record
def settingsRecordV4Valid : Bool := recordV4Layout.recordValid record
def settingsRecordV3Valid : Bool := recordV3Layout.recordValid record
def settingsRecordV2Valid : Bool := recordV2Layout.recordValid record
def settingsRecordV1Valid : Bool := recordV1Layout.recordValid record

end Record

section Slot

variable (slot : List UInt8)

def settingsSlotValid : Bool :=
  if recordVersion slot = storageVersion then settingsRecordValid slot
  else if recordVersion slot = storageV4Version then settingsRecordV4Valid slot
  else if recordVersion slot = storageV3Version then settingsRecordV3Valid slot
  else if recordVersion slot = storageV2Version then settingsRecordV2Valid slot
  else settingsRecordV1Valid slot

-- The sequence is at the same place in all record types.
def settingsSlotSequence : UInt32 :=
  recordSequence slot

-- The start of the payload, and the first `size` bytes of `app_data`.
def slotHead : Vector UInt8 16 :=
  .ofFn fun i => at' slot 12 i

def slotAppData (size : Nat) : Vector UInt8 appDataSize :=
  .ofFn fun i => if i < size then at' slot 28 i else 0

def settingsSlotPayload : Payload :=
  if recordVersion slot = storageVersion then
    ⟨slotHead slot, slotAppData slot appDataSize, Core.rd16 (at' slot 116)⟩
  else if recordVersion slot = storageV4Version then
    ⟨slotHead slot, slotAppData slot appDataSize, (at' slot 116 0).toUInt16⟩
  else if recordVersion slot = storageV3Version then
    let autostartId := at' slot 108 0
    ⟨slotHead slot, slotAppData slot appDataV2Size,
      if autostartId < autostartV3Count then autostartId.toUInt16 else 0⟩
  else if recordVersion slot = storageV2Version then
    ⟨slotHead slot, slotAppData slot appDataV2Size, 0⟩
  else
    ⟨slotHead slot, slotAppData slot 0, 0⟩

end Slot

-- The record that is written for a payload. The bytes before the checksum are padding.
def recordBytes (sequence : UInt32) (payload : Payload) : List UInt8 :=
  Core.wr32 magic ++ Core.wr16 storageVersion ++ Core.wr16 106 ++ Core.wr32 sequence ++
    payload.bytes ++ [0xFF, 0xFF]

def record (sequence : UInt32) (payload : Payload) : List UInt8 :=
  recordBytes sequence payload ++ Core.wr32 (settingsRecordCrc (recordBytes sequence payload))

-- The static variables, and the ones of the flash driver.
structure Ram where
  storageOk : Bool
  storageSlot : UInt8
  sequence : UInt32
  flash : BootFlash.Info
  deriving DecidableEq

-- After a reset.
def Ram.zero : Ram :=
  ⟨false, 0xFF, 0, .zero⟩

-- `settings_store_load_t`
structure Load where
  hasPayload : Bool
  payload : Payload
  deriving DecidableEq

def Load.zero : Load :=
  ⟨false, .zero⟩

abbrev Store := Prog BootFlash.Call BootFlash.Call.Reply Ram

def flash {α : Type} (driver : BootFlash.Driver α) : Store α :=
  Prog.zoom Ram.flash (fun flash ram => { ram with flash }) driver

def flashSlotPartition (slot : UInt8) : Partition :=
  if slot ≠ 0 then .settings1 else .settings0

-- The slot that is loaded.
def selectSlot (slot0 slot1 : List UInt8) : UInt8 :=
  if settingsSlotValid slot0 && settingsSlotValid slot1 then
    if settingsSlotSequence slot1 > settingsSlotSequence slot0 then 1 else 0
  else if settingsSlotValid slot0 then
    0
  else if settingsSlotValid slot1 then
    1
  else
    0xFF

-- The part of `settings_store_init` that comes after both slots were read.
def loadSelected (slot0 slot1 : List UInt8) : Store Load := do
  let selected := selectSlot slot0 slot1
  modify fun ram => { ram with storageOk := true }
  if selected ≠ 0xFF then
    let slot := if selected = 0 then slot0 else slot1
    modify fun ram =>
      { ram with sequence := settingsSlotSequence slot, storageSlot := selected }
    return ⟨true, settingsSlotPayload slot⟩
  else
    return .zero

section

variable (board : Board) (mhartid : Nat)

def settingsStoreInit : Store Load := do
  modify fun ram => { ram with storageOk := false, storageSlot := 0xFF, sequence := 0 }
  if !(← flash (InternalFlash.init board mhartid 10000000)) then
    return .zero
  let some slot0 ← flash (InternalFlash.read board mhartid .settings0 0 recordSize)
    | return .zero
  let some slot1 ← flash (InternalFlash.read board mhartid .settings1 0 recordSize)
    | return .zero
  loadSelected slot0 slot1

-- The slot that the next record is written to.
def Ram.target (ram : Ram) : UInt8 :=
  if ram.storageSlot = 0xFF then 0 else if ram.storageSlot = 0 then 1 else 0

-- `payload` is `NULL` where it is `none`.
def settingsStoreSave (payload : Option Payload) : Store Bool := do
  let ram ← get
  match ram.storageOk, payload with
  | true, some payload =>
    let sequence := ram.sequence + 1
    let record := record sequence payload
    let target := ram.target
    let partition := flashSlotPartition target
    if !(← flash (InternalFlash.erase board mhartid partition 0 flashSlotSize)) then
      return false
    if !(← flash (InternalFlash.program board mhartid partition 0 record)) then
      return false
    let some verify ← flash (InternalFlash.read board mhartid partition 0 recordSize)
      | return false
    if settingsRecordValid verify && recordSequence verify == sequence then
      modify fun ram => { ram with sequence, storageSlot := target }
      return true
    else
      return false
  | _, _ => return false

end

-- Other components only initialise the store and save to it.
inductive Op
  | init
  | save (payload : Option Payload)

-- There is no sequence number after the one of the record that a save is going to replace.
def Op.Wraps : Op → Ram → Prop
  | save (some _), ram     => ram.sequence = 0xFFFFFFFF
  | save none, _ | init, _ => False

instance : (op : Op) → (ram : Ram) → Decidable (op.Wraps ram)
  | .save (some _), ram     => inferInstanceAs (Decidable (ram.sequence = 0xFFFFFFFF))
  | .save none, _ | .init, _ => .isFalse id

-- What an operation returns.
inductive Reply
  | loaded (load : Load)
  | saved (ok : Bool)
  deriving DecidableEq

-- Each operation runs on some processor.
def Op.perform (board : Board) : Nat × Op → Store Reply
  | (mhartid, init)         => .loaded <$> settingsStoreInit board mhartid
  | (mhartid, save payload) => .saved <$> settingsStoreSave board mhartid payload

end Settings
