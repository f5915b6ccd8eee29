import HackyLens.Storage.FatTable

-- `fat32_dir.c`: room for new entries in a directory, and the removal of old ones.

namespace Fat32

open Core
open Sd (Card)

-- `fat_dir_slot_t`
structure DirSlot where
  cluster : UInt32
  sector : UInt8
  entry : UInt8
  deriving DecidableEq

-- There is nothing at this entry of a sector.
def unused (sectorData : Memory) (entry : Nat) : Bool :=
  sectorData (entry * 32) == 0x00 || sectorData (entry * 32) == 0xE5

-- The loop over the entries of a sector, of which `left` are left. It looks for a run of unused ones,
-- and counts how long the latest run is.
def findRun (sectorData : Memory) (needed : Nat) : (left entry run runStart : Nat) → Option Nat
  | 0,        _,     _,   _        => none
  | left + 1, entry, run, runStart =>
    if unused sectorData entry then
      let runStart := if run = 0 then entry else runStart
      if run + 1 ≥ needed then
        some runStart
      else
        findRun sectorData needed left (entry + 1) (run + 1) runStart
    else
      findRun sectorData needed left (entry + 1) 0 runStart

def sectorRun (sectorData : Memory) (needed : UInt8) : Option Nat :=
  findRun sectorData needed.toNat 16 0 0 0

-- The loop over the sectors of a cluster, of which `left` are left from `s` on.
def slotInSectors (cluster base : UInt32) (needed : UInt8) :
    (left s : Nat) → Task (Option (Option DirSlot))
  | 0,        _ => return some none
  | left + 1, s => do
    if ← readBlock (base + .ofNat s) then
      let driver ← get
      match sectorRun driver.sectorData needed with
      | some entry => return some (some ⟨cluster, .ofNat s, .ofNat entry⟩)
      | none       => slotInSectors cluster base needed left (s + 1)
    else
      return none

-- The loop of `fat_dir_mark_deleted` over the entries of a sector, of which `left` are left. It returns
-- the sector, whether it has been changed, and the number of the entry that is next.
def markEntries (start last : UInt32) : (left entry : Nat) → (ordinal : UInt32) →
    Memory × Bool → (Memory × Bool) × UInt32
  | 0,        _,     ordinal, marked => (marked, ordinal)
  | left + 1, entry, ordinal, marked =>
    let marked :=
      if ordinal ≥ start ∧ ordinal ≤ last then
        (Function.update marked.fst (entry * 32) 0xE5, true)
      else
        marked
    if ordinal > last then
      (marked, ordinal)
    else
      markEntries start last left (entry + 1) (ordinal + 1) marked

-- How the loop over the sectors of a cluster ends.
inductive Marked
  | failed
  | done
  | more (ordinal : UInt32)

-- Only a sector that has been changed is written.
def writeDirty (lba : UInt32) (dirty : Bool) : Task Bool :=
  if dirty then writeBlock lba else return true

def markSectors (base start last : UInt32) : (left s : Nat) → (ordinal : UInt32) → Task Marked
  | 0,        _, ordinal => return .more ordinal
  | left + 1, s, ordinal => do
    if ← readBlock (base + .ofNat s) then
      let driver ← get
      let ((sectorData, dirty), ordinal) :=
        markEntries start last 16 0 ordinal (driver.sectorData, false)
      modify fun driver => { driver with sectorData }
      if ← writeDirty (base + .ofNat s) dirty then
        if ordinal > last then
          return .done
        else
          markSectors base start last left (s + 1) ordinal
      else
        return .failed
    else
      return .failed

namespace Layout

-- How the loop of `fat_dir_find_slots` ends.
inductive Walk
  | failed
  | found (slot : DirSlot)
  | ended (previous : UInt32)

variable (g : Layout)

def walkRound (needed : UInt8) : UInt32 × UInt32 → Task (Walk ⊕ UInt32 × UInt32)
  | (current, previous) =>
    if inChain current then do
      match ← slotInSectors current (g.clusterLba current) needed g.sectorsPerCluster.toNat 0 with
      | none             => return .inl .failed
      | some (some slot) => return .inl (.found slot)
      | some none        =>
        let next ← g.nextCluster current
        return .inr (next, current)
    else
      return .inl (.ended previous)

-- A chain has fewer clusters than there are numbers. One that comes back to itself gets to no cluster
-- after that many rounds that it has not been at before.
def walk (dirCluster : UInt32) (needed : UInt8) : Task Walk :=
  Prog.loop (g.walkRound needed) UInt32.size (dirCluster, 0)

-- Another cluster is appended to a directory.
def extend (previous : UInt32) : Task (Option DirSlot) := do
  match ← g.allocChain 1 with
  | none            => return none
  | some newCluster =>
    if ← g.zeroCluster newCluster then
      if ← g.writeEntry previous newCluster then
        return some ⟨newCluster, 0, 0⟩
      else
        return none
    else
      return none

-- `fat_dir_find_slots`, with the slot where it succeeds.
def findSlots (dirCluster : UInt32) (needed : UInt8) : Task (Option DirSlot) := do
  match ← g.walk dirCluster needed with
  | .failed         => return none
  | .found slot     => return some slot
  | .ended previous => if previous ≥ 2 then g.extend previous else return none

def markRound (start last : UInt32) : UInt32 × UInt32 → Task (Bool ⊕ UInt32 × UInt32)
  | (current, ordinal) =>
    if inChain current then do
      match ← markSectors (g.clusterLba current) start last g.sectorsPerCluster.toNat 0 ordinal with
      | .failed       => return .inl false
      | .done         => return .inl true
      | .more ordinal =>
        let next ← g.nextCluster current
        return .inr (next, ordinal)
    else
      return .inl false

-- `fat_dir_mark_deleted`
def markDeleted (dirCluster entryOrdinal : UInt32) (lfnCount : UInt8) : Task Bool :=
  let start := if entryOrdinal ≥ lfnCount.toUInt32 then entryOrdinal - lfnCount.toUInt32 else 0
  Prog.loop (g.markRound start entryOrdinal) UInt32.size (dirCluster, 0)

-- `fat_dir_write_slots`
def writeSlots (slot : DirSlot) (entries : Memory) (count : UInt8) : Task Bool :=
  let sector := g.clusterLba slot.cluster + slot.sector.toUInt32
  let offset := slot.entry.toNat * 32
  if offset + count.toNat * 32 > sdBlockSize then
    return false
  else do
    if ← readBlock sector then
      modify fun driver => { driver with
        sectorData := driver.sectorData.overlay offset (count.toNat * 32)
          fun a => entries (a - offset) }
      writeBlock sector
    else
      return false

end Layout

-- A field of a short name, which is filled up with spaces.
def padded (field : List UInt8) (len : Nat) : List UInt8 :=
  field.take len ++ .replicate (len - field.length) 0x20

-- `fat_make_short_name`
def makeShortName (base ext : List UInt8) : List UInt8 :=
  padded base 8 ++ padded ext 3

-- `fat_make_short_entry`
def makeShortEntry (shortName : List UInt8) (attr : UInt8) (cluster size : UInt32) : Memory :=
  fun i =>
    if i < 11 then shortName.getD i 0
    else if i = 11 then attr
    else if 20 ≤ i ∧ i < 22 then (wr16 (cluster >>> 16).toUInt16).getD (i - 20) 0
    else if 26 ≤ i ∧ i < 28 then (wr16 cluster.toUInt16).getD (i - 26) 0
    else if 28 ≤ i ∧ i < 32 then (wr32 size).getD (i - 28) 0
    else 0

end Fat32
