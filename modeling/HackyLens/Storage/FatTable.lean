import HackyLens.Storage.Fat32
import HackyLens.Lib.Prog

-- `fat32_alloc.c`, with the mount of `fat32_sd.c` and the card that they use. All blocks go through
-- one sector of scratch memory.

namespace Fat32

open Core

namespace Sd

-- `sd_card.h`
inductive Call
  | readBlock (lba : UInt32)
  | writeBlock (lba : UInt32) (src : Memory)

-- A read that fails may have left something at its destination.
abbrev Call.Reply : Call → Type
  | readBlock _   => Bool × Memory
  | writeBlock .. => Bool

inductive Verdict
  | passes
  | fails (garbage : Memory)

-- A card holds a block at each address.
abbrev Card := UInt32 → Memory

def handler : Prog.Handler Call Call.Reply Card Verdict
  | .passes,        .readBlock lba,      card => ((true, card lba), card)
  | .fails garbage, .readBlock _,        card => ((false, garbage), card)
  | .passes,        .writeBlock lba src, card => (true, Function.update card lba src)
  | .fails _,       .writeBlock ..,      card => (false, card)

end Sd

open Sd (Card)

-- `fat32_geometry_t`, but for the hint.
structure Layout extends Geometry where
  sectorsPerFat : UInt32
  clusterCount : UInt32
  fatCount : UInt8

structure Driver where
  allocHint : UInt32
  sectorData : Memory

abbrev Task := Prog Sd.Call Sd.Call.Reply Driver

def readBlock (lba : UInt32) : Task Bool := do
  let answer ← Prog.call (Sd.Call.readBlock lba)
  modify fun driver => { driver with sectorData := answer.snd }
  return answer.fst

def writeBlock (lba : UInt32) : Task Bool := do
  let driver ← get
  Prog.call (Sd.Call.writeBlock lba driver.sectorData)

-- `rd16` and `rd32` at an offset of the scratch memory, and `wr32` to it.
def read16 (sectorData : Memory) (offset : Nat) : UInt16 :=
  rd16 fun i => sectorData (offset + i)

def read32 (sectorData : Memory) (offset : Nat) : UInt32 :=
  rd32 fun i => sectorData (offset + i)

def write32 (sectorData : Memory) (offset : Nat) (value : UInt32) : Memory :=
  sectorData.overlay offset 4 fun a => (wr32 value).getD (a - offset) 0

-- `fat32_mount`, with the layout that it has found and the first cluster of the root directory.
def mountAt (bpbLba : UInt32) : Task (Option (Layout × UInt32)) := do
  let { sectorData, .. } ← get
  let bytesPerSector := read16 sectorData 11
  let reserved := read16 sectorData 14
  let fats := sectorData 16
  let sectorsPerCluster := sectorData 13
  let sectorsPerFat := read32 sectorData 36
  let rootCluster := read32 sectorData 44
  let totalSectors := (read16 sectorData 19).toUInt32
  let totalSectors := if totalSectors = 0 then read32 sectorData 32 else totalSectors
  if h : bytesPerSector ≠ 512 ∨ sectorsPerCluster = 0 ∨ sectorsPerFat = 0 ∨ fats = 0 ∨
      rootCluster < 2 ∨ totalSectors = 0 then
    return none
  else
    let fatBegin := bpbLba + reserved.toUInt32
    let dataBegin := fatBegin + fats.toUInt32 * sectorsPerFat
    let dataSectors := totalSectors - (dataBegin - bpbLba)
    modify fun driver => { driver with allocHint := 2 }
    return some ({
      fatBegin
      dataBegin
      sectorsPerCluster
      mounted := fun hs => h (.inr (.inl hs))
      sectorsPerFat
      clusterCount := dataSectors / sectorsPerCluster.toUInt32
      fatCount := fats }, rootCluster)

def mount : Task (Option (Layout × UInt32)) := do
  if ← readBlock 0 then
    let { sectorData, .. } ← get
    if sectorData 510 ≠ 0x55 ∨ sectorData 511 ≠ 0xAA then
      return none
    else
      let bpbLba :=
        if sectorData 450 = 0x0B ∨ sectorData 450 = 0x0C then read32 sectorData 454 else 0
      if bpbLba = 0 then
        mountAt bpbLba
      else if ← readBlock bpbLba then
        mountAt bpbLba
      else
        return none
  else
    return none

-- `fat_zero_cluster` clears one sector after the other.
def zeroSectors (base : UInt32) : (left s : Nat) → Task Bool
  | 0,        _ => return true
  | left + 1, s => do
    if ← writeBlock (base + .ofNat s) then
      zeroSectors base left (s + 1)
    else
      return false

namespace Layout

variable (g : Layout)

-- `fat_next_cluster`
def nextCluster (cluster : UInt32) : Task UInt32 := do
  if ← readBlock (g.fatSector cluster) then
    let driver ← get
    return Geometry.fatEntry driver.sectorData cluster
  else
    return eoc

-- Where the entry of a cluster is in one of the copies of the table.
def copySector (copy : Nat) (cluster : UInt32) : UInt32 :=
  g.fatBegin + .ofNat copy * g.sectorsPerFat + cluster * 4 / 512

-- An entry keeps its upper four bits.
def storeEntry (value : UInt32) (offset : Nat) (driver : Driver) : Driver :=
  let oldValue := read32 driver.sectorData offset
  { driver with
    sectorData := write32 driver.sectorData offset
      (oldValue &&& 0xF0000000 ||| value &&& 0x0FFFFFFF) }

-- The loop over the copies, of which `left` are left from `copy` on.
def writeCopies (cluster value : UInt32) : (left copy : Nat) → Task Bool
  | 0,        _    => return true
  | left + 1, copy => do
    if ← readBlock (g.copySector copy cluster) then
      modify (storeEntry value (cluster * 4 % 512).toNat)
      if ← writeBlock (g.copySector copy cluster) then
        writeCopies cluster value left (copy + 1)
      else
        return false
    else
      return false

-- `fat_write_entry`
def writeEntry (cluster value : UInt32) : Task Bool :=
  if cluster < 2 ∨ cluster ≥ g.clusterCount + 2 then
    return false
  else
    g.writeCopies cluster value g.fatCount.toNat 0

def searchRound (last cluster : UInt32) : Task (Option UInt32 ⊕ UInt32) :=
  if cluster ≤ last then do
    let next ← g.nextCluster cluster
    if next = 0 then
      modify fun driver => { driver with allocHint := cluster + 1 }
      return .inl (some cluster)
    else
      return .inr (cluster + 1)
  else
    return .inl none

-- One pass of `fat_find_free_cluster`. There are no more rounds than there are numbers, unless the
-- last of them is the last one that there is.
def search (first last : UInt32) : Task (Option UInt32) :=
  Prog.loop (g.searchRound last) UInt32.size first

-- `fat_find_free_cluster`
def findFreeCluster : Task (Option UInt32) := do
  let { allocHint, .. } ← get
  let start := if allocHint ≥ 2 then allocHint else 2
  match ← g.search start (g.clusterCount + 1) with
  | some cluster => return some cluster
  | none         => g.search 2 (start - 1)

-- The loop of `fat_alloc_chain`.
def allocClusters : (left : Nat) → (first previous : UInt32) → Task (Option UInt32)
  | 0,        first, _        => return some first
  | left + 1, first, previous => do
    match ← g.findFreeCluster with
    | none         => return none
    | some cluster =>
      if ← g.writeEntry cluster eoc then
        let linked ← if previous ≠ 0 then g.writeEntry previous cluster else pure true
        if linked then
          allocClusters left (if first = 0 then cluster else first) cluster
        else
          return none
      else
        return none

-- `fat_alloc_chain`, with the first cluster where it succeeds.
def allocChain (count : UInt32) : Task (Option UInt32) :=
  if count = 0 then return none else g.allocClusters count.toNat 0 0

-- `fat_zero_cluster`
def zeroCluster (cluster : UInt32) : Task Bool := do
  modify fun driver => { driver with sectorData := fun _ => 0 }
  zeroSectors (g.clusterLba cluster) g.sectorsPerCluster.toNat 0

end Layout
end Fat32
