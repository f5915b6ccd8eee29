import HackyLens.Core.Binary
import HackyLens.Lib.Memory

-- `fat32_file.c`, with what it uses of `fat32_alloc.c` and `fat32_state.c`. A block that cannot be
-- read is none.

-- `file_result_t`
inductive FileResult
  | ok | readError | unsupportedFormat | tooLarge | deleteFailed | notFound
  deriving DecidableEq

namespace Fat32

open Core

def sdBlockSize : Nat := 512
def eoc : UInt32 := 0x0FFFFFF8

structure Entry where
  cluster : UInt32
  size : UInt32

-- What the driver has learned when it mounted the volume, which then has at least one sector in a
-- cluster.
structure Geometry where
  fatBegin : UInt32
  dataBegin : UInt32
  sectorsPerCluster : UInt8
  mounted : sectorsPerCluster ≠ 0

theorem single_mounted : (1 : UInt8) ≠ 0 := by
  decide

namespace Geometry

variable (g : Geometry)

def clusterSize : UInt32 :=
  g.sectorsPerCluster.toUInt32 * 512

def clusterLba (cluster : UInt32) : UInt32 :=
  g.dataBegin + (cluster - 2) * g.sectorsPerCluster.toUInt32

-- The sector of the allocation table that `fat_next_cluster` reads, and what it takes from it.
def fatSector (cluster : UInt32) : UInt32 :=
  g.fatBegin + cluster * 4 / 512

def fatEntry (sectorData : Memory) (cluster : UInt32) : UInt32 :=
  rd32 (fun i => sectorData ((cluster * 4 % 512).toNat + i)) &&& 0x0FFFFFFF

end Geometry

-- A volume that is not written to.
structure Volume extends Geometry where
  readBlock : UInt32 → Option Memory

def Volume.nextCluster (v : Volume) (cluster : UInt32) : UInt32 :=
  match v.readBlock (v.fatSector cluster) with
  | none            => eoc
  | some sectorData => Geometry.fatEntry sectorData cluster

-- What the loops over a chain test.
def inChain (cluster : UInt32) : Bool :=
  2 ≤ cluster && cluster < eoc

namespace Volume

variable (v : Volume)

def skipClusters : Nat → UInt32 → UInt32
  | 0,     cluster => cluster
  | n + 1, cluster => if inChain cluster then skipClusters n (v.nextCluster cluster) else cluster

-- The loop over the sectors of a cluster, of which `left` are left from the sector `s` on. A read
-- returns whether it succeeded, and what it has stored at its destination.
def readSectors (base : UInt32) : (left s sectorOffset len : Nat) → Bool × List UInt8
  | 0, _, _, _ => (true, [])
  | left + 1, s, sectorOffset, len =>
    if len = 0 then
      (true, [])
    else
      match v.readBlock (base + .ofNat s) with
      | none            => (false, [])
      | some sectorData =>
        let take := min (sdBlockSize - sectorOffset) len
        let (ok, rest) := readSectors base left (s + 1) 0 (len - take)
        (ok, sectorData.read sectorOffset take ++ rest)

-- The loop over the clusters. Each round reads at least one byte, so it takes at most `len` rounds.
def readClusters : (rounds : Nat) → UInt32 → (offset len : Nat) → Bool × List UInt8
  | 0, _, _, len => (len = 0, [])
  | rounds + 1, cluster, offset, len =>
    if len = 0 ∨ !inChain cluster then
      (len = 0, [])
    else
      let sectorIndex := offset / sdBlockSize
      let (ok, bytes) := v.readSectors (v.clusterLba cluster)
        (v.sectorsPerCluster.toNat - sectorIndex) sectorIndex (offset % sdBlockSize) len
      if !ok then
        (false, bytes)
      else
        let len := len - bytes.length
        let cluster := if len = 0 then cluster else v.nextCluster cluster
        let (ok, rest) := readClusters rounds cluster 0 len
        (ok, bytes ++ rest)

-- `fat_file_read_at`
def readAt (entry : Entry) (offset len : UInt32) : Bool × List UInt8 :=
  if offset ≥ entry.size then
    (len = 0, [])
  else
    let len := if offset + len > entry.size then entry.size - offset else len
    let cluster := v.skipClusters (offset / v.clusterSize).toNat entry.cluster
    v.readClusters len.toNat cluster (offset % v.clusterSize).toNat len.toNat

end Volume
end Fat32
