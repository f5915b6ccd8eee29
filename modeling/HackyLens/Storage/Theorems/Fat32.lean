import Mathlib.Logic.Function.Iterate
import HackyLens.Storage.Fat32

namespace Fat32.Volume

open Core

variable {v : Volume} {cluster base offset' len' : UInt32} {offset len n p : Nat} {entry : Entry}

-- The bytes of the sectors from `base` on.
def sectorsByte (v : Volume) (base : UInt32) : Memory :=
  fun p =>
    match v.readBlock (base + .ofNat (p / sdBlockSize)) with
    | none            => 0
    | some sectorData => sectorData (p % sdBlockSize)

-- The bytes of the clusters of a chain.
def chainByte (v : Volume) (cluster : UInt32) : Memory :=
  fun p =>
    let size := v.clusterSize.toNat
    v.sectorsByte (v.clusterLba (v.nextCluster^[p / size] cluster)) (p % size)

def fileByte (v : Volume) (entry : Entry) : Memory :=
  v.chainByte entry.cluster

-- The first `n` bytes of a chain are in clusters and blocks that can be read.
def Readable (v : Volume) (cluster : UInt32) (n : Nat) : Prop :=
  ∀ p < n,
    let size := v.clusterSize.toNat
    let cluster := v.nextCluster^[p / size] cluster
    inChain cluster ∧
      (v.readBlock (v.clusterLba cluster + .ofNat (p % size / sdBlockSize))).isSome

theorem sectorsPerCluster_pos : 0 < v.sectorsPerCluster.toNat :=
  Nat.pos_of_ne_zero fun h => v.mounted (UInt8.toNat_inj.mp h)

theorem clusterSize_toNat : v.clusterSize.toNat = v.sectorsPerCluster.toNat * sdBlockSize := by
  have h := v.sectorsPerCluster.toNat_lt
  rw [Geometry.clusterSize, UInt32.toNat_mul, UInt8.toNat_toUInt32]
  exact Nat.mod_eq_of_lt (show _ * 512 < 2 ^ 32 by omega)

theorem clusterSize_pos : 0 < v.clusterSize.toNat := by
  rw [clusterSize_toNat]
  exact Nat.mul_pos sectorsPerCluster_pos (by decide)

-- What is left of a cluster in bytes.
theorem sectors_left :
    (v.sectorsPerCluster.toNat - offset / sdBlockSize) * sdBlockSize - offset % sdBlockSize =
      v.clusterSize.toNat - offset := by
  have hc := v.clusterSize_toNat
  have hd := Nat.div_add_mod offset sdBlockSize
  simp only [sdBlockSize] at hc hd ⊢
  omega

theorem mod_clusterSize_lt (pos : UInt32) : (pos % v.clusterSize).toNat < v.clusterSize.toNat := by
  rw [UInt32.toNat_mod]
  exact Nat.mod_lt _ clusterSize_pos

theorem chainByte_of_lt (h : p < v.clusterSize.toNat) :
    v.chainByte cluster p = v.sectorsByte (v.clusterLba cluster) p := by
  rw [chainByte]
  simp only [Nat.div_eq_of_lt h, Nat.mod_eq_of_lt h, Function.iterate_zero, id]

theorem chainByte_add :
    v.chainByte cluster (v.clusterSize.toNat * n + p) =
      v.chainByte (v.nextCluster^[n] cluster) p := by
  simp only [chainByte, Nat.mul_add_div clusterSize_pos, Nat.mul_add_mod, Nat.add_comm n]
  rw [Function.iterate_add_apply]

theorem Readable.after (h : v.Readable cluster (v.clusterSize.toNat * n + p)) :
    v.Readable (v.nextCluster^[n] cluster) p := by
  intro q hq
  have h := h (v.clusterSize.toNat * n + q) (by omega)
  simp only [Nat.mul_add_div clusterSize_pos, Nat.mul_add_mod, Nat.add_comm n] at h
  rwa [Function.iterate_add_apply] at h

theorem sectorsByte_read {s : Nat} {sectorData : Memory}
    (hb : v.readBlock (base + .ofNat s) = some sectorData) (h : offset + n ≤ sdBlockSize) :
    sectorData.read offset n = (v.sectorsByte base).read (s * sdBlockSize + offset) n := by
  rw [Memory.read, Memory.read]
  refine List.map_congr_left fun i hi => ?_
  have hi := List.mem_range.mp hi
  have hd : (s * sdBlockSize + offset + i) / sdBlockSize = s := by
    rw [sdBlockSize] at *
    omega
  have hm : (s * sdBlockSize + offset + i) % sdBlockSize = offset + i := by
    rw [sdBlockSize] at *
    omega
  rw [sectorsByte, hd, hm, hb]

-- Whatever stops the loop, what it has stored are the bytes that are there.
theorem readSectors_eq (base : UInt32) (left s len : Nat) (h : offset < sdBlockSize) :
    ∃ n ≤ min len (left * sdBlockSize - offset),
      let read := v.readSectors base left s offset len
      read.snd = (v.sectorsByte base).read (s * sdBlockSize + offset) n ∧
      (read.fst → n = min len (left * sdBlockSize - offset)) := by
  induction left generalizing s offset len with
  | zero         => exact ⟨0, Nat.zero_le _, rfl, fun _ => by simp⟩
  | succ left ih =>
    rw [readSectors]
    split
    case isTrue hl => exact ⟨0, Nat.zero_le _, rfl, fun _ => by simp [hl]⟩
    case isFalse hl =>
    cases hb : v.readBlock (base + .ofNat s) with
    | none => exact ⟨0, Nat.zero_le _, rfl, nofun⟩
    | some sectorData =>
      have hz : 0 < sdBlockSize := by decide
      have hm : (left + 1) * sdBlockSize = left * sdBlockSize + sdBlockSize := Nat.succ_mul ..
      obtain ⟨n, hn, he, hk⟩ := ih (s + 1) (len - min (sdBlockSize - offset) len) hz
      refine ⟨min (sdBlockSize - offset) len + n, by omega, ?_, fun hr => ?_⟩
      · dsimp only
        rw [he, sectorsByte_read hb (by omega), ← Memory.read_append]
        by_cases hf : len ≤ sdBlockSize - offset
        case pos =>
          have hn : n = 0 := by omega
          simp [hn, Memory.read]
        case neg =>
          have hs : (s + 1) * sdBlockSize + 0 =
              s * sdBlockSize + offset + min (sdBlockSize - offset) len := by
            rw [Nat.add_mul]
            omega
          rw [hs]
      · have hk := hk hr
        omega

theorem chainByte_read (h : offset + n ≤ v.clusterSize.toNat) :
    (v.sectorsByte (v.clusterLba cluster)).read offset n = (v.chainByte cluster).read offset n :=
  Memory.read_congr fun _ _ => (chainByte_of_lt (by omega)).symm

theorem chainByte_read_next :
    (v.chainByte cluster).read v.clusterSize.toNat n =
      (v.chainByte (v.nextCluster cluster)).read 0 n := by
  rw [Memory.read, Memory.read]
  refine List.map_congr_left fun i _ => ?_
  rw [Nat.zero_add, ← Nat.mul_one v.clusterSize.toNat]
  exact chainByte_add

-- A round never leaves the loop for want of rounds.
theorem readClusters_eq (cluster : UInt32) {rounds : Nat} (hr : len ≤ rounds)
    (h : offset < v.clusterSize.toNat) :
    ∃ n ≤ len,
      let read := v.readClusters rounds cluster offset len
      read.snd = (v.chainByte cluster).read offset n ∧ (read.fst → n = len) := by
  induction rounds generalizing cluster offset len with
  | zero           => exact ⟨0, Nat.zero_le _, rfl, fun _ => (Nat.le_zero.mp hr).symm⟩
  | succ rounds ih =>
    rw [readClusters]
    split
    case isTrue => exact ⟨0, Nat.zero_le _, rfl, fun h => (of_decide_eq_true h).symm⟩
    case isFalse hl =>
    have hl : 0 < len := Nat.pos_of_ne_zero fun h => hl (.inl h)
    have hd := Nat.div_add_mod offset sdBlockSize
    obtain ⟨n, hn, he, hk⟩ := readSectors_eq (v := v) (v.clusterLba cluster)
      (v.sectorsPerCluster.toNat - offset / sdBlockSize) (offset / sdBlockSize) len
      (Nat.mod_lt offset (by decide))
    rw [Nat.mul_comm, hd] at he
    rw [sectors_left] at hn hk
    rw [chainByte_read (by omega)] at he
    dsimp only
    generalize v.readSectors _ _ _ _ _ = read at he hk ⊢
    obtain ⟨ok, bytes⟩ := read
    dsimp only at he hk ⊢
    cases ok
    case false => exact ⟨n, by omega, he, nofun⟩
    case true =>
      have hk := hk rfl
      have hb : bytes.length = n := he ▸ Memory.read_length
      rw [hb]
      obtain ⟨n', hn', he', hk'⟩ := ih _ (show len - n ≤ rounds by omega) clusterSize_pos
      refine ⟨n + n', by omega, ?_, fun hr => by have := hk' hr; omega⟩
      show bytes ++ _ = _
      rw [he, he', ← Memory.read_append]
      by_cases hz : len - n = 0
      case pos =>
        have hn : n' = 0 := by omega
        simp [hn, Memory.read]
      case neg =>
        have hs : offset + n = v.clusterSize.toNat := by omega
        rw [hs, if_neg hz, chainByte_read_next]

theorem skipClusters_eq (h : inChain (v.skipClusters n cluster)) :
    v.skipClusters n cluster = v.nextCluster^[n] cluster := by
  induction n generalizing cluster with
  | zero      => rfl
  | succ n ih =>
    rw [skipClusters] at h ⊢
    split at h
    case isTrue hc  => rw [if_pos hc, ih h, Function.iterate_succ_apply]
    case isFalse hc => exact absurd h hc

theorem readClusters_of_ended {rounds : Nat} (hc : ¬inChain cluster) :
    v.readClusters rounds cluster offset len = (decide (len = 0), []) := by
  cases rounds
  case zero => rfl
  case succ => rw [readClusters, if_pos (.inr (by simpa using hc))]

-- The two places of a file that `fat_file_read_at` starts from.
theorem fileByte_read (pos : UInt32) :
    (v.chainByte (v.nextCluster^[(pos / v.clusterSize).toNat] entry.cluster)).read
        (pos % v.clusterSize).toNat n = (v.fileByte entry).read pos.toNat n := by
  rw [Memory.read, Memory.read]
  refine List.map_congr_left fun i _ => ?_
  have hd := Nat.div_add_mod pos.toNat v.clusterSize.toNat
  rw [← chainByte_add, fileByte, UInt32.toNat_div, UInt32.toNat_mod, ← Nat.add_assoc, hd]

theorem readAt_of_le {pos count : UInt32} (hc : 0 < count.toNat)
    (h : pos.toNat + count.toNat ≤ entry.size.toNat) :
    v.readAt entry pos count =
      v.readClusters count.toNat (v.skipClusters (pos / v.clusterSize).toNat entry.cluster)
        (pos % v.clusterSize).toNat count.toNat := by
  have hs := entry.size.toNat_lt
  have hp : ¬pos ≥ entry.size := UInt32.not_le.mpr (UInt32.lt_iff_toNat_lt.mpr (by omega))
  have hl : ¬pos + count > entry.size := by
    refine UInt32.not_lt.mpr (UInt32.le_iff_toNat_le.mpr ?_)
    rw [UInt32.toNat_add, Nat.mod_eq_of_lt (by omega)]
    exact h
  rw [readAt, if_neg hp]
  dsimp only
  rw [if_neg hl]

theorem readAt_eq {pos count : UInt32} (hc : 0 < count.toNat)
    (h : pos.toNat + count.toNat ≤ entry.size.toNat) :
    ∃ n ≤ count.toNat,
      let read := v.readAt entry pos count
      read.snd = (v.fileByte entry).read pos.toNat n ∧ (read.fst → n = count.toNat) := by
  rw [readAt_of_le hc h]
  by_cases hi : inChain (v.skipClusters (pos / v.clusterSize).toNat entry.cluster)
  case pos =>
    obtain ⟨n, hn, he, hk⟩ := v.readClusters_eq
      (v.skipClusters (pos / v.clusterSize).toNat entry.cluster) (Nat.le_refl count.toNat)
      (mod_clusterSize_lt pos)
    refine ⟨n, hn, ?_, hk⟩
    rw [he, skipClusters_eq hi, fileByte_read]
  case neg =>
    rw [readClusters_of_ended hi]
    exact ⟨0, Nat.zero_le _, rfl, fun h => (of_decide_eq_true h).symm⟩

theorem readSectors_isSome {left s : Nat} (h : offset < sdBlockSize)
    (hb : ∀ p, offset ≤ p → p < offset + len → p < left * sdBlockSize →
      (v.readBlock (base + .ofNat (s + p / sdBlockSize))).isSome) :
    (v.readSectors base left s offset len).fst := by
  induction left generalizing s offset len with
  | zero         => rfl
  | succ left ih =>
    rw [readSectors]
    split
    case isTrue => rfl
    case isFalse hl =>
    have hm : (left + 1) * sdBlockSize = left * sdBlockSize + sdBlockSize := Nat.succ_mul ..
    have hs := hb offset (Nat.le_refl _) (by omega) (by omega)
    rw [Nat.div_eq_of_lt h, Nat.add_zero] at hs
    obtain ⟨sectorData, hs⟩ := Option.isSome_iff_exists.mp hs
    rw [hs]
    refine ih (by decide) fun p _ hp hq => ?_
    have hb := hb (p + sdBlockSize) (by omega) (by omega) (by omega)
    rwa [Nat.add_div_right _ (by decide), ← Nat.add_assoc, Nat.add_right_comm] at hb

theorem Readable.sectors (h : v.Readable cluster (offset + len)) :
    (v.readSectors (v.clusterLba cluster) (v.sectorsPerCluster.toNat - offset / sdBlockSize)
      (offset / sdBlockSize) (offset % sdBlockSize) len).fst := by
  have hc := v.clusterSize_toNat
  have hd := Nat.div_add_mod offset sdBlockSize
  refine readSectors_isSome (Nat.mod_lt offset (by decide)) fun p hp hl hq => ?_
  have hlt : offset / sdBlockSize * sdBlockSize + p < v.clusterSize.toNat := by
    simp only [sdBlockSize] at hc hq ⊢
    omega
  have hs : (offset / sdBlockSize * sdBlockSize + p) / sdBlockSize =
      offset / sdBlockSize + p / sdBlockSize := by
    rw [Nat.add_comm, Nat.add_mul_div_right _ _ (by decide), Nat.add_comm]
  have hb := (h (offset / sdBlockSize * sdBlockSize + p) (by rw [Nat.mul_comm]; omega)).right
  rwa [Nat.div_eq_of_lt hlt, Nat.mod_eq_of_lt hlt, hs] at hb

theorem Readable.inChain (h : v.Readable cluster n) (hn : 0 < n) : Fat32.inChain cluster := by
  have h := (h 0 hn).left
  rwa [Nat.zero_div] at h

theorem readClusters_ok {rounds : Nat} (hr : len ≤ rounds) (h : offset < v.clusterSize.toNat)
    (hb : v.Readable cluster (offset + len)) : (v.readClusters rounds cluster offset len).fst := by
  induction rounds generalizing cluster offset len with
  | zero           => exact decide_eq_true (Nat.le_zero.mp hr)
  | succ rounds ih =>
    rw [readClusters]
    by_cases hl : len = 0
    case pos => rw [if_pos (.inl hl), hl]; rfl
    case neg =>
    rw [if_neg (by simp [hl, hb.inChain (by omega)])]
    obtain ⟨n, hn, he, hk⟩ := readSectors_eq (v := v) (v.clusterLba cluster)
      (v.sectorsPerCluster.toNat - offset / sdBlockSize) (offset / sdBlockSize) len
      (Nat.mod_lt offset (by decide))
    rw [sectors_left] at hn hk
    have ho := hb.sectors
    have hk := hk ho
    dsimp only
    generalize v.readSectors _ _ _ _ _ = read at he ho ⊢
    obtain ⟨ok, bytes⟩ := read
    dsimp only at he ho ⊢
    have hb' : bytes.length = n := he ▸ Memory.read_length
    rw [ho, hb']
    refine ih (by omega) clusterSize_pos ?_
    split
    case isTrue hz =>
      rw [hz]
      exact fun _ hp => absurd hp (Nat.not_lt_zero _)
    case isFalse hz =>
      rw [Nat.zero_add]
      refine Readable.after (n := 1) ?_
      rwa [Nat.mul_one, show v.clusterSize.toNat + (len - n) = offset + len by omega]

-- A chain that reaches far enough is followed to the cluster of a position.
theorem Readable.skipClusters (h : v.Readable cluster (v.clusterSize.toNat * n + p)) (hp : 0 < p) :
    v.skipClusters n cluster = v.nextCluster^[n] cluster := by
  induction n generalizing cluster with
  | zero      => rfl
  | succ n ih =>
    have hm : v.clusterSize.toNat * (n + 1) + p =
        v.clusterSize.toNat * 1 + (v.clusterSize.toNat * n + p) := by
      rw [Nat.mul_add]
      omega
    rw [Volume.skipClusters, if_pos (h.inChain (by omega)), Function.iterate_succ_apply]
    exact ih (Readable.after (n := 1) (hm ▸ h))

theorem readAt_ok {pos count : UInt32} (hc : 0 < count.toNat)
    (h : pos.toNat + count.toNat ≤ entry.size.toNat)
    (hr : v.Readable entry.cluster (pos.toNat + count.toNat)) : (v.readAt entry pos count).fst := by
  have hd := Nat.div_add_mod pos.toNat v.clusterSize.toNat
  rw [← UInt32.toNat_div, ← UInt32.toNat_mod] at hd
  rw [← hd, Nat.add_assoc] at hr
  rw [readAt_of_le hc h, hr.skipClusters (by omega)]
  exact readClusters_ok (Nat.le_refl _) (mod_clusterSize_lt pos) hr.after

end Fat32.Volume
