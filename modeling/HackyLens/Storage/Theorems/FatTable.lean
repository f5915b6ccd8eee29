import HackyLens.Storage.FatTable
import HackyLens.Lib.Wp

-- The entries of the allocation table, and what the programs that read and write them do to them.

namespace Fat32

open Core Prog
open Sd (Card)

section Words

variable {m : Memory} {offset offset' : Nat} {value : UInt32}

theorem read32_congr {f : Memory} (h : ∀ i < 4, m (offset + i) = f (offset + i)) :
    read32 m offset = read32 f offset := by
  simp only [read32, rd32, LittleEndian.u32]
  rw [h 0 (by decide), h 1 (by decide), h 2 (by decide), h 3 (by decide)]

theorem read32_write32 : read32 (write32 m offset value) offset = value := by
  refine Eq.trans ?_ (LittleEndian.u32_bytes32 [] value [])
  have byte (i : Nat) (hi : i < 4) : write32 m offset value (offset + i) =
      LittleEndian.at' ([] ++ LittleEndian.bytes32 value ++ []) 0 i := by
    simp [write32, Memory.overlay, LittleEndian.at', wr32, hi]
  simp only [read32, rd32, LittleEndian.u32, List.length_nil]
  rw [byte 0 (by decide), byte 1 (by decide), byte 2 (by decide), byte 3 (by decide)]

theorem read32_write32_of_disjoint (h : offset + 4 ≤ offset' ∨ offset' + 4 ≤ offset) :
    read32 (write32 m offset value) offset' = read32 m offset' :=
  read32_congr fun _ _ => Memory.overlay_apply_of_not_mem (by omega)

end Words

-- What the upper four bits of an entry are kept for.
def merge (value old : UInt32) : UInt32 :=
  old &&& 0xF0000000 ||| value &&& 0x0FFFFFFF

theorem and_or_distrib (a b m : UInt32) : (a ||| b) &&& m = a &&& m ||| b &&& m :=
  UInt32.toBitVec_inj.mp BitVec.and_or_distrib_right

theorem merge_low (value old : UInt32) :
    merge value old &&& 0x0FFFFFFF = value &&& 0x0FFFFFFF := by
  have hm : (0xF0000000 : UInt32) &&& 0x0FFFFFFF = 0 := rfl
  rw [merge, and_or_distrib, UInt32.and_assoc, UInt32.and_assoc, UInt32.and_self, hm,
    UInt32.and_zero, UInt32.zero_or]

theorem merge_high (value old : UInt32) :
    merge value old &&& 0xF0000000 = old &&& 0xF0000000 := by
  have hm : (0x0FFFFFFF : UInt32) &&& 0xF0000000 = 0 := rfl
  rw [merge, and_or_distrib, UInt32.and_assoc, UInt32.and_assoc, UInt32.and_self, hm,
    UInt32.and_zero, UInt32.or_zero]

theorem low_of_le {value : UInt32} (h : value.toNat ≤ eoc.toNat) : value &&& 0x0FFFFFFF = value := by
  apply UInt32.toNat_inj.mp
  have he : eoc.toNat = 0x0FFFFFF8 := rfl
  have hm : (0x0FFFFFFF : UInt32).toNat = 2 ^ 28 - 1 := rfl
  rw [UInt32.toNat_and, hm, Nat.and_two_pow_sub_one_eq_mod]
  exact Nat.mod_eq_of_lt (by omega)

namespace Layout

-- The copies of the table do not reach beyond the last block address, they have an entry for each
-- cluster, and the number of a cluster is no mark for the end of a chain.
structure Tabular (g : Layout) : Prop where
  fits : g.fatBegin.toNat + g.fatCount.toNat * g.sectorsPerFat.toNat ≤ UInt32.size
  covers : g.clusterCount.toNat + 2 ≤ g.sectorsPerFat.toNat * 128
  clusters : g.clusterCount.toNat + 1 < eoc.toNat
  fats : g.fatCount ≠ 0

-- The clusters of the volume.
def Valid (g : Layout) (cluster : UInt32) : Prop :=
  2 ≤ cluster.toNat ∧ cluster.toNat ≤ g.clusterCount.toNat + 1

-- The sector of an entry in one of the copies, and the entry.
def sector (g : Layout) (copy i : Nat) : UInt32 :=
  g.fatBegin + .ofNat copy * g.sectorsPerFat + .ofNat (i / 128)

def word (g : Layout) (card : Card) (copy i : Nat) : UInt32 :=
  read32 (card (g.sector copy i)) (i % 128 * 4)

-- There is such an entry.
def Stands (g : Layout) (copy i : Nat) : Prop :=
  copy < g.fatCount.toNat ∧ i < g.sectorsPerFat.toNat * 128

-- What follows a cluster.
def next (g : Layout) (card : Card) (cluster : UInt32) : UInt32 :=
  Geometry.fatEntry (card (g.fatSector cluster)) cluster

-- In the first `k` copies a value is stored for a cluster. All else is as it was.
structure Stored (g : Layout) (k : Nat) (cluster value : UInt32) (card card' : Card) : Prop where
  word : ∀ copy i, g.Stands copy i → g.word card' copy i =
    if copy < k ∧ i = cluster.toNat then merge value (g.word card copy i) else g.word card copy i
  beside : ∀ lba, (∀ copy i, g.Stands copy i → lba ≠ g.sector copy i) → card' lba = card lba

variable {g : Layout} {card card' : Card} {cluster value : UInt32} {copy copy' i i' k : Nat}

theorem Valid.lt (h : g.Valid cluster) (hg : g.Tabular) : cluster.toNat < eoc.toNat :=
  Nat.lt_of_le_of_lt h.right hg.clusters

theorem Valid.stands (h : g.Valid cluster) (hg : g.Tabular) (hc : copy < g.fatCount.toNat) :
    g.Stands copy cluster.toNat :=
  ⟨hc, Nat.lt_of_le_of_lt h.right (Nat.lt_of_succ_le hg.covers)⟩

theorem Stands.sector_toNat (h : g.Stands copy i) (hg : g.Tabular) :
    (g.sector copy i).toNat = g.fatBegin.toNat + copy * g.sectorsPerFat.toNat + i / 128 := by
  obtain ⟨hc, hi⟩ := h
  have hf := hg.fits
  have hm := Nat.mul_le_mul_right g.sectorsPerFat.toNat (Nat.succ_le_of_lt hc)
  rw [Nat.succ_mul] at hm
  have hs : UInt32.size = 4294967296 := rfl
  have hcl : copy < 4294967296 := by have := g.fatCount.toNat_lt; omega
  have hd : i / 128 < g.sectorsPerFat.toNat := by omega
  rw [sector, UInt32.toNat_add, UInt32.toNat_add, UInt32.toNat_mul, UInt32.toNat_ofNat',
    UInt32.toNat_ofNat', Nat.mod_eq_of_lt hcl, Nat.mod_eq_of_lt (show i / 128 < _ by omega)]
  rw [Nat.mod_eq_of_lt (show copy * g.sectorsPerFat.toNat < 4294967296 by omega)]
  omega

-- Different entries are in different sectors or at different places in one of them.
theorem Stands.sector_ne (h : g.Stands copy i) (h' : g.Stands copy' i') (hg : g.Tabular)
    (hn : copy ≠ copy' ∨ i / 128 ≠ i' / 128) : g.sector copy i ≠ g.sector copy' i' := by
  intro he
  have he := congrArg UInt32.toNat he
  rw [h.sector_toNat hg, h'.sector_toNat hg] at he
  have hi : i / 128 < g.sectorsPerFat.toNat := by
    have := h.right
    omega
  have hi' : i' / 128 < g.sectorsPerFat.toNat := by
    have := h'.right
    omega
  have hc : copy = copy' := by
    rcases Nat.lt_trichotomy copy copy' with hlt | rfl | hlt
    · have := Nat.mul_le_mul_right g.sectorsPerFat.toNat (Nat.succ_le_of_lt hlt)
      rw [Nat.succ_mul] at this
      omega
    · rfl
    · have := Nat.mul_le_mul_right g.sectorsPerFat.toNat (Nat.succ_le_of_lt hlt)
      rw [Nat.succ_mul] at this
      omega
  subst hc
  omega

theorem Valid.bytes (h : g.Valid cluster) (hg : g.Tabular) :
    (cluster * 4).toNat = cluster.toNat * 4 := by
  have hl := h.lt hg
  have he : eoc.toNat = 0x0FFFFFF8 := rfl
  have h4 : (4 : UInt32).toNat = 4 := rfl
  rw [UInt32.toNat_mul, h4]
  exact Nat.mod_eq_of_lt (by omega)

theorem Valid.offset (h : g.Valid cluster) (hg : g.Tabular) :
    (cluster * 4 % 512).toNat = cluster.toNat % 128 * 4 := by
  have hs : (512 : UInt32).toNat = 512 := rfl
  rw [UInt32.toNat_mod, h.bytes hg, hs]
  omega

theorem Valid.copySector (h : g.Valid cluster) (hg : g.Tabular) :
    g.copySector copy cluster = g.sector copy cluster.toNat := by
  have hs : (512 : UInt32).toNat = 512 := rfl
  have hd : cluster * 4 / 512 = .ofNat (cluster.toNat / 128) := by
    apply UInt32.toNat_inj.mp
    have hl : cluster.toNat / 128 < 4294967296 := by have := cluster.toNat_lt; omega
    rw [UInt32.toNat_div, h.bytes hg, hs, UInt32.toNat_ofNat_of_lt' hl]
    omega
  rw [Layout.copySector, sector, hd]

theorem Valid.fatSector (h : g.Valid cluster) (hg : g.Tabular) :
    g.fatSector cluster = g.sector 0 cluster.toNat := by
  rw [← h.copySector hg, Layout.copySector, Geometry.fatSector]
  simp

theorem Valid.next_eq (h : g.Valid cluster) (hg : g.Tabular) :
    g.next card cluster = g.word card 0 cluster.toNat &&& 0x0FFFFFFF := by
  rw [next, Geometry.fatEntry, h.fatSector hg, h.offset hg]
  rfl

-- One copy after the other is written to.
theorem Stored.none : g.Stored 0 cluster value card card where
  word _ _ _ := by simp
  beside _ _ := rfl

theorem Stored.succ (h : g.Stored k cluster value card card') (hg : g.Tabular)
    (hc : g.Valid cluster) (hk : k < g.fatCount.toNat) :
    g.Stored (k + 1) cluster value card
      (Function.update card' (g.sector k cluster.toNat)
        (write32 (card' (g.sector k cluster.toNat)) (cluster.toNat % 128 * 4)
          (merge value (g.word card' k cluster.toNat)))) where
  word copy i hs := by
    have hv := hc.stands hg hk
    have hw := h.word copy i hs
    by_cases he : copy = k ∧ i / 128 = cluster.toNat / 128
    case neg =>
      have hn : g.sector copy i ≠ g.sector k cluster.toNat :=
        hs.sector_ne hv hg (by omega)
      have hi : (copy < k + 1 ∧ i = cluster.toNat) ↔ (copy < k ∧ i = cluster.toNat) := by
        constructor
        · rintro ⟨hl, rfl⟩
          exact ⟨by omega, rfl⟩
        · rintro ⟨hl, rfl⟩
          exact ⟨by omega, rfl⟩
      simp only [hi]
      rw [← hw, Layout.word, Function.update_of_ne hn, Layout.word]
    case pos =>
      obtain ⟨rfl, hd⟩ := he
      have hse : g.sector copy i = g.sector copy cluster.toNat := by rw [sector, hd, sector]
      rw [Layout.word, hse, Function.update_self]
      by_cases hi : i = cluster.toNat
      case pos =>
        subst hi
        rw [read32_write32, if_pos ⟨Nat.lt_succ_self _, rfl⟩, hw, if_neg (by omega)]
      case neg =>
        rw [read32_write32_of_disjoint (by omega), if_neg (by omega)]
        rw [if_neg (by omega), Layout.word, hse] at hw
        exact hw.trans (by rw [Layout.word, hse])
  beside lba hl := by
    rw [Function.update_of_ne (hl k _ (hc.stands hg hk)), h.beside lba hl]

end Layout
end Fat32
