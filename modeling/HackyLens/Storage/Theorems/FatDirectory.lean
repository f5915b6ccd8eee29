import HackyLens.Lib.Chain
import HackyLens.Lib.Returns
import HackyLens.Storage.FatDirectory
import HackyLens.Storage.Theorems.FatAlloc

-- When the clusters of a directory can be lost, while room is looked for in it.

namespace Fat32

open Core Prog Chain
open Sd (Card Verdict)

variable {admits : Verdict → Prop} {hung : Prop} {s : Driver} {card card' : Card}

namespace Layout

-- The clusters follow the copies of the table.
structure Sound (g : Layout) : Prop extends g.Tabular where
  apart : g.fatBegin.toNat + g.fatCount.toNat * g.sectorsPerFat.toNat ≤ g.dataBegin.toNat
  room : g.dataBegin.toNat + g.clusterCount.toNat * g.sectorsPerCluster.toNat ≤ UInt32.size

section Region

variable {g : Layout} {cluster : UInt32}

-- Where the sectors of a cluster are.
theorem Valid.lba_toNat {i : Nat} (hv : g.Valid cluster) (hg : g.Sound)
    (hi : i < g.sectorsPerCluster.toNat) :
    (g.clusterLba cluster + .ofNat i).toNat =
      g.dataBegin.toNat + (cluster.toNat - 2) * g.sectorsPerCluster.toNat + i := by
  obtain ⟨hl, hu⟩ := hv
  have hroom := hg.room
  have hsize : UInt32.size = 4294967296 := rfl
  have h2 : (2 : UInt32).toNat = 2 := rfl
  have hspc := g.sectorsPerCluster.toNat_lt
  have hm := Nat.mul_le_mul_right g.sectorsPerCluster.toNat
    (show cluster.toNat - 2 + 1 ≤ g.clusterCount.toNat by omega)
  rw [Nat.succ_mul] at hm
  have hp : ((cluster - 2) * g.sectorsPerCluster.toUInt32).toNat =
      (cluster.toNat - 2) * g.sectorsPerCluster.toNat := by
    have hle : 2 ≤ cluster := UInt32.le_iff_toNat_le.mpr hl
    rw [UInt32.toNat_mul, UInt32.toNat_sub_of_le _ _ hle, h2,
      UInt8.toNat_toUInt32]
    exact Nat.mod_eq_of_lt (by omega)
  have hb : (g.clusterLba cluster).toNat =
      g.dataBegin.toNat + (cluster.toNat - 2) * g.sectorsPerCluster.toNat := by
    rw [Geometry.clusterLba, UInt32.toNat_add, hp]
    exact Nat.mod_eq_of_lt (by omega)
  rw [UInt32.toNat_add, hb, UInt32.toNat_ofNat_of_lt' (by omega)]
  exact Nat.mod_eq_of_lt (by omega)

-- The sectors of the clusters are none of the table's.
theorem Valid.lba_ne {copy i j : Nat} (hv : g.Valid cluster) (hg : g.Sound)
    (hj : j < g.sectorsPerCluster.toNat) (hs : g.Stands copy i) :
    g.clusterLba cluster + .ofNat j ≠ g.sector copy i := by
  intro he
  have he := congrArg UInt32.toNat he
  rw [hv.lba_toNat hg hj, hs.sector_toNat hg.toTabular] at he
  obtain ⟨hc, hi⟩ := hs
  have hm := Nat.mul_le_mul_right g.sectorsPerFat.toNat (Nat.succ_le_of_lt hc)
  rw [Nat.succ_mul] at hm
  have ha := hg.apart
  omega

end Region

-- The clusters that are reached from one of them through the first copy of the table.
def Reaches (g : Layout) (card : Card) : UInt32 → UInt32 → Prop :=
  Chain.Reaches (g.next card) (inChain ·)

-- No sector of the cluster has room for so many entries.
def Crowded (g : Layout) (card : Card) (needed : UInt8) (cluster : UInt32) : Prop :=
  ∀ i < g.sectorsPerCluster.toNat,
    sectorRun (card (g.clusterLba cluster + .ofNat i)) needed = none

-- The clusters that the search has been through without finding room.
inductive Passed (g : Layout) (card : Card) (needed : UInt8) (dirCluster : UInt32) : UInt32 → Prop
  | start : inChain dirCluster → g.Crowded card needed dirCluster →
    Passed g card needed dirCluster dirCluster
  | step {cluster} : Passed g card needed dirCluster cluster → inChain (g.next card cluster) →
    g.Crowded card needed (g.next card cluster) →
    Passed g card needed dirCluster (g.next card cluster)

variable {g : Layout} {needed : UInt8} {dirCluster cluster previous : UInt32}

theorem Passed.reaches (h : g.Passed card needed dirCluster cluster) :
    g.Reaches card dirCluster cluster := by
  induction h with
  | start h _     => exact .start h
  | step _ h _ ih => exact .step ih h

theorem wp_slotInSectors {base : UInt32} {left i : Nat}
    (h : ∀ j < i, sectorRun (card (base + .ofNat j)) needed = none) :
    wp (onCard admits hung) (slotInSectors cluster base needed left i)
      (fun r s' card' => card' = card ∧ s'.allocHint = s.allocHint ∧
        (r = some none →
          ∀ j < i + left, sectorRun (card (base + .ofNat j)) needed = none)) s card := by
  induction left generalizing i s with
  | zero => exact ⟨rfl, rfl, fun _ => h⟩
  | succ left ih =>
    rw [slotInSectors, wp_bind]
    refine wp_readBlock ?_ fun garbage _ => ⟨rfl, rfl, nofun⟩
    rw [wp_ite, if_pos rfl, wp_bind, wp_get]
    dsimp only
    split
    case h_1 => exact ⟨rfl, rfl, nofun⟩
    case h_2 hn =>
      have hx := @ih { s with sectorData := card (base + .ofNat i) } (i + 1) fun j hj => ?_
      · simpa only [Nat.add_assoc, Nat.add_comm 1] using hx
      · by_cases he : j = i
        case pos => exact he ▸ hn
        case neg => exact h j (by omega)

-- Where the search may have come to an end, also if the table could not be read.
def Stopped (g : Layout) (card : Card) (needed : UInt8) (dirCluster : UInt32) : Walk → Prop
  | .ended previous => previous = 0 ∨ g.Passed card needed dirCluster previous
  | _               => True

theorem wp_walk : wp (onCard admits True) (g.walk dirCluster needed)
    (fun r s' card' => card' = card ∧ s'.allocHint = s.allocHint ∧
      g.Stopped card needed dirCluster r) s card := by
  refine wp_loop (fun b s' card' => card' = card ∧ s'.allocHint = s.allocHint ∧
    ((b.1 = dirCluster ∧ b.2 = 0) ∨ (g.Passed card needed dirCluster b.2 ∧
      (b.1 = g.next card b.2 ∨ ¬inChain b.1)))) (fun _ _ _ _ => trivial) ?_
    ⟨rfl, rfl, .inl ⟨rfl, rfl⟩⟩
  rintro ⟨current, previous⟩ s₁ card' ⟨rfl, hs, hb⟩
  rw [walkRound, wp_ite]
  split
  case isFalse => exact ⟨rfl, hs, hb.imp And.right And.left⟩
  case isTrue hc =>
    rw [wp_bind]
    refine wp_mono (wp_slotInSectors fun j hj => absurd hj (Nat.not_lt_zero j)) ?_
    rintro r s₂ card' ⟨rfl, hs₂, hn⟩
    have hs₂ := hs₂.trans hs
    split
    case h_1 => exact ⟨rfl, hs₂, trivial⟩
    case h_2 => exact ⟨rfl, hs₂, trivial⟩
    case h_3 =>
      have hcrowded : g.Crowded card' needed current := by
        intro i hi
        exact hn rfl i (by simpa using hi)
      have hp : g.Passed card' needed dirCluster current := by
        rcases hb with ⟨hr, _⟩ | ⟨hp, he | hn⟩
        · cases hr
          exact .start hc hcrowded
        · have he : current = g.next card' previous := he
          subst he
          exact .step hp hc hcrowded
        · exact absurd hc hn
      rw [wp_bind]
      refine wp_nextCluster (fun _ => ?_) fun _ _ => ?_
      · exact ⟨rfl, hs₂, .inr ⟨hp, .inl rfl⟩⟩
      · exact ⟨rfl, hs₂, .inr ⟨hp, .inr Bool.false_ne_true⟩⟩

-- Clusters whose entry has been written in some of the copies.
section Stored

variable {k : Nat} {value cluster' : UInt32}
variable (h : g.Stored k cluster value card card')
include h

theorem Stored.next_of_ne (hg : g.Tabular) (hv : g.Valid cluster') (hn : cluster' ≠ cluster) :
    g.next card' cluster' = g.next card cluster' := by
  rw [hv.next_eq hg, hv.next_eq hg, h.word 0 _ (hv.stands hg (fats_pos hg)), if_neg]
  exact fun he => hn (UInt32.toNat_inj.mp he.right)

theorem Stored.next_self (hg : g.Tabular) (hv : g.Valid cluster) :
    g.next card' cluster = g.next card cluster ∨ g.next card' cluster = value &&& 0x0FFFFFFF := by
  rw [hv.next_eq hg, hv.next_eq hg, h.word 0 _ (hv.stands hg (fats_pos hg))]
  split
  case isTrue  => exact .inr (merge_low _ _)
  case isFalse => exact .inl rfl

end Stored

-- A cluster that was free has been taken, or part of its entries have been written.
inductive Grabbed (g : Layout) (card : Card) (card' : Card) : Option UInt32 → Prop
  | none : (∀ c, g.Valid c → g.next card c ≠ 0 → g.next card' c = g.next card c) →
    Grabbed g card card' .none
  | some {new} : g.Valid new → g.next card new = 0 →
    (∀ c, g.Valid c → c ≠ new → g.next card' c = g.next card c) → Grabbed g card card' (.some new)

theorem wp_allocChain_one (hg : g.Tabular) (hs : g.Hinted s) :
    wp (onCard admits True) (g.allocChain 1)
      (fun r _ card' => g.Grabbed card card' r) s card := by
  have step : wp (onCard admits True) (g.allocClusters 1 0 0)
      (fun r _ card' => g.Grabbed card card' r) s card := by
    rw [allocClusters, wp_bind]
    refine wp_mono (wp_findFreeCluster hg hs) fun found s₁ card₁ hf => ?_
    obtain rfl := hf.kept
    cases found with
    | none => exact .none fun _ _ _ => rfl
    | some new =>
      obtain ⟨hv, hz⟩ := hf.some new rfl
      dsimp only
      rw [wp_bind]
      refine wp_mono (wp_writeEntry hg hv) fun ok s₂ card₂ h₂ => ?_
      obtain ⟨k, _, hst, _⟩ := h₂.stored
      have others (c : UInt32) (hc : g.Valid c) (hn : c ≠ new) :
          g.next card₂ c = g.next card₁ c := hst.next_of_ne hg hc hn
      rw [wp_ite]
      split
      case isFalse =>
        exact .none fun c hc hn => others c hc fun he => hn (he ▸ hz)
      case isTrue => exact .some hv hz others
  exact step

-- What clearing sectors leaves of the card.
structure Zeroed (admits : Verdict → Prop) (s : Driver) (card : Card) (cleared : UInt32 → Prop)
    (ok : Bool) (s' : Driver) (card' : Card) : Prop where
  state : s' = s
  kept : ∀ lba, ¬cleared lba → card' lba = card lba
  failed : ok = false → ∃ garbage, admits (.fails garbage)

theorem wp_zeroSectors {base : UInt32} {left i : Nat} :
    wp (onCard admits hung) (zeroSectors base left i)
      (Zeroed admits s card fun lba => ∃ j, i ≤ j ∧ j < i + left ∧ lba = base + .ofNat j)
      s card := by
  induction left generalizing i card with
  | zero => exact ⟨rfl, fun _ _ => rfl, nofun⟩
  | succ left ih =>
    rw [zeroSectors, wp_bind]
    refine wp_writeBlock ?_ fun garbage ha => ⟨rfl, fun _ _ => rfl, fun _ => ⟨garbage, ha⟩⟩
    rw [wp_ite, if_pos rfl]
    refine wp_mono ih fun ok s' card' h => ⟨h.state, fun lba hl => ?_, h.failed⟩
    rw [h.kept lba fun ⟨j, h₁, h₂, he⟩ => hl ⟨j, by omega, by omega, he⟩]
    exact Function.update_of_ne (fun he => hl ⟨i, Nat.le_refl i, by omega, he⟩) _ _

-- The table stays as it is when a cluster is cleared.
theorem wp_zeroCluster (hg : g.Sound) (hv : g.Valid cluster) :
    wp (onCard admits hung) (g.zeroCluster cluster)
      (fun ok s' card' => s'.allocHint = s.allocHint ∧
        (∀ c, g.Valid c → g.next card' c = g.next card c) ∧
        (ok = false → ∃ garbage, admits (.fails garbage))) s card := by
  rw [zeroCluster, wp_bind, wp_modify]
  refine wp_mono wp_zeroSectors fun ok s' card' h => ⟨by rw [h.state], fun c hc => ?_, h.failed⟩
  have hst : g.Stands 0 c.toNat := hc.stands hg.toTabular (fats_pos hg.toTabular)
  rw [next, next, hc.fatSector hg.toTabular, h.kept]
  rintro ⟨j, _, hj, he⟩
  exact hv.lba_ne hg (by omega) hst he.symm

-- What becomes of the table when a cluster is appended to the one that seems to be the last.
inductive Extended (g : Layout) (card : Card) (previous : UInt32) (card' : Card) : Prop
  | spared : (∀ c, g.Valid c → g.next card c ≠ 0 → g.next card' c = g.next card c) →
    Extended _ _ _ _
  | appended (new : UInt32) : g.Valid new → g.next card new = 0 →
    (∀ c, g.Valid c → c ≠ new → c ≠ previous → g.next card' c = g.next card c) →
    (previous ≠ new →
      g.next card' previous = g.next card previous ∨ g.next card' previous = new) →
    Extended _ _ _ _

theorem wp_extend (hg : g.Sound) (hs : g.Hinted s) (hp : g.Valid previous) :
    wp (onCard admits True) (g.extend previous)
      (fun _ _ card' => g.Extended card previous card') s card := by
  have ht := hg.toTabular
  rw [extend, wp_bind]
  refine wp_mono (wp_allocChain_one ht hs) fun r s₁ card₁ h₁ => ?_
  cases h₁ with
  | none h => exact .spared h
  | @some new hv hz h =>
    have grabbed {card₂ : Card} (hn : ∀ c, g.Valid c → g.next card₂ c = g.next card₁ c) :
        g.Extended card previous card₂ := by
      refine .appended new hv hz (fun c hc hne _ => (hn c hc).trans (h c hc hne)) fun hne => ?_
      exact .inl ((hn _ hp).trans (h _ hp hne))
    dsimp only
    rw [wp_bind]
    refine wp_mono (wp_zeroCluster hg hv) ?_
    rintro ok s₂ card₂ ⟨_, h₂, _⟩
    rw [wp_ite]
    split
    case isFalse => exact grabbed h₂
    case isTrue =>
      rw [wp_bind]
      refine wp_mono (wp_writeEntry ht hp) fun ok s₃ card₃ h₃ => ?_
      obtain ⟨k, _, hst, _⟩ := h₃.stored
      have done : g.Extended card previous card₃ := by
        refine .appended new hv hz (fun c hc hne hnp => ?_) fun hne => ?_
        · rw [hst.next_of_ne ht hc hnp, h₂ c hc, h c hc hne]
        · refine (hst.next_self ht hp).imp (fun he => ?_) fun he => ?_
          · rw [he, h₂ _ hp, h _ hp hne]
          · rw [he]
            exact low_of_le (Nat.le_of_lt (hv.lt ht))
      rw [wp_ite]
      split
      case isTrue  => exact done
      case isFalse => exact done

-- Where it matters that the search goes on: the first cluster is full, another one follows it, and
-- there is a free cluster to be taken for the second one.
structure Exposed (g : Layout) (card : Card) (needed : UInt8) (dirCluster : UInt32) : Prop where
  live : inChain dirCluster
  crowded : g.Crowded card needed dirCluster
  follows : inChain (g.next card dirCluster)
  apart : g.next card dirCluster ≠ dirCluster
  free : ∃ new, g.Valid new ∧ g.next card new = 0 ∧ new ≠ g.next card dirCluster

-- A directory of the volume.
def Directory (g : Layout) (card : Card) (dirCluster : UInt32) : Prop :=
  ∀ cluster, g.Reaches card dirCluster cluster → g.Valid cluster

theorem ne_zero_of_inChain (h : inChain cluster) : cluster ≠ 0 := by
  rintro rfl
  exact absurd h (by decide)

theorem Passed.root (h : g.Passed card needed dirCluster previous) :
    inChain dirCluster ∧ g.Crowded card needed dirCluster := by
  induction h with
  | start h hc    => exact ⟨h, hc⟩
  | step _ _ _ ih => exact ih

-- What follows the first cluster of a directory that is not exposed.
theorem Exposed.second {new : UInt32} (hx : ¬g.Exposed card needed dirCluster)
    (hd : inChain dirCluster ∧ g.Crowded card needed dirCluster)
    (hl : inChain (g.next card dirCluster)) (hv : g.Valid new) (hz : g.next card new = 0) :
    g.next card dirCluster = dirCluster ∨ g.next card dirCluster = new := by
  by_contra hn
  rw [not_or] at hn
  exact hx ⟨hd.left, hd.right, hl, hn.left, new, hv, hz, fun he => hn.right he.symm⟩

-- Unless it is exposed, the search only gets to the first cluster, or to one that is marked as free.
theorem Passed.of_not_exposed {new : UInt32} (h : g.Passed card needed dirCluster previous)
    (hx : ¬g.Exposed card needed dirCluster) (hv : g.Valid new) (hz : g.next card new = 0) :
    previous = dirCluster ∨ (previous = new ∧ g.next card dirCluster = new) := by
  induction h with
  | start => exact .inl rfl
  | @step cluster hp hl hc ih =>
    rcases ih with rfl | ⟨rfl, _⟩
    · exact (Exposed.second hx hp.root hl hv hz).imp_right fun he => ⟨he, he⟩
    · exact absurd hz (ne_zero_of_inChain hl)

theorem Extended.reaches (he : g.Extended card previous card') (hd : g.Directory card dirCluster)
    (hx : ¬g.Exposed card needed dirCluster) (hp : g.Passed card needed dirCluster previous)
    (h : g.Reaches card dirCluster cluster) : g.Reaches card' dirCluster cluster := by
  cases he with
  | spared hn =>
    exact h.mono fun c hc hl => hn c (hd c hc) (ne_zero_of_inChain hl)
  | appended new hv hz hn hpn =>
    -- The new cluster leads nowhere, so that only the link of `previous` matters.
    have others (hk : inChain (g.next card previous) → previous ≠ new →
        g.next card' previous = g.next card previous) : g.Reaches card' dirCluster cluster := by
      refine h.mono fun c hc hl => ?_
      have hcn : c ≠ new := fun he => ne_zero_of_inChain hl (he ▸ hz)
      by_cases hcp : c = previous
      case pos =>
        subst hcp
        exact hk hl hcn
      case neg => exact hn c (hd c hc) hcn hcp
    rcases hp.of_not_exposed hx hv hz with rfl | ⟨rfl, _⟩
    case inr => exact others fun _ hne => absurd rfl hne
    by_cases hl : inChain (g.next card previous)
    case neg => exact others fun hl' => absurd hl' hl
    have hroot := h.root_isLive
    rcases Exposed.second hx hp.root hl hv hz with hself | hnew
    · -- A directory that leads to itself has one cluster.
      have hc : cluster = previous :=
        h.closed (P := (· = previous)) rfl fun c hc _ => hc ▸ hself
      subst hc
      exact .start hroot
    · refine others fun _ hne => (hpn hne).elim id fun he => he.trans hnew.symm

-- What the search for room leaves of a directory, whatever fails.
theorem wp_findSlots (hg : g.Sound) (hs : g.Hinted s) (hd : g.Directory card dirCluster)
    (hx : ¬g.Exposed card needed dirCluster) :
    wp (onCard (fun _ => True) True) (g.findSlots dirCluster needed) (fun _ _ card' =>
      ∀ cluster, g.Reaches card dirCluster cluster → g.Reaches card' dirCluster cluster) s card := by
  rw [findSlots, wp_bind]
  refine wp_mono wp_walk ?_
  rintro r s₁ card₁ ⟨rfl, hh, hr⟩
  split
  case h_1 => exact fun _ => id
  case h_2 => exact fun _ => id
  case h_3 previous =>
    rw [wp_ite]
    split
    case isFalse => exact fun _ => id
    case isTrue hle =>
      have hp : g.Passed card₁ needed dirCluster previous := by
        refine hr.resolve_left fun hz => ?_
        rw [hz] at hle
        exact absurd hle (by decide)
      have hs₁ : g.Hinted s₁ := by rw [Hinted, hh]; exact hs
      refine wp_mono (wp_extend hg hs₁ (hd _ hp.reaches)) fun _ _ card' he cluster h => ?_
      exact he.reaches hd hx hp h

section Losing

-- A run in which the reads that matter fail, and all other blocks can be read and written.

variable {lba first last : UInt32} {hint : UInt32} {sectorData : Memory}

theorem returns_readBlock :
    Returns Sd.handler (readBlock lba) s card true { s with sectorData := card lba } card :=
  Tree.Returns.call Verdict.passes .ret

theorem returns_readBlock_failed :
    Returns Sd.handler (readBlock lba) s card false s card :=
  Tree.Returns.call (Verdict.fails s.sectorData) .ret

theorem returns_nextCluster : Returns Sd.handler (g.nextCluster cluster) s card
    (g.next card cluster) { s with sectorData := card (g.fatSector cluster) } card := by
  rw [nextCluster, returns_bind]
  exact ⟨_, _, _, returns_readBlock, .ret⟩

theorem returns_nextCluster_failed :
    Returns Sd.handler (g.nextCluster cluster) s card eoc s card := by
  rw [nextCluster, returns_bind]
  exact ⟨_, _, _, returns_readBlock_failed, .ret⟩

theorem returns_slotInSectors {base : UInt32} {left i : Nat}
    (h : ∀ j, i ≤ j → j < i + left → sectorRun (card (base + .ofNat j)) needed = none) :
    ∃ sectorData, Returns Sd.handler (slotInSectors cluster base needed left i) s card (some none)
      { s with sectorData } card := by
  induction left generalizing i s with
  | zero => exact ⟨s.sectorData, .ret⟩
  | succ left ih =>
    obtain ⟨sectorData, hr⟩ := @ih { s with sectorData := card (base + .ofNat i) } (i + 1)
      fun j h₁ h₂ => h j (by omega) (by omega)
    refine ⟨sectorData, ?_⟩
    rw [slotInSectors, returns_bind]
    refine ⟨_, _, _, returns_readBlock, ?_⟩
    rw [if_pos rfl, returns_bind]
    refine ⟨_, _, _, returns_get.mpr ⟨rfl, rfl, rfl⟩, ?_⟩
    dsimp only
    rw [h i (Nat.le_refl i) (by omega)]
    exact hr

-- The table cannot be read after the first cluster.
theorem returns_walk (hl : inChain dirCluster) (hc : g.Crowded card needed dirCluster) :
    ∃ sectorData, Returns Sd.handler (g.walk dirCluster needed) s card (.ended dirCluster)
      { s with sectorData } card := by
  have hx : ∃ sectorData, Returns Sd.handler
      (slotInSectors dirCluster (g.clusterLba dirCluster) needed g.sectorsPerCluster.toNat 0)
      s card (some none) { s with sectorData } card :=
    returns_slotInSectors fun j _ hj => hc j (by simpa using hj)
  obtain ⟨sectorData, hr⟩ := hx
  have round : Returns Sd.handler (g.walkRound needed (dirCluster, 0)) s card
      (.inr (eoc, dirCluster)) { s with sectorData } card := by
    rw [walkRound, if_pos hl, returns_bind]
    refine ⟨_, _, _, hr, ?_⟩
    dsimp only
    rw [returns_bind]
    exact ⟨_, _, _, returns_nextCluster_failed, .ret⟩
  exact ⟨sectorData, .loop_next (by decide) round (.loop_done (by decide) .ret)⟩

theorem searchRound_free (hle : cluster ≤ last) (hz : g.next card cluster = 0) :
    ∃ sectorData, Returns Sd.handler (g.searchRound last cluster) s card (.inl (some cluster))
      ⟨cluster + 1, sectorData⟩ card := by
  refine ⟨card (g.fatSector cluster), ?_⟩
  rw [searchRound, if_pos hle, returns_bind]
  refine ⟨_, _, _, returns_nextCluster, ?_⟩
  rw [if_pos hz]
  exact .ret

theorem searchRound_failed (hle : cluster ≤ last) :
    Returns Sd.handler (g.searchRound last cluster) s card (.inr (cluster + 1)) s card := by
  rw [searchRound, if_pos hle, returns_bind]
  exact ⟨_, _, _, returns_nextCluster_failed, .ret⟩

theorem toNat_succ (hle : cluster.toNat + 1 < UInt32.size) :
    (cluster + 1).toNat = cluster.toNat + 1 := by
  rw [UInt32.toNat_add]
  exact Nat.mod_eq_of_lt hle

-- The entries before a free cluster may all be unreadable, so that it is the one that is found.
theorem returns_search {n fuel : Nat} (hn : first.toNat + n = cluster.toNat) (hf : n < fuel)
    (hle : cluster ≤ last) (hz : g.next card cluster = 0) :
    ∃ sectorData, Returns Sd.handler (Prog.loop (g.searchRound last) fuel first) s card
      (some cluster) ⟨cluster + 1, sectorData⟩ card := by
  induction n generalizing first fuel with
  | zero =>
    obtain rfl : first = cluster := UInt32.toNat_inj.mp hn
    obtain ⟨sectorData, hr⟩ := searchRound_free (s := s) hle hz
    exact ⟨sectorData, .loop_done hf hr⟩
  | succ n ih =>
    have hlt := cluster.toNat_lt
    have hfirst : first ≤ last := by
      have := UInt32.le_iff_toNat_le.mp hle
      exact UInt32.le_iff_toNat_le.mpr (by omega)
    have hs := toNat_succ (show first.toNat + 1 < UInt32.size by
      have : UInt32.size = 4294967296 := rfl
      omega)
    obtain ⟨sectorData, hr⟩ := @ih (first + 1) (fuel - 1) (by omega) (by omega)
    exact ⟨sectorData, .loop_next (by omega) (searchRound_failed hfirst) hr⟩

theorem returns_search_none {n fuel : Nat} (hn : first.toNat + n = last.toNat + 1) (hf : n < fuel)
    (hl : last.toNat + 1 < UInt32.size) :
    Returns Sd.handler (Prog.loop (g.searchRound last) fuel first) s card none s card := by
  induction n generalizing first fuel with
  | zero =>
    refine .loop_done hf ?_
    rw [searchRound, if_neg]
    · exact .ret
    · rw [UInt32.le_iff_toNat_le]
      omega
  | succ n ih =>
    have hfirst : first ≤ last := UInt32.le_iff_toNat_le.mpr (by omega)
    have hs := toNat_succ (show first.toNat + 1 < UInt32.size by omega)
    exact .loop_next (by omega) (searchRound_failed hfirst) (ih (by omega) (by omega))

theorem returns_findFreeCluster (hg : g.Tabular) (hs : g.Hinted s) (hv : g.Valid cluster)
    (hz : g.next card cluster = 0) :
    ∃ s', g.Hinted s' ∧ Returns Sd.handler g.findFreeCluster s card (some cluster) s' card := by
  have he : eoc.toNat = 0x0FFFFFF8 := rfl
  have h2 : (2 : UInt32).toNat = 2 := rfl
  have hsize : UInt32.size = 4294967296 := rfl
  have hcl := hg.clusters
  obtain ⟨hl, hu⟩ := hv
  have hs : s.allocHint.toNat ≤ g.clusterCount.toNat + 2 := hs
  have hmax : (g.clusterCount + 1).toNat = g.clusterCount.toNat + 1 := toNat_succ (by omega)
  have hinted (sectorData : Memory) : g.Hinted ⟨cluster + 1, sectorData⟩ := by
    rw [Hinted, toNat_succ (by omega)]
    omega
  obtain ⟨start, hst, h₁, h₂⟩ : ∃ start, (if s.allocHint ≥ 2 then s.allocHint else 2) = start ∧
      2 ≤ start.toNat ∧ start.toNat ≤ g.clusterCount.toNat + 2 := by
    refine ⟨_, rfl, ?_⟩
    split
    case isTrue h  => exact ⟨UInt32.le_iff_toNat_le.mp h, hs⟩
    case isFalse h => exact ⟨by omega, by omega⟩
  by_cases hb : start.toNat ≤ cluster.toNat
  case pos =>
    have hx : ∃ sectorData, Returns Sd.handler (g.search start (g.clusterCount + 1)) s card
        (some cluster) ⟨cluster + 1, sectorData⟩ card :=
      returns_search (show start.toNat + (cluster.toNat - start.toNat) = cluster.toNat by omega)
        (by omega) (UInt32.le_iff_toNat_le.mpr (by omega)) hz
    obtain ⟨sectorData, hr⟩ := hx
    refine ⟨_, hinted sectorData, ?_⟩
    rw [findFreeCluster, returns_bind]
    refine ⟨_, _, _, returns_get.mpr ⟨rfl, rfl, rfl⟩, ?_⟩
    dsimp only
    rw [hst, returns_bind]
    exact ⟨_, _, _, hr, .ret⟩
  case neg =>
    have hpred : (start - 1).toNat = start.toNat - 1 :=
      UInt32.toNat_sub_of_le _ _ (UInt32.le_iff_toNat_le.mpr (by
        have : (1 : UInt32).toNat = 1 := rfl
        omega))
    have hx : ∃ sectorData, Returns Sd.handler (g.search 2 (start - 1)) s card
        (some cluster) ⟨cluster + 1, sectorData⟩ card :=
      returns_search (show (2 : UInt32).toNat + (cluster.toNat - 2) = cluster.toNat by omega)
        (by omega) (UInt32.le_iff_toNat_le.mpr (by omega)) hz
    obtain ⟨sectorData, hr⟩ := hx
    refine ⟨_, hinted sectorData, ?_⟩
    rw [findFreeCluster, returns_bind]
    refine ⟨_, _, _, returns_get.mpr ⟨rfl, rfl, rfl⟩, ?_⟩
    dsimp only
    rw [hst, returns_bind]
    refine ⟨none, s, card, ?_, hr⟩
    exact returns_search_none
      (show start.toNat + (g.clusterCount.toNat + 2 - start.toNat) = _ by omega)
      (by omega) (by omega)

-- In this run the entry of the first cluster is overwritten.
theorem Exposed.loses (hx : g.Exposed card needed dirCluster) (hg : g.Sound) (hs : g.Hinted s)
    (hv : g.Valid dirCluster) :
    ∃ r s' card', Returns Sd.handler (g.findSlots dirCluster needed) s card r s' card' ∧
      ¬g.Reaches card' dirCluster (g.next card dirCluster) := by
  have ht := hg.toTabular
  obtain ⟨new, hnv, hz, hne⟩ := hx.free
  have hnd : new ≠ dirCluster := by
    rintro rfl
    exact ne_zero_of_inChain hx.follows hz
  obtain ⟨sectorData, hwalk⟩ : ∃ sectorData, Returns Sd.handler (g.walk dirCluster needed) s card
      (.ended dirCluster) { s with sectorData } card := returns_walk hx.live hx.crowded
  have hs : g.Hinted { s with sectorData } := hs
  obtain ⟨s₁, hs₁, hfind⟩ := returns_findFreeCluster ht hs hnv hz
  have hmark : wp passing (g.writeEntry new eoc) _ s₁ card := wp_writeEntry_passing ht hnv hs₁
  obtain ⟨_, s₂, card₂, hmark, rfl, hs₂, hst₂⟩ :=
    Returns.exists_of_wp .passes rfl (fun _ => id) hmark
  have hzero : wp passing (g.zeroCluster new) _ s₂ card₂ := wp_zeroCluster hg hnv
  obtain ⟨ok, s₃, card₃, hzero, hh, hn₃, hok⟩ :=
    Returns.exists_of_wp .passes rfl (fun _ => id) hzero
  obtain rfl : ok = true := by
    by_contra hn
    obtain ⟨_, ha⟩ := hok (Bool.eq_false_of_not_eq_true hn)
    cases ha
  have hs₃ : g.Hinted s₃ := by rw [Hinted, hh]; exact hs₂
  have hlink : wp passing (g.writeEntry dirCluster new) _ s₃ card₃ :=
    wp_writeEntry_passing ht hv hs₃
  obtain ⟨_, s₄, card₄, hlink, rfl, _, hst₄⟩ :=
    Returns.exists_of_wp .passes rfl (fun _ => id) hlink
  refine ⟨some ⟨new, 0, 0⟩, s₄, card₄, ?_, fun h => ?_⟩
  · have halloc : Returns Sd.handler (g.allocChain 1) { s with sectorData } card (some new)
        s₂ card₂ := by
      have step : Returns Sd.handler (g.allocClusters 1 0 0) { s with sectorData } card (some new)
          s₂ card₂ := by
        rw [allocClusters, returns_bind]
        refine ⟨_, _, _, hfind, ?_⟩
        dsimp only
        rw [returns_bind]
        exact ⟨_, _, _, hmark, .ret⟩
      exact step
    rw [findSlots, returns_bind]
    refine ⟨_, _, _, hwalk, ?_⟩
    dsimp only
    have htwo : dirCluster ≥ 2 := UInt32.le_iff_toNat_le.mpr hv.left
    rw [if_pos htwo, extend, returns_bind]
    refine ⟨_, _, _, halloc, ?_⟩
    dsimp only
    rw [returns_bind]
    refine ⟨_, _, _, hzero, ?_⟩
    rw [if_pos rfl, returns_bind]
    exact ⟨_, _, _, hlink, .ret⟩
  · -- From the first cluster there is only a way to the new one, which is the last.
    have hfirst : g.next card₄ dirCluster = new := by
      rw [hst₄.next ht hv, if_pos rfl]
      exact low_of_le (Nat.le_of_lt (hnv.lt ht))
    have hlast : g.next card₄ new = eoc := by
      rw [hst₄.next ht hnv, if_neg hnd, hn₃ _ hnv, hst₂.next ht hnv, if_pos rfl]
      exact low_of_le (Nat.le_refl _)
    have hc : g.next card dirCluster = dirCluster ∨ g.next card dirCluster = new := by
      refine h.closed (P := fun c => c = dirCluster ∨ c = new) (.inl rfl) ?_
      rintro c (rfl | rfl) hl
      · exact .inr hfirst
      · rw [hlast] at hl
        exact absurd hl (by decide)
    exact hc.elim hx.apart fun he => hne he.symm

end Losing

-- The search leaves each cluster of the directory where it can be reached, whatever it returns.
def Keeps (g : Layout) (dirCluster : UInt32) (needed : UInt8) (s : Driver) (card : Card) : Prop :=
  ∀ r s' card', Returns Sd.handler (g.findSlots dirCluster needed) s card r s' card' →
    ∀ cluster, g.Reaches card dirCluster cluster → g.Reaches card' dirCluster cluster

theorem findSlots_keeps_iff (hg : g.Sound) (hs : g.Hinted s) (hd : g.Directory card dirCluster) :
    g.Keeps dirCluster needed s card ↔ ¬g.Exposed card needed dirCluster := by
  constructor
  · intro hk hx
    obtain ⟨r, s', card', hr, hn⟩ := hx.loses hg hs (hd _ (.start hx.live))
    exact hn (hk r s' card' hr _ (.step (.start hx.live) hx.follows))
  · intro hx r s' card' hr
    exact Returns.of_wp (fun _ => trivial) (wp_findSlots hg hs hd hx) hr

-- The root directory of this volume is full, and has two clusters.
def fullRoot : Card := fun lba =>
  if lba = 32 ∨ lba = 33 then
    write32 (write32 (fun _ => 0) 8 3) 12 eoc
  else if lba = 34 ∨ lba = 35 then
    fun _ => 0x41
  else
    blank 134 lba

theorem fullRoot_reaches {cluster : UInt32}
    (h : (blankLayout 100).Reaches fullRoot 2 cluster) : cluster = 2 ∨ cluster = 3 := by
  refine h.closed (P := fun c => c = 2 ∨ c = 3) (.inl rfl) ?_
  rintro c (rfl | rfl) hl
  · exact .inr (by decide)
  · exact absurd hl (by decide)

theorem blank_sound : (blankLayout 100).Sound where
  toTabular := blank_tabular
  apart     := by decide
  room      := by decide

theorem findSlots_keeps_iff_fullRoot :
    (blankLayout 100).Keeps 2 1 ⟨2, fun _ => 0⟩ fullRoot ↔
      ¬(blankLayout 100).Exposed fullRoot 1 2 := by
  refine findSlots_keeps_iff blank_sound (show 2 ≤ 102 by decide) fun cluster h => ?_
  rcases fullRoot_reaches h with rfl | rfl
  · exact ⟨by decide, by decide⟩
  · exact ⟨by decide, by decide⟩

-- The sector of the first cluster is read, but not the table. All blocks after that pass.
theorem findSlots_not_keeps : ∃ root s s' card',
    mount.run Sd.handler ⟨0, fun _ => 0⟩ [.passes] fullRoot =
      .done (some (blankLayout 100, root), s) fullRoot ∧
    ((blankLayout 100).findSlots root 1).run Sd.handler s
      (.passes :: .fails (fun _ => 0) :: .replicate 12 .passes) fullRoot =
      .done (some ⟨4, 0, 0⟩, s') card' ∧
    (blankLayout 100).Reaches fullRoot root 3 ∧ ¬(blankLayout 100).Reaches card' root 3 := by
  refine ⟨2, ⟨2, fullRoot 0⟩, _, _, rfl, rfl, ?_, fun h => ?_⟩
  · exact .step (.start (by decide)) (by decide)
  · have hc : (3 : UInt32) = 2 ∨ (3 : UInt32) = 4 := by
      refine h.closed (P := fun c => c = 2 ∨ c = 4) (.inl rfl) ?_
      rintro c (rfl | rfl) hl
      · exact .inr (by decide)
      · exact absurd hl (by decide)
    exact absurd hc (by decide)

end Layout
end Fat32
