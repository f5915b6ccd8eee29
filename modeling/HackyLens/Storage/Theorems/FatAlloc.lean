import Mathlib.Data.List.Chain
import HackyLens.Storage.Theorems.FatTable

-- `fat_alloc_chain` on a card, by what each of its parts does to the allocation table.

namespace Fat32

open Core Prog
open Sd (Card Verdict)

-- A card that takes certain verdicts. Whether a loop may use up its fuel is left open.
def onCard (admits : Verdict → Prop) (hung : Prop) :
    Env Sd.Call Sd.Call.Reply Card Verdict where
  handler  := Sd.handler
  admits   := admits
  call _ _ := True
  hung _   := hung

variable {admits : Verdict → Prop} {hung : Prop} {s : Driver} {card : Card} {lba : UInt32}

theorem wp_readBlock {Q : Bool → Driver → Card → Prop}
    (hq : Q true { s with sectorData := card lba } card)
    (hf : ∀ garbage, admits (.fails garbage) → Q false { s with sectorData := garbage } card) :
    wp (onCard admits hung) (readBlock lba) Q s card := by
  rw [readBlock, wp_bind, wp_call]
  refine ⟨trivial, fun d hd => ?_⟩
  cases d
  case passes        => exact hq
  case fails garbage => exact hf garbage hd

theorem wp_writeBlock {Q : Bool → Driver → Card → Prop}
    (hq : Q true s (Function.update card lba s.sectorData))
    (hf : ∀ garbage, admits (.fails garbage) → Q false s card) :
    wp (onCard admits hung) (writeBlock lba) Q s card := by
  rw [writeBlock, wp_bind, wp_get]
  beta_reduce
  rw [wp_call]
  refine ⟨trivial, fun d hd => ?_⟩
  cases d
  case passes        => exact hq
  case fails garbage => exact hf garbage hd

namespace Layout

variable {g : Layout} {card₀ card' card'' : Card} {cluster cluster' value : UInt32}
variable {copy k : Nat}

-- A read that fails looks like the end of a chain.
theorem wp_nextCluster {Q : UInt32 → Driver → Card → Prop}
    (hq : ∀ sectorData, Q (g.next card cluster) { s with sectorData } card)
    (hf : ∀ garbage, admits (.fails garbage) → Q eoc { s with sectorData := garbage } card) :
    wp (onCard admits hung) (g.nextCluster cluster) Q s card := by
  rw [nextCluster, wp_bind]
  exact wp_readBlock (hq _) hf

-- What has been written when `writeEntry` returns. Only a failure leaves some copies out.
structure Written (g : Layout) (admits : Verdict → Prop) (cluster value : UInt32)
    (card : Card) (hint : UInt32) (ok : Bool) (s : Driver) (card' : Card) : Prop where
  stored : ∃ k ≤ g.fatCount.toNat, g.Stored k cluster value card card' ∧
    (ok = true → k = g.fatCount.toNat)
  hint : s.allocHint = hint
  failed : ok = false → ∃ garbage, admits (.fails garbage)

theorem wp_writeCopies (hg : g.Tabular) (hc : g.Valid cluster) {left : Nat}
    (hk : copy + left = g.fatCount.toNat) (h : g.Stored copy cluster value card₀ card) :
    wp (onCard admits hung) (g.writeCopies cluster value left copy)
      (g.Written admits cluster value card₀ s.allocHint) s card := by
  induction left generalizing copy s card with
  | zero => exact ⟨⟨copy, by omega, h, fun _ => by omega⟩, rfl, nofun⟩
  | succ left ih =>
    have failed (garbage : Memory) (ha : admits (.fails garbage)) (s' : Driver)
        (hs : s'.allocHint = s.allocHint) :
        g.Written admits cluster value card₀ s.allocHint false s' card :=
      ⟨⟨copy, by omega, h, nofun⟩, hs, fun _ => ⟨garbage, ha⟩⟩
    rw [writeCopies, wp_bind]
    refine wp_readBlock ?_ fun garbage ha => failed garbage ha _ rfl
    rw [wp_ite, if_pos rfl, wp_bind, wp_modify]
    beta_reduce
    rw [wp_bind]
    refine wp_writeBlock ?_ fun garbage ha => failed garbage ha _ rfl
    rw [wp_ite, if_pos rfl]
    refine ih (by omega) ?_
    have hs := h.succ hg hc (by omega)
    rw [← hc.copySector hg, ← hc.offset hg] at hs
    simpa only [storeEntry, word, ← hc.copySector hg, ← hc.offset hg, merge] using hs

theorem Tabular.count_toNat (hg : g.Tabular) :
    (g.clusterCount + 2).toNat = g.clusterCount.toNat + 2 := by
  have he : eoc.toNat = 0x0FFFFFF8 := rfl
  have h2 : (2 : UInt32).toNat = 2 := rfl
  have hc := hg.clusters
  rw [UInt32.toNat_add, h2]
  exact Nat.mod_eq_of_lt (by omega)

-- What `writeEntry` checks.
theorem valid_iff (hg : g.Tabular) :
    g.Valid cluster ↔ ¬(cluster < 2 ∨ cluster ≥ g.clusterCount + 2) := by
  have h2 : (2 : UInt32).toNat = 2 := rfl
  rw [Valid, UInt32.lt_iff_toNat_lt, ge_iff_le, UInt32.le_iff_toNat_le, hg.count_toNat, h2]
  omega

theorem wp_writeEntry (hg : g.Tabular) (hc : g.Valid cluster) :
    wp (onCard admits hung) (g.writeEntry cluster value)
      (g.Written admits cluster value card s.allocHint) s card := by
  rw [writeEntry, if_neg ((valid_iff hg).mp hc)]
  exact wp_writeCopies hg hc (Nat.zero_add _) .none

-- What one pass has found.
structure Searched (g : Layout) (admits : Verdict → Prop) (first last : UInt32) (card : Card)
    (hint : UInt32) (found : Option UInt32) (s : Driver) (card' : Card) : Prop where
  kept : card' = card
  some : ∀ cluster ∈ found, first.toNat ≤ cluster.toNat ∧ cluster.toNat ≤ last.toNat ∧
    g.next card cluster = 0 ∧ s.allocHint = cluster + 1
  none : found = .none → s.allocHint = hint ∧ ((∃ garbage, admits (.fails garbage)) ∨
    ∀ cluster : UInt32, first.toNat ≤ cluster.toNat → cluster.toNat ≤ last.toNat →
      g.next card cluster ≠ 0)

theorem wp_search {first last : UInt32} (hl : last.toNat + 1 < UInt32.size) :
    wp (onCard admits hung) (g.search first last)
      (g.Searched admits first last card s.allocHint) s card := by
  refine wp_loop_of_lt (fun n b s' card' =>
    n = last.toNat + 1 - b.toNat ∧ first.toNat ≤ b.toNat ∧ card' = card ∧
      s'.allocHint = s.allocHint ∧ ((∃ garbage, admits (.fails garbage)) ∨
        ∀ cluster : UInt32, first.toNat ≤ cluster.toNat → cluster.toNat < b.toNat →
          g.next card cluster ≠ 0)) ?_ (Nat.lt_of_le_of_lt (Nat.sub_le _ _) hl)
    ⟨rfl, Nat.le_refl _, rfl, rfl, .inr fun _ _ _ => by omega⟩
  rintro n b s' card' ⟨rfl, hb, rfl, hs, hf⟩
  rw [searchRound, wp_ite]
  split
  case isFalse hn =>
    have hn : last.toNat < b.toNat := by rwa [UInt32.le_iff_toNat_le, Nat.not_le] at hn
    refine ⟨rfl, nofun, fun _ => ⟨hs, hf.imp_right fun hf cluster h₁ h₂ => hf cluster h₁ ?_⟩⟩
    omega
  case isTrue hle =>
    have hle : b.toNat ≤ last.toNat := UInt32.le_iff_toNat_le.mp hle
    have hsucc : (b + 1).toNat = b.toNat + 1 := by
      rw [UInt32.toNat_add]
      exact Nat.mod_eq_of_lt (show b.toNat + 1 < UInt32.size by omega)
    rw [wp_bind]
    refine wp_nextCluster (fun sectorData => ?_) fun garbage ha => ?_
    case refine_2 =>
      rw [wp_ite, if_neg (by decide)]
      refine ⟨last.toNat + 1 - (b + 1).toNat, by omega, rfl, by omega, rfl, hs, .inl ⟨_, ha⟩⟩
    rw [wp_ite]
    split
    case isTrue hz =>
      refine ⟨rfl, fun cluster hc => ?_, nofun⟩
      cases hc
      exact ⟨hb, hle, hz, rfl⟩
    case isFalse hz =>
      refine ⟨last.toNat + 1 - (b + 1).toNat, by omega, rfl, by omega, rfl, hs, ?_⟩
      refine hf.imp_right fun hf cluster h₁ h₂ => ?_
      by_cases he : cluster.toNat = b.toNat
      case pos => exact UInt32.toNat_inj.mp he ▸ hz
      case neg => exact hf cluster h₁ (by omega)

-- The hint is that of a cluster, or of the number behind the last one.
def Hinted (g : Layout) (s : Driver) : Prop :=
  s.allocHint.toNat ≤ g.clusterCount.toNat + 2

-- What the two passes have found.
structure Found (g : Layout) (admits : Verdict → Prop) (card : Card) (found : Option UInt32)
    (s : Driver) (card' : Card) : Prop where
  kept : card' = card
  hinted : g.Hinted s
  some : ∀ cluster ∈ found, g.Valid cluster ∧ g.next card cluster = 0
  none : found = .none → (∃ garbage, admits (.fails garbage)) ∨
    ∀ cluster, g.Valid cluster → g.next card cluster ≠ 0

theorem wp_findFreeCluster (hg : g.Tabular) (hs : g.Hinted s) :
    wp (onCard admits hung) g.findFreeCluster (g.Found admits card) s card := by
  have he : eoc.toNat = 0x0FFFFFF8 := rfl
  have h1 : (1 : UInt32).toNat = 1 := rfl
  have h2 : (2 : UInt32).toNat = 2 := rfl
  have hsize : UInt32.size = 4294967296 := rfl
  have hcl := hg.clusters
  have hmax : (g.clusterCount + 1).toNat = g.clusterCount.toNat + 1 := by
    rw [UInt32.toNat_add, h1]
    exact Nat.mod_eq_of_lt (by omega)
  rw [findFreeCluster, wp_bind, wp_get]
  dsimp only
  generalize hst : (if s.allocHint ≥ 2 then s.allocHint else 2) = start
  have hstart : 2 ≤ start.toNat ∧ start.toNat ≤ g.clusterCount.toNat + 2 := by
    subst hst
    split
    case isTrue h  => exact ⟨UInt32.le_iff_toNat_le.mp h, hs⟩
    case isFalse h => exact ⟨by omega, by omega⟩
  have hpred : (start - 1).toNat = start.toNat - 1 := by
    rw [UInt32.toNat_sub_of_le _ _ (UInt32.le_iff_toNat_le.mpr (by omega)), h1]
  -- A cluster that a pass has found is one of the volume, and the hint moves behind it.
  have found {first last : UInt32} {card' : Card} {s₀ s' : Driver} {found : Option UInt32}
      (hf : 2 ≤ first.toNat) (hl : last.toNat ≤ g.clusterCount.toNat + 1)
      (h : g.Searched admits first last card s₀.allocHint found s' card') (cluster : UInt32)
      (hc : cluster ∈ found) :
      g.Valid cluster ∧ g.next card cluster = 0 ∧ g.Hinted s' := by
    obtain ⟨hc₁, hc₂, hz, hh⟩ := h.some cluster hc
    refine ⟨⟨by omega, by omega⟩, hz, ?_⟩
    rw [Hinted, hh, UInt32.toNat_add, h1, Nat.mod_eq_of_lt (by omega)]
    omega
  rw [wp_bind]
  refine wp_mono (wp_search (by omega)) fun r₁ s₁ card₁ h₁ => ?_
  obtain rfl := h₁.kept
  cases r₁ with
  | some cluster =>
    obtain ⟨hv, hz, hh⟩ := found hstart.left (by omega) h₁ cluster rfl
    refine ⟨rfl, hh, fun c hc => ?_, nofun⟩
    cases hc
    exact ⟨hv, hz⟩
  | none =>
    obtain ⟨hh₁, hn₁⟩ := h₁.none rfl
    refine wp_mono (wp_search (by omega)) fun r₂ s₂ card₂ h₂ => ?_
    obtain rfl := h₂.kept
    refine ⟨rfl, ?_, fun c hc => ?_, fun hr => ?_⟩
    · cases r₂ with
      | some cluster => exact (found (by omega) (by omega) h₂ cluster rfl).right.right
      | none         => rw [Hinted, (h₂.none rfl).left, hh₁]; exact hs
    · obtain ⟨hv, hz, _⟩ := found (by omega) (by omega) h₂ c hc
      exact ⟨hv, hz⟩
    · rcases hn₁ with hn₁ | hn₁
      · exact .inl hn₁
      refine (h₂.none hr).right.imp_right fun hn₂ cluster hv => ?_
      have hle := hv.right
      by_cases hlt : cluster.toNat < start.toNat
      case pos => exact hn₂ cluster hv.left (by omega)
      case neg => exact hn₁ cluster (by omega) (by omega)

-- All copies of the table are the same.
def Agree (g : Layout) (card : Card) : Prop :=
  ∀ copy i, g.Stands copy i → g.word card copy i = g.word card 0 i

-- The clusters that `fat_next_cluster` leads to from the first one on, up to the end of the chain.
def Follows (g : Layout) (card : Card) : UInt32 → List UInt32 → Prop
  | cluster, []                  => eoc ≤ cluster
  | cluster, cluster' :: clusters =>
    cluster = cluster' ∧ Follows g card (g.next card cluster') clusters

theorem fats_pos (hg : g.Tabular) : 0 < g.fatCount.toNat :=
  Nat.pos_of_ne_zero fun h => hg.fats (UInt8.toNat_inj.mp h)

-- A value that is stored in all copies.
def StoredAll (g : Layout) (cluster value : UInt32) (card card' : Card) : Prop :=
  g.Stored g.fatCount.toNat cluster value card card'

namespace StoredAll

variable (h : g.StoredAll cluster value card card')
include h

theorem next (hg : g.Tabular) (hv : g.Valid cluster') : g.next card' cluster' =
    if cluster' = cluster then value &&& 0x0FFFFFFF else g.next card cluster' := by
  rw [hv.next_eq hg, h.word 0 _ (hv.stands hg (fats_pos hg)), hv.next_eq hg]
  by_cases he : cluster' = cluster
  case pos =>
    subst he
    rw [if_pos rfl, if_pos ⟨fats_pos hg, rfl⟩, merge_low]
  case neg =>
    rw [if_neg he, if_neg fun hc => he (UInt32.toNat_inj.mp hc.right)]

theorem agree (hg : g.Tabular) (ha : g.Agree card) : g.Agree card' := by
  intro copy i hs
  rw [h.word copy i hs, h.word 0 i ⟨fats_pos hg, hs.right⟩, ha copy i hs]
  simp only [hs.left, fats_pos hg, true_and]

theorem others {i : Nat} (hs : g.Stands copy i) (hi : i ≠ cluster.toNat) :
    g.word card' copy i = g.word card copy i := by
  rw [h.word copy i hs, if_neg fun hc => hi hc.right]

theorem high {i : Nat} (hs : g.Stands copy i) :
    g.word card' copy i &&& 0xF0000000 = g.word card copy i &&& 0xF0000000 := by
  rw [h.word copy i hs]
  split
  case isTrue  => exact merge_high _ _
  case isFalse => rfl

end StoredAll

section Chain

variable {f : UInt32 → UInt32} {clusters : List UInt32}

-- Each cluster of a chain but the latest one leads to another one.
theorem leads_to (h : clusters.IsChain fun cluster previous => f previous = cluster) :
    ∀ cluster ∈ clusters, cluster ∈ clusters.head? ∨ ∃ latest ∈ clusters, f cluster = latest := by
  induction h with
  | nil         => exact nofun
  | singleton c => exact fun _ hc => .inl (by simpa [eq_comm] using hc)
  | cons_cons hr h ih =>
    rename_i a b l
    intro cluster hc
    rcases List.mem_cons.mp hc with rfl | hc
    · exact .inl rfl
    · rcases ih cluster hc with hh | ⟨latest, hm, hn⟩
      · cases hh
        exact .inr ⟨a, List.mem_cons_self, hr⟩
      · exact .inr ⟨latest, List.mem_cons_of_mem _ hm, hn⟩

end Chain

-- The clusters that have been allocated so far, the latest one first.
structure Allocated (g : Layout) (card₀ : Card) (clusters : List UInt32) (card : Card) : Prop where
  nodup : clusters.Nodup
  free : ∀ cluster ∈ clusters, g.Valid cluster ∧ g.next card₀ cluster = 0
  linked : clusters.IsChain fun cluster previous => g.next card previous = cluster
  ends : ∀ cluster ∈ clusters.head?, g.next card cluster = eoc
  others : ∀ copy i, g.Stands copy i → (∀ cluster ∈ clusters, i ≠ cluster.toNat) →
    g.word card copy i = g.word card₀ copy i
  high : ∀ copy i, g.Stands copy i →
    g.word card copy i &&& 0xF0000000 = g.word card₀ copy i &&& 0xF0000000
  agree : g.Agree card

namespace Allocated

variable {clusters : List UInt32}

theorem none (ha : g.Agree card) : g.Allocated card [] card where
  nodup  := .nil
  free   := nofun
  linked := .nil
  ends   := nofun
  others _ _ _ _ := rfl
  high _ _ _     := rfl
  agree  := ha

-- What was allocated is not free any more.
theorem next_ne_zero (h : g.Allocated card₀ clusters card) (hc : cluster ∈ clusters) :
    g.next card cluster ≠ 0 := by
  rcases leads_to h.linked cluster hc with hh | ⟨latest, hm, hn⟩
  · rw [h.ends cluster hh]
    decide
  · rw [hn]
    intro hz
    have hv := (h.free latest hm).left.left
    rw [hz] at hv
    exact absurd hv (by decide)

theorem next_eq (h : g.Allocated card₀ clusters card) (hg : g.Tabular) (hv : g.Valid cluster)
    (hc : cluster ∉ clusters) : g.next card cluster = g.next card₀ cluster := by
  rw [hv.next_eq hg, hv.next_eq hg,
    h.others 0 _ (hv.stands hg (fats_pos hg)) fun c hm he => hc (UInt32.toNat_inj.mp he ▸ hm)]

-- The first cluster of a chain.
theorem first (h : g.Allocated card₀ [] card) (hg : g.Tabular) (hv : g.Valid cluster)
    (hz : g.next card cluster = 0) (hs : g.StoredAll cluster eoc card card') :
    g.Allocated card₀ [cluster] card' where
  nodup  := List.nodup_singleton cluster
  free   := by simpa using ⟨hv, h.next_eq hg hv nofun ▸ hz⟩
  linked := .singleton cluster
  ends   := by simpa [hs.next hg hv] using low_of_le (Nat.le_refl _)
  others copy i ht hi := by
    rw [hs.others ht (hi cluster List.mem_cons_self), h.others copy i ht nofun]
  high copy i ht := by rw [hs.high ht, h.high copy i ht]
  agree  := hs.agree hg h.agree

-- Another one, to which the latest one is linked.
theorem push {previous : UInt32} (h : g.Allocated card₀ (previous :: clusters) card)
    (hg : g.Tabular) (hv : g.Valid cluster) (hz : g.next card cluster = 0)
    (hs : g.StoredAll cluster eoc card card')
    (hl : g.StoredAll previous cluster card' card'') :
    g.Allocated card₀ (cluster :: previous :: clusters) card'' := by
  have hnew : cluster ∉ previous :: clusters := fun hm => h.next_ne_zero hm hz
  have hne : cluster ≠ previous := fun he => hnew (he ▸ List.mem_cons_self)
  have hp := (h.free previous List.mem_cons_self).left
  constructor
  case nodup => exact List.nodup_cons.mpr ⟨hnew, h.nodup⟩
  case free =>
    intro c hc
    rcases List.mem_cons.mp hc with rfl | hc
    · exact ⟨hv, h.next_eq hg hv hnew ▸ hz⟩
    · exact h.free c hc
  case linked =>
    refine .cons_cons ?_ (h.linked.imp_of_mem_tail_imp fun latest c _ hc hn => ?_)
    · rw [hl.next hg hp, if_pos rfl]
      exact low_of_le (Nat.le_of_lt (hv.lt hg))
    · have hc : c ∈ clusters := hc
      have hcv := (h.free c (List.mem_cons_of_mem _ hc)).left
      have hcp : c ≠ previous := fun he => (List.nodup_cons.mp h.nodup).left (he ▸ hc)
      have hcc : c ≠ cluster := fun he => hnew (he ▸ List.mem_cons_of_mem _ hc)
      rw [hl.next hg hcv, if_neg hcp, hs.next hg hcv, if_neg hcc, hn]
  case ends =>
    intro c hc
    cases hc
    rw [hl.next hg hv, if_neg hne, hs.next hg hv, if_pos rfl]
    exact low_of_le (Nat.le_refl _)
  case others =>
    intro copy i ht hi
    have hi' := fun c hc => hi c (List.mem_cons_of_mem cluster hc)
    rw [hl.others ht (hi' previous List.mem_cons_self),
      hs.others ht (hi cluster List.mem_cons_self), h.others copy i ht hi']
  case high =>
    intro copy i ht
    rw [hl.high ht, hs.high ht, h.high copy i ht]
  case agree => exact hl.agree hg (hs.agree hg h.agree)

end Allocated
-- The clusters that can still be allocated.
def freeClusters (g : Layout) (card : Card) : Finset Nat :=
  (Finset.Icc 2 (g.clusterCount.toNat + 1)).filter fun i => g.next card (.ofNat i) = 0

-- Where nothing is left, everything that was free has been allocated.
theorem Allocated.freeClusters_le {clusters : List UInt32}
    (h : g.Allocated card₀ clusters card) (hg : g.Tabular)
    (hn : ∀ cluster, g.Valid cluster → g.next card cluster ≠ 0) :
    (g.freeClusters card₀).card ≤ clusters.length := by
  have hsub : g.freeClusters card₀ ⊆ (clusters.map UInt32.toNat).toFinset := by
    intro i hi
    obtain ⟨hi, hz⟩ := Finset.mem_filter.mp hi
    obtain ⟨h₁, h₂⟩ := Finset.mem_Icc.mp hi
    have he : eoc.toNat = 0x0FFFFFF8 := rfl
    have hsize : UInt32.size = 4294967296 := rfl
    have hcl := hg.clusters
    have hto : (UInt32.ofNat i).toNat = i := UInt32.toNat_ofNat_of_lt' (by omega)
    have hv : g.Valid (.ofNat i) := ⟨hto.symm ▸ h₁, hto.symm ▸ h₂⟩
    by_contra hm
    refine hn (.ofNat i) hv ((h.next_eq hg hv fun hc => hm ?_).trans hz)
    exact List.mem_toFinset.mpr (List.mem_map.mpr ⟨_, hc, hto⟩)
  refine (Finset.card_le_card hsub).trans ((List.toFinset_card_le _).trans ?_)
  rw [List.length_map]

def passing : Env Sd.Call Sd.Call.Reply Card Verdict :=
  onCard (· = .passes) False

-- What `allocClusters` returns, when it is to end with `count` clusters.
def Allotted (g : Layout) (card₀ : Card) (count : Nat) (found : Option UInt32) (_ : Driver)
    (card : Card) : Prop :=
  match found with
  | some first => ∃ clusters, g.Allocated card₀ clusters card ∧ clusters.length = count ∧
    clusters.getLast? = some first
  | none       => (g.freeClusters card₀).card < count

theorem wp_writeEntry_passing (hg : g.Tabular) (hc : g.Valid cluster) (hs : g.Hinted s) :
    wp passing (g.writeEntry cluster value) (fun ok s' card' => ok = true ∧ g.Hinted s' ∧
      g.StoredAll cluster value card card') s card := by
  refine wp_mono (wp_writeEntry hg hc) fun ok s' card' h => ?_
  obtain ⟨⟨k, _, hk, hok⟩, hh, hf⟩ := h
  cases ok
  case false =>
    obtain ⟨_, ha⟩ := hf rfl
    cases ha
  case true =>
    obtain rfl := hok rfl
    exact ⟨rfl, by rw [Hinted, hh]; exact hs, hk⟩

theorem wp_allocClusters (hg : g.Tabular) {left : Nat} {clusters : List UInt32}
    (hs : g.Hinted s) (h : g.Allocated card₀ clusters card) (hl : 0 < clusters.length + left) :
    wp passing (g.allocClusters left (clusters.getLastD 0) (clusters.headD 0))
      (g.Allotted card₀ (clusters.length + left)) s card := by
  induction left generalizing clusters s card with
  | zero =>
    refine ⟨clusters, h, rfl, ?_⟩
    cases clusters with
    | nil       => exact absurd hl (Nat.lt_irrefl 0)
    | cons c cs => rw [List.getLastD_eq_getLast?, List.getLast?_cons]; rfl
  | succ left ih =>
    rw [allocClusters, wp_bind]
    refine wp_mono (wp_findFreeCluster hg hs) fun found s₁ card₁ hf => ?_
    obtain rfl := hf.kept
    cases found with
    | none =>
      rcases hf.none rfl with ⟨_, ha⟩ | hn
      · cases ha
      · exact Nat.lt_of_le_of_lt (h.freeClusters_le hg hn) (by omega)
    | some cluster =>
      obtain ⟨hv, hz⟩ := hf.some cluster rfl
      dsimp only
      rw [wp_bind]
      refine wp_mono (wp_writeEntry_passing hg hv hf.hinted) fun ok s₂ card₂ h₂ => ?_
      obtain ⟨rfl, hs₂, hst⟩ := h₂
      rw [wp_ite, if_pos rfl]
      cases clusters with
      | nil =>
        have hx := ih hs₂ (h.first hg hv hz hst) (by simp)
        simpa [Nat.add_comm] using hx
      | cons previous clusters =>
        have hne (c : UInt32) (hc : c ∈ previous :: clusters) : c ≠ 0 := by
          rintro rfl
          exact absurd (h.free 0 hc).left.left (by decide)
        have hp := (h.free previous List.mem_cons_self).left
        rw [List.headD_cons, if_pos (hne previous List.mem_cons_self), wp_bind]
        refine wp_mono (wp_writeEntry_passing hg hp hs₂) fun ok s₃ card₃ h₃ => ?_
        obtain ⟨rfl, hs₃, hln⟩ := h₃
        have hlast : (previous :: clusters).getLastD 0 ≠ 0 := by
          rw [List.getLastD_eq_getLast?, List.getLast?_eq_some_getLast (List.cons_ne_nil _ _)]
          exact hne _ (List.getLast_mem _)
        rw [wp_ite, if_pos rfl, if_neg hlast]
        have hx := ih hs₃ (h.push hg hv hz hst hln) (by simp)
        simpa [Nat.add_comm, Nat.add_left_comm] using hx

-- A chain is followed from the cluster that was allocated first.
theorem follows_reverse {latest : UInt32} {rest tail : List UInt32}
    (h : (latest :: rest).IsChain fun cluster previous => g.next card previous = cluster)
    (ht : g.Follows card latest (latest :: tail)) :
    ∀ first ∈ (latest :: rest).getLast?,
      g.Follows card first ((latest :: rest).reverse ++ tail) := by
  induction rest generalizing latest tail with
  | nil =>
    intro first hf
    cases hf
    exact ht
  | cons previous rest ih =>
    obtain ⟨hn, hr⟩ := List.isChain_cons_cons.mp h
    intro first hf
    rw [List.getLast?_cons_cons] at hf
    have hx := @ih previous (latest :: tail) hr ⟨rfl, hn ▸ ht⟩ first hf
    rwa [List.reverse_cons, List.append_assoc]

theorem Allocated.follows {clusters : List UInt32} {first : UInt32}
    (h : g.Allocated card₀ clusters card) (hf : clusters.getLast? = some first) :
    g.Follows card first clusters.reverse := by
  cases clusters with
  | nil => cases hf
  | cons latest rest =>
    have he : g.next card latest = eoc := h.ends latest rfl
    have ht : g.Follows card latest [latest] := ⟨rfl, by rw [he]; exact UInt32.le_refl _⟩
    have hx := follows_reverse h.linked ht first hf
    rwa [List.append_nil] at hx

-- What has become of a table from which the clusters of a chain were taken.
structure Taken (g : Layout) (card card' : Card) (clusters : List UInt32) : Prop where
  nodup : clusters.Nodup
  free : ∀ cluster ∈ clusters, g.Valid cluster ∧ g.next card cluster = 0
  others : ∀ copy i, g.Stands copy i → (∀ cluster ∈ clusters, i ≠ cluster.toNat) →
    g.word card' copy i = g.word card copy i
  high : ∀ copy i, g.Stands copy i →
    g.word card' copy i &&& 0xF0000000 = g.word card copy i &&& 0xF0000000
  agree : g.Agree card'

-- With blocks that can all be read and written, a chain of `count` clusters is allocated, unless fewer
-- than that were free.
def Allots (g : Layout) (count : UInt32) (card : Card) :
    Outcome (Option UInt32 × Driver) Card → Prop
  | .done (some first, _) card' => ∃ clusters, clusters.length = count.toNat ∧
    g.Follows card' first clusters ∧ g.Taken card card' clusters
  | .done (none, _) _           => (g.freeClusters card).card < count.toNat
  | .cut _                      => True
  | .hung _                     => False

theorem allocChain_allots {count : UInt32} {ds : List Verdict} (hg : g.Tabular)
    (ha : g.Agree card) (hs : 2 ≤ s.allocHint ∧ s.allocHint ≤ g.clusterCount + 2)
    (hc : 1 ≤ count) (hd : ∀ d ∈ ds, d = .passes) :
    g.Allots count card ((g.allocChain count).run Sd.handler s ds card) := by
  have hs : g.Hinted s := by
    rw [Hinted, ← hg.count_toNat]
    exact UInt32.le_iff_toNat_le.mp hs.right
  have hc : 1 ≤ count.toNat := UInt32.le_iff_toNat_le.mp hc
  have hn : count ≠ 0 := by
    rintro rfl
    exact absurd hc (by decide)
  have hw : wp passing (g.allocChain count) (g.Allotted card count.toNat) s card := by
    rw [allocChain, if_neg hn]
    have hx : wp passing (g.allocClusters count.toNat _ _) _ s card :=
      wp_allocClusters hg hs (.none ha) (Nat.lt_of_lt_of_le hc (Nat.le_add_left _ _))
    simpa using hx
  have hm : ((g.allocChain count).run Sd.handler s ds card).Meets passing _ := run_meets hd hw
  revert hm
  cases (g.allocChain count).run Sd.handler s ds card with
  | cut => exact fun _ => trivial
  | hung => exact id
  | done r card' =>
    obtain ⟨found, s'⟩ := r
    cases found with
    | none => exact id
    | some first =>
      rintro ⟨clusters, h, hl, hf⟩
      refine ⟨clusters.reverse, by rw [List.length_reverse, hl], h.follows hf, ?_⟩
      constructor
      case nodup  => exact List.nodup_reverse.mpr h.nodup
      case free   => exact fun c hc => h.free c (List.mem_reverse.mp hc)
      case others =>
        exact fun copy i ht hi => h.others copy i ht fun c hc => hi c (List.mem_reverse.mpr hc)
      case high   => exact h.high
      case agree  => exact h.agree

-- A volume without files, whose boot sector says how many sectors there are.
def blank (totalSectors : UInt8) : Card := fun lba =>
  if lba = 0 then
    fun i =>
      match i with
      | 12  => 2
      | 13  => 1
      | 14  => 32
      | 16  => 2
      | 19  => totalSectors
      | 36  => 1
      | 44  => 2
      | 510 => 0x55
      | 511 => 0xAA
      | _   => 0
  else
    fun _ => 0

-- What is found when it is mounted: two copies of one sector, and a cluster in each sector after them.
def blankLayout (clusterCount : UInt32) : Layout where
  fatBegin          := 32
  dataBegin         := 34
  sectorsPerCluster := 1
  mounted           := single_mounted
  sectorsPerFat     := 1
  clusterCount      := clusterCount
  fatCount          := 2

theorem blank_agree {totalSectors : UInt8} {clusterCount : UInt32} :
    (blankLayout clusterCount).Agree (blank totalSectors) := by
  have zero (copy i : Nat) (hs : (blankLayout clusterCount).Stands copy i) :
      (blankLayout clusterCount).word (blank totalSectors) copy i = 0 := by
    obtain ⟨hc, hi⟩ := hs
    have hc : copy < 2 := hc
    have hi : i < 128 := hi
    have hb : blank totalSectors ((blankLayout clusterCount).sector copy i) = fun _ => 0 := by
      have hd : i / 128 = 0 := by omega
      rw [sector, hd]
      interval_cases copy <;> rfl
    rw [word, hb]
    simp [read32, rd32, LittleEndian.u32]
  intro copy i hs
  rw [zero copy i hs, zero 0 i ⟨Nat.two_pos, hs.right⟩]

theorem blank_tabular : (blankLayout 100).Tabular :=
  ⟨by decide, by decide, by decide, by decide⟩

theorem allocChain_allots_blank : ∃ s card,
    ((blankLayout 100).allocChain 2).run Sd.handler ⟨101, fun _ => 0⟩ (.replicate 60 .passes)
      (blank 134) = .done (some 101, s) card ∧
    (blankLayout 100).Allots 2 (blank 134) (.done (some 101, s) card) := by
  have ha : (blankLayout 100).Allots 2 (blank 134)
      (((blankLayout 100).allocChain 2).run Sd.handler ⟨101, fun _ => 0⟩ (.replicate 60 .passes)
        (blank 134)) :=
    allocChain_allots blank_tabular blank_agree (by decide) (by decide)
      fun _ hd => List.eq_of_mem_replicate hd
  exact ⟨_, _, rfl, ha⟩

-- The mount does not compare the size of the table with the number of clusters. With 200 clusters, the
-- entry of the cluster 130 is behind the first copy of the table, where it is one of the second copy.
theorem allocChain_not_allots : ∃ root s,
    mount.run Sd.handler ⟨0, fun _ => 0⟩ [.passes] (blank 234) =
      .done (some (blankLayout 200, root), s) (blank 234) ∧
    (blankLayout 200).Agree (blank 234) ∧
    ¬(blankLayout 200).Allots 1 (blank 234)
      (((blankLayout 200).allocChain 1).run Sd.handler { s with allocHint := 130 }
        (.replicate 5 .passes) (blank 234)) := by
  refine ⟨2, ⟨2, blank 234 0⟩, rfl, blank_agree, ?_⟩
  rintro ⟨clusters, _, _, ht⟩
  exact absurd (ht.agree 1 2 ⟨by decide, by decide⟩) (by decide)

end Layout
end Fat32
