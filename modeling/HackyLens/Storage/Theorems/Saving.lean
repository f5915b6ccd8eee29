import HackyLens.Storage.Theorems.FatDelete
import HackyLens.Storage.Theorems.SavedNames

-- What a writer does to the volume, when all blocks can be read and written.

namespace Fat32

open Core Prog
open Sd (Card Verdict)

-- There is an entry, which is not deleted.
def Occupied (raw : Memory) : Prop :=
  raw 0 ≠ 0x00 ∧ raw 0 ≠ 0xE5

section Free

variable {m : Memory} {left entry : Nat}

theorem unused_eq_false : unused m entry = false ↔ Occupied (rawEntry m entry) := by
  have h : rawEntry m entry 0 = m (entry * 32) := rfl
  rw [unused, Occupied, h, Bool.or_eq_false_iff, beq_eq_false_iff_ne, beq_eq_false_iff_ne]

-- The first entry that is free in some entries.
inductive FirstFree : List Memory → Option Nat → Prop
  | none {raws} : (∀ raw ∈ raws, Occupied raw) → FirstFree raws .none
  | some {front old rest} : (∀ raw ∈ front, Occupied raw) → ¬Occupied old →
    FirstFree (front ++ old :: rest) (.some front.length)

theorem FirstFree.cons {raw : Memory} {raws : List Memory} {r : Option Nat} (h : FirstFree raws r)
    (hr : Occupied raw) : FirstFree (raw :: raws) (r.map (· + 1)) := by
  cases h with
  | none h    => exact .none (List.forall_mem_cons.mpr ⟨hr, h⟩)
  | some h ho => exact .some (List.forall_mem_cons.mpr ⟨hr, h⟩) ho

theorem FirstFree.occupied {raws : List Memory} (h : FirstFree raws .none) :
    ∀ raw ∈ raws, Occupied raw := by
  cases h with
  | none h => exact h

theorem findRun_one {runStart : Nat} :
    ∃ r, findRun m 1 left entry 0 runStart = r.map (entry + ·) ∧
      FirstFree ((List.range' entry left).map (rawEntry m)) r := by
  induction left generalizing entry runStart with
  | zero => exact ⟨none, rfl, .none nofun⟩
  | succ left ih =>
    rw [findRun, List.range'_succ, List.map_cons]
    split
    case isTrue hu =>
      have hn : ¬Occupied (rawEntry m entry) := by
        rw [← unused_eq_false, hu]
        decide
      exact ⟨some 0, rfl, @FirstFree.some [] _ _ nofun hn⟩
    case isFalse hu =>
      obtain ⟨r, hr, hf⟩ := @ih (entry + 1) runStart
      have ho := unused_eq_false.mp (Bool.eq_false_of_not_eq_true hu)
      refine ⟨r.map (· + 1), ?_, hf.cons ho⟩
      rw [hr]
      cases r with
      | none   => rfl
      | some e => exact congrArg some (by simp only; omega)

theorem sectorRun_one : FirstFree (sectorEntries m) (sectorRun m 1) := by
  obtain ⟨r, hr, hf⟩ := @findRun_one m 16 0 0
  have he : sectorRun m 1 = r := by
    refine Eq.trans hr ?_
    cases r with
    | none   => rfl
    | some e => exact congrArg some (Nat.zero_add e)
  rw [he, sectorEntries, List.range_eq_range']
  exact hf

end Free

section Slots

variable {card : Card} {s : Driver} {base cluster : UInt32} {left i : Nat}

-- All entries of a sector are in use.
def Full (card : Card) (lba : UInt32) : Prop :=
  ∀ raw ∈ sectorEntries (card lba), Occupied raw

-- The sector of the first free entry among some sectors.
structure Sector (card : Card) (lbas : List UInt32) (before : List UInt32) (lba : UInt32)
    (after : List UInt32) (entry : Nat) : Prop where
  split : lbas = before ++ lba :: after
  full : ∀ lba ∈ before, Full card lba
  free : FirstFree (sectorEntries (card lba)) (some entry)

theorem wp_slotInSectors_one :
    wp Layout.passing (slotInSectors cluster base 1 left i) (fun r s' card' => card' = card ∧
      s'.allocHint = s.allocHint ∧ match r with
      | none             => False
      | some none        => ∀ lba ∈ (List.range' i left).map (base + .ofNat ·), Full card lba
      | some (some slot) => slot.cluster = cluster ∧ ∃ j < i + left, slot.sector = .ofNat j ∧
        ∃ before after entry, slot.entry = .ofNat entry ∧
          Sector card ((List.range' i left).map (base + .ofNat ·)) before (base + .ofNat j) after
            entry) s card := by
  induction left generalizing i s with
  | zero => exact ⟨rfl, rfl, fun _ h => by cases h⟩
  | succ left ih =>
    rw [slotInSectors, wp_bind]
    refine wp_readBlock ?_ fun _ ha => by cases ha
    rw [wp_ite, if_pos rfl, wp_bind, wp_get]
    dsimp only
    have hf := @sectorRun_one (card (base + .ofNat i))
    rw [List.range'_succ, List.map_cons]
    split
    case h_1 entry he =>
      rw [he] at hf
      exact ⟨rfl, rfl, rfl, i, by omega, rfl, [], _, entry, rfl, ⟨rfl, (fun _ h => by cases h), hf⟩⟩
    case h_2 he =>
      rw [he] at hf
      have hfull : Full card (base + .ofNat i) := hf.occupied
      refine wp_mono ih ?_
      rintro r s' card' ⟨rfl, hs, hr⟩
      refine ⟨rfl, hs, ?_⟩
      obtain _ | _ | slot := r
      case none      => exact hr
      case some.none => exact List.forall_mem_cons.mpr ⟨hfull, hr⟩
      case some.some =>
        obtain ⟨hc, j, hj, hsj, before, after, entry, hee, hx⟩ := hr
        exact ⟨hc, j, by omega, hsj, _ :: before, after, entry, hee, congrArg (_ :: ·) hx.split,
          List.forall_mem_cons.mpr ⟨hfull, hx.full⟩, hx.free⟩

namespace Layout

variable {g : Layout} {clusters : List UInt32}

-- How the search through a directory ends.
def Searching (g : Layout) (card : Card) (clusters : List UInt32) (previous : UInt32) :
    Walk → Prop
  | .failed     => False
  | .found slot => ∃ before after entry, slot.entry = .ofNat entry ∧
    Sector card (g.sectors clusters) before (g.clusterLba slot.cluster + slot.sector.toUInt32) after
      entry
  | .ended last => (∀ lba ∈ g.sectors clusters, Full card lba) ∧
    last = clusters.getLastD previous

theorem wp_walkFrom {fuel : Nat} {previous : UInt32} (h : g.Spans card cluster clusters)
    (hf : clusters.length < fuel) :
    wp passing (Prog.loop (g.walkRound 1) fuel (cluster, previous)) (fun r s' card' =>
      card' = card ∧ s'.allocHint = s.allocHint ∧ g.Searching card clusters previous r) s card := by
  induction clusters generalizing cluster previous fuel s with
  | nil =>
    obtain ⟨fuel, rfl⟩ := Nat.exists_eq_succ_of_ne_zero (Nat.ne_of_gt hf)
    rw [Prog.loop, walkRound, if_neg h]
    exact ⟨rfl, rfl, (fun _ h => by cases h), rfl⟩
  | cons c cs ih =>
    obtain ⟨fuel, rfl⟩ := Nat.exists_eq_succ_of_ne_zero (Nat.ne_of_gt (Nat.zero_lt_of_lt hf))
    obtain ⟨rfl, hl, hr⟩ := h
    rw [Prog.loop, walkRound, if_pos hl, wp_bind, wp_bind]
    refine wp_mono wp_slotInSectors_one ?_
    rintro r s₁ card' ⟨rfl, hs, hr₁⟩
    obtain _ | _ | slot := r
    case none      => exact hr₁.elim
    case some.some =>
      obtain ⟨rfl, j, hj, hsj, before, after, entry, he, hx⟩ := hr₁
      refine ⟨rfl, hs, before, after ++ g.sectors cs, entry, he, ?_⟩
      have hlt := g.sectorsPerCluster.toNat_lt
      have hj : slot.sector.toUInt32 = .ofNat j := by
        apply UInt32.toNat_inj.mp
        rw [hsj, UInt8.toNat_toUInt32, UInt8.toNat_ofNat_of_lt' (show j < 256 by omega),
          UInt32.toNat_ofNat_of_lt' (show j < 4294967296 by omega)]
      rw [hj]
      refine ⟨?_, hx.full, hx.free⟩
      rw [sectors_cons, hx.split, List.append_assoc, List.cons_append]
    case some.none =>
      dsimp only
      rw [wp_bind]
      refine wp_nextCluster (fun _ => ?_) fun _ ha => by cases ha
      rw [wp_pure]
      dsimp only
      refine wp_mono (ih hr (Nat.lt_of_succ_lt_succ hf)) ?_
      rintro r s₂ card'' ⟨rfl, hs₂, hx⟩
      refine ⟨rfl, hs₂.trans hs, ?_⟩
      cases r with
      | failed     => exact hx
      | found slot =>
        obtain ⟨before, after, entry, he, hx⟩ := hx
        refine ⟨(List.range' 0 g.sectorsPerCluster.toNat).map (g.clusterLba cluster + .ofNat ·) ++
          before, after, entry, he, ?_, List.forall_mem_append.mpr ⟨hr₁, hx.full⟩, hx.free⟩
        rw [sectors_cons, hx.split, List.append_assoc]
      | ended last =>
        refine ⟨?_, ?_⟩
        · rw [sectors_cons]
          exact List.forall_mem_append.mpr ⟨hr₁, hx.left⟩
        · rw [hx.right, List.getLastD_cons]

end Layout
end Slots

namespace Layout

variable {g : Layout} {card card' card'' card₀ : Card} {s : Driver} {cluster value : UInt32}
variable {clusters : List UInt32}

-- A cluster that is free.
def Vacant (g : Layout) (card : Card) (cluster : UInt32) : Prop :=
  g.Valid cluster ∧ g.next card cluster = 0

-- What allocations leave of the table. The links of clusters that were used stay, and those of the
-- others only lead to others.
structure Grown (g : Layout) (card card' : Card) : Prop where
  kept : ∀ c, g.Valid c → g.next card c ≠ 0 → g.next card' c = g.next card c
  closed : ∀ c, g.Vacant card c → inChain (g.next card' c) → g.Vacant card (g.next card' c)
  beside : ∀ lba, (∀ copy i, g.Stands copy i → lba ≠ g.sector copy i) → card' lba = card lba

theorem Grown.refl : g.Grown card card where
  kept _ _ _    := rfl
  closed _ hc h := absurd hc.right (ne_zero_of_inChain h)
  beside _ _    := rfl

theorem Grown.vacant (h : g.Grown card₀ card) (hv : g.Valid cluster)
    (hz : g.next card cluster = 0) : g.Vacant card₀ cluster := by
  refine ⟨hv, ?_⟩
  by_contra hn
  exact hn ((h.kept cluster hv hn).symm.trans hz)

theorem Grown.store (h : g.Grown card₀ card) (hg : g.Tabular) (hc : g.Vacant card₀ cluster)
    (hv : value = eoc ∨ g.Vacant card₀ value) (hst : g.StoredAll cluster value card card') :
    g.Grown card₀ card' where
  kept c hcv hcn := by
    have hne : c ≠ cluster := fun he => hcn (he ▸ hc.right)
    rw [hst.next hg hcv, if_neg hne, h.kept c hcv hcn]
  closed c hcv hl := by
    rw [hst.next hg hcv.left] at hl ⊢
    split at hl
    case isTrue he =>
      rw [if_pos he]
      rcases hv with rfl | hv
      · exact absurd hl (by decide)
      · rw [low_of_le (Nat.le_of_lt (hv.left.lt hg))]
        exact hv
    case isFalse he =>
      rw [if_neg he]
      exact h.closed c hcv hl
  beside lba hl := (hst.beside lba hl).trans (h.beside lba hl)

theorem wp_allocClusters_grown {left : Nat} {first previous : UInt32} (hg : g.Tabular)
    (hs : g.Hinted s) (h : g.Grown card₀ card) (hf : first = 0 ∨ g.Vacant card₀ first)
    (hp : previous = 0 ∨ g.Vacant card₀ previous) :
    wp passing (g.allocClusters left first previous) (fun r s' card' => g.Hinted s' ∧
      g.Grown card₀ card' ∧ ∀ c ∈ r, (left = 0 ∧ c = first) ∨ g.Vacant card₀ c) s card := by
  induction left generalizing first previous s card with
  | zero =>
    refine ⟨hs, h, fun c hc => .inl ⟨rfl, ?_⟩⟩
    cases hc
    rfl
  | succ left ih =>
    rw [allocClusters, wp_bind]
    refine wp_mono (wp_findFreeCluster hg hs) fun found s₁ card₁ hfound => ?_
    obtain rfl := hfound.kept
    cases found with
    | none         => exact ⟨hfound.hinted, h, (by intros; contradiction)⟩
    | some cluster =>
      obtain ⟨hv, hz⟩ := hfound.some cluster rfl
      have hc := h.vacant hv hz
      dsimp only
      rw [wp_bind]
      refine wp_mono (wp_writeEntry_passing hg hv hfound.hinted) fun ok s₂ card₂ h₂ => ?_
      obtain ⟨rfl, hs₂, hst⟩ := h₂
      have h₂ := h.store hg hc (.inl rfl) hst
      have hfirst : (if first = 0 then cluster else first) = 0 ∨
          g.Vacant card₀ (if first = 0 then cluster else first) := by
        split
        case isTrue     => exact .inr hc
        case isFalse hn => exact .inr (hf.resolve_left hn)
      have rest {s₃ : Driver} {card₃ : Card} (hs₃ : g.Hinted s₃) (h₃ : g.Grown card₀ card₃) :
          wp passing (g.allocClusters left (if first = 0 then cluster else first) cluster)
            (fun r s' card' => g.Hinted s' ∧ g.Grown card₀ card' ∧
              ∀ c ∈ r, (left + 1 = 0 ∧ c = first) ∨ g.Vacant card₀ c) s₃ card₃ := by
        refine wp_mono (ih hs₃ h₃ hfirst (.inr hc)) ?_
        rintro r s' card' ⟨hs', h', hr⟩
        refine ⟨hs', h', fun c hm => .inr ?_⟩
        rcases hr c hm with ⟨_, rfl⟩ | hr
        · split
          case isTrue     => exact hc
          case isFalse hn => exact hf.resolve_left hn
        · exact hr
      rw [wp_ite, if_pos rfl]
      by_cases hz : previous = 0
      case pos =>
        rw [if_neg (not_not.mpr hz)]
        exact rest hs₂ h₂
      case neg =>
        have hpv := hp.resolve_left hz
        rw [if_pos hz, wp_bind]
        refine wp_mono (wp_writeEntry_passing hg hpv.left hs₂) fun ok s₃ card₃ h₃ => ?_
        obtain ⟨rfl, hs₃, hln⟩ := h₃
        exact rest hs₃ (h₂.store hg hpv (.inr hc) hln)

theorem wp_allocChain_grown {count : UInt32} (hg : g.Tabular) (hs : g.Hinted s) :
    wp passing (g.allocChain count) (fun r s' card' => g.Hinted s' ∧ g.Grown card card' ∧
      ∀ c ∈ r, g.Vacant card c) s card := by
  rw [allocChain, wp_ite]
  split
  case isTrue      => exact ⟨hs, .refl, (by intros; contradiction)⟩
  case isFalse hne =>
    refine wp_mono (wp_allocClusters_grown hg hs .refl (.inl rfl) (.inl rfl)) ?_
    rintro r s' card' ⟨hs', h, hr⟩
    refine ⟨hs', h, fun c hc => (hr c hc).resolve_left fun hz => hne ?_⟩
    exact UInt32.toNat_inj.mp hz.left

-- The clusters of a directory, none of which is marked as free.
structure Holds (g : Layout) (card : Card) (dirCluster : UInt32) (clusters : List UInt32) : Prop where
  spans : g.Spans card dirCluster clusters
  valid : ∀ c ∈ clusters, g.Valid c
  used : ∀ c ∈ clusters, g.next card c ≠ 0

-- The directory is as it was.
structure Aside (g : Layout) (clusters : List UInt32) (card card' : Card) : Prop where
  sectors : ∀ lba ∈ g.sectors clusters, card' lba = card lba
  links : ∀ c ∈ clusters, g.next card' c = g.next card c

variable {dirCluster : UInt32}

theorem Aside.refl : g.Aside clusters card card :=
  ⟨fun _ _ => rfl, fun _ _ => rfl⟩

theorem Aside.trans (h : g.Aside clusters card card') (h' : g.Aside clusters card' card'') :
    g.Aside clusters card card'' where
  sectors lba hl := (h'.sectors lba hl).trans (h.sectors lba hl)
  links c hc     := (h'.links c hc).trans (h.links c hc)

theorem Aside.holds (h : g.Aside clusters card card') (hd : g.Holds card dirCluster clusters) :
    g.Holds card' dirCluster clusters where
  spans := hd.spans.congr h.links
  valid := hd.valid
  used c hc := by
    rw [h.links c hc]
    exact hd.used c hc

theorem Aside.content (h : g.Aside clusters card card') :
    g.content card' clusters = g.content card clusters :=
  List.flatMap_congr fun lba hl => by rw [h.sectors lba hl]

-- Where the sectors of clusters are none of the table's.
theorem sectors_beside (hg : g.Sound) (hv : ∀ c ∈ clusters, g.Valid c) {lba : UInt32}
    (hl : lba ∈ g.sectors clusters) (copy i : Nat) (hs : g.Stands copy i) :
    lba ≠ g.sector copy i := by
  obtain ⟨c, hc, j, hj, rfl⟩ := mem_sectors.mp hl
  exact (hv c hc).lba_ne hg hj hs

theorem Grown.aside (h : g.Grown card card') (hg : g.Sound)
    (hd : g.Holds card dirCluster clusters) : g.Aside clusters card card' where
  sectors lba hl := h.beside lba (sectors_beside hg hd.valid hl)
  links c hc     := h.kept c (hd.valid c hc) (hd.used c hc)

-- The clusters of a chain are none of the directory's.
def Apart (g : Layout) (clusters : List UInt32) (card : Card) (cluster : UInt32) : Prop :=
  ∀ c, g.Reaches card cluster c → g.Valid c ∧ c ∉ clusters

theorem Grown.apart (h : g.Grown card card') (hd : g.Holds card dirCluster clusters)
    (hc : g.Vacant card cluster) : g.Apart clusters card' cluster := by
  intro c hr
  have hv : g.Vacant card c := hr.closed hc fun c hc hl => h.closed c hc hl
  exact ⟨hv.left, fun hm => hd.used c hm hv.right⟩

end Layout

section Data

variable {fill : Fill} {base remaining offset : UInt32} {left i : Nat} {s : Driver} {card : Card}

-- What is written of a file into the sectors from `base` on.
structure Wrote (card : Card) (base : UInt32) (left i : Nat) (remaining hint : UInt32)
    (r : Option (UInt32 × UInt32)) (s' : Driver) (card' : Card) : Prop where
  hint : s'.allocHint = hint
  kept : ∀ lba, (∀ j < i + left, lba ≠ base + .ofNat j) → card' lba = card lba
  less : ∃ p, r = some p ∧ p.fst.toNat ≤ remaining.toNat ∧
    (0 < left → remaining ≠ 0 → p.fst.toNat < remaining.toNat)

theorem wp_writeSectors : wp Layout.passing (writeSectors fill base left i remaining offset)
    (Wrote card base left i remaining s.allocHint) s card := by
  induction left generalizing i remaining offset s card with
  | zero => exact ⟨rfl, fun _ _ => rfl, _, rfl, Nat.le_refl _, fun h => absurd h (Nat.lt_irrefl 0)⟩
  | succ left ih =>
    rw [writeSectors, wp_ite]
    split
    case isTrue hz =>
      exact ⟨rfl, fun _ _ => rfl, _, rfl, Nat.le_refl _, fun _ hn => absurd hz hn⟩
    case isFalse hz =>
      rw [wp_bind, wp_modify, wp_bind]
      refine wp_writeBlock ?_ fun _ ha => by cases ha
      rw [wp_ite, if_pos rfl]
      have h512 : (512 : UInt32).toNat = 512 := rfl
      have hpos : 0 < remaining.toNat := Nat.pos_of_ne_zero fun he => hz (UInt32.toNat_inj.mp he)
      have htake : (if remaining > 512 then 512 else remaining) ≤ remaining ∧
          0 < (if remaining > 512 then 512 else remaining).toNat := by
        split
        case isTrue hgt  => exact ⟨UInt32.le_of_lt hgt, by decide⟩
        case isFalse hle => exact ⟨UInt32.le_refl _, hpos⟩
      have hsub := UInt32.toNat_sub_of_le _ _ htake.left
      have hle := UInt32.le_iff_toNat_le.mp htake.left
      refine wp_mono ih ?_
      rintro r s' card' ⟨hh, hk, p, rfl, hp, _⟩
      refine ⟨hh, fun lba hl => ?_, p, rfl, by omega, fun _ _ => by omega⟩
      rw [hk lba fun j hj => hl j (by omega)]
      exact Function.update_of_ne (hl i (by omega)) _ _

namespace Layout

variable {g : Layout} {card' card₀ : Card} {cluster : UInt32} {clusters : List UInt32}

-- The sectors of a cluster that is none of the directory's are written.
theorem Apart.written (h : g.Apart clusters card cluster) (hg : g.Sound)
    (hv : ∀ c ∈ clusters, g.Valid c) (hl : inChain cluster)
    (hk : ∀ lba, (∀ j < g.sectorsPerCluster.toNat, lba ≠ g.clusterLba cluster + .ofNat j) →
      card' lba = card lba) :
    g.Aside clusters card card' ∧ g.Apart clusters card' cluster := by
  obtain ⟨hc, hm⟩ := h cluster (.start hl)
  have next (c : UInt32) (hcv : g.Valid c) : g.next card' c = g.next card c := by
    have hst : g.Stands 0 c.toNat := hcv.stands hg.toTabular (fats_pos hg.toTabular)
    rw [Layout.next, Layout.next, hcv.fatSector hg.toTabular, hk]
    exact fun j hj he => hc.lba_ne hg hj hst he.symm
  refine ⟨⟨fun lba hl => hk lba fun j hj he => ?_, fun c hc => next c (hv c hc)⟩, fun c hr => ?_⟩
  · obtain ⟨d, hd, i, hi, hdi⟩ := mem_sectors.mp hl
    obtain ⟨rfl, _⟩ := (hv d hd).lba_inj hg hc hi hj (hdi.trans he)
    exact hm hd
  · refine h c (hr.closed (P := g.Reaches card cluster) (.start hl) fun d hd hld => ?_)
    have he := next d (h d hd).left
    rw [he] at hld ⊢
    exact .step hd hld

theorem wp_writeFileChain {fileSize : UInt32} (hg : g.Sound) (hv : ∀ c ∈ clusters, g.Valid c)
    (h : g.Apart clusters card cluster) :
    wp passing (g.writeFileChain fill cluster fileSize)
      (fun _ s' card' => s'.allocHint = s.allocHint ∧ g.Aside clusters card card') s card := by
  refine wp_loop_of_lt (fun n b s' card' => n = b.snd.fst.toNat ∧ s'.allocHint = s.allocHint ∧
    g.Aside clusters card card' ∧ g.Apart clusters card' b.fst) ?_ fileSize.toNat_lt
    ⟨rfl, rfl, .refl, h⟩
  rintro n ⟨current, remaining, offset⟩ s₁ card₁ ⟨rfl, hs, ha, hp⟩
  rw [writeRound, wp_ite]
  split
  case isFalse => exact ⟨hs, ha⟩
  case isTrue hc =>
    obtain ⟨hn, hl⟩ := hc
    rw [wp_bind]
    refine wp_mono wp_writeSectors ?_
    rintro r s₂ card₂ ⟨hh, hk, ⟨remaining', offset'⟩, rfl, _, hless⟩
    have hlt := hless (Nat.pos_of_ne_zero fun he => g.mounted (UInt8.toNat_inj.mp he)) hn
    obtain ⟨ha₂, hp₂⟩ := hp.written hg hv hl fun lba hj =>
      hk lba fun j hj' => hj j (by omega)
    dsimp only
    rw [wp_ite]
    split
    case isFalse => exact ⟨_, hlt, rfl, hh.trans hs, ha.trans ha₂, hp₂⟩
    case isTrue =>
      rw [wp_bind]
      refine wp_nextCluster (fun _ => ?_) fun _ ha => by cases ha
      exact ⟨_, hlt, rfl, hh.trans hs, ha.trans ha₂, fun c hr => hp₂ c (hr.cons hl)⟩

end Layout
end Data

-- An entry is put where the first free one was, or behind all of them.
inductive Added (raw : Memory) : List Memory → List Memory → Prop
  | reused {front old rest} : (∀ r ∈ front, Occupied r) → ¬Occupied old →
    Added raw (front ++ old :: rest) (front ++ raw :: rest)
  | appended {front rest} : (∀ r ∈ front, Occupied r) → (∀ r ∈ rest, r 0 = 0x00) →
    Added raw front (front ++ raw :: rest)

section Entry

variable {m raw : Memory} {entry : Nat} {card : Card} {lba : UInt32} {lbas before after : List UInt32}

theorem sectorEntries_overlay (hr : ∀ i ≥ 32, raw i = 0) :
    sectorEntries (m.overlay (entry * 32) 32 fun a => raw (a - entry * 32)) =
      (sectorEntries m).set entry raw := by
  refine List.ext_getElem (by simp [sectorEntries]) fun e h₁ h₂ => ?_
  rw [List.getElem_set]
  simp only [sectorEntries, List.getElem_map, List.getElem_range]
  split
  case isTrue he =>
    subst he
    funext i
    rw [rawEntry]
    split
    case isTrue hi =>
      rw [Memory.overlay, if_pos (by omega), Nat.add_sub_cancel_left]
    case isFalse hi => exact (hr i (by omega)).symm
  case isFalse he =>
    funext i
    rw [rawEntry, rawEntry]
    split
    case isTrue hi  => exact Memory.overlay_apply_of_not_mem (by omega)
    case isFalse hi => rfl

-- The entries after one of them has been written.
theorem Sector.written {m' : Memory} (h : Sector card lbas before lba after entry)
    (hn : lbas.Nodup) (hm : sectorEntries m' = (sectorEntries (card lba)).set entry raw) :
    Added raw (lbas.flatMap fun lba => sectorEntries (card lba))
      (lbas.flatMap fun l => sectorEntries (Function.update card lba m' l)) := by
  obtain ⟨rfl, hfull, hfree⟩ := h
  have hd := List.nodup_append.mp hn
  have same (l : UInt32) (hl : l ≠ lba) :
      sectorEntries (Function.update card lba m' l) = sectorEntries (card l) := by
    rw [Function.update_of_ne hl]
  have hbefore : before.flatMap (fun l => sectorEntries (Function.update card lba m' l)) =
      before.flatMap fun l => sectorEntries (card l) :=
    List.flatMap_congr fun l hl => same l (hd.right.right l hl lba List.mem_cons_self)
  have hafter : after.flatMap (fun l => sectorEntries (Function.update card lba m' l)) =
      after.flatMap fun l => sectorEntries (card l) := by
    refine List.flatMap_congr fun l hl => same l ?_
    rintro rfl
    exact (List.nodup_cons.mp hd.right.left).left hl
  rw [List.flatMap_append, List.flatMap_append, List.flatMap_cons, List.flatMap_cons, hbefore,
    hafter, Function.update_self, hm]
  generalize hfront : before.flatMap (fun l => sectorEntries (card l)) = front
  have hocc : ∀ r ∈ front, Occupied r := by
    intro r hr
    rw [← hfront] at hr
    obtain ⟨l, hl, hr⟩ := List.mem_flatMap.mp hr
    exact hfull l hl r hr
  generalize sectorEntries (card lba) = raws at hfree ⊢
  generalize he : some entry = found at hfree
  cases hfree with
  | none => cases he
  | @some fr old rest hfr hold =>
    obtain rfl := Option.some.inj he
    rw [List.set_append_right _ _ (Nat.le_refl _), Nat.sub_self, List.set_cons_zero,
      List.append_assoc, List.append_assoc, List.cons_append, List.cons_append, ← List.append_assoc,
      ← List.append_assoc]
    exact .reused (List.forall_mem_append.mpr ⟨hocc, hfr⟩) hold

end Entry

namespace Layout

section Adding

variable {g : Layout} {card card' : Card} {s : Driver} {dirCluster cluster base : UInt32}
variable {clusters : List UInt32} {left i : Nat}

theorem wp_zeroSectors_passing (hz : s.sectorData = fun _ => 0) :
    wp passing (zeroSectors base left i) (fun ok s' card' => ok = true ∧ s' = s ∧ ∀ lba, card' lba =
      if lba ∈ (List.range' i left).map (base + .ofNat ·) then fun _ => 0 else card lba) s card := by
  induction left generalizing i card with
  | zero => exact ⟨rfl, rfl, fun _ => rfl⟩
  | succ left ih =>
    rw [zeroSectors, wp_bind]
    refine wp_writeBlock ?_ fun _ ha => by cases ha
    rw [wp_ite, if_pos rfl, hz]
    refine wp_mono ih ?_
    rintro ok s' card' ⟨rfl, rfl, hc⟩
    refine ⟨rfl, rfl, fun lba => ?_⟩
    rw [hc, List.range'_succ, List.map_cons, Function.update_apply]
    by_cases hm : lba ∈ (List.range' (i + 1) left).map (base + .ofNat ·)
    case pos => rw [if_pos hm, if_pos (List.mem_cons_of_mem _ hm)]
    case neg =>
      rw [if_neg hm]
      exact if_congr (by rw [List.mem_cons, or_iff_left hm]) rfl rfl

theorem wp_zeroCluster_passing :
    wp passing (g.zeroCluster cluster) (fun ok s' card' => ok = true ∧
      s'.allocHint = s.allocHint ∧ (∀ lba ∈ g.sectors [cluster], card' lba = fun _ => 0) ∧
      ∀ lba ∉ g.sectors [cluster], card' lba = card lba) s card := by
  have hs : g.sectors [cluster] =
      (List.range' 0 g.sectorsPerCluster.toNat).map (g.clusterLba cluster + .ofNat ·) := by
    rw [sectors_cons]
    exact List.append_nil _
  rw [zeroCluster, wp_bind, wp_modify]
  refine wp_mono (wp_zeroSectors_passing rfl) ?_
  rintro ok s' card' ⟨rfl, rfl, hc⟩
  refine ⟨rfl, rfl, fun lba hl => ?_, fun lba hl => ?_⟩
  · rw [hc, if_pos (hs ▸ hl)]
  · rw [hc, if_neg (hs ▸ hl)]

theorem wp_allocChain_single (hg : g.Tabular) (hs : g.Hinted s) :
    wp passing (g.allocChain 1) (fun r s' card' => ∀ new ∈ r, g.Hinted s' ∧ g.Vacant card new ∧
      g.StoredAll new eoc card card') s card := by
  have step : wp passing (g.allocClusters 1 0 0) (fun r s' card' => ∀ new ∈ r, g.Hinted s' ∧
      g.Vacant card new ∧ g.StoredAll new eoc card card') s card := by
    rw [allocClusters, wp_bind]
    refine wp_mono (wp_findFreeCluster hg hs) fun found s₁ card₁ hf => ?_
    obtain rfl := hf.kept
    cases found with
    | none     => exact fun _ h => by cases h
    | some new =>
      obtain ⟨hv, hz⟩ := hf.some new rfl
      dsimp only
      rw [wp_bind]
      refine wp_mono (wp_writeEntry_passing hg hv hf.hinted) fun ok s₂ card₂ h₂ => ?_
      obtain ⟨rfl, hs₂, hst⟩ := h₂
      rw [wp_ite, if_pos rfl]
      intro c hc
      obtain rfl : new = c := Option.some.inj hc
      exact ⟨hs₂, ⟨hv, hz⟩, hst⟩
  exact step

theorem Spans.append {front : List UInt32} {last new : UInt32}
    (h : g.Spans card cluster (front ++ [last])) (hn : ∀ c ∈ front, g.next card' c = g.next card c)
    (hl : g.next card' last = new) (hlive : Fat32.inChain new)
    (he : ¬Fat32.inChain (g.next card' new)) :
    g.Spans card' cluster (front ++ [last] ++ [new]) := by
  induction front generalizing cluster with
  | nil =>
    obtain ⟨rfl, hc, _⟩ := h
    exact ⟨rfl, hc, hl, hl.symm ▸ hlive, he⟩
  | cons c cs ih =>
    obtain ⟨rfl, hc, hr⟩ := h
    obtain ⟨hc', hn⟩ := List.forall_mem_cons.mp hn
    refine ⟨rfl, hc, ?_⟩
    rw [hc']
    exact ih hr hn

theorem Valid.inChain {c : UInt32} (h : g.Valid c) (hg : g.Tabular) : inChain c := by
  rw [Fat32.inChain, Bool.and_eq_true, decide_eq_true_iff, decide_eq_true_iff]
  exact ⟨UInt32.le_iff_toNat_le.mpr h.left, UInt32.lt_iff_toNat_lt.mpr (h.lt hg)⟩

theorem sectors_append {clusters' : List UInt32} :
    g.sectors (clusters ++ clusters') = g.sectors clusters ++ g.sectors clusters' :=
  List.flatMap_append

-- A directory that has grown by a cluster without entries.
structure Lengthened (g : Layout) (card : Card) (dirCluster : UInt32) (clusters : List UInt32)
    (new : UInt32) (card' : Card) : Prop where
  holds : g.Holds card' dirCluster (clusters ++ [new])
  kept : ∀ lba ∈ g.sectors clusters, card' lba = card lba
  clear : ∀ lba ∈ g.sectors [new], card' lba = fun _ => 0

theorem wp_extend_passing {front : List UInt32} {last : UInt32} (hg : g.Sound) (hs : g.Hinted s)
    (hd : g.Holds card dirCluster (front ++ [last])) :
    wp passing (g.extend last) (fun r s' card' => ∀ slot ∈ r, g.Hinted s' ∧ ∃ new,
      slot = ⟨new, 0, 0⟩ ∧ g.Lengthened card dirCluster (front ++ [last]) new card') s card := by
  have ht := hg.toTabular
  have hlast : last ∈ front ++ [last] := by simp
  have hlv := hd.valid last hlast
  rw [extend, wp_bind]
  refine wp_mono (wp_allocChain_single ht hs) fun r s₁ card₁ h₁ => ?_
  cases r with
  | none     => exact fun _ h => by cases h
  | some new =>
    obtain ⟨hs₁, hv, hst⟩ := h₁ new rfl
    dsimp only
    rw [wp_bind]
    refine wp_mono wp_zeroCluster_passing ?_
    rintro ok s₂ card₂ ⟨rfl, hh, hclear, hkept⟩
    rw [wp_ite, if_pos rfl, wp_bind]
    have hs₂ : g.Hinted s₂ := by rw [Hinted, hh]; exact hs₁
    refine wp_mono (wp_writeEntry_passing ht hlv hs₂) ?_
    rintro ok s₃ card₃ ⟨rfl, hs₃, hln⟩
    rw [wp_ite, if_pos rfl]
    intro slot hslot
    refine ⟨hs₃, new, (Option.some.inj hslot).symm, ?_⟩
    have hne (c : UInt32) (hc : c ∈ front ++ [last]) : c ≠ new := by
      rintro rfl
      exact hd.used c hc hv.right
    have hnv : ∀ c ∈ [new], g.Valid c := List.forall_mem_singleton.mpr hv.left
    -- The table is none of the sectors that are cleared.
    have hnext (c : UInt32) (hc : g.Valid c) : g.next card₂ c = g.next card₁ c := by
      rw [next, next, hc.fatSector ht, hkept]
      exact fun hm => sectors_beside hg hnv hm 0 _ (hc.stands ht (fats_pos ht)) rfl
    have hlink (c : UInt32) (hc : c ∈ front ++ [last]) (hcl : c ≠ last) :
        g.next card₃ c = g.next card c := by
      rw [hln.next ht (hd.valid c hc), if_neg hcl, hnext c (hd.valid c hc),
        hst.next ht (hd.valid c hc), if_neg (hne c hc)]
    have hlastnext : g.next card₃ last = new := by
      rw [hln.next ht hlv, if_pos rfl]
      exact low_of_le (Nat.le_of_lt (hv.left.lt ht))
    have hnewnext : g.next card₃ new = eoc := by
      rw [hln.next ht hv.left, if_neg (hne last hlast).symm, hnext new hv.left,
        hst.next ht hv.left, if_pos rfl]
      exact low_of_le (Nat.le_refl _)
    have hfront (c : UInt32) (hc : c ∈ front) : c ≠ last := by
      rintro rfl
      have hx := List.nodup_append.mp hd.spans.nodup
      exact hx.right.right c hc c (List.mem_singleton_self c) rfl
    refine ⟨⟨?_, ?_, ?_⟩, ?_, ?_⟩
    · refine hd.spans.append (fun c hc => ?_) hlastnext (hv.left.inChain ht) ?_
      · exact hlink c (List.mem_append_left _ hc) (hfront c hc)
      · rw [hnewnext]
        decide
    · exact List.forall_mem_append.mpr ⟨hd.valid, hnv⟩
    · refine List.forall_mem_append.mpr ⟨fun c hc => ?_, List.forall_mem_singleton.mpr ?_⟩
      · by_cases hcl : c = last
        case pos =>
          rw [hcl, hlastnext]
          exact ne_zero_of_inChain (hv.left.inChain ht)
        case neg =>
          rw [hlink c hc hcl]
          exact hd.used c hc
      · rw [hnewnext]
        decide
    · intro lba hl
      have hbeside := sectors_beside hg hd.valid hl
      rw [hln.beside lba hbeside, hkept, hst.beside lba hbeside]
      intro hm
      obtain ⟨c, hc, j, hj, he⟩ := mem_sectors.mp hl
      obtain ⟨c', hc', j', hj', he'⟩ := mem_sectors.mp hm
      obtain rfl := List.mem_singleton.mp hc'
      obtain ⟨rfl, _⟩ := (hd.valid c hc).lba_inj hg hv.left hj hj' (he.trans he'.symm)
      exact hne c hc rfl
    · intro lba hl
      rw [hln.beside lba (sectors_beside hg hnv hl), hclear lba hl]

end Adding
end Layout
end Fat32
