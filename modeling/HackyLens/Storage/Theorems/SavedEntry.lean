import HackyLens.Storage.Theorems.Saving

-- What a directory has when an entry has been added to it.

namespace Fat32

open Core Prog
open Sd (Card Verdict)

variable {g : Layout} {card card' : Card} {s : Driver} {dirCluster : UInt32}
variable {clusters : List UInt32} {raws raws' : List Memory} {raw : Memory}

theorem FirstFree.lt {m : Memory} {entry : Nat} (h : FirstFree (sectorEntries m) (.some entry)) :
    entry < 16 := by
  have hlen : (sectorEntries m).length = 16 := by
    rw [sectorEntries, List.length_map, List.length_range]
  generalize sectorEntries m = raws at h hlen
  generalize he : Option.some entry = r at h
  cases h with
  | none _   => cases he
  | some _ _ =>
    obtain rfl := Option.some.inj he
    rw [List.length_append, List.length_cons] at hlen
    omega

namespace Layout

-- Room for an entry in a directory, which may have grown for it.
inductive Placed (g : Layout) (card : Card) (dirCluster : UInt32) (clusters : List UInt32)
    (slot : DirSlot) (card' : Card) : Prop
  | found {before after entry} : card' = card → slot.entry = .ofNat entry →
    Sector card (g.sectors clusters) before (g.clusterLba slot.cluster + slot.sector.toUInt32) after
      entry → Placed g card dirCluster clusters slot card'
  | grown {new} : (∀ lba ∈ g.sectors clusters, Full card lba) → slot = ⟨new, 0, 0⟩ →
    g.Lengthened card dirCluster clusters new card' → Placed g card dirCluster clusters slot card'

theorem wp_findSlots_one (hg : g.Sound) (hs : g.Hinted s) (hd : g.Holds card dirCluster clusters) :
    wp passing (g.findSlots dirCluster 1) (fun r s' card' => ∀ slot ∈ r, g.Hinted s' ∧
      g.Placed card dirCluster clusters slot card') s card := by
  rw [findSlots, wp_bind]
  refine wp_mono (wp_walkFrom hd.spans hd.spans.length_lt) ?_
  rintro r s₁ card₁ ⟨rfl, hh, hr⟩
  have hs₁ : g.Hinted s₁ := by rw [Hinted, hh]; exact hs
  cases r with
  | failed     => exact hr.elim
  | found slot =>
    obtain ⟨before, after, entry, he, hx⟩ := hr
    intro slot' hslot
    cases hslot
    exact ⟨hs₁, .found rfl he hx⟩
  | ended last =>
    dsimp only
    rw [wp_ite]
    split
    case isFalse =>
      intro slot hslot
      cases hslot
    case isTrue hle =>
      obtain ⟨hfull, hlast⟩ := hr
      obtain ⟨front, rfl⟩ : ∃ front, clusters = front ++ [last] := by
        rcases List.eq_nil_or_concat clusters with rfl | ⟨front, c, rfl⟩
        · rw [hlast] at hle
          exact absurd hle (by decide)
        · refine ⟨front, ?_⟩
          rw [hlast, List.concat_eq_append, List.getLastD_concat]
      refine wp_mono (wp_extend_passing hg hs₁ hd) ?_
      intro r s₂ card₂ h₂ slot hslot
      obtain ⟨hs₂, new, he, hx⟩ := h₂ slot hslot
      exact ⟨hs₂, .grown hfull he hx⟩

theorem sectorEntries_zero {m : Memory} (h : m = fun _ => 0) : ∀ raw ∈ sectorEntries m, raw 0 = 0x00 := by
  intro raw hr
  obtain ⟨e, _, rfl⟩ := List.mem_map.mp hr
  rw [h]
  rfl

theorem occupied_content (h : ∀ lba ∈ g.sectors clusters, Full card lba) :
    ∀ raw ∈ g.content card clusters, Occupied raw := by
  intro raw hr
  obtain ⟨lba, hl, hr⟩ := List.mem_flatMap.mp hr
  exact h lba hl raw hr

theorem content_append {clusters' : List UInt32} : g.content card (clusters ++ clusters') =
    g.content card clusters ++ g.content card clusters' := by
  rw [content, sectors_append, List.flatMap_append]
  rfl

-- The first sector of a cluster.
theorem sectors_singleton (c : UInt32) : ∃ after, g.sectors [c] = g.clusterLba c :: after := by
  have hpos := Nat.pos_of_ne_zero fun he => g.mounted (UInt8.toNat_inj.mp he)
  obtain ⟨n, hn⟩ := Nat.exists_eq_succ_of_ne_zero (Nat.ne_of_gt hpos)
  refine ⟨(List.range' 1 n).map (g.clusterLba c + .ofNat ·), ?_⟩
  rw [sectors_cons, hn, List.range'_succ, List.map_cons]
  simp [sectors]

theorem wp_writeSlots_one {slot : DirSlot} {lba : UInt32} {entry : Nat} (he : entry < 16)
    (hl : g.clusterLba slot.cluster + slot.sector.toUInt32 = lba)
    (hs : slot.entry = .ofNat entry) :
    wp passing (g.writeSlots slot raw 1) (fun _ s' card' => s'.allocHint = s.allocHint ∧
      card' = Function.update card lba
        ((card lba).overlay (entry * 32) 32 fun a => raw (a - entry * 32))) s card := by
  have h1 : (1 : UInt8).toNat = 1 := rfl
  have hto : slot.entry.toNat = entry := by
    rw [hs]
    exact UInt8.toNat_ofNat_of_lt' (show entry < 256 by omega)
  rw [writeSlots]
  rw [hto, hl, h1, Nat.one_mul, if_neg (show ¬entry * 32 + 32 > sdBlockSize by rw [sdBlockSize]; omega), wp_bind]
  refine wp_readBlock ?_ fun _ ha => by cases ha
  rw [wp_ite, if_pos rfl, wp_bind, wp_modify]
  exact wp_writeBlock ⟨rfl, rfl⟩ fun _ ha => by cases ha

-- The directory after a sector of it has been written.
theorem Holds.update {lba : UInt32} {m : Memory} (hd : g.Holds card dirCluster clusters)
    (hg : g.Sound) (hl : lba ∈ g.sectors clusters) :
    g.Holds (Function.update card lba m) dirCluster clusters := by
  have hn (c : UInt32) (hc : c ∈ clusters) :
      g.next (Function.update card lba m) c = g.next card c := by
    have hcv := hd.valid c hc
    rw [next, next, hcv.fatSector hg.toTabular, Function.update_of_ne]
    exact (sectors_beside hg hd.valid hl 0 _
      (hcv.stands hg.toTabular (fats_pos hg.toTabular))).symm
  refine ⟨hd.spans.congr hn, hd.valid, fun c hc => ?_⟩
  rw [hn c hc]
  exact hd.used c hc

-- What a successful `addFileEntry` does to the directory.
def Entered (g : Layout) (card : Card) (dirCluster : UInt32) (clusters : List UInt32)
    (raw : Memory) (card' : Card) : Prop :=
  ∃ clusters', g.Holds card' dirCluster clusters' ∧
    Added raw (g.content card clusters) (g.content card' clusters')

theorem Placed.entered {slot : DirSlot} {s' : Driver} (h : g.Placed card dirCluster clusters slot card')
    (hg : g.Sound) (hd : g.Holds card dirCluster clusters) (hr : ∀ i ≥ 32, raw i = 0) :
    wp passing (g.writeSlots slot raw 1) (fun _ s'' card'' => s''.allocHint = s'.allocHint ∧
      g.Entered card dirCluster clusters raw card'') s' card' := by
  cases h with
  | @found before after entry hc he hx =>
    subst hc
    refine wp_mono (wp_writeSlots_one hx.free.lt rfl he) ?_
    rintro ok s'' card'' ⟨hh, rfl⟩
    have hm : g.clusterLba slot.cluster + slot.sector.toUInt32 ∈ g.sectors clusters := by
      rw [hx.split]
      simp
    refine ⟨hh, clusters, hd.update hg hm, ?_⟩
    exact hx.written (sectors_nodup hg hd.valid hd.spans.nodup) (sectorEntries_overlay hr)
  | @grown new hfull he hx =>
    subst he
    obtain ⟨after, hafter⟩ := @sectors_singleton g new
    have hlba : g.clusterLba new + (0 : UInt8).toUInt32 = g.clusterLba new := UInt32.add_zero _
    refine wp_mono (wp_writeSlots_one (show 0 < 16 by decide) hlba rfl) ?_
    rintro ok s'' card'' ⟨hh, rfl⟩
    have hlast : g.clusterLba new ∈ g.sectors [new] := hafter ▸ List.mem_cons_self
    have hm : g.clusterLba new ∈ g.sectors (clusters ++ [new]) := by
      rw [sectors_append]
      exact List.mem_append_right _ hlast
    refine ⟨hh, clusters ++ [new], hx.holds.update hg hm, ?_⟩
    have hnodup := sectors_nodup hg hx.holds.valid hx.holds.spans.nodup
    rw [sectors_append] at hnodup
    have hd₁ := List.nodup_append.mp hnodup
    -- Before it is written, the cluster's entries are all the end of the directory.
    have hsame : g.content (Function.update card' (g.clusterLba new)
        ((card' (g.clusterLba new)).overlay (0 * 32) 32 fun a => raw (a - 0 * 32))) clusters =
          g.content card clusters := by
      refine List.flatMap_congr fun lba hl => ?_
      have hne : lba ≠ g.clusterLba new := hd₁.right.right lba hl _ hlast
      rw [Function.update_of_ne hne, hx.kept lba hl]
    have hzero : ∀ raw ∈ (sectorEntries (card' (g.clusterLba new))), raw 0 = 0x00 :=
      sectorEntries_zero (hx.clear _ hlast)
    have hother : ∀ raw ∈ after.flatMap fun lba => sectorEntries (card' lba), raw 0 = 0x00 := by
      intro raw hr
      obtain ⟨lba, hl, hr⟩ := List.mem_flatMap.mp hr
      exact sectorEntries_zero (hx.clear lba (hafter ▸ List.mem_cons_of_mem _ hl)) raw hr
    have hnew : g.content (Function.update card' (g.clusterLba new)
        ((card' (g.clusterLba new)).overlay (0 * 32) 32 fun a => raw (a - 0 * 32))) [new] =
          raw :: ((sectorEntries (card' (g.clusterLba new))).tail ++
            after.flatMap fun lba => sectorEntries (card' lba)) := by
      rw [content, hafter, List.flatMap_cons, Function.update_self, sectorEntries_overlay hr]
      have hafter' : after.flatMap (fun lba => sectorEntries (Function.update card'
          (g.clusterLba new) ((card' (g.clusterLba new)).overlay (0 * 32) 32
            fun a => raw (a - 0 * 32)) lba)) = after.flatMap fun lba => sectorEntries (card' lba) := by
        refine List.flatMap_congr fun lba hl => ?_
        rw [Function.update_of_ne]
        rintro rfl
        rw [hafter] at hd₁
        exact (List.nodup_cons.mp hd₁.right.left).left hl
      rw [hafter']
      rfl
    rw [content_append, hsame, hnew]
    refine .appended (occupied_content hfull) (List.forall_mem_append.mpr ⟨fun r hr => ?_, hother⟩)
    exact hzero r (List.mem_of_mem_tail hr)

theorem makeShortEntry_behind {name : List UInt8} {attr : UInt8} {cluster size : UInt32} {i : Nat}
    (h : i ≥ 32) : makeShortEntry name attr cluster size i = 0 := by
  rw [makeShortEntry, if_neg (by omega), if_neg (by omega), if_neg (by omega), if_neg (by omega),
    if_neg (by omega)]

theorem wp_addFileEntry {name : List UInt8} {firstCluster fileSize : UInt32} (hg : g.Sound)
    (hs : g.Hinted s) (hd : g.Holds card dirCluster clusters) :
    wp passing (g.addFileEntry dirCluster name firstCluster fileSize) (fun ok s' card' => ok = true →
      g.Hinted s' ∧ g.Entered card dirCluster clusters
        (makeShortEntry name fatAttrArchive firstCluster fileSize) card') s card := by
  rw [addFileEntry, wp_bind]
  refine wp_mono (wp_findSlots_one hg hs hd) fun r s₁ card₁ h₁ => ?_
  cases r with
  | none      => exact nofun
  | some slot =>
    obtain ⟨hs₁, hx⟩ := h₁ slot rfl
    refine wp_mono (hx.entered hg hd fun i hi => makeShortEntry_behind hi) ?_
    rintro ok s₂ card₂ ⟨hh, hent⟩ _
    exact ⟨by rw [Hinted, hh]; exact hs₁, hent⟩

end Layout
end Fat32
