import HackyLens.Storage.Theorems.Listing

-- `fat_dir_mark_deleted` on a card, and what a scan finds after it.

namespace Fat32

open Core Prog
open Sd (Card Verdict)

section Sector

variable {start last : UInt32} {m : Memory} {left entry k n : Nat}

-- What the first `n` entries of a sector become, of which the first one has the number `k`.
def markSector (start last : UInt32) (k n : Nat) (m : Memory) : Memory := fun a =>
  if a % 32 = 0 ∧ a / 32 < n ∧ start.toNat ≤ k + a / 32 ∧ k + a / 32 ≤ last.toNat then
    0xE5
  else
    m a

theorem markSector_zero : markSector start last k 0 m = m :=
  funext fun _ => if_neg (by omega)

theorem markSector_behind (h : last.toNat < k) : markSector start last k n m = m :=
  funext fun _ => if_neg (by omega)

theorem markSector_succ (h : start.toNat ≤ k + n ∧ k + n ≤ last.toNat) :
    markSector start last k (n + 1) m =
      Function.update (markSector start last k n m) (n * 32) 0xE5 := by
  funext a
  rw [Function.update_apply, markSector, markSector]
  by_cases ha : a = n * 32
  case pos => rw [if_pos ha, if_pos (by omega)]
  case neg =>
    rw [if_neg ha]
    exact if_congr (by omega) rfl rfl

theorem markSector_skip (h : ¬(start.toNat ≤ k + n ∧ k + n ≤ last.toNat)) :
    markSector start last k (n + 1) m = markSector start last k n m :=
  funext fun _ => if_congr (by omega) rfl rfl

theorem markSector_stop (hn : last.toNat + 1 = k + n) (hl : n ≤ 16) :
    markSector start last k 16 m = markSector start last k n m :=
  funext fun _ => if_congr (by omega) rfl rfl

theorem markEntries_eq (he : entry + left = 16) (hk : k + entry ≤ last.toNat + 1)
    (hl : k + 16 < UInt32.size) {dirty : Bool}
    (hd : dirty = false → markSector start last k entry m = m) :
    ∃ dirty', markEntries start last left entry (.ofNat (k + entry))
        (markSector start last k entry m, dirty) =
      ((markSector start last k 16 m, dirty'), .ofNat (min (k + 16) (last.toNat + 1))) ∧
      (dirty' = false → markSector start last k 16 m = m) := by
  induction left generalizing entry dirty with
  | zero =>
    obtain rfl : entry = 16 := he
    exact ⟨dirty, by rw [markEntries, Nat.min_eq_left hk], hd⟩
  | succ left ih =>
    have ho : (UInt32.ofNat (k + entry)).toNat = k + entry :=
      UInt32.toNat_ofNat_of_lt' (by omega)
    have next : UInt32.ofNat (k + entry) + 1 = .ofNat (k + (entry + 1)) := by
      rw [← Nat.add_assoc, UInt32.ofNat_add (k + entry)]
      rfl
    have hin : (UInt32.ofNat (k + entry) ≥ start ∧ UInt32.ofNat (k + entry) ≤ last) ↔
        (start.toNat ≤ k + entry ∧ k + entry ≤ last.toNat) := by
      rw [ge_iff_le, UInt32.le_iff_toNat_le, UInt32.le_iff_toNat_le, ho]
    have hgt : UInt32.ofNat (k + entry) > last ↔ last.toNat < k + entry := by
      rw [gt_iff_lt, UInt32.lt_iff_toNat_lt, ho]
    rw [markEntries, next]
    dsimp only
    by_cases hs : start.toNat ≤ k + entry ∧ k + entry ≤ last.toNat
    case pos =>
      rw [if_pos (hin.mpr hs), if_neg (fun h => absurd (hgt.mp h) (by omega)), ← markSector_succ hs]
      exact ih (by omega) (by omega) fun hf => absurd hf (by decide)
    case neg =>
      rw [if_neg fun h => hs (hin.mp h)]
      by_cases hlt : last.toNat < k + entry
      case pos =>
        have hstop := @markSector_stop start last m k entry (by omega) (by omega)
        rw [if_pos (hgt.mpr hlt), Nat.min_eq_right (by omega), hstop]
        exact ⟨dirty, by rw [show last.toNat + 1 = k + entry by omega], hd⟩
      case neg =>
        rw [if_neg fun h => hlt (hgt.mp h), ← markSector_skip hs]
        refine ih (by omega) (by omega) fun hf => ?_
        rw [markSector_skip hs]
        exact hd hf

theorem rawEntry_markSector (h : entry < 16) : rawEntry (markSector start last k 16 m) entry =
    if start.toNat ≤ k + entry ∧ k + entry ≤ last.toNat then
      markRaw (rawEntry m entry)
    else
      rawEntry m entry := by
  have byte (i : Nat) (hi : i < 32) : markSector start last k 16 m (entry * 32 + i) =
      if i = 0 ∧ start.toNat ≤ k + entry ∧ k + entry ≤ last.toNat then 0xE5
      else m (entry * 32 + i) := by
    have hd : (entry * 32 + i) / 32 = entry := by omega
    rw [markSector, hd]
    exact if_congr (by omega) rfl rfl
  funext i
  rw [rawEntry]
  split
  case isTrue hi =>
    rw [byte i hi]
    split
    case isTrue hm  => rw [if_pos hm.right, hm.left, markRaw, Function.update_self]
    case isFalse hm =>
      split
      case isTrue hs =>
        have hne : i ≠ 0 := fun he => hm ⟨he, hs⟩
        rw [markRaw, Function.update_of_ne hne, rawEntry, if_pos hi]
      case isFalse => rw [rawEntry, if_pos hi]
  case isFalse hi =>
    have hne : i ≠ 0 := by omega
    split
    case isTrue  => rw [markRaw, Function.update_of_ne hne, rawEntry, if_neg hi]
    case isFalse => rw [rawEntry, if_neg hi]

theorem sectorEntries_markSector : sectorEntries (markSector start last k 16 m) =
    markRaws start.toNat last.toNat k (sectorEntries m) := by
  have from_ (n : Nat) : ∀ entry, entry + n = 16 →
      (List.range' entry n).map (rawEntry (markSector start last k 16 m)) =
        markRaws start.toNat last.toNat (k + entry) ((List.range' entry n).map (rawEntry m)) := by
    induction n with
    | zero => exact fun _ _ => rfl
    | succ n ih =>
      intro entry he
      rw [List.range'_succ, List.map_cons, List.map_cons, markRaws, ih (entry + 1) (by omega),
        rawEntry_markSector (by omega)]
      rfl
  rw [sectorEntries, sectorEntries, List.range_eq_range']
  exact from_ 16 0 rfl

end Sector

section Card

variable {start last lba : UInt32} {card : Card} {lbas lbas' : List UInt32} {k : Nat}

-- One sector after the other is marked.
def markAll (start last : UInt32) : Nat → List UInt32 → Card → Card
  | _, [],          card => card
  | k, lba :: lbas, card =>
    markAll start last (k + 16) lbas
      (Function.update card lba (markSector start last k 16 (card lba)))

theorem markAll_append : markAll start last k (lbas ++ lbas') card =
    markAll start last (k + 16 * lbas.length) lbas' (markAll start last k lbas card) := by
  induction lbas generalizing k card with
  | nil => rfl
  | cons lba lbas ih =>
    rw [List.cons_append, markAll, ih, markAll, List.length_cons]
    rw [show k + 16 + 16 * lbas.length = k + 16 * (lbas.length + 1) by omega]

theorem markAll_behind (h : last.toNat < k) : markAll start last k lbas card = card := by
  induction lbas generalizing k card with
  | nil => rfl
  | cons lba lbas ih =>
    rw [markAll, markSector_behind h, Function.update_eq_self]
    exact ih (by omega)

theorem markAll_of_not_mem (h : lba ∉ lbas) : markAll start last k lbas card lba = card lba := by
  induction lbas generalizing k card with
  | nil => rfl
  | cons lba' lbas ih =>
    rw [List.mem_cons, not_or] at h
    rw [markAll, ih h.right, Function.update_of_ne h.left]

theorem entries_markAll (hn : lbas.Nodup) :
    lbas.flatMap (fun lba => sectorEntries (markAll start last k lbas card lba)) =
      markRaws start.toNat last.toNat k (lbas.flatMap fun lba => sectorEntries (card lba)) := by
  induction lbas generalizing k card with
  | nil => rfl
  | cons lba lbas ih =>
    obtain ⟨hm, hn⟩ := List.nodup_cons.mp hn
    rw [List.flatMap_cons, List.flatMap_cons, markRaws_append, ← sectorEntries_markSector, markAll,
      markAll_of_not_mem hm, Function.update_self, ih hn]
    have hlen : (sectorEntries (card lba)).length = 16 := by
      rw [sectorEntries, List.length_map, List.length_range]
    rw [hlen]
    refine congrArg (_ ++ markRaws _ _ _ ·) (List.flatMap_congr fun lba' hl => ?_)
    have hne : lba' ≠ lba := by
      rintro rfl
      exact hm hl
    rw [Function.update_of_ne hne]

end Card

section Passing

variable {start last base : UInt32} {card : Card} {s : Driver} {left i k : Nat}

-- A sector that is not dirty is the one that is on the card.
theorem wp_writeDirty {P : Bool → Driver → Card → Prop} {lba : UInt32} {dirty : Bool}
    (hd : dirty = false → s.sectorData = card lba)
    (hp : P true s (Function.update card lba s.sectorData)) :
    wp Layout.passing (writeDirty lba dirty) P s card := by
  rw [writeDirty, wp_ite]
  split
  case isTrue  => exact wp_writeBlock hp fun _ ha => by cases ha
  case isFalse hn =>
    rw [hd (Bool.eq_false_of_not_eq_true hn), Function.update_eq_self] at hp
    exact hp

theorem wp_markSectors (hk : k ≤ last.toNat) (hl : k + 16 * left < UInt32.size) :
    wp Layout.passing (markSectors base start last left i (.ofNat k)) (fun r _ card' =>
      card' = markAll start last k ((List.range' i left).map (base + .ofNat ·)) card ∧
      r = if last.toNat < k + 16 * left then .done else .more (.ofNat (k + 16 * left))) s card := by
  induction left generalizing i k card s with
  | zero => exact ⟨rfl, (if_neg (by omega)).symm⟩
  | succ left ih =>
    rw [markSectors, wp_bind]
    refine wp_readBlock ?_ fun _ ha => by cases ha
    rw [wp_ite, if_pos rfl, wp_bind, wp_get]
    obtain ⟨dirty, he, hd⟩ := @markEntries_eq start last (card (base + .ofNat i)) 16 0 k rfl
      (by omega) (by omega) false fun _ => markSector_zero
    rw [markSector_zero, Nat.add_zero] at he
    dsimp only
    rw [he, List.range'_succ, List.map_cons, markAll]
    dsimp only
    rw [wp_bind, wp_modify]
    dsimp only
    rw [wp_bind]
    refine wp_writeDirty hd ?_
    rw [wp_ite, if_pos rfl, wp_ite]
    have hmin : (UInt32.ofNat (min (k + 16) (last.toNat + 1))).toNat =
        min (k + 16) (last.toNat + 1) := UInt32.toNat_ofNat_of_lt' (by omega)
    by_cases hlt : last.toNat < k + 16
    case pos =>
      rw [if_pos (UInt32.lt_iff_toNat_lt.mpr (by omega)), if_pos (by omega), markAll_behind hlt]
      exact ⟨rfl, rfl⟩
    case neg =>
      rw [if_neg fun h => hlt (by have := UInt32.lt_iff_toNat_lt.mp h; omega),
        Nat.min_eq_left (by omega)]
      refine wp_mono (ih (by omega) (by omega)) ?_
      rintro r s' card' ⟨rfl, rfl⟩
      rw [show k + 16 + 16 * left = k + 16 * (left + 1) by omega]
      exact ⟨rfl, rfl⟩

namespace Layout

variable {g : Layout} {card' : Card} {cluster lba : UInt32} {clusters : List UInt32}

theorem mem_sectors : lba ∈ g.sectors clusters ↔
    ∃ c ∈ clusters, ∃ i < g.sectorsPerCluster.toNat, g.clusterLba c + .ofNat i = lba := by
  simp only [sectors, List.mem_flatMap, List.mem_map, List.mem_range]

-- No sector is in two clusters.
theorem Valid.lba_inj {c d : UInt32} {i j : Nat} (hc : g.Valid c) (hg : g.Sound) (hd : g.Valid d)
    (hi : i < g.sectorsPerCluster.toNat) (hj : j < g.sectorsPerCluster.toNat)
    (he : g.clusterLba c + .ofNat i = g.clusterLba d + .ofNat j) : c = d ∧ i = j := by
  have he := congrArg UInt32.toNat he
  rw [hc.lba_toNat hg hi, hd.lba_toNat hg hj, Nat.add_assoc, Nat.add_assoc,
    Nat.add_left_cancel_iff] at he
  have quotient (a b : Nat) (hb : b < g.sectorsPerCluster.toNat) :
      (a * g.sectorsPerCluster.toNat + b) / g.sectorsPerCluster.toNat = a := by
    rw [Nat.mul_comm, Nat.mul_add_div (Nat.zero_lt_of_lt hb), Nat.div_eq_of_lt hb, Nat.add_zero]
  have hq := congrArg (· / g.sectorsPerCluster.toNat) he
  rw [quotient _ _ hi, quotient _ _ hj] at hq
  have hcl := hc.left
  have hdl := hd.left
  refine ⟨UInt32.toNat_inj.mp (by omega), ?_⟩
  rwa [hq, Nat.add_left_cancel_iff] at he

theorem sectors_nodup (hg : g.Sound) (hv : ∀ c ∈ clusters, g.Valid c) (hn : clusters.Nodup) :
    (g.sectors clusters).Nodup := by
  refine List.nodup_flatMap.mpr ⟨fun c hc => ?_, ?_⟩
  · refine List.nodup_range.map_on fun i hi j hj he => ?_
    exact ((hv c hc).lba_inj hg (hv c hc) (List.mem_range.mp hi) (List.mem_range.mp hj) he).right
  · refine hn.imp_of_mem fun {c d} hc hd hne lba h₁ h₂ => hne ?_
    obtain ⟨i, hi, rfl⟩ := List.mem_map.mp h₁
    obtain ⟨j, hj, he⟩ := List.mem_map.mp h₂
    exact ((hv d hd).lba_inj hg (hv c hc) (List.mem_range.mp hj) (List.mem_range.mp hi) he).left.symm

-- The table is none of the sectors that are marked.
theorem next_markAll (hg : g.Sound) (hv : ∀ c ∈ clusters, g.Valid c) (hc : g.Valid cluster) :
    g.next (markAll start last k (g.sectors clusters) card) cluster = g.next card cluster := by
  have hst : g.Stands 0 cluster.toNat := hc.stands hg.toTabular (fats_pos hg.toTabular)
  rw [next, next, hc.fatSector hg.toTabular, markAll_of_not_mem]
  intro hm
  obtain ⟨c, hc, i, hi, he⟩ := mem_sectors.mp hm
  exact (hv c hc).lba_ne hg hi hst he

theorem Spans.congr (h : g.Spans card cluster clusters)
    (hn : ∀ c ∈ clusters, g.next card' c = g.next card c) : g.Spans card' cluster clusters := by
  induction clusters generalizing cluster with
  | nil => exact h
  | cons c cs ih =>
    obtain ⟨rfl, hl, hr⟩ := h
    obtain ⟨hc, hn⟩ := List.forall_mem_cons.mp hn
    refine ⟨rfl, hl, ?_⟩
    rw [hc]
    exact ih hr hn

theorem sectors_cons : g.sectors (cluster :: clusters) =
    (List.range' 0 g.sectorsPerCluster.toNat).map (g.clusterLba cluster + .ofNat ·) ++
      g.sectors clusters := by
  rw [sectors, sectors, List.flatMap_cons, List.range_eq_range']

theorem sectors_length :
    (g.sectors clusters).length = clusters.length * g.sectorsPerCluster.toNat := by
  induction clusters with
  | nil => simp [sectors]
  | cons c cs ih =>
    rw [sectors_cons, List.length_append, ih, List.length_map, List.length_range', List.length_cons,
      Nat.succ_mul, Nat.add_comm]

theorem wp_markFrom {fuel : Nat} (hg : g.Sound) (h : g.Spans card cluster clusters)
    (hv : ∀ c ∈ clusters, g.Valid c) (hf : clusters.length < fuel) (hk : k ≤ last.toNat)
    (hin : last.toNat < k + 16 * (g.sectors clusters).length)
    (hl : k + 16 * (g.sectors clusters).length < UInt32.size) :
    wp passing (Prog.loop (g.markRound start last) fuel (cluster, .ofNat k)) (fun r _ card' =>
      card' = markAll start last k (g.sectors clusters) card ∧ r = true) s card := by
  induction clusters generalizing cluster fuel s k card with
  | nil => exact absurd hin (by simp [sectors]; omega)
  | cons c cs ih =>
    obtain ⟨fuel, rfl⟩ := Nat.exists_eq_succ_of_ne_zero (Nat.ne_of_gt (Nat.zero_lt_of_lt hf))
    obtain ⟨rfl, hlive, hr⟩ := h
    obtain ⟨hc, hvs⟩ := List.forall_mem_cons.mp hv
    have hlen : (g.sectors (cluster :: cs)).length =
        g.sectorsPerCluster.toNat + (g.sectors cs).length := by
      rw [sectors_cons, List.length_append, List.length_map, List.length_range']
    rw [hlen] at hin hl
    rw [Prog.loop, markRound, if_pos hlive, wp_bind, wp_bind]
    refine wp_mono (wp_markSectors hk (by omega)) ?_
    rintro r s₁ card₁ ⟨rfl, rfl⟩
    rw [sectors_cons, markAll_append, List.length_map, List.length_range']
    by_cases hdone : last.toNat < k + 16 * g.sectorsPerCluster.toNat
    case pos =>
      rw [if_pos hdone, markAll_behind hdone]
      exact ⟨rfl, rfl⟩
    case neg =>
      rw [if_neg hdone]
      dsimp only
      rw [wp_bind]
      refine wp_nextCluster (fun _ => ?_) fun _ ha => by cases ha
      have hone : g.sectors [cluster] = (List.range' 0 g.sectorsPerCluster.toNat).map
          (g.clusterLba cluster + .ofNat ·) := by
        rw [sectors_cons]
        exact List.append_nil _
      have hn (d : UInt32) (hd : g.Valid d) : g.next (markAll start last k ((List.range' 0
          g.sectorsPerCluster.toNat).map (g.clusterLba cluster + .ofNat ·)) card) d =
            g.next card d := by
        rw [← hone]
        exact next_markAll hg (List.forall_mem_singleton.mpr hc) hd
      rw [hn cluster hc]
      exact ih (hr.congr fun d hd => hn d (hvs d hd)) hvs (Nat.lt_of_succ_lt_succ hf)
        (by omega) (by omega) (by omega)

theorem content_length :
    (g.content card clusters).length = 16 * (g.sectors clusters).length := by
  have each (lbas : List UInt32) :
      (lbas.flatMap fun lba => sectorEntries (card lba)).length = 16 * lbas.length := by
    induction lbas with
    | nil => rfl
    | cons lba lbas ih =>
      rw [List.flatMap_cons, List.length_append, ih, sectorEntries, List.length_map,
        List.length_range, List.length_cons]
      omega
  exact each _

-- What is marked, with blocks that can all be read and written.
theorem wp_markDeleted {ordinal : UInt32} {count : UInt8} (hg : g.Sound)
    (h : g.Spans card cluster clusters) (hv : ∀ c ∈ clusters, g.Valid c)
    (hl : (g.content card clusters).length < UInt32.size)
    (ho : ordinal.toNat < (g.content card clusters).length) (hc : count.toNat ≤ ordinal.toNat) :
    wp passing (g.markDeleted cluster ordinal count) (fun r _ card' => r = true ∧
      g.Spans card' cluster clusters ∧ g.content card' clusters =
        markRaws (ordinal.toNat - count.toNat) ordinal.toNat 0 (g.content card clusters)) s card := by
  rw [content_length] at hl ho
  have hle : count.toUInt32 ≤ ordinal :=
    UInt32.le_iff_toNat_le.mpr (by rw [UInt8.toNat_toUInt32]; exact hc)
  have hstart : (ordinal - count.toUInt32).toNat = ordinal.toNat - count.toNat := by
    rw [UInt32.toNat_sub_of_le _ _ hle, UInt8.toNat_toUInt32]
  rw [markDeleted, if_pos hle]
  refine wp_mono (@wp_markFrom (ordinal - count.toUInt32) ordinal card s 0 g cluster clusters _ hg h
    hv h.length_lt (Nat.zero_le _) (by omega) (by omega)) ?_
  rintro r s' card' ⟨rfl, rfl⟩
  refine ⟨rfl, h.congr fun c hc => next_markAll hg hv (hv c hc), ?_⟩
  rw [content, entries_markAll (sectors_nodup hg hv h.nodup), hstart]
  rfl

-- A file is deleted, and the directory is scanned again.
def deleteAndList (g : Layout) (dirCluster : UInt32) (file : FileEntry) :
    Task (Bool × Bool × List FileEntry) := do
  let deleted ← g.markDeleted dirCluster file.dirOrdinal file.lfnCount
  let listed ← g.listFiles dirCluster
  return (deleted, listed)

-- The deletion succeeds, and the scan succeeds and finds `files`.
def Removes (g : Layout) (dirCluster : UInt32) (file : FileEntry) (files : List FileEntry)
    (s : Driver) (card : Card) : Prop :=
  ∀ ds, (∀ d ∈ ds, d = .passes) →
    match (g.deleteAndList dirCluster file).run Sd.handler s ds card with
    | .done (r, _) _ => r = (true, true, files)
    | .cut _         => True
    | .hung _        => False

theorem wp_deleteAndList {files files' : List FileEntry} {file : FileEntry} (hg : g.Sound)
    (h : g.Spans card cluster clusters) (hv : ∀ c ∈ clusters, g.Valid c)
    (hl : (g.content card clusters).length < UInt32.size)
    (hf : listing (g.content card clusters) .start = files ++ file :: files') :
    wp passing (g.deleteAndList cluster file) (fun r _ _ => r = (true, true,
      listing (markRaws (file.dirOrdinal.toNat - file.lfnCount.toNat) file.dirOrdinal.toNat 0
        (g.content card clusters)) .start)) s card := by
  obtain ⟨ho, hc⟩ := listed_bounds hf hl
  rw [deleteAndList, wp_bind]
  refine wp_mono (wp_markDeleted hg h hv hl ho hc) ?_
  rintro r s₁ card₁ ⟨rfl, h₁, hcontent⟩
  rw [wp_bind]
  refine wp_mono (wp_listFiles h₁) ?_
  rintro r s₂ card₂ ⟨rfl, rfl⟩
  rw [← hcontent]
  rfl

theorem markDeleted_removes_iff {s' s'' : Driver} {ds : List Verdict}
    {files files' : List FileEntry} {file : FileEntry} (hg : g.Sound)
    (h : g.Spans card cluster clusters) (hv : ∀ c ∈ clusters, g.Valid c)
    (hl : (g.content card clusters).length < UInt32.size) (hd : ∀ d ∈ ds, d = .passes)
    (hr : (g.listFiles cluster).run Sd.handler s ds card =
      .done ((true, files ++ file :: files'), s') card') :
    g.Removes cluster file (files ++ files') s'' card ↔
      Spared (g.content card clusters) file.dirOrdinal.toNat file.lfnCount.toNat := by
  have hlist : wp passing (g.listFiles cluster) _ s card := wp_listFiles h
  have hm := run_meets hd hlist
  have hf : listing (g.content card clusters) .start = files ++ file :: files' := by
    rw [show passing.handler = Sd.handler from rfl, hr] at hm
    exact (congrArg Prod.snd hm.right).symm
  obtain ⟨front, run, raw, rest, state, hx⟩ := exists_located hf
  have hw : wp passing (g.deleteAndList cluster file) _ s'' card := wp_deleteAndList hg h hv hl hf
  rw [← hx.listing_iff hl]
  constructor
  · intro hrem
    obtain ⟨n, r, s₁, card₁, hrun, hq⟩ := exists_done (fun _ => .passes) (fun _ => rfl)
      (fun _ => id) hw
    have hdone := hrem ((List.range n).map fun _ => .passes) fun d hd => by
      obtain ⟨_, _, rfl⟩ := List.mem_map.mp hd
      rfl
    have hrun : (g.deleteAndList cluster file).run Sd.handler s''
        ((List.range n).map fun _ => .passes) card = .done (r, s₁) card₁ := hrun
    rw [hrun] at hdone
    have he := hq.symm.trans hdone
    exact congrArg (fun r : Bool × Bool × List FileEntry => r.snd.snd) he
  · intro he ds hd
    have hm : ((g.deleteAndList cluster file).run Sd.handler s'' ds card).Meets passing _ :=
      run_meets hd hw
    revert hm
    cases (g.deleteAndList cluster file).run Sd.handler s'' ds card with
    | cut       => exact fun _ => trivial
    | hung      => exact id
    | done r w' =>
      intro hq
      rw [← he]
      exact hq

-- Entries of a long name of one letter, and of a file with a short name.
def longRaw (first letter : UInt8) : Memory := fun i =>
  if i = 0 then first else if i = 11 then 0x0F else if i ∈ lfnPositions then letter else 0

def shortRaw (letter : UInt8) : Memory := fun i =>
  if i = 0 then letter else if i < 11 then 0x20 else 0

-- The root directory of this volume has two files. The long name of the second one has lost the entry
-- that is marked as the first.
def orphaned : Card := fun lba =>
  if lba = 32 ∨ lba = 33 then
    write32 (fun _ => 0) 8 eoc
  else if lba = 34 then
    fun a =>
      match a / 32 with
      | 0 => longRaw 0x42 0x62 (a % 32)
      | 1 => longRaw 0x01 0x61 (a % 32)
      | 2 => shortRaw 0x45 (a % 32)
      | 3 => longRaw 0x01 0x63 (a % 32)
      | 4 => shortRaw 0x46 (a % 32)
      | _ => 0
  else
    blank 134 lba

def orphanedFile (name : List UInt8) (ordinal : UInt32) (count : UInt8) : FileEntry :=
  ⟨name, 0, 0, 0, 0, ordinal, count⟩

def orphanedFirst : FileEntry :=
  orphanedFile (.replicate 13 0x61 ++ .replicate 13 0x62) 2 2

def orphanedLast : FileEntry :=
  orphanedFile (.replicate 13 0x63 ++ .replicate 13 0x62) 4 1

set_option maxRecDepth 2000 in
theorem orphaned_listFiles :
    ((blankLayout 100).listFiles 2).run Sd.handler ⟨2, fun _ => 0⟩ (.replicate 2 .passes) orphaned =
      .done ((true, [orphanedFirst, orphanedLast]), ⟨2, orphaned 34⟩) orphaned :=
  rfl

theorem markDeleted_removes_iff_orphaned :
    (blankLayout 100).Removes 2 orphanedLast ([orphanedFirst] ++ []) ⟨2, fun _ => 0⟩ orphaned ↔
      Spared ((blankLayout 100).content orphaned [2]) orphanedLast.dirOrdinal.toNat
        orphanedLast.lfnCount.toNat := by
  refine markDeleted_removes_iff blank_sound ⟨rfl, by decide, (by decide : ¬inChain _)⟩ ?_ ?_
    (fun d hd => List.eq_of_mem_replicate hd) orphaned_listFiles
  · exact List.forall_mem_singleton.mpr ⟨by decide, by decide⟩
  · exact show 16 < UInt32.size by decide

-- The name of the second file is another one when the first one has been deleted.
theorem markDeleted_not_removes :
    ((blankLayout 100).listFiles 2).run Sd.handler ⟨2, fun _ => 0⟩ (.replicate 2 .passes) orphaned =
      .done ((true, [orphanedFirst, orphanedLast]), ⟨2, orphaned 34⟩) orphaned ∧
    ¬(blankLayout 100).Removes 2 orphanedFirst [orphanedLast] ⟨2, orphaned 34⟩ orphaned := by
  refine ⟨rfl, fun hrem => ?_⟩
  have hx : (match ((blankLayout 100).deleteAndList 2 orphanedFirst).run Sd.handler
      ⟨2, orphaned 34⟩ (.replicate 3 .passes) orphaned with
    | .done (r, _) _ => r.snd.snd
    | _              => []) = [orphanedFile (.replicate 13 0x63) 4 1] := by decide +kernel
  have hdone := hrem (.replicate 3 .passes) fun d hd => List.eq_of_mem_replicate hd
  cases hr : ((blankLayout 100).deleteAndList 2 orphanedFirst).run Sd.handler ⟨2, orphaned 34⟩
    (.replicate 3 .passes) orphaned with
  | done r w =>
    rw [hr] at hx hdone
    have hd : r.fst = (true, true, [orphanedLast]) := hdone
    have hf : r.fst.snd.snd = [orphanedFile (.replicate 13 0x63) 4 1] := hx
    rw [hd] at hf
    exact absurd hf (by decide)
  | cut w | hung w =>
    rw [hr] at hx
    cases hx

end Layout
end Passing
end Fat32
