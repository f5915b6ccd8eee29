import HackyLens.Storage.Theorems.FatDelete

-- The file browser lists what a scan reports, as far as there is room.

namespace Fat32

open Core Prog
open Sd (Card)

variable {raws raws' : List Memory} {scanned : ScanState × List FileEntry}

def shown (files : List FileEntry) : List FileEntry :=
  (files.filter fun file => file.name ≠ []).take filesMaxEntries

abbrev parse (raws : List Memory) (scanned : ScanState × List FileEntry) :
    Bool × (ScanState × List FileEntry) :=
  scanEntries (fun file files => (false, filesAddEntry file files)) raws scanned

theorem foldl_filesAddEntry {files files' : List FileEntry}
    (h : files'.length ≤ filesMaxEntries) :
    files.foldl (fun files file => filesAddEntry file files) files' =
      (files' ++ files.filter fun file => file.name ≠ []).take filesMaxEntries := by
  induction files generalizing files' with
  | nil => rw [List.foldl_nil, List.filter_nil, List.append_nil, List.take_of_length_le h]
  | cons file files ih =>
    rw [List.foldl_cons, filesAddEntry]
    by_cases hn : file.name = []
    case pos =>
      rw [if_pos (.inl hn), ih h, List.filter_cons_of_neg (by simpa using hn)]
    case neg =>
      rw [List.filter_cons_of_pos (by simpa using hn)]
      by_cases hl : files'.length ≥ filesMaxEntries
      case pos => rw [if_pos (.inr hl), ih h, List.take_append_of_le_length hl,
        List.take_append_of_le_length hl]
      case neg =>
        rw [if_neg (not_or.mpr ⟨hn, hl⟩), ih]
        · rw [List.append_assoc, List.singleton_append]
        · rw [List.length_append, List.length_singleton]
          omega

theorem parse_files : (parse raws (.start, [])).snd.snd = shown (listing raws .start) := by
  have hx : (parse raws (.start, [])).snd.snd = _ := scanEntries_context
  rw [hx, foldl_filesAddEntry (Nat.zero_le _), List.nil_append, shown]

-- A list that is full stays as it is.
theorem parse_full (h : scanned.snd.length ≥ filesMaxEntries) :
    (parse raws scanned).snd.snd = scanned.snd := by
  obtain ⟨state, files⟩ := scanned
  have hx : (parse raws (state, files)).snd.snd = _ := scanEntries_context
  rw [hx]
  have full (found : List FileEntry) :
      found.foldl (fun files file => filesAddEntry file files) files = files := by
    induction found with
    | nil => rfl
    | cons file found ih => rw [List.foldl_cons, filesAddEntry, if_pos (.inr h), ih]
  exact full _

theorem parse_append (h : (parse raws scanned).fst = true) :
    parse (raws ++ raws') scanned = parse raws' (parse raws scanned).snd := by
  have hx : parse (raws ++ raws') scanned = _ := scanEntries_append
  rw [hx, if_pos h]

theorem parse_ended (h : (parse raws scanned).fst = false) :
    parse (raws ++ raws') scanned = parse raws scanned := by
  have hx : parse (raws ++ raws') scanned = _ := scanEntries_append
  rw [hx, if_neg (by rw [h]; decide)]

-- How the loop over the sectors ends: at their end, or where nothing behind them matters.
inductive Loaded (raws : List Memory) (scanned : ScanState × List FileEntry) :
    Option Bool × (ScanState × List FileEntry) → Prop
  | more : (parse raws scanned).fst = true → Loaded raws scanned (some true, (parse raws scanned).snd)
  | done {scanned'} : (∀ raws', (parse (raws ++ raws') scanned).snd.snd = scanned'.snd) →
    Loaded raws scanned (some false, scanned')

theorem wp_loadSectors {s : Driver} {card : Card} {base : UInt32} {left i : Nat} :
    wp Layout.passing (loadSectors base left i scanned) (fun r _ card' => card' = card ∧
      Loaded ((List.range' i left).flatMap fun j => sectorEntries (card (base + .ofNat j))) scanned r)
      s card := by
  induction left generalizing i scanned s with
  | zero => exact ⟨rfl, .more rfl⟩
  | succ left ih =>
    rw [loadSectors, wp_bind]
    refine wp_readBlock ?_ fun _ ha => by cases ha
    rw [wp_ite, if_pos rfl, wp_bind, wp_get]
    dsimp only
    rw [List.range'_succ, List.flatMap_cons, wp_ite]
    have hp : filesParseDirSector (card (base + .ofNat i)) scanned =
        parse (sectorEntries (card (base + .ofNat i))) scanned := rfl
    rw [hp]
    split
    case isTrue hstop =>
      refine ⟨rfl, .done fun raws' => ?_⟩
      rw [List.append_assoc]
      cases hk : (parse (sectorEntries (card (base + .ofNat i))) scanned).fst with
      | false => rw [parse_ended hk]
      | true  =>
        rw [hk] at hstop
        rw [parse_append hk, parse_full (by simpa using hstop)]
    case isFalse hgo =>
      rw [Bool.or_eq_true, not_or] at hgo
      have hk : (parse (sectorEntries (card (base + .ofNat i))) scanned).fst = true := by
        simpa using hgo.left
      refine wp_mono ih ?_
      rintro r s' card' ⟨rfl, hr⟩
      refine ⟨rfl, ?_⟩
      cases hr with
      | more hm =>
        rw [← parse_append hk] at hm ⊢
        exact .more hm
      | done hd =>
        refine .done fun raws' => ?_
        rw [List.append_assoc, parse_append hk]
        exact hd raws'

namespace Layout

variable {g : Layout} {card : Card} {s : Driver} {cluster : UInt32} {clusters : List UInt32}

theorem wp_loadFrom {fuel : Nat} (h : g.Spans card cluster clusters)
    (hf : clusters.length < fuel) :
    wp passing (Prog.loop g.loadRound fuel (cluster, scanned)) (fun r _ card' => card' = card ∧
      r = (true, (parse (g.content card clusters) scanned).snd.snd)) s card := by
  induction clusters generalizing cluster scanned fuel s with
  | nil =>
    obtain ⟨fuel, rfl⟩ := Nat.exists_eq_succ_of_ne_zero (Nat.ne_of_gt hf)
    rw [Prog.loop, loadRound, if_neg h]
    exact ⟨rfl, rfl⟩
  | cons c cs ih =>
    obtain ⟨fuel, rfl⟩ := Nat.exists_eq_succ_of_ne_zero (Nat.ne_of_gt (Nat.zero_lt_of_lt hf))
    obtain ⟨rfl, hl, hr⟩ := h
    rw [Prog.loop, loadRound, if_pos hl, wp_bind, wp_bind]
    refine wp_mono wp_loadSectors ?_
    rintro r s₁ card' ⟨rfl, hr'⟩
    rw [content_cons]
    cases hr' with
    | more hm =>
      rw [parse_append hm]
      dsimp only
      rw [wp_bind]
      refine wp_nextCluster (fun _ => ?_) fun _ ha => by cases ha
      exact ih hr (Nat.lt_of_succ_lt_succ hf)
    | done hd => exact ⟨rfl, by rw [hd]⟩

-- The browser shows the files that a scan reports, up to its limit.
theorem wp_loadDir (h : g.Spans card cluster clusters) :
    wp passing (g.loadDir cluster) (fun r _ card' => card' = card ∧
      r = (true, shown (listing (g.content card clusters) .start))) s card := by
  rw [← parse_files]
  exact wp_loadFrom h h.length_lt

-- So it goes on without a file that is deleted, where the names behind it are spared.
theorem wp_deleteAndLoad {files files' : List FileEntry} {file : FileEntry} (hg : g.Sound)
    (h : g.Spans card cluster clusters) (hv : ∀ c ∈ clusters, g.Valid c)
    (hl : (g.content card clusters).length < UInt32.size)
    (hf : listing (g.content card clusters) .start = files ++ file :: files')
    (hs : Spared (g.content card clusters) file.dirOrdinal.toNat file.lfnCount.toNat) :
    wp passing (do
      let deleted ← g.markDeleted cluster file.dirOrdinal file.lfnCount
      let loaded ← g.loadDir cluster
      return (deleted, loaded)) (fun r _ _ => r = (true, true, shown (files ++ files'))) s card := by
  obtain ⟨ho, hc⟩ := listed_bounds hf hl
  obtain ⟨front, run, raw, rest, state, hx⟩ := exists_located hf
  rw [wp_bind]
  refine wp_mono (wp_markDeleted hg h hv hl ho hc) ?_
  rintro r s₁ card₁ ⟨rfl, h₁, hcontent⟩
  rw [wp_bind]
  refine wp_mono (wp_loadDir h₁) ?_
  rintro r s₂ card₂ ⟨rfl, rfl⟩
  rw [hcontent, (hx.listing_iff hl).mpr hs]
  rfl

end Layout
end Fat32
