import HackyLens.Storage.FileScan
import HackyLens.Storage.Theorems.FatDirectory

-- What a scan of a directory finds, by the entries that are in its clusters.

namespace Fat32

open Core Prog
open Sd (Card Verdict)

variable {raw : Memory} {raws raws' : List Memory} {state state' state'' : ScanState}

-- The files among the entries of a directory, in the order in which a scan comes to them.
def listing : List Memory → ScanState → List FileEntry
  | [],          _     => []
  | raw :: raws, state =>
    match scanEntry raw state with
    | none                     => []
    | some (none, state')      => listing raws state'
    | some (some file, state') => file :: listing raws state'

-- What the scan has kept after some entries, if the end is not among them.
def advance : List Memory → ScanState → Option ScanState
  | [],          state => some state
  | raw :: raws, state => (scanEntry raw state).bind fun r => advance raws r.snd

theorem advance_append :
    advance (raws ++ raws') state = (advance raws state).bind (advance raws') := by
  induction raws generalizing state with
  | nil => rfl
  | cons raw raws ih =>
    rw [List.cons_append, advance, advance]
    cases scanEntry raw state with
    | none   => rfl
    | some r => exact ih

theorem listing_append (h : advance raws state = some state') :
    listing (raws ++ raws') state = listing raws state ++ listing raws' state' := by
  induction raws generalizing state with
  | nil =>
    cases h
    rfl
  | cons raw raws ih =>
    rw [advance] at h
    obtain ⟨⟨file, state₁⟩, hr, h⟩ := Option.bind_eq_some_iff.mp h
    rw [List.cons_append, listing, listing, hr]
    cases file with
    | none      => exact ih h
    | some file => exact congrArg (file :: ·) (ih h)

-- A file that was found is one of the entries.
theorem listing_split {files files' : List FileEntry} {file : FileEntry}
    (h : listing raws state = files ++ file :: files') :
    ∃ front raw rest state₁, raws = front ++ raw :: rest ∧ advance front state = some state₁ ∧
      listing front state = files ∧ scanEntry raw state₁ = some (some file, state₁.forget) ∧
      listing rest state₁.forget = files' := by
  induction raws generalizing state files with
  | nil => exact absurd h (by simp [listing])
  | cons raw raws ih =>
    rw [listing] at h
    cases hr : scanEntry raw state with
    | none =>
      rw [hr] at h
      exact absurd h (by simp)
    | some r =>
      obtain ⟨found, state₁⟩ := r
      rw [hr] at h
      have front {front : List Memory} {state₂ : ScanState}
          (hf : advance front state₁ = some state₂) : advance (raw :: front) state = some state₂ := by
        rw [advance, hr]
        exact hf
      cases found with
      | none =>
        obtain ⟨fs, raw', rest, state₂, rfl, ha, hl, hs, he⟩ := ih h
        refine ⟨raw :: fs, raw', rest, state₂, rfl, front ha, ?_, hs, he⟩
        rw [listing, hr]
        exact hl
      | some found =>
        cases files with
        | nil =>
          obtain ⟨rfl, rfl⟩ := List.cons.inj h
          have he : state₁ = state.forget := by
            unfold scanEntry at hr
            repeat' split at hr
            all_goals cases hr
            rfl
          subst he
          exact ⟨[], raw, raws, state, rfl, rfl, rfl, hr, rfl⟩
        | cons found' files =>
          obtain ⟨rfl, hn⟩ := List.cons.inj h
          obtain ⟨fs, raw', rest, state₂, rfl, ha, hl, hs, he⟩ := ih hn
          refine ⟨raw :: fs, raw', rest, state₂, rfl, front ha, ?_, hs, he⟩
          rw [listing, hr]
          exact congrArg (found :: ·) hl

section Scanning

variable {γ : Type} {visitor : FileEntry → γ → Bool × γ} {context : γ} {scanned : ScanState × γ}

theorem scanEntries_append : scanEntries visitor (raws ++ raws') scanned =
    if (scanEntries visitor raws scanned).fst then
      scanEntries visitor raws' (scanEntries visitor raws scanned).snd
    else
      scanEntries visitor raws scanned := by
  induction raws generalizing scanned with
  | nil => rfl
  | cons raw raws ih =>
    obtain ⟨state, context⟩ := scanned
    rw [List.cons_append, scanEntries, scanEntries]
    match hr : scanEntry raw state with
    | none                     => rfl
    | some (none, state')      => exact ih
    | some (some file, state') =>
      dsimp only
      split
      · rfl
      · exact ih

-- A visitor that does not stop the scan is called for each of the files.
theorem scanEntries_context {add : γ → FileEntry → γ} :
    (scanEntries (fun file context => (false, add context file)) raws (state, context)).snd.snd =
      (listing raws state).foldl add context := by
  induction raws generalizing state context with
  | nil => rfl
  | cons raw raws ih =>
    rw [scanEntries, listing]
    match hr : scanEntry raw state with
    | none                     => rfl
    | some (none, state')      => exact ih
    | some (some file, state') => exact ih

theorem wp_scanSectors {s : Driver} {card : Card} {base : UInt32} {left i : Nat} :
    wp Layout.passing (scanSectors visitor base left i scanned) (fun r s' card' => card' = card ∧
      s'.allocHint = s.allocHint ∧ r = (some (scanEntries visitor ((List.range' i left).flatMap fun j =>
          sectorEntries (card (base + .ofNat j))) scanned).fst,
        (scanEntries visitor ((List.range' i left).flatMap fun j =>
          sectorEntries (card (base + .ofNat j))) scanned).snd)) s card := by
  induction left generalizing i scanned s with
  | zero => exact ⟨rfl, rfl, rfl⟩
  | succ left ih =>
    rw [scanSectors, wp_bind]
    refine wp_readBlock ?_ fun _ ha => by cases ha
    rw [wp_ite, if_pos rfl, wp_bind, wp_get]
    dsimp only
    rw [List.range'_succ, List.flatMap_cons, scanEntries_append, wp_ite]
    split
    case isTrue hm  => exact ih
    case isFalse hm => exact ⟨rfl, rfl, by rw [Bool.eq_false_of_not_eq_true hm]⟩

end Scanning

namespace Layout

variable {g : Layout} {card : Card} {s : Driver} {cluster : UInt32} {clusters : List UInt32}

-- A chain and its clusters.
def Spans (g : Layout) (card : Card) : UInt32 → List UInt32 → Prop
  | cluster, []                   => ¬inChain cluster
  | cluster, cluster' :: clusters =>
    cluster = cluster' ∧ inChain cluster ∧ Spans g card (g.next card cluster') clusters

theorem Spans.eq {clusters' : List UInt32} (h : g.Spans card cluster clusters)
    (h' : g.Spans card cluster clusters') : clusters = clusters' := by
  induction clusters generalizing cluster clusters' with
  | nil =>
    cases clusters' with
    | nil      => rfl
    | cons _ _ => exact absurd h'.right.left h
  | cons c cs ih =>
    cases clusters' with
    | nil       => exact absurd h.right.left h'
    | cons d ds =>
      obtain ⟨rfl, _, h⟩ := h
      obtain ⟨rfl, _, h'⟩ := h'
      rw [ih h h']

theorem Spans.drop {front rest : List UInt32} {c : UInt32}
    (h : g.Spans card cluster (front ++ c :: rest)) : g.Spans card c (c :: rest) := by
  induction front generalizing cluster with
  | nil =>
    obtain ⟨rfl, h⟩ := h
    exact ⟨rfl, h⟩
  | cons _ _ ih => exact ih h.right.right

-- A chain with an end does not come back to itself.
theorem Spans.nodup (h : g.Spans card cluster clusters) : clusters.Nodup := by
  induction clusters generalizing cluster with
  | nil => exact .nil
  | cons c cs ih =>
    refine List.nodup_cons.mpr ⟨fun hm => ?_, ih h.right.right⟩
    obtain ⟨front, rest, rfl⟩ := List.append_of_mem hm
    obtain ⟨rfl, hl, hr⟩ := h
    have hc : g.Spans card cluster (cluster :: front ++ cluster :: rest) := ⟨rfl, hl, hr⟩
    have he := hr.drop.eq hc
    have hlen := congrArg List.length he
    simp only [List.length_cons, List.length_append] at hlen
    omega

theorem Spans.inChain (h : g.Spans card cluster clusters) : ∀ c ∈ clusters, inChain c := by
  induction clusters generalizing cluster with
  | nil => nofun
  | cons c cs ih =>
    obtain ⟨rfl, hl, hr⟩ := h
    exact List.forall_mem_cons.mpr ⟨hl, ih hr⟩

theorem Spans.length_lt (h : g.Spans card cluster clusters) : clusters.length < UInt32.size := by
  have hm : (clusters.map UInt32.toNat).Nodup :=
    h.nodup.map fun _ _ he => UInt32.toNat_inj.mp he
  have hsub : clusters.map UInt32.toNat ⊆ List.range eoc.toNat := by
    intro n hn
    obtain ⟨c, hc, rfl⟩ := List.mem_map.mp hn
    have hl := h.inChain c hc
    rw [Fat32.inChain, Bool.and_eq_true, decide_eq_true_iff, decide_eq_true_iff] at hl
    exact List.mem_range.mpr (UInt32.lt_iff_toNat_lt.mp hl.right)
  have hle := (hm.subperm hsub).length_le
  rw [List.length_map, List.length_range] at hle
  exact Nat.lt_of_le_of_lt hle (by decide)

-- The sectors of some clusters, and the entries in them.
def sectors (g : Layout) (clusters : List UInt32) : List UInt32 :=
  clusters.flatMap fun c => (List.range g.sectorsPerCluster.toNat).map (g.clusterLba c + .ofNat ·)

def content (g : Layout) (card : Card) (clusters : List UInt32) : List Memory :=
  (g.sectors clusters).flatMap fun lba => sectorEntries (card lba)

theorem content_cons : g.content card (cluster :: clusters) =
    ((List.range' 0 g.sectorsPerCluster.toNat).flatMap fun i =>
      sectorEntries (card (g.clusterLba cluster + .ofNat i))) ++ g.content card clusters := by
  rw [content, content, sectors, sectors, List.flatMap_cons, List.flatMap_append,
    List.flatMap_map, List.range_eq_range']

variable {γ : Type} {visitor : FileEntry → γ → Bool × γ} {context : γ} {scanned : ScanState × γ}

theorem wp_scanFrom {fuel : Nat} (h : g.Spans card cluster clusters)
    (hf : clusters.length < fuel) :
    wp passing (Prog.loop (g.scanRound visitor) fuel (cluster, scanned))
      (fun r s' card' => card' = card ∧ s'.allocHint = s.allocHint ∧
        r = (true, (scanEntries visitor (g.content card clusters) scanned).snd.snd)) s card := by
  induction clusters generalizing cluster scanned fuel s with
  | nil =>
    obtain ⟨fuel, rfl⟩ := Nat.exists_eq_succ_of_ne_zero (Nat.ne_of_gt hf)
    rw [Prog.loop, scanRound, if_neg h]
    exact ⟨rfl, rfl, rfl⟩
  | cons c cs ih =>
    obtain ⟨fuel, rfl⟩ := Nat.exists_eq_succ_of_ne_zero (Nat.ne_of_gt (Nat.zero_lt_of_lt hf))
    obtain ⟨rfl, hl, hr⟩ := h
    rw [Prog.loop, scanRound, if_pos hl, wp_bind, wp_bind]
    refine wp_mono wp_scanSectors ?_
    rintro r s₁ card' ⟨rfl, hh, rfl⟩
    rw [content_cons, scanEntries_append]
    split
    case h_1 heq => exact absurd (congrArg Prod.fst heq) (by simp)
    case h_2 heq =>
      obtain ⟨hm, hs⟩ := Prod.mk.inj heq
      rw [if_neg (by rw [Option.some.inj hm]; decide), hs]
      exact ⟨rfl, hh, rfl⟩
    case h_3 heq =>
      obtain ⟨hm, hs⟩ := Prod.mk.inj heq
      rw [if_pos (Option.some.inj hm), hs, wp_bind]
      refine wp_nextCluster (fun _ => ?_) fun _ ha => by cases ha
      rw [← hh]
      exact ih hr (Nat.lt_of_succ_lt_succ hf)

-- A scan with blocks that can all be read.
theorem wp_scan (h : g.Spans card cluster clusters) :
    wp passing (g.scan visitor cluster context) (fun r s' card' => card' = card ∧
      s'.allocHint = s.allocHint ∧ r = (true, (scanEntries visitor (g.content card clusters) (.start, context)).snd.snd))
      s card :=
  wp_scanFrom h h.length_lt

theorem wp_listFiles (h : g.Spans card cluster clusters) :
    wp passing (g.listFiles cluster) (fun r _ card' => card' = card ∧
      r = (true, listing (g.content card clusters) .start)) s card := by
  refine wp_mono (wp_scan h) ?_
  rintro r s' card' ⟨rfl, _, rfl⟩
  refine ⟨rfl, ?_⟩
  have hx : (scanEntries (fun file files => (false, files ++ [file]))
      (g.content card' clusters) (.start, [])).snd.snd = _ := scanEntries_context
  rw [hx]
  have fold (files files' : List FileEntry) :
      files.foldl (fun files file => files ++ [file]) files' = files' ++ files := by
    induction files generalizing files' with
    | nil => simp
    | cons file files ih => rw [List.foldl_cons, ih, List.append_assoc, List.singleton_append]
  rw [fold, List.nil_append]

end Layout
end Fat32
