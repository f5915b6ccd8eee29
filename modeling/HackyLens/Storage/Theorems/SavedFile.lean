import HackyLens.Storage.Theorems.SavedEntry

-- The names of the files that are saved, in the directory and in a sequence of saves.

namespace Fat32

open Core Prog
open Sd (Card Verdict)

variable {raw : Memory} {raws raws' front : List Memory} {state : ScanState}

instance : Decidable (Occupied raw) := inferInstanceAs (Decidable (_ ∧ _))

-- What stands in front of the first free entry.
def occupiedFront (raws : List Memory) : List Memory :=
  raws.takeWhile fun raw => Occupied raw

theorem occupiedFront_occupied : ∀ raw ∈ occupiedFront raws, Occupied raw := by
  intro raw hr
  have ho := List.mem_takeWhile_imp hr
  exact of_decide_eq_true ho

theorem scanEntry_occupied (h : Occupied raw) : ∃ r, scanEntry raw state = some r := by
  cases hr : scanEntry raw state with
  | some r => exact ⟨r, rfl⟩
  | none   =>
    unfold scanEntry at hr
    rw [if_neg h.left] at hr
    repeat' split at hr
    all_goals cases hr

theorem advance_occupied (h : ∀ raw ∈ front, Occupied raw) : ∃ state', advance front state = some state' := by
  induction front generalizing state with
  | nil => exact ⟨state, rfl⟩
  | cons raw front ih =>
    obtain ⟨hr, h⟩ := List.forall_mem_cons.mp h
    obtain ⟨r, hs⟩ := @scanEntry_occupied raw state hr
    obtain ⟨state', ha⟩ := @ih r.snd h
    exact ⟨state', by rw [advance, hs]; exact ha⟩

theorem IsFile.listing_cons (h : IsFile raw) : listing (raw :: raws) state =
    fileEntry raw state :: listing raws state.forget := by
  rw [listing, h.scanEntry]

-- What is listed when the entry of a file has been added.
theorem Added.listing (h : Added raw raws raws') (hf : IsFile raw) : ∃ state back back',
    advance (occupiedFront raws) .start = some state ∧
    listing raws .start = listing (occupiedFront raws) .start ++ back ∧
    listing raws' .start =
      listing (occupiedFront raws) .start ++ fileEntry raw state :: back' ∧
    (back = [] ∨ back = back') := by
  cases h with
  | @reused front old rest ho hn =>
    have hfront : occupiedFront (front ++ old :: rest) = front := by
      rw [occupiedFront, List.takeWhile_append_of_pos fun r hr => decide_eq_true (ho r hr),
        List.takeWhile_cons_of_neg (by simpa using hn), List.append_nil]
    obtain ⟨state, ha⟩ := @advance_occupied front .start ho
    refine ⟨state, Fat32.listing (old :: rest) state, Fat32.listing rest state.forget, ?_, ?_, ?_, ?_⟩
    · rw [hfront, ha]
    · rw [hfront, listing_append ha]
    · rw [hfront, listing_append ha, hf.listing_cons]
    · by_cases hz : old 0 = 0x00
      case pos =>
        left
        rw [Fat32.listing, scanEntry_end hz]
      case neg =>
        right
        have he : old 0 = 0xE5 := by
          by_contra he
          exact hn ⟨hz, he⟩
        rw [Fat32.listing, scanEntry, if_neg hz, if_pos he]
  | @appended _ rest ho hr =>
    have hfront : occupiedFront raws = raws :=
      List.takeWhile_eq_self_iff.mpr fun r hr => decide_eq_true (ho r hr)
    obtain ⟨state, ha⟩ := @advance_occupied raws .start ho
    refine ⟨state, [], Fat32.listing rest state.forget, ?_, ?_, ?_, .inl rfl⟩
    · rw [hfront, ha]
    · rw [hfront, List.append_nil]
    · rw [hfront, listing_append ha, hf.listing_cons]

section Largest

variable {parser : List UInt8 → Option UInt32} {files files' : List FileEntry} {file : FileEntry}
variable {m n : UInt32}

theorem maxVisitor_le_iff : maxVisitor parser n file ≤ m ↔
    n ≤ m ∧ ∀ index ∈ parser file.name, file.attr &&& fatAttrDir = 0 → index ≤ m := by
  rw [maxVisitor]
  split
  case isTrue hd  => exact ⟨fun h => ⟨h, fun _ _ hn => absurd hn hd⟩, And.left⟩
  case isFalse hd =>
    have hd : file.attr &&& fatAttrDir = 0 := not_not.mp hd
    cases hp : parser file.name with
    | none       => simp
    | some index =>
      simp only [Option.mem_some_iff, forall_eq', hd, forall_const, gt_iff_lt]
      split
      case isTrue hlt =>
        exact ⟨fun h => ⟨UInt32.le_trans (UInt32.le_of_lt hlt) h, h⟩, And.right⟩
      case isFalse hge =>
        exact ⟨fun h => ⟨h, UInt32.le_trans (UInt32.not_lt.mp hge) h⟩, And.left⟩

-- The largest index among some files.
def largest (parser : List UInt8 → Option UInt32) (files : List FileEntry) : UInt32 :=
  files.foldl (maxVisitor parser) 0

theorem foldl_maxVisitor_le_iff : files.foldl (maxVisitor parser) n ≤ m ↔ n ≤ m ∧
    ∀ file ∈ files, ∀ index ∈ parser file.name, file.attr &&& fatAttrDir = 0 → index ≤ m := by
  induction files generalizing n with
  | nil => simp
  | cons file files ih => rw [List.foldl_cons, ih, maxVisitor_le_iff, List.forall_mem_cons, and_assoc]

theorem largest_le_iff : largest parser files ≤ m ↔
    ∀ file ∈ files, ∀ index ∈ parser file.name, file.attr &&& fatAttrDir = 0 → index ≤ m :=
  foldl_maxVisitor_le_iff.trans (and_iff_right (UInt32.zero_le))

theorem le_largest {index : UInt32} (hm : file ∈ files) (hp : parser file.name = some index)
    (hd : file.attr &&& fatAttrDir = 0) : index ≤ largest parser files :=
  largest_le_iff.mp (UInt32.le_refl _) file hm index hp hd

theorem largest_mono (h : files ⊆ files') : largest parser files ≤ largest parser files' :=
  largest_le_iff.mpr fun _ hm _ hp hd => le_largest (h hm) hp hd

end Largest

theorem isFile_makeShortEntry {name : List UInt8} {cluster size : UInt32}
    (h : name.headD 0 ∉ [0x00, 0xE5, 0x2E]) :
    IsFile (makeShortEntry name fatAttrArchive cluster size) := by
  have h0 : makeShortEntry name fatAttrArchive cluster size 0 = name.headD 0 := by
    rw [makeShortEntry, if_pos (by decide)]
    cases name <;> rfl
  have h11 : makeShortEntry name fatAttrArchive cluster size 11 = fatAttrArchive := rfl
  simp only [List.mem_cons, List.not_mem_nil, or_false, not_or] at h
  rw [IsFile, h0, h11]
  exact ⟨h.left, h.right.left, by decide, not_or.mpr ⟨by decide, h.right.right⟩⟩

theorem read32_makeShortEntry {name : List UInt8} {attr : UInt8} {cluster size : UInt32} :
    read32 (makeShortEntry name attr cluster size) 28 = size := by
  refine Eq.trans (read32_congr fun i hi => ?_) (@read32_write32 (fun _ => 0) 28 size)
  interval_cases i <;> rfl

namespace Writer

variable {w : Writer} {n cluster size : UInt32}

theorem isFile_fileName : IsFile (makeShortEntry (makeShortName (w.fileName n) w.ext)
    fatAttrArchive cluster size) := by
  refine isFile_makeShortEntry ?_
  cases w with
  | photo _    => exact (by decide : (0x49 : UInt8) ∉ [0x00, 0xE5, 0x2E])
  | screenshot => exact (by decide : (0x53 : UInt8) ∉ [0x00, 0xE5, 0x2E])
  | qrText     => exact (by decide : (0x51 : UInt8) ∉ [0x00, 0xE5, 0x2E])

end Writer

namespace Layout

variable {g : Layout} {card card' : Card} {s s' : Driver} {dirCluster fileSize : UInt32}
variable {clusters : List UInt32} {writer : Writer} {displaySize : Nat} {fill : Fill}

theorem wp_findMaxFileIndex {parser : List UInt8 → Option UInt32}
    (h : g.Spans card dirCluster clusters) :
    wp passing (g.findMaxFileIndex parser dirCluster) (fun r s' card' => card' = card ∧
      s'.allocHint = s.allocHint ∧
      r = some (largest parser (listing (g.content card clusters) .start))) s card := by
  rw [findMaxFileIndex, wp_bind]
  refine wp_mono (wp_scan h) ?_
  rintro r s₁ card₁ ⟨rfl, hh, rfl⟩
  exact ⟨rfl, hh, congrArg some scanEntries_context⟩

-- What the next save's name is.
structure Next (g : Layout) (card : Card) (clusters : List UInt32) (writer : Writer)
    (name : List UInt8) (index : UInt32) : Prop where
  succ : index = largest writer.parseIndex (listing (g.content card clusters) .start) + 1
  lt : largest writer.parseIndex (listing (g.content card clusters) .start) < index
  le : index.toNat ≤ 99999
  spelled : name = writer.fileName index

theorem wp_nextName (h : g.Spans card dirCluster clusters) (hz : 12 < displaySize) :
    wp passing (writer.nextName g dirCluster displaySize) (fun r s' card' => card' = card ∧
      s'.allocHint = s.allocHint ∧ ∀ p ∈ r, p.fst = makeShortName p.snd writer.ext ∧
        ∃ index, g.Next card clusters writer p.snd index) s card := by
  rw [Writer.nextName_eq, nextName, wp_bind]
  refine wp_mono (wp_findMaxFileIndex h) ?_
  rintro r s₁ card₁ ⟨rfl, hh, rfl⟩
  generalize hn : largest writer.parseIndex (listing (g.content card₁ clusters) .start) = n
  dsimp only
  rw [wp_ite]
  split
  case isTrue hge  => exact ⟨rfl, hh, nofun⟩
  case isFalse hlt =>
    refine ⟨rfl, hh, ?_⟩
    intro p hp
    obtain rfl := (Option.some.inj hp).symm
    have h9 : (99999 : UInt32).toNat = 99999 := rfl
    have h1 : (1 : UInt32).toNat = 1 := rfl
    have hlt := UInt32.lt_iff_toNat_lt.mp (UInt32.not_le.mp hlt)
    have hs : (n + 1).toNat = n.toNat + 1 := by
      rw [UInt32.toNat_add]
      exact Nat.mod_eq_of_lt (by omega)
    have hle : (n + 1).toNat ≤ 99999 := by omega
    have hlen : (writer.fileName (n + 1)).length ≤ displaySize - 1 :=
      Nat.le_trans (Writer.fileName_length hle) (by omega)
    refine ⟨rfl, n + 1, ?_, ?_, hle, List.take_of_length_le hlen⟩
    · rw [hn]
    · rw [hn]
      exact UInt32.lt_iff_toNat_lt.mpr (by rw [hs]; exact Nat.lt_succ_self _)

-- A successful save adds an entry with the name that it returns.
theorem wp_save (hg : g.Sound) (hs : g.Hinted s) (hd : g.Holds card dirCluster clusters)
    (hz : 12 < displaySize) :
    wp passing (g.save writer dirCluster displaySize fileSize fill) (fun r s' card' =>
      ∀ name ∈ r, g.Hinted s' ∧ (∃ index, g.Next card clusters writer name index) ∧
        ∃ firstCluster, g.Entered card dirCluster clusters (makeShortEntry
          (makeShortName name writer.ext) fatAttrArchive firstCluster fileSize) card') s card := by
  rw [save, wp_bind]
  refine wp_mono (wp_nextName hd.spans hz) ?_
  rintro r s₁ card₁ ⟨rfl, hh, hr⟩
  have hs₁ : g.Hinted s₁ := by rw [Hinted, hh]; exact hs
  cases r with
  | none   => exact fun _ h => by cases h
  | some p =>
    obtain ⟨short, name⟩ := p
    obtain ⟨hshort, hnext⟩ := hr _ rfl
    dsimp only at hshort hnext ⊢
    subst hshort
    rw [wp_ite]
    split
    case isTrue => exact fun _ h => by cases h
    case isFalse =>
      rw [wp_bind]
      refine wp_mono (wp_allocChain_grown hg.toTabular hs₁) ?_
      rintro r s₂ card₂ ⟨hs₂, hgrown, hr⟩
      cases r with
      | none              => exact fun _ h => by cases h
      | some firstCluster =>
        have haside := hgrown.aside hg hd
        dsimp only
        rw [wp_bind]
        refine wp_mono (wp_writeFileChain hg hd.valid (hgrown.apart hd (hr _ rfl))) ?_
        rintro ok s₃ card₃ ⟨hh₃, haside₃⟩
        have haside := haside.trans haside₃
        have hs₃ : g.Hinted s₃ := by rw [Hinted, hh₃]; exact hs₂
        rw [wp_ite]
        split
        case isFalse => exact fun _ h => by cases h
        case isTrue  =>
          rw [wp_bind]
          refine wp_mono (wp_addFileEntry hg hs₃ (haside.holds hd)) ?_
          intro ok s₄ card₄ hent
          rw [wp_ite]
          split
          case isFalse    => exact fun _ h => by cases h
          case isTrue hok =>
            obtain ⟨hs₄, hent⟩ := hent hok
            intro name' hn
            obtain rfl : name = name' := Option.some.inj hn
            rw [Entered, haside.content] at hent
            exact ⟨hs₄, hnext, firstCluster, hent⟩

-- The entries of a directory, and what a scan of it finds when all blocks can be read.
def Entries (g : Layout) (card : Card) (dirCluster : UInt32) (raws : List Memory) : Prop :=
  ∃ clusters, g.Spans card dirCluster clusters ∧ g.content card clusters = raws

def Lists (g : Layout) (card : Card) (dirCluster : UInt32) (files : List FileEntry) : Prop :=
  ∃ s ds s', (∀ d ∈ ds, d = .passes) ∧
    (g.listFiles dirCluster).run Sd.handler s ds card = .done ((true, files), s') card

theorem lists_iff {files : List FileEntry} (h : g.Spans card dirCluster clusters) :
    g.Lists card dirCluster files ↔ files = listing (g.content card clusters) .start := by
  constructor
  · rintro ⟨s, ds, s', hd, hr⟩
    have hlist : wp passing (g.listFiles dirCluster) _ s card := wp_listFiles h
    have hm := run_meets hd hlist
    rw [show passing.handler = Sd.handler from rfl, hr] at hm
    exact congrArg Prod.snd hm.right
  · rintro rfl
    have hlist : wp passing (g.listFiles dirCluster) _ ⟨0, fun _ => 0⟩ card := wp_listFiles h
    obtain ⟨n, r, s', card', hrun, rfl, rfl⟩ := exists_done (fun _ => .passes) (fun _ => rfl)
      (fun _ => id) hlist
    refine ⟨_, _, s', fun d hd => ?_, hrun⟩
    obtain ⟨_, _, rfl⟩ := List.mem_map.mp hd
    rfl

-- One of the saves of a run, with the card before and after it.
structure Save where
  writer : Writer
  fileSize : UInt32
  name : List UInt8
  before : Card
  after : Card

-- Successful saves one after another. All blocks can be read and written, and a name of twelve
-- characters can be displayed.
inductive Saves (g : Layout) (dirCluster : UInt32) :
    Driver → Card → List Save → Driver → Card → Prop
  | done {s : Driver} {card : Card} : Saves g dirCluster s card [] s card
  | save {s s₁ s' : Driver} {card card₁ card' : Card} {saves : List Save} {writer : Writer}
      {displaySize : Nat} {fileSize : UInt32} {fill : Fill} {name : List UInt8} {ds : List Verdict} :
    (∀ d ∈ ds, d = .passes) → 12 < displaySize →
    (g.save writer dirCluster displaySize fileSize fill).run Sd.handler s ds card =
      .done (some name, s₁) card₁ →
    Saves g dirCluster s₁ card₁ saves s' card' →
    Saves g dirCluster s card (⟨writer, fileSize, name, card, card₁⟩ :: saves) s' card'

-- The texts of QR codes do not have names of eight characters and an extension, and a long name
-- that has lost its file would become the name of the new one.
def Clear (g : Layout) (dirCluster : UInt32) (save : Save) : Prop :=
  save.writer ≠ .qrText ∧ ∀ raws, g.Entries save.before dirCluster raws →
    longName ((occupiedFront raws).foldl spell ScanState.start.lfn) = none

-- The entry that a save has added is listed under the name that is displayed, and its index is one
-- more than the largest that there was.
def Fresh (g : Layout) (dirCluster : UInt32) (save : Save) : Prop :=
  ∃ raws files files', g.Entries save.before dirCluster raws ∧
    g.Lists save.before dirCluster files ∧ g.Lists save.after dirCluster files' ∧
    save.writer.parseIndex save.name = some (largest save.writer.parseIndex files + 1) ∧
    ∃ file ∈ files', file.dirOrdinal = .ofNat (occupiedFront raws).length ∧
      file.attr = fatAttrArchive ∧ file.size = save.fileSize ∧ file.name = save.name

theorem Next.parseIndex {name : List UInt8} {index : UInt32}
    (h : g.Next card clusters writer name index) : writer.parseIndex name = some index := by
  rw [h.spelled]
  exact Writer.parseIndex_fileName h.le (UInt32.lt_of_le_of_lt UInt32.zero_le h.lt)

variable {saves : List Save} {name : List UInt8}

-- What a successful save does, by the entries of the directory.
structure Step (g : Layout) (dirCluster : UInt32) (clusters : List UInt32) (save : Save) : Prop where
  next : ∃ index, g.Next save.before clusters save.writer save.name index
  added : ∃ firstCluster, g.Entered save.before dirCluster clusters (makeShortEntry
    (makeShortName save.name save.writer.ext) fatAttrArchive firstCluster save.fileSize) save.after

theorem step_of_save {ds : List Verdict} (hg : g.Sound) (hs : g.Hinted s)
    (hd : g.Holds card dirCluster clusters) (hv : ∀ d ∈ ds, d = .passes) (hz : 12 < displaySize)
    (hr : (g.save writer dirCluster displaySize fileSize fill).run Sd.handler s ds card =
      .done (some name, s') card') :
    g.Hinted s' ∧ g.Step dirCluster clusters ⟨writer, fileSize, name, card, card'⟩ := by
  have hm := run_meets hv (wp_save hg hs hd hz : wp passing
    (g.save writer dirCluster displaySize fileSize fill) _ s card)
  rw [show passing.handler = Sd.handler from rfl, hr] at hm
  obtain ⟨hs', hnext, hadded⟩ := hm name rfl
  exact ⟨hs', hnext, hadded⟩

-- The files of the directory stay, and the new one is among them.
theorem Step.listed {save : Save} {clusters' : List UInt32} {firstCluster : UInt32}
    (hn : ∃ index, g.Next save.before clusters save.writer save.name index)
    (ha : Added (makeShortEntry (makeShortName save.name save.writer.ext) fatAttrArchive firstCluster
      save.fileSize) (g.content save.before clusters) (g.content save.after clusters')) :
    listing (g.content save.before clusters) .start ⊆
        listing (g.content save.after clusters') .start ∧
      ∃ file ∈ listing (g.content save.after clusters') .start,
        file.dirOrdinal = .ofNat (occupiedFront (g.content save.before clusters)).length ∧
        file.attr = fatAttrArchive ∧ file.size = save.fileSize ∧
        file.name = (longName ((occupiedFront (g.content save.before clusters)).foldl spell
          ScanState.start.lfn)).getD (shortName (makeShortEntry
            (makeShortName save.name save.writer.ext) fatAttrArchive firstCluster save.fileSize)) := by
  obtain ⟨index, hn⟩ := hn
  have hf : IsFile (makeShortEntry (makeShortName save.name save.writer.ext) fatAttrArchive
      firstCluster save.fileSize) := by
    rw [hn.spelled]
    exact Writer.isFile_fileName
  obtain ⟨state, back, back', hadv, hb, ha, hsame⟩ := ha.listing hf
  refine ⟨?_, fileEntry (makeShortEntry (makeShortName save.name save.writer.ext) fatAttrArchive
    firstCluster save.fileSize) state, ?_, ?_, rfl, read32_makeShortEntry, ?_⟩
  · rw [hb, ha]
    refine List.append_subset.mpr ⟨List.subset_append_left _ _, ?_⟩
    rcases hsame with rfl | rfl
    · exact List.nil_subset _
    · exact fun file hm => List.mem_append_right _ (List.mem_cons_of_mem _ hm)
  · rw [ha]
    exact List.mem_append_right _ List.mem_cons_self
  · rw [fileEntry, advance_ordinal hadv]
    exact UInt32.zero_add _
  · rw [fileEntry, ← advance_lfn hadv, longName]
    dsimp only
    split
    · rfl
    · rfl

theorem Step.fresh {save : Save} (h : g.Step dirCluster clusters save)
    (hd : g.Holds save.before dirCluster clusters) (hc : g.Clear dirCluster save) :
    g.Fresh dirCluster save := by
  obtain ⟨hnext, firstCluster, clusters', hd', ha⟩ := h
  obtain ⟨_, file, hm, ho, hat, hsz, hname⟩ := Step.listed hnext ha
  obtain ⟨index, hn⟩ := hnext
  refine ⟨_, _, _, ⟨clusters, hd.spans, rfl⟩, (lists_iff hd.spans).mpr rfl,
    (lists_iff hd'.spans).mpr rfl, ?_, file, hm, ho, hat, hsz, ?_⟩
  · rw [hn.parseIndex, hn.succ]
  · rw [hname, hc.right _ ⟨clusters, hd.spans, rfl⟩, Option.getD_none, hn.spelled]
    exact Writer.shortName_fileName hc.left hn.le

-- Each save's index is larger than those of all files that were there before.
theorem Saves.index_lt (h : g.Saves dirCluster s card saves s' card') (hg : g.Sound)
    (hs : g.Hinted s) (hd : g.Holds card dirCluster clusters) : ∀ save ∈ saves,
      ∃ index, save.writer.parseIndex save.name = some index ∧
        largest save.writer.parseIndex (listing (g.content card clusters) .start) < index := by
  induction h generalizing clusters with
  | done => nofun
  | save hv hz hr _ ih =>
    obtain ⟨hs₁, hnext, firstCluster, clusters', hd', ha⟩ := step_of_save hg hs hd hv hz hr
    refine List.forall_mem_cons.mpr ⟨?_, fun save hm => ?_⟩
    · obtain ⟨index, hn⟩ := hnext
      exact ⟨index, hn.parseIndex, hn.lt⟩
    · obtain ⟨index, hp, hlt⟩ := ih hs₁ hd' save hm
      refine ⟨index, hp, UInt32.lt_of_le_of_lt (largest_mono ?_) hlt⟩
      exact (Step.listed hnext ha).left

theorem saves_fresh (hg : g.Sound) (hs : g.Hinted s) (hd : g.Holds card dirCluster clusters)
    (hr : g.Saves dirCluster s card saves s' card') (hc : ∀ save ∈ saves, g.Clear dirCluster save) :
    (∀ save ∈ saves, g.Fresh dirCluster save) ∧ (saves.map (·.name)).Nodup := by
  induction hr generalizing clusters with
  | done => exact ⟨nofun, .nil⟩
  | save hv hz hr hrest ih =>
    obtain ⟨hs₁, hstep⟩ := step_of_save hg hs hd hv hz hr
    obtain ⟨hc₁, hc⟩ := List.forall_mem_cons.mp hc
    have hfresh := hstep.fresh hd hc₁
    obtain ⟨hnext, firstCluster, clusters', hd', ha⟩ := hstep
    obtain ⟨hrestFresh, hnodup⟩ := ih hs₁ hd' hc
    refine ⟨List.forall_mem_cons.mpr ⟨hfresh, hrestFresh⟩, List.nodup_cons.mpr ⟨?_, hnodup⟩⟩
    intro hm
    obtain ⟨save, hsave, hname⟩ := List.mem_map.mp hm
    obtain ⟨index, hp, hlt⟩ := hrest.index_lt hg hs₁ hd' save hsave
    -- The new file is among those that were there before the later save.
    obtain ⟨raws, files, files', hraws, hfiles, hfiles', _, file, hmem, _, hat, _, hfile⟩ := hfresh
    obtain rfl := (lists_iff hd'.spans).mp hfiles'
    have hd₀ : file.attr &&& fatAttrDir = 0 := by
      rw [hat]
      rfl
    have hle := le_largest hmem ((congrArg _ (hfile.trans hname.symm)).trans hp) hd₀
    exact absurd hlt (UInt32.not_lt.mpr hle)

-- A volume with an empty directory in the cluster 2, and a save of one sector into it.
def emptied : Card := fun lba =>
  if lba = 32 ∨ lba = 33 then write32 (fun _ => 0) 8 eoc else blank 134 lba

def saveSector (writer : Writer) (s : Driver) (card : Card) :
    Outcome (Option (List UInt8) × Driver) Card :=
  ((blankLayout 100).save writer 2 16 512 fun _ _ _ => 0).run Sd.handler s (.replicate 60 .passes)
    card

def savedName : Outcome (Option (List UInt8) × Driver) Card → Option (List UInt8)
  | .done (name, _) _ => name
  | _                 => none

def savedDriver : Outcome (Option (List UInt8) × Driver) Card → Driver
  | .done (_, s) _ => s
  | _              => ⟨2, fun _ => 0⟩

theorem Saves.sector (h : savedName (saveSector writer s card) = some name)
    (hr : (blankLayout 100).Saves 2 (savedDriver (saveSector writer s card))
      (saveSector writer s card).world saves s' card') :
    (blankLayout 100).Saves 2 s card
      (⟨writer, 512, name, card, (saveSector writer s card).world⟩ :: saves) s' card' := by
  have hrun : ((blankLayout 100).save writer 2 16 512 fun _ _ _ => 0).run Sd.handler s
      (.replicate 60 .passes) card =
      .done (some name, savedDriver (saveSector writer s card)) (saveSector writer s card).world := by
    change saveSector writer s card = _
    generalize saveSector writer s card = o at h
    cases o with
    | done r w =>
      obtain ⟨r, s₁⟩ := r
      obtain rfl : r = some name := h
      rfl
    | cut _ | hung _ => cases h
  exact .save (fun d hd => List.eq_of_mem_replicate hd) (show 12 < 16 by decide) hrun hr

theorem emptied_holds : (blankLayout 100).Holds emptied 2 [2] where
  spans := ⟨rfl, by decide, (by decide : ¬inChain _)⟩
  valid := List.forall_mem_singleton.mpr ⟨by decide, by decide⟩
  used  := List.forall_mem_singleton.mpr (by decide)

-- The condition on a card whose directory is still one cluster.
theorem clear_sector {save : Save} (hw : save.writer ≠ .qrText)
    (hs : (blankLayout 100).Spans save.before 2 [2])
    (hn : longName ((occupiedFront ((blankLayout 100).content save.before [2])).foldl spell
      ScanState.start.lfn) = none) : (blankLayout 100).Clear 2 save := by
  refine ⟨hw, ?_⟩
  rintro raws ⟨clusters, hc, rfl⟩
  obtain rfl := hs.eq hc
  exact hn

def firstCard : Card :=
  (saveSector (.photo .bmp24) ⟨2, fun _ => 0⟩ emptied).world

def firstDriver : Driver :=
  savedDriver (saveSector (.photo .bmp24) ⟨2, fun _ => 0⟩ emptied)

def twoPhotos : List Save :=
  [⟨.photo .bmp24, 512, Writer.fileName (.photo .bmp24) 1, emptied, firstCard⟩,
    ⟨.photo .ppm, 512, Writer.fileName (.photo .ppm) 2, firstCard,
      (saveSector (.photo .ppm) firstDriver firstCard).world⟩]

theorem twoPhotos_saves : ∃ s' card',
    (blankLayout 100).Saves 2 ⟨2, fun _ => 0⟩ emptied twoPhotos s' card' := by
  refine ⟨_, _, .sector (by decide +kernel) (.sector (by decide +kernel) .done)⟩

theorem saves_fresh_twoPhotos : (∀ save ∈ twoPhotos, (blankLayout 100).Fresh 2 save) ∧
    (twoPhotos.map (·.name)).Nodup := by
  obtain ⟨s', card', hr⟩ := twoPhotos_saves
  have hs : (blankLayout 100).Hinted ⟨2, fun _ => 0⟩ := show 2 ≤ 102 by decide
  refine saves_fresh blank_sound hs emptied_holds hr ?_
  refine List.forall_mem_cons.mpr ⟨?_, List.forall_mem_singleton.mpr ?_⟩
  · exact clear_sector nofun emptied_holds.spans (by decide +kernel)
  · have hend : ¬inChain ((blankLayout 100).next firstCard 2) := by decide +kernel
    exact clear_sector nofun ⟨rfl, by decide, hend⟩ (by decide +kernel)

-- Two texts are saved under one name, which the scan does not report.
def qrCard : Card :=
  (saveSector .qrText ⟨2, fun _ => 0⟩ emptied).world

def qrDriver : Driver :=
  savedDriver (saveSector .qrText ⟨2, fun _ => 0⟩ emptied)

def twoTexts : List Save :=
  [⟨.qrText, 512, Writer.fileName .qrText 1, emptied, qrCard⟩,
    ⟨.qrText, 512, Writer.fileName .qrText 1, qrCard, (saveSector .qrText qrDriver qrCard).world⟩]

theorem saves_not_fresh : (∃ s' card',
    (blankLayout 100).Saves 2 ⟨2, fun _ => 0⟩ emptied twoTexts s' card') ∧
    (∃ save ∈ twoTexts, ¬(blankLayout 100).Fresh 2 save) ∧ ¬(twoTexts.map (·.name)).Nodup := by
  refine ⟨⟨_, _, .sector (by decide +kernel) (.sector (by decide +kernel) .done)⟩,
    ⟨_, List.mem_cons_self, ?_⟩, fun hn => (List.nodup_cons.mp hn).left List.mem_cons_self⟩
  rintro ⟨raws, files, files', _, _, hl, _, file, hm, _, _, _, hname⟩
  have hend : ¬inChain ((blankLayout 100).next qrCard 2) := by decide +kernel
  have hspans : (blankLayout 100).Spans qrCard 2 [2] := ⟨rfl, by decide, hend⟩
  obtain rfl := (lists_iff hspans).mp hl
  have hx : ∀ file ∈ listing ((blankLayout 100).content qrCard [2]) .start,
      file.name ≠ Writer.fileName .qrText 1 := by decide +kernel
  exact hx file hm hname

end Layout
end Fat32
