import HackyLens.Storage.Theorems.FileScan

-- What becomes of a listing when some of the entries are marked as deleted.

namespace Fat32

open Core Prog
open Sd (Card Verdict)

variable {raw : Memory} {raws raws' : List Memory} {state state' : ScanState}

-- The entries of long names, and those of files.
def IsLong (raw : Memory) : Prop :=
  raw 0 ≠ 0x00 ∧ raw 0 ≠ 0xE5 ∧ raw 11 = 0x0F

def IsFile (raw : Memory) : Prop :=
  raw 0 ≠ 0x00 ∧ raw 0 ≠ 0xE5 ∧ raw 11 ≠ 0x0F ∧ ¬(raw 11 &&& 0x08 ≠ 0 ∨ raw 0 = 0x2E)

instance : Decidable (IsLong raw) := inferInstanceAs (Decidable (_ ∧ _))
instance : Decidable (IsFile raw) := inferInstanceAs (Decidable (_ ∧ _))

-- What an entry makes of the characters of a long name.
def spell (lfn : Units) (raw : Memory) : Units :=
  if IsLong raw then lfnStore raw lfn else Function.update lfn 0 0

-- The name that a file is listed under, if it is a long one.
def longName (lfn : Units) : Option (List UInt8) :=
  if lfn 0 ≠ 0 then some (utf16ToUtf8 lfn fileLfnMaxUnits fileNameMax) else none

def ScanState.store (state : ScanState) (raw : Memory) : ScanState :=
  ⟨lfnStore raw state.lfn, state.ordinal + 1,
    if state.lfnCount < 20 then state.lfnCount + 1 else state.lfnCount⟩

theorem scanEntry_end (h : raw 0 = 0x00) : scanEntry raw state = none :=
  if_pos h

theorem IsLong.scanEntry (h : IsLong raw) : scanEntry raw state = some (none, state.store raw) := by
  rw [Fat32.scanEntry, if_neg h.left, if_neg h.right.left, if_pos h.right.right]
  rfl

theorem IsFile.scanEntry (h : IsFile raw) :
    scanEntry raw state = some (some (fileEntry raw state), state.forget) := by
  obtain ⟨h₁, h₂, h₃, h₄⟩ := h
  rw [Fat32.scanEntry, if_neg h₁, if_neg h₂, if_neg h₃, if_neg h₄]

theorem scanEntry_other (h : raw 0 ≠ 0x00) (hl : ¬IsLong raw) (hf : ¬IsFile raw) :
    scanEntry raw state = some (none, state.forget) := by
  rw [scanEntry, if_neg h]
  split
  case isTrue => rfl
  case isFalse he =>
    rw [if_neg fun ha => hl ⟨h, he, ha⟩]
    split
    case isTrue    => rfl
    case isFalse a => exact absurd ⟨h, he, fun ha => hl ⟨h, he, ha⟩, a⟩ hf

theorem IsFile.not_isLong (h : IsFile raw) : ¬IsLong raw :=
  fun hl => h.right.right.left hl.right.right

-- What the scan keeps when it goes on.
theorem scanEntry_state {found : Option FileEntry} (h : scanEntry raw state = some (found, state')) :
    raw 0 ≠ 0x00 ∧ state'.lfn = spell state.lfn raw ∧ state'.ordinal = state.ordinal + 1 := by
  have hz : raw 0 ≠ 0x00 := by
    intro hz
    rw [scanEntry_end hz] at h
    cases h
  refine ⟨hz, ?_⟩
  by_cases hl : IsLong raw
  case pos =>
    rw [hl.scanEntry] at h
    cases h
    exact ⟨(if_pos hl).symm, rfl⟩
  case neg =>
    rw [spell, if_neg hl]
    by_cases hf : IsFile raw
    case pos =>
      rw [hf.scanEntry] at h
      cases h
      exact ⟨rfl, rfl⟩
    case neg =>
      rw [scanEntry_other hz hl hf] at h
      cases h
      exact ⟨rfl, rfl⟩

theorem advance_lfn (h : advance raws state = some state') :
    state'.lfn = raws.foldl spell state.lfn := by
  induction raws generalizing state with
  | nil =>
    cases h
    rfl
  | cons raw raws ih =>
    rw [advance] at h
    obtain ⟨⟨found, state₁⟩, hr, h⟩ := Option.bind_eq_some_iff.mp h
    rw [ih h, List.foldl_cons, (scanEntry_state hr).right.left]

theorem advance_ordinal (h : advance raws state = some state') :
    state'.ordinal = state.ordinal + .ofNat raws.length := by
  induction raws generalizing state with
  | nil =>
    cases h
    simp
  | cons raw raws ih =>
    rw [advance] at h
    obtain ⟨⟨found, state₁⟩, hr, h⟩ := Option.bind_eq_some_iff.mp h
    rw [ih h, (scanEntry_state hr).right.right, List.length_cons, UInt32.ofNat_add,
      UInt32.add_assoc, UInt32.add_comm 1]
    rfl

-- As many entries of long names as have been counted stand at the end of those that were scanned.
theorem advance_run (h : advance raws .start = some state) : ∃ front run, raws = front ++ run ∧
    run.length = state.lfnCount.toNat ∧ ∀ raw ∈ run, IsLong raw := by
  induction raws using List.reverseRecOn generalizing state with
  | nil =>
    cases h
    exact ⟨[], [], rfl, rfl, nofun⟩
  | append_singleton raws raw ih =>
    rw [advance_append] at h
    obtain ⟨state₁, h₁, h⟩ := Option.bind_eq_some_iff.mp h
    rw [advance] at h
    obtain ⟨⟨found, state₂⟩, hr, h⟩ := Option.bind_eq_some_iff.mp h
    obtain rfl : state = state₂ := (Option.some.inj h).symm
    by_cases hl : IsLong raw
    case neg =>
      have hz : state.lfnCount = 0 := by
        have hf := (scanEntry_state hr).left
        by_cases hfile : IsFile raw
        case pos =>
          rw [hfile.scanEntry] at hr
          cases hr
          rfl
        case neg =>
          rw [scanEntry_other hf hl hfile] at hr
          cases hr
          rfl
      exact ⟨raws ++ [raw], [], (List.append_nil _).symm, by rw [hz]; rfl, nofun⟩
    case pos =>
      rw [hl.scanEntry] at hr
      cases hr
      obtain ⟨front, run, rfl, hlen, hrun⟩ := ih h₁
      have h20 : (20 : UInt8).toNat = 20 := rfl
      rw [ScanState.store]
      split
      case isTrue hlt =>
        have hlt := UInt8.lt_iff_toNat_lt.mp hlt
        refine ⟨front, run ++ [raw], List.append_assoc .., ?_, ?_⟩
        · rw [List.length_append, hlen, UInt8.toNat_add]
          exact (Nat.mod_eq_of_lt (show _ + 1 < 256 by omega)).symm
        · exact List.forall_mem_append.mpr ⟨hrun, List.forall_mem_singleton.mpr hl⟩
      case isFalse hge =>
        rw [UInt8.lt_iff_toNat_lt, ← hlen] at hge
        cases run with
        | nil         => exact absurd (show 0 < 20 by decide) hge
        | cons r run =>
          refine ⟨front ++ [r], run ++ [raw], by simp, by simpa using hlen, ?_⟩
          exact List.forall_mem_append.mpr
            ⟨(List.forall_mem_cons.mp hrun).right, List.forall_mem_singleton.mpr hl⟩

-- Where a file is that has been found: the entries of its long name, and what is in front of them.
structure Located (raws : List Memory) (files : List FileEntry) (file : FileEntry)
    (files' : List FileEntry) (front run : List Memory) (raw : Memory) (rest : List Memory)
    (state : ScanState) : Prop where
  split : raws = front ++ run ++ raw :: rest
  ordinal : file.dirOrdinal = .ofNat (front.length + run.length)
  count : run.length = file.lfnCount.toNat
  long : ∀ raw ∈ run, IsLong raw
  before : advance front .start = some state
  found : listing front .start = files
  behind : listing rest ⟨Function.update (run.foldl spell state.lfn) 0 0,
    .ofNat (front.length + run.length + 1), 0⟩ = files'

theorem listing_long (h : ∀ raw ∈ raws, IsLong raw) : listing raws state = [] := by
  induction raws generalizing state with
  | nil => rfl
  | cons raw raws ih =>
    obtain ⟨hr, h⟩ := List.forall_mem_cons.mp h
    rw [listing, hr.scanEntry]
    exact ih h

theorem exists_located {files files' : List FileEntry} {file : FileEntry}
    (h : listing raws .start = files ++ file :: files') :
    ∃ front run raw rest state, Located raws files file files' front run raw rest state := by
  obtain ⟨front, raw, rest, state, rfl, ha, hf, hs, hb⟩ := listing_split h
  obtain ⟨front, run, rfl, hlen, hrun⟩ := advance_run ha
  have ho := advance_ordinal ha
  rw [advance_append] at ha
  obtain ⟨state₁, ha₁, ha₂⟩ := Option.bind_eq_some_iff.mp ha
  have hfile : file = fileEntry raw state := by
    unfold scanEntry at hs
    repeat' split at hs
    all_goals cases hs
    rfl
  rw [List.length_append, show ScanState.start.ordinal = 0 from rfl, UInt32.zero_add] at ho
  refine ⟨front, run, raw, rest, state₁, rfl, ?_, ?_, hrun, ha₁, ?_, ?_⟩
  · rw [hfile]
    exact ho
  · rw [hfile]
    exact hlen
  · rw [listing_append ha₁, listing_long hrun, List.append_nil] at hf
    exact hf
  · rw [← advance_lfn ha₂, UInt32.ofNat_add, ← ho]
    exact hb

-- A file's number, and how many entries there are for its long name.
theorem listed_bounds {files files' : List FileEntry} {file : FileEntry}
    (h : listing raws .start = files ++ file :: files') (hl : raws.length < UInt32.size) :
    file.dirOrdinal.toNat < raws.length ∧ file.lfnCount.toNat ≤ file.dirOrdinal.toNat := by
  obtain ⟨front, run, raw, rest, state, hx⟩ := exists_located h
  have hlen := congrArg List.length hx.split
  simp only [List.length_append, List.length_cons] at hlen
  have ho : file.dirOrdinal.toNat = front.length + run.length := by
    rw [hx.ordinal]
    exact UInt32.toNat_ofNat_of_lt' (by omega)
  have hc := hx.count
  omega

-- Up to the end, the files are listed under the same names, whichever of two texts has been left by
-- the entries in front of these.
def Undisturbed : Units → Units → List Memory → Prop
  | _,   _,    []          => True
  | lfn, lfn', raw :: rest =>
    raw 0 ≠ 0x00 → (IsFile raw → longName lfn = longName lfn') ∧
      Undisturbed (spell lfn raw) (spell lfn' raw) rest

section Undisturbed

variable {lfn lfn' : Units} {rest : List Memory}

-- Each character is overwritten without regard to the others.
theorem update_congr {unit i : Nat} (h : lfn i = lfn' i) (value : UInt16) :
    Function.update lfn unit value i = Function.update lfn' unit value i := by
  rw [Function.update_apply, Function.update_apply, h]

theorem lfnStoreFrom_congr {positions : List Nat} {unit i : Nat} (h : lfn i = lfn' i) :
    lfnStoreFrom raw positions unit lfn i = lfnStoreFrom raw positions unit lfn' i := by
  induction positions generalizing unit lfn lfn' with
  | nil => exact h
  | cons position positions ih =>
    rw [lfnStoreFrom, lfnStoreFrom]
    split
    case isFalse => exact h
    case isTrue =>
      dsimp only
      split
      case isTrue  => exact update_congr h 0
      case isFalse => exact ih (update_congr h _)

theorem lfnStore_congr {i : Nat} (h : lfn i = lfn' i) : lfnStore raw lfn i = lfnStore raw lfn' i := by
  have clear : (if raw 0 &&& 0x40 ≠ 0 then fun _ => 0 else lfn) i =
      (if raw 0 &&& 0x40 ≠ 0 then fun _ => 0 else lfn') i := by
    split
    · rfl
    · exact h
  rw [lfnStore, lfnStore]
  split
  · exact clear
  · exact lfnStoreFrom_congr clear

theorem spell_zero (h : lfn 0 = lfn' 0) : spell lfn raw 0 = spell lfn' raw 0 := by
  rw [spell, spell]
  split
  · exact lfnStore_congr h
  · rw [Function.update_self, Function.update_self]

theorem name_eq (lfn : Units) (ordinal : UInt32) (count : UInt8) :
    (fileEntry raw ⟨lfn, ordinal, count⟩).name = (longName lfn).getD (shortName raw) := by
  rw [fileEntry, longName]
  split <;> rfl

theorem fileEntry_eq_iff (h : lfn 0 = lfn' 0) {ordinal : UInt32} {count : UInt8} :
    fileEntry raw ⟨lfn, ordinal, count⟩ = fileEntry raw ⟨lfn', ordinal, count⟩ ↔
      longName lfn = longName lfn' := by
  constructor
  · intro he
    have hn := congrArg FileEntry.name he
    rw [name_eq, name_eq] at hn
    rw [longName, longName, h] at hn ⊢
    split
    case isTrue hz =>
      rw [if_pos hz, if_pos hz] at hn
      exact congrArg some hn
    case isFalse => rfl
  · intro hn
    have hx := @name_eq raw lfn ordinal count
    rw [hn, ← name_eq lfn' ordinal count] at hx
    exact congrArg (fun name => { fileEntry raw ⟨lfn', ordinal, count⟩ with name }) hx

-- The names are all that depends on the text that is left.
theorem listing_eq_iff (h : lfn 0 = lfn' 0) {ordinal : UInt32} {count : UInt8} :
    listing rest ⟨lfn, ordinal, count⟩ = listing rest ⟨lfn', ordinal, count⟩ ↔
      Undisturbed lfn lfn' rest := by
  induction rest generalizing lfn lfn' ordinal count with
  | nil => exact iff_of_true rfl trivial
  | cons raw rest ih =>
    rw [listing, listing, Undisturbed]
    by_cases hz : raw 0 = 0x00
    case pos =>
      rw [scanEntry_end hz, scanEntry_end hz]
      exact iff_of_true rfl fun hn => absurd hz hn
    case neg =>
      have hs (count : UInt8) := @ih _ _ (@spell_zero raw _ _ h) (ordinal + 1) count
      by_cases hl : IsLong raw
      case pos =>
        rw [hl.scanEntry, hl.scanEntry]
        simp only [spell, if_pos hl] at hs ⊢
        refine (hs _).trans ⟨fun hu _ => ⟨fun hf => absurd hl hf.not_isLong, hu⟩, fun hu => ?_⟩
        exact (hu hz).right
      case neg =>
        simp only [spell, if_neg hl] at hs ⊢
        by_cases hf : IsFile raw
        case pos =>
          rw [hf.scanEntry, hf.scanEntry]
          refine List.cons_eq_cons.trans ?_
          rw [fileEntry_eq_iff h]
          exact ⟨fun h _ => ⟨fun _ => h.left, (hs 0).mp h.right⟩,
            fun hu => ⟨(hu hz).left hf, (hs 0).mpr (hu hz).right⟩⟩
        case neg =>
          rw [scanEntry_other hz hl hf, scanEntry_other hz hl hf]
          refine (hs 0).trans ⟨fun hu _ => ⟨fun hf' => absurd hf' hf, hu⟩, fun hu => ?_⟩
          exact (hu hz).right

-- Each run of entries of a long name begins with one that is marked as the first.
def Flagged : (running : Bool) → List Memory → Prop
  | _,       []          => True
  | running, raw :: rest =>
    (IsLong raw → running = true ∨ raw 0 &&& 0x40 ≠ 0) ∧ Flagged (decide (IsLong raw)) rest

-- Then no text is left that is used.
theorem undisturbed_of_flagged {running : Bool} (h : Flagged running rest)
    (hl : lfn = lfn' ∨ (running = false ∧ lfn 0 = 0 ∧ lfn' 0 = 0)) : Undisturbed lfn lfn' rest := by
  induction rest generalizing lfn lfn' running with
  | nil => trivial
  | cons raw rest ih =>
    obtain ⟨hr, h⟩ := h
    refine fun _ => ⟨fun _ => ?_, ih h ?_⟩
    · rcases hl with rfl | ⟨_, hz, hz'⟩
      · rfl
      · rw [longName, longName, if_neg (not_not.mpr hz), if_neg (not_not.mpr hz')]
    · rcases hl with rfl | ⟨rfl, hz, hz'⟩
      · exact .inl rfl
      · by_cases hlong : IsLong raw
        case pos =>
          have hflag := (hr hlong).resolve_left Bool.false_ne_true
          rw [spell, spell, if_pos hlong, if_pos hlong, lfnStore, lfnStore, if_pos hflag, if_pos hflag]
          exact .inl rfl
        case neg =>
          refine .inr ⟨decide_eq_false hlong, ?_⟩
          rw [spell, spell, if_neg hlong, if_neg hlong, Function.update_self, Function.update_self]
          exact ⟨rfl, rfl⟩

end Undisturbed

-- Entries that are marked as deleted, by their numbers.
def markRaw (raw : Memory) : Memory :=
  Function.update raw 0 0xE5

def markRaws (start last : Nat) : Nat → List Memory → List Memory
  | _, []          => []
  | k, raw :: raws =>
    (if start ≤ k ∧ k ≤ last then markRaw raw else raw) :: markRaws start last (k + 1) raws

section Marks

variable {start last k : Nat} {rest : List Memory}

theorem markRaws_append : markRaws start last k (raws ++ raws') =
    markRaws start last k raws ++ markRaws start last (k + raws.length) raws' := by
  induction raws generalizing k with
  | nil => rfl
  | cons raw raws ih =>
    rw [List.cons_append, markRaws, ih, markRaws, List.length_cons, List.cons_append,
      Nat.add_right_comm]
    rfl

theorem markRaws_before (h : k + raws.length ≤ start) : markRaws start last k raws = raws := by
  induction raws generalizing k with
  | nil => rfl
  | cons raw raws ih =>
    rw [List.length_cons] at h
    rw [markRaws, if_neg (by omega), ih (by omega)]

theorem markRaws_behind (h : last < k) : markRaws start last k raws = raws := by
  induction raws generalizing k with
  | nil => rfl
  | cons raw raws ih => rw [markRaws, if_neg (by omega), ih (by omega)]

theorem markRaws_within (hs : start ≤ k) (hl : k + raws.length ≤ last + 1) :
    markRaws start last k raws = raws.map markRaw := by
  induction raws generalizing k with
  | nil => rfl
  | cons raw raws ih =>
    rw [List.length_cons] at hl
    rw [markRaws, if_pos (by omega), ih (by omega) (by omega), List.map_cons]

theorem scanEntry_markRaw : scanEntry (markRaw raw) state = some (none, state.forget) := by
  have h : markRaw raw 0 = 0xE5 := Function.update_self ..
  rw [scanEntry, if_neg (by rw [h]; decide), if_pos h]

theorem listing_map_markRaw (h : raws ≠ []) : listing (raws.map markRaw ++ rest) state =
    listing rest ⟨Function.update state.lfn 0 0, state.ordinal + .ofNat raws.length, 0⟩ := by
  induction raws generalizing state with
  | nil => exact absurd rfl h
  | cons raw raws ih =>
    rw [List.map_cons, List.cons_append, listing, scanEntry_markRaw]
    cases raws with
    | nil          => rfl
    | cons _ raws' =>
      dsimp only
      rw [ih (List.cons_ne_nil _ _), ScanState.forget, Function.update_idem,
        @List.length_cons _ raw, UInt32.ofNat_add, UInt32.add_assoc, UInt32.add_comm 1]
      rfl

end Marks

-- The names behind a file do not depend on the text of its long name, of which `count` entries in front
-- of it are deleted with it.
def Spared (raws : List Memory) (ordinal count : Nat) : Prop :=
  let left (raws : List Memory) : Units :=
    Function.update (raws.foldl spell ScanState.start.lfn) 0 0
  Undisturbed (left (raws.take (ordinal - count))) (left (raws.take ordinal))
    (raws.drop (ordinal + 1))

theorem Located.listing_iff {files files' : List FileEntry} {file : FileEntry}
    {front run rest : List Memory}
    (h : Located raws files file files' front run raw rest state)
    (hl : raws.length < UInt32.size) :
    listing (markRaws (file.dirOrdinal.toNat - file.lfnCount.toNat) file.dirOrdinal.toNat 0 raws)
        .start = files ++ files' ↔
      Spared raws file.dirOrdinal.toNat file.lfnCount.toNat := by
  obtain rfl := h.split
  have hsize : UInt32.size = 4294967296 := rfl
  simp only [List.length_append, List.length_cons] at hl
  have ho : file.dirOrdinal.toNat = front.length + run.length := by
    rw [h.ordinal]
    exact UInt32.toNat_ofNat_of_lt' (by omega)
  have hmark : markRaws (front.length + run.length - run.length) (front.length + run.length) 0
      (front ++ run ++ raw :: rest) = front ++ ((run ++ [raw]).map markRaw ++ rest) := by
    have hr : front ++ run ++ raw :: rest = front ++ ((run ++ [raw]) ++ rest) := by simp
    rw [hr, markRaws_append, markRaws_append, markRaws_before (by omega), markRaws_within,
      markRaws_behind]
    · simp only [List.length_append, List.length_singleton]
      omega
    · omega
    · simp only [List.length_append, List.length_singleton]
      omega
  have hs : state.lfn = front.foldl spell ScanState.start.lfn := advance_lfn h.before
  have hord : state.ordinal + .ofNat (run ++ [raw]).length =
      .ofNat (front.length + run.length + 1) := by
    rw [advance_ordinal h.before, show ScanState.start.ordinal = 0 from rfl, UInt32.zero_add,
      ← UInt32.ofNat_add, List.length_append, List.length_singleton, Nat.add_assoc]
  have hfront : (front ++ run ++ raw :: rest).take (front.length + run.length - run.length) =
      front := by
    rw [Nat.add_sub_cancel, List.append_assoc, List.take_left']
    rfl
  have hrun : (front ++ run ++ raw :: rest).take (front.length + run.length) = front ++ run :=
    List.take_left' List.length_append
  have hrest : (front ++ run ++ raw :: rest).drop (front.length + run.length + 1) = rest := by
    rw [← List.drop_drop, List.drop_left' List.length_append]
    rfl
  have hzero : Function.update state.lfn 0 0 0 =
      Function.update (run.foldl spell state.lfn) 0 0 0 := by
    rw [Function.update_self, Function.update_self]
  rw [ho, ← h.count, hmark, listing_append h.before, listing_map_markRaw (by simp), h.found,
    List.append_cancel_left_eq, ← h.behind, hord, listing_eq_iff hzero, Spared, hfront, hrun, hrest]
  dsimp only
  rw [hs, List.foldl_append]

end Fat32
