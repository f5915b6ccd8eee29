import HackyLens.Storage.Theorems.Fs

-- A mount removes the temporary files, unless one of its calls fails.

namespace Lfs

open Prog Userfs

namespace Fs

-- No name is longer than `g_config.name_max`.
structure Short (fs : Fs) : Prop where
  find : ∀ name, fs.find name ≠ none → name.length ≤ nameMax
  opened : ∀ file o, fs.opened file = some o → o.writable → o.name.length ≤ nameMax

namespace Short

variable {fs : Fs} {file : File}

theorem update {o : Option OpenFile} (h : fs.Short)
    (ho : ∀ p, o = some p → p.writable → p.name.length ≤ nameMax) : (fs.update file o).Short := by
  refine ⟨h.find, fun file' p hp => ?_⟩
  by_cases hf : file' = file
  case pos => exact ho p <| opened_update.symm.trans (hf ▸ hp)
  case neg => exact h.opened file' p <| (opened_update_ne hf).symm.trans hp

theorem reopen {o o' : OpenFile} (h : fs.Short) (ho : fs.opened file = some o)
    (hn : o'.name = o.name) (hw : o'.writable = o.writable) : (fs.update file (some o')).Short := by
  refine h.update ?_
  rintro _ ⟨⟩
  rw [hn, hw]
  exact h.opened file o ho

theorem close (h : fs.Short) : (fs.update file none).Short :=
  h.update nofun

theorem erase {path : CString} (h : fs.Short) :
    Short { fs with entries := fs.entries.erase path } := by
  refine ⟨fun name hn => h.find name ?_, h.opened⟩
  by_cases hp : name = path
  case pos => exact absurd (hp ▸ AList.lookup_erase _ _) hn
  case neg => exact (AList.lookup_erase_ne hp).symm.trans_ne hn

theorem insert {path : CString} {entry : Entry} (h : fs.Short) (hp : path.length ≤ nameMax) :
    Short { fs with entries := fs.entries.insert path entry } := by
  refine ⟨fun name hn => ?_, h.opened⟩
  by_cases he : name = path
  case pos => exact he ▸ hp
  case neg => exact h.find name <| (AList.lookup_insert_ne he).symm.trans_ne hn

theorem publish {o : OpenFile} (h : fs.Short) (ho : fs.opened file = some o) :
    (fs.publish o).Short := by
  unfold Fs.publish
  split
  case isTrue hw => exact h.insert <| h.opened file o ho hw
  case isFalse   => exact h

theorem perform {c : Call} (h : fs.Short) (r : c.Reply) : (fs.perform c r).snd.Short := by
  have forget : fs.forget.Short := ⟨h.find, fun _ _ ho => by cases ho⟩
  cases c <;> simp only [Fs.perform]
  case mount | unmount              => exact forget
  case format                       => exact ⟨fun _ hn => absurd rfl hn, fun _ _ ho => by cases ho⟩
  case fsSize | stat                => exact h
  case dirOpen | dirRead | dirClose => exact ⟨h.find, h.opened⟩
  case remove =>
    split
    · exact h.erase
    · exact h
  case rename =>
    split
    case isTrue => exact h
    case isFalse hn =>
      split
      case h_4 => exact h.erase.insert (Nat.le_of_not_lt hn)
      all_goals exact h
  case fileOpencfg flags =>
    have h' : Short { fs with nextNumber := fs.nextNumber + 1 } := ⟨h.find, h.opened⟩
    split
    case h_3 =>
      refine h'.update ?_
      rintro _ ⟨⟩ ⟨⟩
    case h_5 =>
      split
      case isTrue => exact h
      case isFalse hn =>
        have hn := Nat.le_of_not_lt hn
        refine insert (h'.update ?_) hn
        rintro _ ⟨⟩ _
        exact hn
    all_goals exact h
  case fileSeek | fileRead =>
    split
    case h_1    => exact h
    case h_2 ho => exact h.reopen ho rfl rfl
  case fileWrite =>
    split
    case h_1    => exact h
    case h_2 ho =>
      split
      · exact h
      · exact h.reopen ho rfl rfl
  case fileSync =>
    split
    · exact h
    · exact h.publish ‹_›
  case fileClose =>
    split
    · exact h
    · exact (h.publish ‹_›).close

theorem fail {c : Call} {kept : Nat} (h : fs.Short) : (fs.fail kept c).Short := by
  cases c <;> simp only [Fs.fail]
  case fileWrite =>
    split
    case h_1    => exact h
    case h_2 ho =>
      split
      · exact h
      · exact h.reopen ho rfl rfl
  case fileClose => exact h.close
  all_goals exact h

theorem handler {c : Userfs.Call} {d : Decision} (h : fs.Short) : (Lfs.handler d c fs).snd.Short := by
  cases c
  case flash => exact h
  case lfs c =>
    simp only [Lfs.handler, Fs.answer]
    split
    case h_1 => exact h.perform _
    case h_2 => exact h.fail
    case h_3 =>
      cases c
      case fileWrite =>
        simp only [Fs.short]
        split
        · exact h.fail (c := .fileWrite _ _)
        · exact h.perform _
      all_goals exact h.perform (d.answer (.lfs _))

end Short

theorem mem_infos_of_find {fs : Fs} {name : CString} {entry : Entry} (h : fs.find name = some entry) :
    entry.info name ∈ fs.infos := by
  refine List.mem_append_right _ <| List.mem_map.mpr ⟨⟨name, entry⟩, ?_, rfl⟩
  exact List.of_mem_dlookup h

theorem find_of_mem_infos {fs : Fs} {info : Info} (h : info ∈ fs.infos) (ht : Temporary info.name) :
    ∃ entry, fs.find info.name = some entry := by
  cases List.mem_append.mp h
  case inl h =>
    refine absurd ht ?_
    rcases List.mem_pair.mp h with rfl | rfl <;> (rintro (h | h) <;> exact absurd h (by decide))
  case inr h =>
    obtain ⟨⟨name, entry⟩, hm, he⟩ := List.mem_map.mp h
    have hn : info.name = name := by
      rw [← he]
      cases entry <;> rfl
    exact ⟨entry, hn ▸ List.mem_dlookup fs.entries.nodupKeys hm⟩

theorem length_keys_erase {fs : Fs} {name : CString} {entry : Entry} (h : fs.find name = some entry) :
    (fs.entries.erase name).keys.length + 1 = fs.entries.keys.length := by
  obtain ⟨b, l₁, l₂, _, he, hk⟩ := List.exists_of_kerase <|
    AList.lookup_isSome.mp <| Option.isSome_of_eq_some h
  change (List.kerase name fs.entries.entries).keys.length + 1 = fs.entries.entries.keys.length
  rw [hk, he]
  simp [List.keys, Nat.add_assoc]

theorem length_infos {fs : Fs} : fs.infos.length = fs.entries.keys.length + 2 := by
  simp [infos, AList.keys, List.keys]

end Fs

end Lfs

namespace Userfs

open Prog Lfs

-- No call to littlefs fails, and all loops end.
def calm : Env Call Call.Reply Fs Decision where
  handler  := handler
  admits d := d.fault = none
  call _ _ := True
  hung _   := False

variable {s : Ram} {fs : Fs} {fuel : Nat}

theorem wp_calm {c : Lfs.Call} {Q : c.Reply → Ram → Fs → Prop}
    (h : ∀ r, Q (fs.perform c r).fst s (fs.perform c r).snd) : wp calm (lfs c) Q s fs := by
  refine ⟨trivial, fun d (hd : d.fault = none) => ?_⟩
  simp only [calm, handler, Fs.answer, hd]
  exact h _

theorem wp_flash_calm {c : InternalFlash.Call} {Q : c.Reply → Ram → Fs → Prop}
    (h : ∀ r, Q r s fs) : wp calm (flash c) Q s fs :=
  ⟨trivial, fun _ _ => h _⟩

-- What the search for the next temporary file yields.
structure Found (fs : Fs) (stale : CString) (fs' : Fs) : Prop where
  entries_eq : fs'.entries = fs.entries
  opened_eq : fs'.opened = fs.opened
  none : stale = [] → ∀ info ∈ fs.listing, ¬Temporary info.name
  some : stale ≠ [] → ∃ info ∈ fs.listing, Temporary info.name ∧ stale = info.name.take nameMax

theorem findStale_calm (hf : fs.listing.length < fuel) :
    wp calm (findStale fuel) (fun stale s' fs' => s' = s ∧ Found fs stale fs') s fs := by
  -- The entries that were already read are not temporary.
  let Inv := fun n (_ : Unit) s' (fs' : Fs) => s' = s ∧ fs'.entries = fs.entries ∧
    fs'.opened = fs.opened ∧ fs'.listing.length = n ∧
    ∃ seen, fs.listing = seen ++ fs'.listing ∧ ∀ info ∈ seen, ¬Temporary info.name
  refine wp_loop_of_lt Inv ?_ hf ⟨rfl, rfl, rfl, rfl, [], rfl, nofun⟩
  rintro n ⟨⟩ s' fs' ⟨rfl, he, ho, hn, seen, hl, hs⟩
  rw [wp_bind]
  refine wp_calm fun _ => ?_
  simp only [Fs.perform]
  cases hl' : fs'.listing
  case nil =>
    rw [hl', List.append_nil] at hl
    exact ⟨rfl, he, ho, fun _ => hl ▸ hs, fun h => absurd rfl h⟩
  case cons info rest =>
    simp only [List.head?_cons, wp_ite, wp_pure]
    rw [hl'] at hl hn
    split
    case isTrue ht =>
      have hm : info ∈ fs.listing := by simp [hl]
      refine ⟨rfl, he, ho, fun h => absurd h (Temporary.take ht).ne_nil, fun _ => ⟨info, hm, ht, rfl⟩⟩
    case isFalse ht =>
      refine ⟨rest.length, hn ▸ Nat.lt_succ_self _, rfl, he, ho, rfl, seen ++ [info], ?_, ?_⟩
      · simp [hl]
      · intro info' hi
        cases List.mem_append.mp hi
        case inl hi => exact hs _ hi
        case inr hi => exact List.mem_singleton.mp hi ▸ ht

theorem cleanupUploads_calm (h : fs.Short) (hf : fs.entries.keys.length + 2 < fuel) :
    wp calm (cleanupUploads fuel)
      (fun _ _ fs' => ∀ name, Temporary name → fs'.find name = none) s fs := by
  -- Each round but the last removes an entry.
  let Inv := fun n (_ : Unit) (_ : Ram) (fs' : Fs) => fs'.Short ∧ fs'.entries.keys.length = n ∧
    n + 2 < fuel
  refine wp_loop_of_lt Inv ?_ (Nat.lt_of_le_of_lt (Nat.le_add_right _ _) hf) ⟨h, rfl, hf⟩
  rintro _ ⟨⟩ s fs ⟨h, rfl, hf⟩
  rw [wp_bind]
  refine wp_calm fun _ => ?_
  simp only [Fs.perform, wp_bind]
  refine wp_mono (findStale_calm (fs.length_infos ▸ hf)) ?_
  rintro stale _ fs' ⟨rfl, he, ho, hnone, hsome⟩
  have h' : fs'.Short := ⟨fun name => by rw [Fs.find, he]; exact h.find name, ho ▸ h.opened⟩
  refine wp_calm fun _ => ?_
  simp only [Fs.perform, wp_ite, wp_pure]
  split
  case isTrue hs =>
    intro name ht
    by_contra hn
    obtain ⟨entry, hf⟩ := Option.ne_none_iff_exists'.mp hn
    refine hnone hs _ (Fs.mem_infos_of_find (he ▸ hf)) ?_
    cases entry <;> exact ht
  case isFalse hs =>
    obtain ⟨info, hi, ht, hn⟩ := hsome hs
    obtain ⟨entry, hf⟩ := Fs.find_of_mem_infos hi ht
    rw [List.take_of_length_le (h.find _ <| by simp [hf])] at hn
    subst hn
    rw [wp_bind]
    refine wp_calm fun _ => ?_
    have hf' : fs'.find info.name = some entry := by rw [Fs.find, he]; exact hf
    have hl := Fs.length_keys_erase hf'
    rw [he] at hl
    dsimp only at he hl
    simp only [Fs.perform, Fs.find] at hf' ⊢
    rw [hf']
    obtain ⟨hfind, _⟩ := @Fs.Short.erase _ info.name h'
    refine ⟨_, ?_, ⟨hfind, h'.opened⟩, rfl, ?_⟩
    all_goals
      simp only [he]
      omega

theorem readyFlash_calm {again : Bool} :
    wp calm (readyFlash again) (fun _ s' fs' => s' = s ∧ fs' = fs) s fs := by
  simp only [readyFlash, wp_bind, wp_ite, wp_pure]
  refine wp_flash_calm fun info => ?_
  split
  case isTrue => exact ⟨rfl, rfl⟩
  refine wp_flash_calm fun ok => ?_
  split
  case isTrue => exact ⟨rfl, rfl⟩
  split
  case isTrue  => exact wp_flash_calm fun _ => ⟨rfl, rfl⟩
  case isFalse => exact ⟨rfl, rfl⟩

theorem mount_calm (hs : s.state ≠ .mounted) (h : fs.Short) (hf : fs.entries.keys.length + 2 < fuel) :
    wp calm (mount fuel)
      (fun r _ fs' => r = .ok → ∀ name, Temporary name → fs'.find name = none) s fs := by
  simp only [mount, remember, setState, configure, clearUpload, wp_bind, wp_get]
  rw [if_neg hs, wp_bind]
  refine wp_mono readyFlash_calm ?_
  rintro info s fs ⟨rfl, rfl⟩
  split
  case h_2 => exact fun h => by cases h
  rw [wp_bind]
  refine wp_flash_calm fun partition => ?_
  split
  case h_2 => exact fun h => by cases h
  simp only [wp_ite, wp_bind, wp_pure, wp_modify]
  split
  case isTrue => exact fun h => by cases h
  refine wp_calm fun _ => ?_
  simp only [Fs.perform, wp_bind, wp_modify]
  exact wp_mono (cleanupUploads_calm ⟨h.find, (by intros; contradiction)⟩ hf) fun _ _ _ h _ => h

theorem mount_meets {ds : List Decision} (hd : ∀ d ∈ ds, d.fault = none) (hs : s.state ≠ .mounted)
    (h : fs.Short) (hf : fs.entries.keys.length + 2 < fuel) :
    ((mount fuel).run handler s ds fs).Meets calm
      fun a fs' => a.fst = .ok → ∀ name, Temporary name → fs'.find name = none :=
  run_meets hd (mount_calm hs h hf)

end Userfs
