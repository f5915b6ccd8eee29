import HackyLens.Lib.Run
import HackyLens.Storage.Theorems.Invariant

-- The name in `.startup` is the name of a file.

namespace Userfs

open Prog Lfs

-- The name that `.startup` holds, when it is a valid one.
def selection (fs : Fs) : Option CString :=
  match fs.find startupFile with
  | some (.reg data) =>
    let name := cString (data.take nameMax)
    if validName (some name) false then some name else none
  | _                => none

-- The selection is never dangling.
def Selected (fs : Fs) : Prop :=
  ∀ name ∈ selection fs, ∃ data, fs.find (normalName name) = some (.reg data)

-- The selection is stored without a slash.
structure Sound (fs : Fs) : Prop where
  wf : fs.Wf
  normal : ∀ name ∈ selection fs, normalName name = name
  selected : Selected fs

theorem selection_congr {fs fs' : Fs} (h : fs'.find startupFile = fs.find startupFile) :
    selection fs' = selection fs := by
  rw [selection, selection, h]

theorem startupFile_of_selection {fs : Fs} {name : CString} (h : name ∈ selection fs) :
    ∃ data, fs.find startupFile = some (.reg data) ∧ cString (data.take nameMax) = name ∧
      validName (some name) false := by
  unfold selection at h
  split at h
  case h_2 => cases h
  case h_1 data hd =>
    dsimp only at h
    split at h
    case isFalse => cases h
    case isTrue hv =>
      cases h
      exact ⟨data, hd, rfl, hv⟩

theorem valid_of_selection {fs : Fs} {name : CString} (h : name ∈ selection fs) : Valid name := by
  obtain ⟨_, _, _, hv⟩ := startupFile_of_selection h
  exact validName_iff.mp hv

theorem visible_not_temporary {name : CString} (h : ¬Hidden name) : ¬Temporary name :=
  mt Temporary.hidden h

namespace Sound

variable {fs fs' : Fs} {s : Ram} {fuel : Nat}

theorem of_find (h : Sound fs) (hw : fs'.Wf) (hs : fs'.find startupFile = fs.find startupFile)
    (hf : ∀ name ∈ selection fs, ∀ data, fs.find name = some (.reg data) →
      ∃ data, fs'.find name = some (.reg data)) : Sound fs' := by
  have he := selection_congr hs
  refine ⟨hw, fun name hn => h.normal name (he ▸ hn), fun name hn => ?_⟩
  have hn : name ∈ selection fs := he ▸ hn
  obtain ⟨data, hd⟩ := h.selected name hn
  rw [h.normal name hn] at hd ⊢
  exact hf name hn data hd

theorem of_deselected (hw : fs.Wf) (hs : fs.find startupFile = none) : Sound fs := by
  have he : selection fs = none := by rw [selection, hs]
  exact ⟨hw, by simp [he], by simp [Selected, he]⟩

theorem deselect (h : Sound fs) : Sound { fs with entries := fs.entries.erase startupFile } :=
  of_deselected h.wf (AList.lookup_erase ..)

-- The selection does not name a temporary file.
theorem kept (h : Sound fs) (hk : Kept Temporary fs fs') : Sound fs' := by
  refine h.of_find hk.wf (hk.find _ startupFile_not_temporary) fun name hn data hd => ⟨data, ?_⟩
  rw [hk.find name, hd]
  have hv := (valid_of_selection hn).visible
  rw [h.normal name hn] at hv
  exact visible_not_temporary hv

theorem handler (h : Sound fs) {c : Userfs.Call} (hc : Confined Temporary c) (d : Decision) :
    Sound (Lfs.handler d c fs).snd :=
  h.kept <| (Kept.refl h.wf).handler (fun _ => id) hc

theorem format (h : Sound fs) (d : Decision) : Sound (Lfs.handler d (.lfs .format) fs).snd := by
  have formatted : Sound { fs.forget with entries := ∅ } := of_deselected nofun rfl
  simp only [Lfs.handler, Fs.answer]
  split
  · exact formatted
  · exact h
  · exact formatted

-- A file that is removed must not be selected.
theorem remove {path : CString} (h : Sound fs) (hp : path ∉ selection fs) :
    Sound { fs with entries := fs.entries.erase path } := by
  by_cases hs : path = startupFile
  case pos =>
    exact hs ▸ h.deselect
  case neg =>
    refine h.of_find h.wf (AList.lookup_erase_ne <| Ne.symm hs) fun name hn data hd => ⟨data, ?_⟩
    refine (AList.lookup_erase_ne ?_).trans hd
    rintro rfl
    exact hp hn

-- A temporary file that becomes visible.
theorem publish {oldpath newpath : CString} {data : List UInt8} (h : Sound fs)
    (ho : Temporary oldpath) (hn : ¬Hidden newpath) :
    Sound { fs with entries := (fs.entries.erase oldpath).insert newpath (.reg data) } := by
  have hs : startupFile ≠ newpath := fun he => hn (he ▸ startupFile_hidden)
  have ht : startupFile ≠ oldpath := fun he => startupFile_not_temporary (he ▸ ho)
  refine h.of_find h.wf ?_ fun name hs data' hd => ?_
  case refine_1 => exact (AList.lookup_insert_ne hs).trans (AList.lookup_erase_ne ht)
  case refine_2 =>
    by_cases he : name = newpath
    case pos => exact ⟨data, he ▸ AList.lookup_insert ..⟩
    case neg =>
      refine ⟨data', (AList.lookup_insert_ne he).trans <| (AList.lookup_erase_ne ?_).trans hd⟩
      rintro rfl
      have hv := (valid_of_selection hs).visible
      rw [h.normal _ hs] at hv
      exact hv ho.hidden

-- The name of a regular file becomes the selection.
theorem select {name : CString} {data : List UInt8} (h : Sound fs) (hv : Valid name)
    (hn : fs.find (normalName name) = some (.reg data)) :
    Sound { fs with
      entries := (fs.entries.erase metaTemp).insert startupFile (.reg (normalName name)) } := by
  have hs : selection { fs with
      entries := (fs.entries.erase metaTemp).insert startupFile (.reg (normalName name)) } =
      some (normalName name) := by
    simp only [selection, Fs.find, AList.lookup_insert, hv.cString_take]
    rw [if_pos (validName_iff.mpr hv.normal)]
  refine ⟨h.wf, fun name' hn' => ?_, fun name' hn' => ⟨data, ?_⟩⟩
  all_goals
    rw [hs] at hn'
    cases hn'
  case refine_1 => exact hv.normalName_eq
  case refine_2 =>
    rw [hv.normalName_eq]
    refine (AList.lookup_insert_ne ?_).trans <| (AList.lookup_erase_ne ?_).trans hn
    · exact fun he => hv.visible (he ▸ startupFile_hidden)
    · exact fun he => hv.visible (he ▸ metaTemp_temporary.hidden)

-- A function that only changes temporary names, or formats.
theorem keeps {α : Type} {ok : Userfs.Call → Prop} {p : Userfs.Task α} {Q : α → Ram → Prop}
    (hp : Ensures ok p Q s) (hc : ∀ c, ok c → Confined Temporary c ∨ c = .lfs .format)
    (h : Sound fs) : wp (env Sound) p (fun a s fs => Q a s ∧ Sound fs) s fs := by
  refine hp.keeps Sound (fun c fs ho h => ⟨h, fun d _ => ?_⟩) (fun _ h => h) h
  cases hc c ho
  case inl hc => exact h.handler hc d
  case inr hc => exact hc ▸ h.format d

theorem call {c : Lfs.Call} {Q : c.Reply → Ram → Fs → Prop} (h : Sound fs)
    (hc : Confined Temporary (.lfs c)) (hq : ∀ r fs', Kept Temporary fs fs' → Q r s fs') :
    wp (env Sound) (lfs c) Q s fs :=
  wp_confined h (.refl h.wf) (fun _ => id) hc hq

theorem mount (h : Sound fs) : wp (env Sound) (mount fuel) (fun _ _ => Sound) s fs := by
  by_cases hs : s.state = .mounted
  case pos => exact wp_mono (keeps (mount_mounted hs) nofun h) fun _ _ _ => And.right
  case neg =>
    refine wp_mono (keeps (mount_tidy hs) ?_ h) fun _ _ _ => And.right
    exact fun _ hc => .inl <| confined_of_tidy hc

theorem unmount (h : Sound fs) (ho : s.Ok) : wp (env Sound) unmount (fun _ _ => Sound) s fs :=
  wp_mono (keeps ho.unmount (fun _ hc => .inl <| ho.unmount_confined hc) h) fun _ _ _ => And.right

theorem formatExplicit (h : Sound fs) (ho : s.Ok) :
    wp (env Sound) (formatExplicit fuel) (fun _ _ => Sound) s fs := by
  refine wp_mono (keeps ho.formatExplicit ?_ h) fun _ _ _ => And.right
  rintro _ (hc | hc | _)
  · exact .inl <| ho.unmount_confined hc
  · exact .inl <| confined_of_tidy hc
  · exact .inr rfl

theorem uploadCommit {id : UInt32} (h : Sound fs) (ho : s.Ok) :
    wp (env Sound) (uploadCommit fuel id) (fun _ _ => Sound) s fs := by
  simp only [Userfs.uploadCommit, remember, clearUpload, wp_bind, wp_get, wp_ite, wp_pure, wp_modify]
  split
  case isTrue => exact h
  case isFalse hn =>
  split
  case isTrue => exact h
  case isFalse =>
  have ha : s.upload.active := by simp_all
  refine wp_mono (keeps syncClose_eq ?_ h) ?_
  case refine_1 => rintro _ (_ | _) <;> exact .inl trivial
  rintro result s fs ⟨rfl, h⟩
  split
  case isTrue => exact h
  refine wp_mono (verifyUpload_reads (fun fs' hr => h.kept <| hr.kept <| .refl h.wf) h.wf) ?_
  rintro verify s fs' ⟨rfl, hr, hv⟩
  have h' := h.kept <| hr.kept <| .refl h.wf
  split
  case isTrue => exact h'
  case isFalse hok =>
    obtain ⟨data, hd, _⟩ := hv <| Decidable.not_not.mp hok
    refine wp_rename h' (fun entry he => ?_) fun e => h'
    rw [hr.find_eq, hd] at he
    cases he
    exact h'.publish (ho.temporary ha) (ho.target ha)

theorem atomicMetadata {name : CString} {data : List UInt8} (h : Sound fs) (hv : Valid name)
    (hn : fs.find (normalName name) = some (.reg data)) :
    wp (env Sound) (atomicMetadata (normalName name)) (fun _ _ => Sound) s fs := by
  -- Up to the rename only the temporary file changes.
  have sound {fs'} : Kept Temporary fs fs' → Sound fs' := h.kept
  simp only [Userfs.atomicMetadata, wp_bind]
  refine h.call metaTemp_temporary fun _ fs₁ hk => ?_
  refine wp_create (fun _ => sound) hk metaTemp_temporary metaTemp_temporary (fun file fs₂ hk ho _ => ?_)
    fun e => sound hk
  simp only [wp_bind, wp_ite, wp_pure]
  refine wp_append (fun _ => sound) hk ho fun r kept fs₃ hk _ ho hr _ => ?_
  split
  case isTrue =>
    refine call (sound hk) trivial fun _ fs₄ hk' => ?_
    exact call (sound <| hk.trans hk') metaTemp_temporary fun _ _ hk'' =>
      sound <| (hk.trans hk').trans hk''
  case isFalse hw =>
    have hr : kept = (normalName name).length := by
      cases r
      case error => exact absurd (fun hn => by cases hn) hw
      case ok n  => exact hr <| congrArg _ <| Option.some.inj <| Decidable.not_not.mp hw
    refine wp_mono (syncClose_closed (fun _ => sound) (fun _ => id) hk ho rfl) ?_
    rintro result s fs₄ ⟨rfl, hc⟩
    split
    case isTrue hok =>
      refine wp_rename (sound hc.kept) (fun entry he => ?_) fun e => sound hc.kept
      cases Option.some.inj <| he.symm.trans (hc.published hok)
      rw [hr, List.nil_append, List.take_length]
      exact (sound hc.kept).select hv <|
        (hc.kept.find _ <| visible_not_temporary hv.visible).trans hn
    case isFalse => exact sound hc.kept

theorem setStartup {name : Option CString} (h : Sound fs) :
    wp (env Sound) (setStartup name) (fun _ _ => Sound) s fs := by
  simp only [Userfs.setStartup, remember, wp_bind, wp_get, wp_ite, wp_pure, wp_modify]
  split
  case isTrue => exact h
  split
  case isTrue => exact h
  split
  case isTrue =>
    refine wp_remove h ?_ fun e _ => ?_
    case refine_1 => exact h.deselect
    case refine_2 => split <;> exact h
  split
  case isTrue => exact h
  case isFalse hv =>
  rcases name with _ | name
  · exact absurd rfl hv
  replace hv : Valid name := validName_iff.mp <| by simpa using hv
  refine wp_stat h (fun entry he => ?_) fun e => h
  cases entry
  case dir      => exact h
  case reg data =>
    simp only [Entry.info, ne_eq, not_true_eq_false, if_false, wp_bind, wp_pure, wp_modify]
    exact h.atomicMetadata hv he

theorem remove_refused {name : Option CString} (h : Sound fs)
    (hn : ¬(s.state = .mounted ∧ s.upload.active = false ∧ validName name false)) :
    wp (env Sound) (Userfs.remove name) (fun _ _ => Sound) s fs := by
  simp only [Userfs.remove, remember, wp_bind, wp_get, wp_ite, wp_pure, wp_modify]
  split
  · exact h
  split
  · exact h
  split
  · exact h
  refine absurd ?_ hn
  simp_all

-- A file other than the selected one.
theorem remove_unselected {name : Option CString} (h : Sound fs)
    (hn : normalName (name.getD []) ∉ selection fs) :
    wp (env Sound) (Userfs.remove name) (fun _ _ => Sound) s fs := by
  simp only [Userfs.remove, remember, wp_bind, wp_get, wp_ite, wp_pure, wp_modify]
  split
  · exact h
  split
  · exact h
  split
  · exact h
  have sound {fs'} (hr : Reads fs fs') : Sound fs' := h.kept <| hr.kept <| .refl h.wf
  refine wp_mono (getStartup_reads (fun _ => sound) h.wf) ?_
  rintro ⟨result, startup⟩ s' fs' ⟨-, hr⟩
  have h' := sound hr
  have hn' : normalName (name.getD []) ∉ selection fs' := selection_congr (hr.find_eq _) ▸ hn
  split
  case isFalse => exact wp_remove h' (h'.remove hn') fun _ _ => h'
  refine wp_remove h' ?_ fun e he => ?_
  case refine_1 =>
    have h'' := h'.deselect
    rw [wp_bind]
    refine wp_remove h'' (h''.remove ?_) fun _ _ => h''
    simp [selection, Fs.find]
  case refine_2 =>
    split
    case h_3 => exact h'
    all_goals
      rw [wp_bind]
      exact wp_remove h' (h'.remove hn') fun _ _ => h'

end Sound

-- Whether the removal of the selected file leaves the selection in place: what is selected can not
-- be found out, but the file is removed.
def unread : List Decision → Bool
  | opening :: next :: rest =>
    if opening.fails then
      !next.fails
    else
      next.fails && match rest with
        | _ :: last :: _ => !last.fails
        | _              => false
  | _                       => false

theorem unread_of_prefix {ds ds' : List Decision} (hp : ds <+: ds') (h : unread ds) : unread ds' := by
  obtain ⟨rest, rfl⟩ := hp
  rcases ds with _ | ⟨opening, _ | ⟨next, _ | ⟨_, _ | ⟨last, _⟩⟩⟩⟩
  case nil | cons.nil => cases h
  case cons.cons.cons.cons => exact h
  all_goals
    simp only [unread, List.cons_append, List.nil_append, Bool.and_false] at h ⊢
    split at h
    case isTrue hf => simp [hf, h]
    case isFalse   => cases h

-- As long as the decisions that were taken do not add up to that.
def soundUnless : Env Userfs.Call Userfs.Call.Reply (Fs × List Decision) Decision where
  handler          := Handler.logged handler
  admits _         := True
  call _ x         := unread x.snd ∨ Sound x.fst
  hung x           := unread x.snd ∨ Sound x.fst

namespace Sound

variable {fs fs' : Fs} {s : Ram} {fuel : Nat} {ds : List Decision}

theorem wp_logged {c : Lfs.Call} {Q : c.Reply → Ram → Fs × List Decision → Prop}
    (h : unread ds ∨ Sound fs) (hc : ∀ file buffer, c ≠ .fileWrite file buffer)
    (hok : ∀ d r, d.fails = false →
      Q (fs.perform c r).fst s ((fs.perform c r).snd, ds ++ [d]))
    (hfail : ∀ d e kept, d.fails → e ≠ .noent → Q (.error e) s (fs.fail kept c, ds ++ [d])) :
    wp soundUnless (lfs c) Q s (fs, ds) := by
  refine ⟨h, fun d _ => ?_⟩
  simp only [soundUnless, Handler.logged, Lfs.handler, Fs.answer]
  split
  case h_1 hd => exact hok d _ (by rw [Decision.fails, hd])
  case h_2 hd => exact hfail d _ _ (by rw [Decision.fails, hd]) ‹_›
  case h_3 hd =>
    have hd : d.fails = false := by rw [Decision.fails, hd]
    cases c
    case fileWrite file buffer => exact absurd rfl (hc file buffer)
    all_goals exact hok d (d.answer (.lfs _)) hd

theorem call_logged {c : Lfs.Call} {Q : c.Reply → Ram → Fs × List Decision → Prop} (h : Sound fs)
    (hc : Confined Temporary (.lfs c))
    (hq : ∀ d r fs', Kept Temporary fs fs' → Q r s (fs', ds ++ [d])) :
    wp soundUnless (lfs c) Q s (fs, ds) :=
  ⟨.inr h, fun _ _ => hq _ _ _ <| (Kept.refl h.wf).handler (fun _ => id) hc⟩

-- When the selection can not be found out, removing another file next may be a mistake.
theorem getStartup_logged {name : CString} (h : Sound fs) (hs : name ∈ selection fs)
    (hm : s.state = .mounted) :
    wp soundUnless (getStartup true (nameMax + 1)) (fun r _ x => Sound x.fst ∧
      (r.fst = .ok → r.snd = some name) ∧
      (r.fst ≠ .ok → ∀ d : Decision, d.fails = false → unread (x.snd ++ [d]))) s (fs, []) := by
  obtain ⟨data, hd, hn, hv⟩ := startupFile_of_selection hs
  simp only [getStartup, fileOpen, remember, wp_bind, wp_get, wp_ite, wp_pure, wp_modify]
  rw [if_neg (by simp [hm]), if_neg (by decide)]
  refine wp_logged (.inr h) (by rintro _ _ ⟨⟩) (fun d₀ _ hd₀ => ?_) (fun d₀ e _ hd₀ _ => ?_)
  case refine_2 =>
    refine ⟨h, fun he => absurd he (fromError_ne_ok e), fun _ d hd => ?_⟩
    simp [unread, hd₀, hd]
  simp only [Fs.perform, hd, wp_bind]
  have h₁ := h.kept <| (Kept.refl h.wf).opening (o := ⟨startupFile, false, data, 0⟩) (fun hn => by cases hn)
  refine wp_logged (.inr h₁) (by rintro _ _ ⟨⟩) (fun d₁ _ hd₁ => ?_) (fun d₁ e _ hd₁ _ => ?_)
  case refine_2 =>
    refine call_logged h₁ trivial fun d₂ _ fs₂ hk => ?_
    refine ⟨h₁.kept hk, fun he => absurd he (fromError_ne_ok e), fun _ d hd => ?_⟩
    simp [unread, hd₀, hd₁, hd]
  simp only [Fs.perform, Fs.opened_update, List.drop_zero, Nat.add_sub_cancel, hn, hv]
  have h₂ (o : OpenFile) (hn : o.name = startupFile) (hw : o.writable = false) :=
    h₁.kept <| (Kept.refl h₁.wf).update Fs.opened_update hn hw
  refine call_logged (h₂ _ rfl rfl) trivial fun _ _ _ hk => ?_
  exact ⟨(h₂ _ rfl rfl).kept hk, fun _ => rfl, fun he => absurd rfl he⟩

theorem remove_selected {name : Option CString} (h : Sound fs)
    (hs : normalName (name.getD []) ∈ selection fs) :
    wp soundUnless (Userfs.remove name) (fun _ _ x => unread x.snd ∨ Sound x.fst) s (fs, []) := by
  simp only [Userfs.remove, remember, wp_bind, wp_get, wp_ite, wp_pure, wp_modify]
  split
  case isTrue => exact .inr h
  case isFalse hm =>
  split
  · exact .inr h
  split
  · exact .inr h
  refine wp_mono (getStartup_logged h hs <| Decidable.not_not.mp hm) ?_
  rintro ⟨result, startup⟩ s ⟨fs, ds⟩ ⟨h, hok, hun⟩
  split
  case isFalse hn =>
    have hr : result ≠ .ok := fun he => hn ⟨he, by rw [hok he]; rfl⟩
    refine wp_logged (.inr h) (by rintro _ _ ⟨⟩) (fun d _ hd => .inl (hun hr d hd)) fun _ _ _ _ _ => .inr h
  case isTrue =>
  have removed {s : Ram} {fs : Fs} {ds : List Decision} (h : Sound fs)
      (hs : normalName (name.getD []) ∉ selection fs) :
      wp soundUnless (lfs (.remove (normalName (name.getD []))))
        (fun _ _ x => unread x.snd ∨ Sound x.fst) s (fs, ds) := by
    refine wp_logged (.inr h) (by rintro _ _ ⟨⟩) (fun d r _ => ?_) fun _ _ _ _ _ => .inr h
    simp only [Fs.perform]
    split
    · exact .inr (h.remove hs)
    · exact .inr h
  refine wp_logged (.inr h) (by rintro _ _ ⟨⟩) (fun d _ _ => ?_) (fun d e _ _ he => ?_)
  case refine_1 =>
    simp only [Fs.perform]
    cases hf : fs.find startupFile
    case none =>
      rw [wp_bind]
      exact removed h (by simp [selection, hf])
    case some =>
      rw [wp_bind]
      exact removed h.deselect (by simp [selection, Fs.find])
  case refine_2 =>
    split
    case h_1    => contradiction
    case h_2 hn => exact absurd (Except.error.inj hn) he
    case h_3    => exact .inr h

-- All operations but the removal of a file.
theorem perform {op : Op} (h : Sound fs) (ho : s.Ok) (hr : ∀ name, op ≠ .remove name) :
    wp (env Sound) (op.perform fuel) (fun _ _ => Sound) s fs := by
  have confined {α} {ok} {p : Userfs.Task α} {Q : α → Ram → Prop} (hp : Ensures ok p Q s)
      (hc : ∀ c, ok c → Confined Temporary c) : wp (env Sound) p (fun _ _ => Sound) s fs :=
    wp_mono (h.keeps hp fun c hok => .inl (hc c hok)) fun _ _ _ => And.right
  cases op
  case mount          => exact h.mount
  case unmount        => exact h.unmount ho
  case formatExplicit => exact h.formatExplicit ho
  case uploadCommit   => exact h.uploadCommit ho
  case setStartup     => exact h.setStartup
  case remove name    => exact absurd rfl (hr name)
  case uploadWrite    =>
    refine confined uploadWrite_spec ?_
    rintro _ rfl
    trivial
  case uploadAbort    => exact confined uploadAbort_spec fun _ => ho.abort_confined
  all_goals rw [Op.perform, wp_map]
  case getStatus   => exact confined getStatus_tidy fun _ => confined_of_tidy
  case list        => exact confined list_tidy fun _ => confined_of_tidy
  case stat        => exact confined stat_frame (by rintro _ ⟨_⟩; trivial)
  case read        => exact confined read_frame (by rintro _ (_ | _ | _ | _) <;> trivial)
  case getStartup  => exact confined getStartup_frame (by rintro _ (_ | _ | _) <;> trivial)
  case uploadBegin =>
    refine confined uploadBegin_spec ?_
    rintro _ (_ | _)
    · exact temporaryName_temporary _
    · exact ⟨temporaryName_temporary _, temporaryName_temporary _⟩

end Sound

-- The operation removes the selected file, although the selection could not be found out.
def Op.Dangles : Op → List Decision → Ram → Fs → Prop
  | .remove name, ds, s, fs =>
    s.state = .mounted ∧ s.upload.active = false ∧ validName name false ∧
      selection fs = some (normalName (name.getD [])) ∧ unread ds
  | _,            _,  _, _  => False

instance (ds : List Decision) (s : Ram) (fs : Fs) : (op : Op) → Decidable (op.Dangles ds s fs)
  | .remove _ => inferInstanceAs (Decidable (_ ∧ _))
  | .mount | .unmount | .formatExplicit | .getStatus | .list _ | .stat _ _ | .read _ _ _ _ _
  | .uploadBegin _ _ _ _ | .uploadWrite _ _ _ | .uploadCommit _ | .uploadAbort _ | .setStartup _
  | .getStartup _ _ => .isFalse id

variable {fuel : Nat} {es : List (Op × Option Result)} {s : Ram} {fs₀ fs : Fs}

theorem Sound.meets {op : Op} {ds : List Decision} (h : Sound fs) (ho : s.Ok)
    (hd : ¬op.Dangles ds s fs) :
    ((op.perform fuel).run Lfs.handler s ds fs).Meets (env Sound) fun a fs => a.snd.Ok ∧ Sound fs := by
  have hds : ∀ d ∈ ds, (env Sound).admits d := fun _ _ => trivial
  have of_wp (hp : wp (env Sound) (op.perform fuel) (fun _ _ => Sound) s fs) :=
    run_meets hds <| ho.perform.and_wp hp
  by_cases hr : ∀ name, op ≠ .remove name
  case pos => exact of_wp <| h.perform ho hr
  case neg =>
  obtain ⟨name, hr⟩ := not_forall_not.mp hr
  subst hr
  by_cases hn : s.state = .mounted ∧ s.upload.active = false ∧ validName name false
  case neg => exact of_wp <| h.remove_refused hn
  by_cases hs : normalName (name.getD []) ∈ selection fs
  case neg => exact of_wp <| h.remove_unselected hs
  have hu {used} (hp : used <+: ds) : ¬unread used :=
    fun hu => hd ⟨hn.left, hn.right.left, hn.right.right, hs, unread_of_prefix hp hu⟩
  have of_remove := Ensures.and_wp (@Ram.Ok.perform s fuel (.remove name) ho) (h.remove_selected hs)
  refine run_meets_logged (E := soundUnless) (F := env Sound) (P := fun _ s fs => s.Ok ∧ Sound fs)
    rfl (fun _ _ => trivial) of_remove ?_ ?_ ?_
  · exact fun _ _ _ _ hp ⟨ho, h⟩ => ⟨ho, h.resolve_left (hu hp)⟩
  · exact fun _ _ _ hp h => h.resolve_left (hu hp)
  · exact fun _ _ hp h => h.resolve_left (hu hp)

theorem sound_of_run (r : Run Lfs.handler (Op.perform fuel) (some .zero)
    (fun op ds s fs => ¬op.Dangles ds s fs) .zero fs₀ es s fs) (h : Sound fs₀) : s.Ok ∧ Sound fs := by
  refine r.invariant (fun _ s fs => s.Ok ∧ Sound fs) ⟨.zero, h⟩ ?_
  intro es s fs op ds hd ⟨ho, h⟩
  have hm : ((op.perform fuel).run _ s ds fs).Meets _ _ := h.meets ho hd
  revert hm
  cases (op.perform fuel).run Lfs.handler s ds fs
  case done => exact id
  all_goals rintro hm _ ⟨⟩
  case cut  => exact ⟨.zero, hm.choose_spec⟩
  case hung => exact ⟨.zero, hm⟩

-- As long as no selected file is removed while the selection can not be read, the selection is the
-- name of a file. A run can end with an operation that the power loss cut short.
theorem startup_selected (r : Run Lfs.handler (Op.perform fuel) (some .zero)
    (fun op ds s fs => ¬op.Dangles ds s fs) .zero fs₀ es s fs) (h : Sound fs₀) : Selected fs :=
  (sound_of_run r h).right.selected

theorem empty_sound : Sound Fs.empty :=
  .of_deselected nofun rfl

-- A file is uploaded and selected.
def selecting : List (Op × List Decision) := [
  (.mount, .replicate 8 .passes),
  (.uploadBegin (some (ascii "a")) 0 0 true, .replicate 2 .passes),
  (.uploadCommit 1, .replicate 6 .passes),
  (.setStartup (some (ascii "a")), .replicate 7 .passes)
]

-- When the file is then removed, so is the selection.
theorem startup_selected_remove :
    ∃ es s fs, Run Lfs.handler (Op.perform 4) (some .zero)
      (fun op ds s fs => ¬op.Dangles ds s fs) .zero Fs.empty es s fs ∧
      es.length = 5 ∧ fs.find (ascii "a") = none ∧ Selected fs :=
  have ⟨es, s, fs, r, hl, hf⟩ := exists_run
    (P := fun es _ fs => es.length = 5 ∧ fs.find (ascii "a") = none)
    (selecting ++ [(.remove (some (ascii "a")), .replicate 5 .passes)]) (by decide)
  ⟨es, s, fs, r, hl, hf, startup_selected r empty_sound⟩

-- When `.startup` can not be opened, the file is removed all the same.
theorem startup_dangles :
    ∃ es s fs, Run Lfs.handler (Op.perform 4) (some .zero) (fun _ _ _ _ => True) .zero Fs.empty es s fs ∧
      ¬Selected fs :=
  have ⟨es, s, fs, r, hs, hf⟩ := exists_run
    (P := fun _ _ fs => selection fs = some (ascii "a") ∧ fs.find (ascii "a") = none)
    (selecting ++ [(.remove (some (ascii "a")), [.breaks, .passes])]) (by decide)
  ⟨es, s, fs, r, fun h => by
    have ⟨_, hd⟩ := h _ hs
    cases hf.symm.trans hd⟩

end Userfs
