import HackyLens.Lib.Observer
import HackyLens.Storage.Theorems.Invariant

-- Which names are handed to littlefs.

namespace Userfs

open Prog Lfs

-- The name of a file of the user. There is no slash and no zero in it, and no dot in front.
structure Visible (name : CString) : Prop where
  ne_nil : name ≠ []
  length_le : name.length ≤ nameMax
  not_hidden : ¬Hidden name
  chars : ∀ c ∈ name, nameChar c

theorem visible_of_validName {name : Option CString} (h : validName name false) :
    Visible (normalName (name.getD [])) := by
  cases name
  case none => contradiction
  case some name =>
    obtain ⟨hn, hl, hh, hc⟩ := validName_iff.mp h
    exact ⟨hn, hl, hh, hc⟩

-- Only the root is listed. Other than the files of the user there are those of uploads, the startup
-- selection and what is written in place of it. None of them is looked up or replaced by an upload.
def Proper : Userfs.Call → Prop
  | .lfs (.dirOpen path)                      => path = ascii "/"
  | .lfs (.stat path)                         => Visible path
  | .lfs (.fileOpencfg path .rdonly)          =>
    Visible path ∨ path = startupFile ∨ ∃ id, path = temporaryName id
  | .lfs (.fileOpencfg path .wronlyCreatExcl) => path = metaTemp ∨ ∃ id, path = temporaryName id
  | .lfs (.remove path)                       => Visible path ∨ path = startupFile ∨ Temporary path
  | .lfs (.rename oldpath newpath)            =>
    (∃ id, oldpath = temporaryName id) ∧ Visible newpath ∨
      oldpath = metaTemp ∧ newpath = startupFile
  | _                                         => True

-- What the record of an upload holds that the calls take from it.
structure Upload.Sound (upload : Upload) : Prop where
  temporary : upload.active → ∃ id, upload.temporary = temporaryName id
  target : upload.active → Visible upload.target

theorem Upload.Sound.zero : Upload.zero.Sound :=
  ⟨(fun h => by cases h), (fun h => by cases h)⟩

section Calls

variable {name : Option CString} {c : Userfs.Call}

theorem StatCalls.proper : StatCalls name c → Proper c
  | .stat h => visible_of_validName h

theorem ReadCalls.proper : ReadCalls name c → Proper c
  | .open h                => .inl (visible_of_validName h)
  | .seek | .read | .close => trivial

theorem GetStartupCalls.proper : GetStartupCalls c → Proper c
  | .open          => .inr (.inl rfl)
  | .read | .close => trivial

theorem RemoveCalls.proper : RemoveCalls name c → Proper c
  | .startup h  => h.proper
  | .deselect _ => .inr (.inl rfl)
  | .remove h   => .inl (visible_of_validName h)

theorem SetStartupCalls.proper : SetStartupCalls name c → Proper c
  | .clear _                       => .inr (.inl rfl)
  | .stat h                        => visible_of_validName h
  | .cleanup _                     => .inr (.inr metaTemp_temporary)
  | .open _                        => .inl rfl
  | .write _ | .sync _ | .close _  => trivial
  | .rename _                      => .inr ⟨rfl, rfl⟩

theorem BeginCalls.proper : BeginCalls c → Proper c
  | .cleanup => .inr (.inr (temporaryName_temporary _))
  | .open    => .inr ⟨_, rfl⟩

theorem CloseCalls.proper {file : File} : CloseCalls file c → Proper c
  | .sync | .close => trivial

theorem AbortCalls.proper {upload : Upload} (h : upload.Sound) : AbortCalls upload c → Proper c
  | .close _  => trivial
  | .remove a => by
    obtain ⟨id, ht⟩ := h.temporary a
    exact .inr (.inr (ht ▸ temporaryName_temporary id))

theorem UnmountCalls.proper {upload : Upload} (h : upload.Sound) : UnmountCalls upload c → Proper c
  | .abort hc => hc.proper h
  | .unmount  => trivial

end Calls

-- Programs that only make proper calls, and that keep the record of the upload sound.
abbrev Tame {α : Type} (p : Userfs.Task α) : Prop :=
  Keeps (.any Call.Reply Proper) (fun s _ => s.upload.Sound) p

section Tame

variable {α : Type} {fuel : Nat}

theorem keeps_lfs {J : Ram → Unit → Prop} {c : Lfs.Call} (hc : Proper (.lfs c)) :
    Keeps (.any Call.Reply Proper) J (lfs c) :=
  fun _ _ h => ⟨hc, fun _ _ => h⟩

theorem tame_flash {c : InternalFlash.Call} : Tame (flash c) :=
  fun _ _ h => ⟨trivial, fun _ _ => h⟩

theorem tame_remember {result : Result} : Tame (remember result) :=
  .bind (.modify fun _ _ h => h) fun _ => .pure

theorem tame_setState {state : State} : Tame (setState state) :=
  .modify fun _ _ h => h

theorem tame_failed {state : State} {result : Result} :
    Tame (do setState state; remember result) :=
  .bind tame_setState fun _ => tame_remember

-- What makes calls that are known and leaves the upload alone.
theorem tame_frame {ok : Userfs.Call → Prop} {p : Userfs.Task α} (hc : ∀ c, ok c → Proper c)
    (hp : ∀ s, Ensures ok p (fun _ => Frame s) s) : Tame p :=
  fun s _ h => wp_mono ((hp s).weaken hc) fun _ _ _ hf => hf.upload_eq ▸ h

theorem tame_findStale : Tame (findStale fuel) := by
  refine .loop (fun _ _ _ => trivial) fun _ => .bind (keeps_lfs trivial) fun entry => ?_
  split
  case h_1 => exact .ite (fun _ => .pure) fun _ => .pure
  all_goals exact .pure

theorem tame_cleanupUploads : Tame (cleanupUploads fuel) := by
  refine .loop (fun _ _ _ => trivial) fun _ => .bind (keeps_lfs rfl) fun opened => ?_
  cases opened
  case error => exact .pure
  case ok    =>
  intro s w h
  refine wp_seq (findStale_tidy.and_wp (tame_findStale s w h)) ?_
  rintro stale s _ ⟨⟨rfl, ht⟩, h⟩
  refine Keeps.bind (keeps_lfs (c := .dirClose) trivial)
    (fun _ => .ite (fun _ => .pure) fun hs => ?_) s _ h
  have hp : Proper (.lfs (.remove stale)) := .inr (.inr (ht hs))
  refine .bind (keeps_lfs hp) fun removed => ?_
  cases removed <;> exact .pure

theorem tame_readyFlash {again : Bool} : Tame (readyFlash again) := by
  refine .bind tame_flash fun info => .ite (fun _ => .pure) fun _ => .bind tame_flash fun ok => ?_
  refine .ite (fun _ => .pure) fun _ => .ite (fun _ => ?_) fun _ => .pure
  exact .bind tame_flash fun _ => .pure

theorem tame_blankMedia : Tame blankMedia := by
  intro s w h
  refine wp_allM (E := .any _ _) (fun (s : Ram) _ => s.upload.Sound) ?_ h
  intro _ s w h
  refine Keeps.bind tame_flash (fun data => ?_) s w h
  cases data <;> exact .pure

theorem tame_mount : Tame (mount fuel) := by
  refine .get fun s => .ite (fun _ => tame_remember) fun _ => .bind tame_readyFlash fun info => ?_
  cases info
  case none      => exact tame_failed
  case some info =>
  refine .bind tame_flash fun partition => ?_
  cases partition
  case none           => exact tame_failed
  case some partition =>
  refine .ite (fun _ => tame_failed) fun _ => .bind (.modify fun _ _ h => h) fun _ => ?_
  refine .bind (keeps_lfs trivial) fun mounted => ?_
  split
  case h_1 =>
    refine .bind tame_setState fun _ => .bind (.modify fun _ _ _ => .zero) fun _ => ?_
    exact .bind tame_cleanupUploads fun _ => tame_remember
  case h_2 =>
    exact .bind tame_blankMedia fun _ => .ite (fun _ => tame_failed) fun _ => tame_failed
  case h_3 => exact tame_failed

theorem tame_getStatus : Tame getStatus := by
  refine .get fun s => .ite (fun _ => ?_) fun _ => .bind .pure fun _ => .pure
  exact .bind (keeps_lfs trivial) fun _ => .pure

theorem tame_list {κ : Type} {callback : Option (ListCallback κ)} {context : κ} :
    Tame (list fuel callback context) := by
  have answer {result : Result} {context : κ} :
      Tame (do return (← remember result, context) : Userfs.Task (Result × κ)) :=
    .bind tame_remember fun _ => .pure
  refine .get fun s => .ite (fun _ => answer) fun _ => .ite (fun _ => answer) fun _ => ?_
  cases callback
  case none          => exact answer
  case some callback =>
  refine .bind (keeps_lfs rfl) fun opened => ?_
  cases opened
  case error => exact answer
  case ok    =>
  refine .bind (.loop (fun _ _ _ => trivial) fun context => ?_) fun ⟨result, context⟩ => ?_
  · refine .bind (keeps_lfs trivial) fun entry => ?_
    split
    case h_3 => exact .ite (fun _ => .pure) fun _ => .pure
    all_goals exact .pure
  · exact .bind (keeps_lfs trivial) fun _ => answer

theorem tame_uploadAbort {id : UInt32} : Tame (uploadAbort id) := by
  intro s w h
  refine wp_mono (uploadAbort_spec.weaken fun _ hc => hc.proper h) ?_
  rintro r s' _ ⟨hc, hr⟩
  by_cases he : r = .ok
  case pos => exact (hc he).upload ▸ .zero
  case neg => exact (hr he).right.upload_eq ▸ h

theorem tame_unmount : Tame unmount := by
  intro s w h
  refine wp_mono (unmount_spec.weaken fun _ hc => hc.proper h) ?_
  rintro _ s' _ ⟨-, hu | ⟨hu, -⟩⟩
  · exact hu ▸ .zero
  · exact hu ▸ h

theorem tame_formatUnmounted : Tame (formatUnmounted fuel) := by
  refine .bind tame_readyFlash fun info => ?_
  cases info
  case none   => exact tame_failed
  case some _ =>
  refine .bind tame_flash fun partition => ?_
  cases partition
  case none           => exact tame_failed
  case some partition =>
  refine .ite (fun _ => tame_failed) fun _ => .bind (.modify fun _ _ h => h) fun _ => ?_
  refine .bind (keeps_lfs trivial) fun formatted => ?_
  cases formatted
  case error => exact tame_failed
  case ok    => exact .bind tame_setState fun _ => tame_mount

theorem tame_formatExplicit : Tame (formatExplicit fuel) :=
  .get fun _ => .ite (fun _ => .bind tame_unmount fun _ => tame_formatUnmounted)
    fun _ => tame_formatUnmounted

theorem tame_uploadBegin {name : Option CString} {size crc32 : UInt32} {uploadId : Bool} :
    Tame (uploadBegin name size crc32 uploadId) := by
  intro s w h
  refine wp_mono (uploadBegin_spec.weaken fun _ => BeginCalls.proper) ?_
  rintro r s' _ ⟨hb, hr⟩
  by_cases he : r.fst = .ok
  case pos =>
    obtain ⟨-, -, hb⟩ := hb he
    obtain ⟨file, hu⟩ := hb.upload
    have hv := visible_of_validName hb.valid
    rw [hu, List.take_of_length_le hv.length_le]
    exact ⟨fun _ => ⟨_, rfl⟩, fun _ => hv⟩
  case neg =>
    cases (hr he).upload
    case inl hu => exact hu ▸ h
    case inr hu => exact hu ▸ .zero

theorem tame_uploadWrite {id offset : UInt32} {buffer : Buffer} :
    Tame (uploadWrite id offset buffer) := by
  intro s w h
  refine wp_mono (uploadWrite_spec.weaken fun _ hc => by rw [hc]; trivial) ?_
  rintro r s' _ ⟨hw, hr⟩
  by_cases he : r = .ok
  case pos => exact (hw he).right.upload_eq ▸ ⟨h.temporary, h.target⟩
  case neg => exact (hr he).upload_eq ▸ h

theorem keeps_verifyUpload :
    Keeps (.any Call.Reply Proper) (fun s _ => ∃ id, s.upload.temporary = temporaryName id)
      (verifyUpload fuel) := by
  refine .inspect fun s w h => ?_
  have hp : Proper (.lfs (.fileOpencfg s.upload.temporary .rdonly)) := .inr (.inr h)
  refine Keeps.bind (keeps_lfs hp) (fun opened => ?_) s w h
  cases opened
  case error => exact .pure
  case ok    =>
  refine .bind (.loop (fun _ _ _ => trivial) fun ⟨crc, total⟩ => ?_) fun ⟨count, crc, total⟩ => ?_
  · refine .bind (keeps_lfs trivial) fun data => ?_
    cases data
    case error => exact .pure
    case ok    => exact .ite (fun _ => .pure) fun _ => .pure
  · refine .bind (keeps_lfs trivial) fun _ => ?_
    repeat' first
      | exact .pure
      | split

theorem tame_uploadCommit {id : UInt32} : Tame (uploadCommit fuel id) := by
  intro s w h
  have closed : ({ s.upload with fileOpen := false } : Upload).Sound := ⟨h.temporary, h.target⟩
  simp only [uploadCommit, remember, clearUpload, lfs, wp_bind, wp_get, wp_ite, wp_pure, wp_modify]
  split
  · exact h
  case isFalse hn =>
  split
  · exact h
  simp only [Bool.or_eq_true, Bool.not_eq_true', bne_iff_ne, not_or, Bool.not_eq_false, ne_eq,
    Decidable.not_not] at hn
  refine wp_mono (syncClose_eq.weaken fun _ => CloseCalls.proper) ?_
  rintro result s _ rfl
  split
  · exact closed
  refine wp_mono (verifyUpload_eq.and_wp (keeps_verifyUpload _ _ (h.temporary hn.left))) ?_
  rintro verify _ _ ⟨rfl, -⟩
  split
  · exact closed
  refine Ensures.call (.inl ⟨h.temporary hn.left, h.target hn.left⟩) fun r => ?_
  split
  case h_1 => exact closed
  case h_2 => exact .zero

theorem tame_perform {op : Op} : Tame (op.perform fuel) := by
  cases op
  case mount          => exact tame_mount
  case unmount        => exact tame_unmount
  case formatExplicit => exact tame_formatExplicit
  case uploadWrite    => exact tame_uploadWrite
  case uploadCommit   => exact tame_uploadCommit
  case uploadAbort    => exact tame_uploadAbort
  case remove         => exact tame_frame (fun _ => RemoveCalls.proper) fun _ => remove_frame
  case setStartup     =>
    exact tame_frame (fun _ => SetStartupCalls.proper) fun _ => setStartup_frame
  case getStatus      => exact .map tame_getStatus
  case list           => exact .map tame_list
  case stat           => exact .map (tame_frame (fun _ => StatCalls.proper) fun _ => stat_frame)
  case read           => exact .map (tame_frame (fun _ => ReadCalls.proper) fun _ => read_frame)
  case getStartup     =>
    exact .map (tame_frame (fun _ => GetStartupCalls.proper) fun _ => getStartup_frame)
  case uploadBegin    => exact .map tame_uploadBegin

end Tame

end Userfs
