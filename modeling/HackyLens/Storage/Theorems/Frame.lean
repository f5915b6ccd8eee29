import HackyLens.Storage.Userfs

-- What the functions of the user file system do to the static variables, whatever littlefs answers.

namespace Userfs

open Prog Lfs

-- Only the error that is remembered may differ.
def Frame (s s' : Ram) : Prop :=
  ∃ lastError, s' = { s with lastError }

namespace Frame

variable {s s' : Ram}

theorem refl (s : Ram) : Frame s s :=
  ⟨_, rfl⟩

theorem trans {s₁ s₂ s₃ : Ram} : Frame s₁ s₂ → Frame s₂ s₃ → Frame s₁ s₃
  | ⟨_, h₁⟩, ⟨e, h₂⟩ => ⟨e, by rw [h₂, h₁]⟩

theorem upload_eq : Frame s s' → s'.upload = s.upload
  | ⟨_, h⟩ => by rw [h]

theorem state_eq : Frame s s' → s'.state = s.state
  | ⟨_, h⟩ => by rw [h]

theorem nextUploadId_eq : Frame s s' → s'.nextUploadId = s.nextUploadId
  | ⟨_, h⟩ => by rw [h]

end Frame

@[simp]
theorem fromError_ne_ok (e : Lfs.Error) : fromError e ≠ .ok := by
  cases e <;> nofun

theorem fromLfs_eq_ok {α : Type} : {r : Except Lfs.Error α} → fromLfs r = .ok → r.isOk
  | .ok _,    _ => rfl
  | .error e, h => absurd h (fromError_ne_ok e)

-- The names of the files that a mount removes.
def Temporary (name : CString) : Prop :=
  uploadPrefix <+: name ∨ name = metaTemp

theorem Temporary.take {name : CString} (h : Temporary name) : Temporary (name.take nameMax) := by
  cases h
  case inl h => exact .inl <| List.prefix_take_iff.mpr ⟨h, by decide⟩
  case inr h => exact .inr <| by rw [h]; rfl

theorem Temporary.ne_nil {name : CString} : Temporary name → name ≠ []
  | .inl h, hn => by simp [hn, uploadPrefix, ascii] at h
  | .inr h, hn => by simp [hn, metaTemp, ascii] at h

theorem temporaryName_temporary (id : UInt32) : Temporary (temporaryName id) :=
  .inl <| List.prefix_append _ _

theorem metaTemp_temporary : Temporary metaTemp :=
  .inr rfl

-- The calls that neither open a file nor use one that is open.
def Idle : Call → Prop
  | .lfs (.fileOpencfg _ _) => False
  | .lfs c                  => c.file? = none
  | .flash _                => True

-- The calls of a function that has nothing to do with files, other than to remove temporary ones.
def Tidy : Call → Prop
  | .lfs .mount | .lfs .fsSize | .lfs (.stat _)              => True
  | .lfs (.dirOpen _) | .lfs .dirRead | .lfs .dirClose       => True
  | .lfs (.remove path)                                      => Temporary path
  | .lfs _                                                   => False
  | .flash _                                                 => True

theorem Tidy.idle {c : Call} (h : Tidy c) : Idle c := by
  cases c
  case flash => trivial
  case lfs c => cases c <;> first | rfl | cases h

variable {s : Ram}

theorem findStale_tidy {fuel : Nat} :
    Ensures Tidy (findStale fuel) (fun stale s' => s' = s ∧ (stale ≠ [] → Temporary stale)) s := by
  refine Ensures.loop (fun _ => (· = s)) ?_ rfl
  rintro _ _ rfl
  simp only [Ensures, lfs, wp_bind]
  refine Ensures.call trivial fun r => ?_
  split
  case h_1 info =>
    split
    case isTrue ht => exact ⟨rfl, fun _ => Temporary.take ht⟩
    case isFalse   => rfl
  all_goals exact ⟨rfl, fun h => absurd rfl h⟩

theorem cleanupUploads_tidy {fuel : Nat} :
    Ensures Tidy (cleanupUploads fuel) (fun _ => (· = s)) s := by
  refine Ensures.loop_eq fun _ => ?_
  simp only [Ensures, lfs, wp_bind]
  refine Ensures.call trivial fun r => ?_
  split
  case h_1 => rfl
  refine wp_seq findStale_tidy ?_
  rintro stale _ _ ⟨rfl, ht⟩
  rw [wp_bind]
  refine Ensures.call trivial fun _ => ?_
  split
  case isTrue => rfl
  case isFalse hs =>
    rw [wp_bind]
    refine Ensures.call (ht hs) fun r => ?_
    split <;> rfl

theorem blankMedia_tidy : Ensures Tidy blankMedia (fun _ => (· = s)) s := by
  refine wp_allM (E := .any _ _) (fun s' _ => s' = s) ?_ rfl
  intro _ s _ h
  simp only [flash, wp_bind]
  refine Ensures.call trivial fun r => ?_
  split <;> exact h

-- A mount leaves the upload alone or clears it.
structure Remount (s s' : Ram) : Prop where
  upload : s'.upload = s.upload ∨ s'.upload = .zero
  nextUploadId_eq : s'.nextUploadId = s.nextUploadId

theorem readyFlash_tidy {again : Bool} : Ensures Tidy (readyFlash again) (fun _ => (· = s)) s := by
  simp only [Ensures, readyFlash, flash, wp_bind, wp_ite, wp_pure]
  refine Ensures.call trivial fun info => ?_
  split
  case isTrue => rfl
  refine Ensures.call trivial fun ok => ?_
  split
  case isTrue => rfl
  split
  case isTrue  => exact Ensures.call trivial fun _ => rfl
  case isFalse => rfl

theorem mount_tidy {fuel : Nat} (h : s.state ≠ .mounted) :
    Ensures Tidy (mount fuel) (fun _ => Remount s) s := by
  simp only [Ensures, mount, remember, setState, configure, clearUpload, lfs, flash, wp_bind, wp_get]
  rw [if_neg h, wp_bind]
  have kept (s' : Ram) (hu : s'.upload = s.upload) (hn : s'.nextUploadId = s.nextUploadId) :
      Remount s s' :=
    ⟨.inl hu, hn⟩
  refine wp_mono readyFlash_tidy ?_
  rintro info _ _ rfl
  split
  case h_2 => exact kept _ rfl rfl
  rw [wp_bind]
  refine Ensures.call trivial fun partition => ?_
  split
  case h_2 => exact kept _ rfl rfl
  simp only [wp_ite, wp_bind, wp_pure, wp_modify]
  split
  · exact kept _ rfl rfl
  refine Ensures.call trivial fun r => ?_
  split
  case h_1 =>
    simp only [wp_bind, wp_pure, wp_modify]
    refine wp_mono cleanupUploads_tidy ?_
    rintro _ _ _ rfl
    exact ⟨.inr rfl, rfl⟩
  case h_2 =>
    rw [wp_bind]
    refine wp_mono blankMedia_tidy ?_
    rintro blank _ _ rfl
    split <;> exact kept _ rfl rfl
  case h_3 => exact kept _ rfl rfl

theorem mount_mounted {fuel : Nat} (h : s.state = .mounted) :
    Ensures (fun _ => False) (mount fuel) (fun _ => Frame s) s := by
  simp only [Ensures, mount, remember, wp_bind, wp_get]
  rw [if_pos h]
  exact ⟨_, rfl⟩

theorem getStatus_tidy : Ensures Tidy getStatus (fun _ => (· = s)) s := by
  simp only [Ensures, getStatus, lfs, wp_bind, wp_get]
  split
  case isTrue  => exact ⟨trivial, fun _ _ => rfl⟩
  case isFalse => rfl

theorem list_tidy {κ : Type} {fuel : Nat} {callback : Option (ListCallback κ)} {context : κ} :
    Ensures Tidy (list fuel callback context) (fun _ => Frame s) s := by
  simp only [Ensures, list, remember, lfs, wp_bind, wp_get]
  split
  · exact ⟨_, rfl⟩
  split
  · exact ⟨_, rfl⟩
  split
  case h_2 => exact ⟨_, rfl⟩
  simp only [wp_bind]
  refine Ensures.call trivial fun r => ?_
  split
  case h_1 => exact ⟨_, rfl⟩
  refine Ensures.seq (P := fun _ => (· = s)) (Ensures.loop_eq fun context => ?_) ?_
  case refine_1 =>
    rw [Ensures, wp_bind]
    refine Ensures.call trivial fun r => ?_
    repeat' first
      | rfl
      | split
  case refine_2 =>
    rintro ⟨result, context⟩ _ rfl
    rw [Ensures, wp_bind]
    exact Ensures.call trivial fun _ => ⟨_, rfl⟩

-- The calls of the functions that take the name of a file.
inductive StatCalls (name : Option CString) : Call → Prop
  | stat : validName name false → StatCalls name (.lfs (.stat (normalName (name.getD []))))

inductive ReadCalls (name : Option CString) : Call → Prop
  | open : validName name false →
    ReadCalls name (.lfs (.fileOpencfg (normalName (name.getD [])) .rdonly))
  | seek {file off} : ReadCalls name (.lfs (.fileSeek file off))
  | read {file size} : ReadCalls name (.lfs (.fileRead file size))
  | close {file} : ReadCalls name (.lfs (.fileClose file))

inductive GetStartupCalls : Call → Prop
  | open : GetStartupCalls (.lfs (.fileOpencfg startupFile .rdonly))
  | read {file size} : GetStartupCalls (.lfs (.fileRead file size))
  | close {file} : GetStartupCalls (.lfs (.fileClose file))

inductive RemoveCalls (name : Option CString) : Call → Prop
  | startup {c} : GetStartupCalls c → RemoveCalls name c
  | deselect : validName name false → RemoveCalls name (.lfs (.remove startupFile))
  | remove : validName name false → RemoveCalls name (.lfs (.remove (normalName (name.getD []))))

inductive SetStartupCalls (name : Option CString) : Call → Prop
  | clear : name.getD [] = [] → SetStartupCalls name (.lfs (.remove startupFile))
  | stat : validName name false → SetStartupCalls name (.lfs (.stat (normalName (name.getD []))))
  | cleanup : validName name false → SetStartupCalls name (.lfs (.remove metaTemp))
  | open : validName name false →
    SetStartupCalls name (.lfs (.fileOpencfg metaTemp .wronlyCreatExcl))
  | write {file} : validName name false →
    SetStartupCalls name (.lfs (.fileWrite file (normalName (name.getD []))))
  | sync {file} : validName name false → SetStartupCalls name (.lfs (.fileSync file))
  | close {file} : validName name false → SetStartupCalls name (.lfs (.fileClose file))
  | rename : validName name false → SetStartupCalls name (.lfs (.rename metaTemp startupFile))

theorem stat_frame {name : Option CString} {size : Bool} :
    Ensures (StatCalls name) (stat name size) (fun _ => Frame s) s := by
  simp only [Ensures, stat, remember, lfs, wp_bind, wp_get]
  split
  · exact ⟨_, rfl⟩
  split
  · exact ⟨_, rfl⟩
  case isFalse hn =>
  simp at hn
  rw [wp_bind]
  refine Ensures.call (.stat hn.right) fun r => ?_
  repeat' first
    | exact ⟨_, rfl⟩
    | split

theorem read_frame {name : Option CString} {offset : UInt32} {data : Bool} {capacity : Nat}
    {readSize : Bool} :
    Ensures (ReadCalls name) (read name offset data capacity readSize) (fun _ => Frame s) s := by
  simp only [Ensures, read, remember, fileOpen, lfs, wp_bind, wp_get]
  split
  · exact ⟨_, rfl⟩
  split
  · exact ⟨_, rfl⟩
  split
  · exact ⟨_, rfl⟩
  case isFalse hn =>
  simp at hn
  rw [wp_bind]
  refine Ensures.call (.open hn.right) fun r => ?_
  repeat' first
    | exact ⟨_, rfl⟩
    | split
    | refine Ensures.call (by constructor) fun _ => ?_
    | rw [wp_bind]
    | rw [wp_pure]

theorem getStartup_frame {name : Bool} {capacity : Nat} :
    Ensures GetStartupCalls (getStartup name capacity) (fun _ => Frame s) s := by
  simp only [Ensures, getStartup, remember, fileOpen, lfs, wp_bind, wp_get]
  repeat' first
    | exact ⟨_, rfl⟩
    | split
    | refine Ensures.call (by constructor) fun _ => ?_
    | rw [wp_bind]

theorem remove_frame {name : Option CString} :
    Ensures (RemoveCalls name) (remove name) (fun _ => Frame s) s := by
  simp only [Ensures, remove, remember, lfs, wp_bind, wp_get]
  split
  · exact ⟨_, rfl⟩
  split
  · exact ⟨_, rfl⟩
  split
  · exact ⟨_, rfl⟩
  case isFalse hn =>
  simp at hn
  refine wp_seq (getStartup_frame.weaken fun _ => .startup) ?_
  rintro r _ _ ⟨_, rfl⟩
  split
  case isTrue =>
    rw [wp_bind]
    refine Ensures.call (.deselect hn) fun r => ?_
    split
    case h_3 => exact ⟨_, rfl⟩
    all_goals
      rw [wp_bind]
      exact Ensures.call (.remove hn) fun _ => ⟨_, rfl⟩
  case isFalse =>
    rw [wp_bind]
    exact Ensures.call (.remove hn) fun _ => ⟨_, rfl⟩

theorem verifyUpload_eq {fuel : Nat} :
    Ensures (fun _ => True) (verifyUpload fuel) (fun _ => (· = s)) s := by
  simp only [Ensures, verifyUpload, fileOpen, lfs, wp_bind, wp_get]
  refine Ensures.call trivial fun r => ?_
  split
  case h_1 => rfl
  refine Ensures.seq (P := fun _ => (· = s)) (Ensures.loop_eq fun ⟨crc, total⟩ => ?_) ?_
  case refine_1 =>
    rw [Ensures, wp_bind]
    refine Ensures.call trivial fun r => ?_
    split
    case h_1 => rfl
    case h_2 => split <;> rfl
  case refine_2 =>
    rintro ⟨count, crc, total⟩ _ rfl
    rw [Ensures, wp_bind]
    refine Ensures.call trivial fun _ => ?_
    repeat' first
      | rfl
      | split

theorem setStartup_frame {name : Option CString} :
    Ensures (SetStartupCalls name) (setStartup name) (fun _ => Frame s) s := by
  simp only [Ensures, setStartup, atomicMetadata, syncClose, remember, fileOpen, lfs, wp_bind,
    wp_get]
  split
  · exact ⟨_, rfl⟩
  split
  · exact ⟨_, rfl⟩
  split
  case isTrue hn =>
    rw [wp_bind]
    refine Ensures.call (.clear hn) fun r => ?_
    split <;> exact ⟨_, rfl⟩
  split
  case isTrue => exact ⟨_, rfl⟩
  case isFalse hn =>
  simp at hn
  repeat' first
    | exact ⟨_, rfl⟩
    | split
    | refine Ensures.call (by constructor; exact hn) fun _ => ?_
    | rw [wp_bind]
    | rw [wp_pure]

-- The static variables after an upload was begun.
structure Begun (name : Option CString) (size crc32 : UInt32) (s s' : Ram) : Prop where
  valid : validName name false
  size_le : size ≤ fileMax
  upload : ∃ file, s'.upload =
    ⟨true, true, s.nextId, size, crc32, 0, (normalName (name.getD [])).take nameMax,
      temporaryName s.nextId, file⟩
  mounted : s.state = .mounted
  state_eq : s'.state = s.state
  nextUploadId_eq : s'.nextUploadId = s.nextId

-- After an upload could not be begun. Its number may be used up.
structure Refused (s s' : Ram) : Prop where
  frame : s.upload.active → Frame s s'
  upload : s'.upload = s.upload ∨ s'.upload = .zero
  state_eq : s'.state = s.state

theorem Frame.refused {s s' : Ram} (h : Frame s s') : Refused s s' where
  frame _  := h
  upload   := .inl h.upload_eq
  state_eq := h.state_eq

inductive BeginCalls : Call → Prop
  | cleanup {id} : BeginCalls (.lfs (.remove (temporaryName id)))
  | open {id} : BeginCalls (.lfs (.fileOpencfg (temporaryName id) .wronlyCreatExcl))

theorem uploadBegin_spec {name : Option CString} {size crc32 : UInt32} {uploadId : Bool} :
    Ensures BeginCalls (uploadBegin name size crc32 uploadId) (fun r s' =>
      (r.fst = .ok → s.upload.active = false ∧ r.snd = some s.nextId ∧ Begun name size crc32 s s') ∧
        (r.fst ≠ .ok → Refused s s')) s := by
  simp only [Ensures, uploadBegin, remember, clearUpload, fileOpen, lfs, wp_bind, wp_get, wp_ite,
    wp_pure, wp_modify]
  split
  · exact ⟨nofun, fun _ => Frame.refused ⟨_, rfl⟩⟩
  case isFalse hs =>
  split
  · exact ⟨nofun, fun _ => Frame.refused ⟨_, rfl⟩⟩
  case isFalse ha =>
  split
  · exact ⟨nofun, fun _ => Frame.refused ⟨_, rfl⟩⟩
  case isFalse hv =>
  simp only [Bool.or_eq_true, Bool.not_eq_true', decide_eq_true_eq, not_or, Bool.not_eq_false,
    UInt32.not_lt] at hv
  refine Ensures.call .cleanup fun _ => ?_
  refine Ensures.call .open fun r => ?_
  split
  case h_1 e =>
    refine ⟨fun h => absurd h (fromError_ne_ok e), fun _ => ⟨fun h => absurd h ha, .inr rfl, rfl⟩⟩
  case h_2 file =>
    refine ⟨fun _ => ⟨by simpa using ha, rfl, ?_⟩, fun h => absurd rfl h⟩
    exact ⟨hv.left.right, hv.right, ⟨file, rfl⟩, by simpa using hs, rfl, rfl⟩

-- The operations that get past all checks and hand the upload's file to littlefs.
def Op.UsesUpload (upload : Upload) : Op → Prop
  | uploadWrite uploadId offset buffer =>
    upload.active ∧ uploadId = upload.id ∧ offset = upload.offset ∧ !buffer.missing ∧
      buffer.length ≤ uploadChunkMax ∧ buffer.length ≤ (upload.expectedSize - upload.offset).toNat
  | uploadCommit uploadId =>
    upload.active ∧ uploadId = upload.id ∧ upload.offset = upload.expectedSize
  | _ => False

theorem uploadWrite_spec {id offset : UInt32} {buffer : Buffer} :
    Ensures (· = .lfs (.fileWrite s.upload.file buffer.data)) (uploadWrite id offset buffer)
      (fun r s' =>
        (r = .ok → (Op.uploadWrite id offset buffer).UsesUpload s.upload ∧ Frame { s with
          upload := { s.upload with offset := s.upload.offset + buffer.length.toUInt32 } } s') ∧
        (r ≠ .ok → Frame s s')) s := by
  simp only [Ensures, uploadWrite, remember, lfs, wp_bind, wp_get, wp_ite, wp_pure, wp_modify]
  split
  · exact ⟨nofun, fun _ => ⟨_, rfl⟩⟩
  split
  · exact ⟨nofun, fun _ => ⟨_, rfl⟩⟩
  split
  · exact ⟨nofun, fun _ => ⟨_, rfl⟩⟩
  refine Ensures.call rfl fun r => ?_
  split
  case h_3 =>
    simp only [wp_bind, wp_ite, wp_pure, wp_modify]
    split
    · exact ⟨nofun, fun _ => ⟨_, rfl⟩⟩
    · exact ⟨fun _ => ⟨by simp_all [Op.UsesUpload], ⟨_, rfl⟩⟩, fun h => absurd rfl h⟩
  all_goals exact ⟨nofun, fun _ => ⟨_, rfl⟩⟩

inductive AbortCalls (upload : Upload) : Call → Prop
  | close : upload.fileOpen → AbortCalls upload (.lfs (.fileClose upload.file))
  | remove : upload.active → AbortCalls upload (.lfs (.remove upload.temporary))

-- After the upload's record was cleared.
structure Cleared (id : UInt32) (s s' : Ram) : Prop where
  active : s.upload.active
  id_eq : id = s.upload.id
  upload : s'.upload = .zero
  state_eq : s'.state = s.state
  nextUploadId_eq : s'.nextUploadId = s.nextUploadId

theorem uploadAbort_spec {id : UInt32} :
    Ensures (AbortCalls s.upload) (uploadAbort id) (fun r s' => (r = .ok → Cleared id s s') ∧
      (r ≠ .ok → ¬(s.upload.active ∧ id = s.upload.id) ∧ Frame s s')) s := by
  simp only [Ensures, uploadAbort, remember, clearUpload, lfs, wp_bind, wp_get, wp_ite, wp_pure,
    wp_modify]
  split
  case isTrue hn => exact ⟨nofun, fun _ => ⟨by rintro ⟨ha, hi⟩; simp [ha, hi] at hn, _, rfl⟩⟩
  case isFalse hn =>
    obtain ⟨ha, hi⟩ : s.upload.active ∧ id = s.upload.id := by simpa using hn
    have cleared : Cleared id s { s with upload := .zero, lastError := .ok } :=
      ⟨ha, hi, rfl, rfl, rfl⟩
    split
    case isTrue hf =>
      refine Ensures.call (.close hf) fun _ => ?_
      exact Ensures.call (.remove ha) fun _ => ⟨fun _ => cleared, fun h => absurd rfl h⟩
    case isFalse =>
      exact Ensures.call (.remove ha) fun _ => ⟨fun _ => cleared, fun h => absurd rfl h⟩

inductive CloseCalls (file : File) : Call → Prop
  | sync : CloseCalls file (.lfs (.fileSync file))
  | close : CloseCalls file (.lfs (.fileClose file))

theorem syncClose_eq {file : File} :
    Ensures (CloseCalls file) (syncClose file) (fun _ => (· = s)) s := by
  simp only [Ensures, syncClose, lfs, wp_bind]
  refine Ensures.call .sync fun _ => ?_
  exact Ensures.call .close fun _ => rfl

-- After a commit that failed.
inductive Uncommitted (s s' : Ram) : Prop
  | refused : Frame s s' → Uncommitted s s'
  | closed : s.upload.active → s.upload.offset = s.upload.expectedSize →
    Frame { s with upload := { s.upload with fileOpen := false } } s' → Uncommitted s s'

theorem uploadCommit_spec {fuel : Nat} {id : UInt32} :
    Ensures (fun _ => True) (uploadCommit fuel id) (fun r s' =>
      (r = .ok → Cleared id s s' ∧ s.upload.offset = s.upload.expectedSize) ∧
      (r ≠ .ok → Uncommitted s s')) s := by
  simp only [Ensures, uploadCommit, remember, clearUpload, lfs, wp_bind, wp_get, wp_ite, wp_pure,
    wp_modify]
  split
  · exact ⟨nofun, fun _ => .refused ⟨_, rfl⟩⟩
  case isFalse hn =>
  split
  · exact ⟨nofun, fun _ => .refused ⟨_, rfl⟩⟩
  case isFalse ho =>
  simp only [Bool.or_eq_true, Bool.not_eq_true', bne_iff_ne, not_or, Bool.not_eq_false, ne_eq,
    Decidable.not_not] at hn ho
  refine wp_mono (syncClose_eq.weaken fun _ _ => trivial) ?_
  rintro result s _ rfl
  have closed (lastError : Result) :
      Uncommitted s { s with upload := { s.upload with fileOpen := false }, lastError } :=
    .closed hn.left ho ⟨_, rfl⟩
  split
  case isTrue hr =>
    refine ⟨fun h => ?_, fun _ => closed _⟩
    simp [fromLfs_eq_ok h] at hr
  refine wp_mono verifyUpload_eq ?_
  rintro verify _ _ rfl
  split
  case isTrue hv => exact ⟨fun h => absurd h hv, fun _ => closed _⟩
  refine Ensures.call trivial fun r => ?_
  split
  case h_1 e => exact ⟨fun h => absurd h (fromError_ne_ok e), fun _ => closed _⟩
  case h_2   => exact ⟨fun _ => ⟨⟨hn.left, hn.right, rfl, rfl, rfl⟩, ho⟩, fun h => absurd rfl h⟩

inductive UnmountCalls (upload : Upload) : Call → Prop
  | abort {c} : AbortCalls upload c → UnmountCalls upload c
  | unmount : UnmountCalls upload (.lfs .unmount)

-- An upload does not outlive the mount.
structure Unmounted (s s' : Ram) : Prop where
  state_ne : s'.state ≠ .mounted
  upload : s'.upload = .zero ∨ s'.upload = s.upload ∧ (s.upload.active → s.state ≠ .mounted)

theorem unmount_spec : Ensures (UnmountCalls s.upload) unmount (fun _ => Unmounted s) s := by
  simp only [Ensures, unmount, setState, remember, lfs, wp_bind, wp_get, wp_ite, wp_pure, wp_modify]
  have state_ne {α : Type} (r : Except Lfs.Error α) :
      (if r.isOk then State.uninitialized else .ioError) ≠ .mounted := by
    split <;> nofun
  split
  case isTrue hs => exact ⟨hs, .inr ⟨rfl, fun _ => hs⟩⟩
  split
  case isTrue ha =>
    refine wp_mono (uploadAbort_spec.weaken fun _ => .abort) ?_
    intro result s' _ ⟨hc, hn⟩
    refine Ensures.call .unmount fun r => ⟨state_ne r, .inl ?_⟩
    by_cases hr : result = .ok
    case pos => exact (hc hr).upload
    case neg => exact absurd ⟨ha, rfl⟩ (hn hr).left
  case isFalse ha =>
    exact Ensures.call .unmount fun r => ⟨state_ne r, .inr ⟨rfl, fun h => absurd h ha⟩⟩

inductive FormatCalls : Call → Prop
  | tidy {c} : Tidy c → FormatCalls c
  | format : FormatCalls (.lfs .format)

theorem formatUnmounted_spec {fuel : Nat} :
    Ensures FormatCalls (formatUnmounted fuel)
      (fun _ s' => s'.upload = s.upload ∨ s'.upload = .zero) s := by
  simp only [Ensures, formatUnmounted, remember, setState, configure, lfs, flash, wp_bind]
  refine wp_mono (readyFlash_tidy.weaken fun _ => .tidy) ?_
  rintro info _ _ rfl
  split
  case h_2 => exact .inl rfl
  rw [wp_bind]
  refine Ensures.call (.tidy trivial) fun partition => ?_
  split
  case h_2 => exact .inl rfl
  simp only [wp_ite, wp_bind, wp_pure, wp_modify]
  split
  · exact .inl rfl
  refine Ensures.call .format fun r => ?_
  split
  case h_1 => exact .inl rfl
  case h_2 =>
    simp only [wp_bind, wp_modify]
    refine wp_mono ((mount_tidy ?_).weaken fun _ => .tidy) fun _ _ _ h => h.upload
    nofun

end Userfs
