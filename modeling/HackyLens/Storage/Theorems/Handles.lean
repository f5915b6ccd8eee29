import HackyLens.Lib.Run
import HackyLens.Storage.Theorems.Frame

-- Which files are open, for all answers that littlefs could give.

namespace Userfs

open Prog Lfs

-- A call and what it returned.
abbrev Event := (c : Call) × c.Reply

-- The latest event comes first.
abbrev Trace := List Event

def Call.file? : Call → Option File
  | lfs c   => c.file?
  | flash _ => none

namespace Trace

-- What an event does to the files that are open.
def effect : Event → List File → List File
  | ⟨.lfs (.fileOpencfg _ _), .ok file⟩, files => file :: files
  | ⟨.lfs (.fileClose file), _⟩,         files => files.erase file
  | _,                                   files => files

def opened : Trace → List File
  | []          => []
  | event :: tr => effect event (opened tr)

-- All files that were read, written, synced or closed were open.
def Safe : Trace → Prop
  | []          => True
  | event :: tr => Safe tr ∧ ∀ file ∈ event.fst.file?, file ∈ opened tr

instance decidableSafe : (tr : Trace) → Decidable tr.Safe
  | []          => .isTrue trivial
  | _ :: tr =>
    have := decidableSafe tr
    inferInstanceAs (Decidable (_ ∧ _))

end Trace

-- Arbitrary answers, except that each file that is opened gets a number of its own.
def number (n : Nat) : (c : Call) → c.Reply → c.Reply
  | .lfs (.fileOpencfg _ _), .ok _ => .ok ⟨n⟩
  | _,                       r     => r

abbrev Answers := (c : Call) → c.Reply

def record : Handler Call Call.Reply Trace Answers :=
  fun answers c tr =>
    let r := number (tr.length + 1) c (answers c)
    (r, ⟨c, r⟩ :: tr)

def tracing : Env Call Call.Reply Trace Answers where
  handler  := record
  admits _ := True
  call _   := Trace.Safe
  hung     := Trace.Safe

-- The files that are open after a trace in which nothing went wrong.
structure Trace.Holds (tr : Trace) (files : List File) : Prop where
  safe   : tr.Safe
  opened : tr.opened = files

section Calls

variable {α : Type} {s : Ram} {tr : Trace} {files : List File} {file : File}

theorem effect_idle {c : Call} (hc : Idle c) (r : c.Reply) :
    Trace.effect ⟨c, r⟩ files = files := by
  cases c
  case flash => rfl
  case lfs c => cases c <;> first | rfl | cases hc

theorem file?_idle {c : Call} (hc : Idle c) : c.file? = none := by
  cases c
  case flash => rfl
  case lfs c => cases c <;> first | rfl | cases hc

-- A function that only makes idle calls keeps the same files open.
theorem wp_idle {p : Task α} {Q : α → Ram → Prop} (hp : Ensures Idle p Q s) (h : tr.Holds files) :
    wp tracing p (fun a s tr => Q a s ∧ tr.Holds files) s tr := by
  refine hp.keeps (Trace.Holds · files) ?_ (fun _ h => h.safe) h
  refine fun c tr hc h => ⟨h.safe, fun answers _ => ⟨⟨h.safe, ?_⟩, ?_⟩⟩
  · simp [file?_idle hc]
  · rw [← h.opened]
    exact effect_idle hc _

theorem wp_call_idle {c : Call} {Q : c.Reply → Ram → Trace → Prop} (h : tr.Holds files)
    (hc : Idle c) (hq : ∀ r tr, tr.Holds files → Q r s tr) : wp tracing (call c) Q s tr := by
  refine ⟨h.safe, fun answers _ => hq _ _ ⟨⟨h.safe, ?_⟩, ?_⟩⟩
  · simp [file?_idle hc]
  · rw [← h.opened]
    exact effect_idle hc _

theorem wp_call_open {path : CString} {flags : OpenFlags}
    {Q : Except Error File → Ram → Trace → Prop} (h : tr.Holds files)
    (hok : ∀ file tr, tr.Holds (file :: files) → Q (.ok file) s tr)
    (herr : ∀ e tr, tr.Holds files → Q (.error e) s tr) :
    wp tracing (fileOpen path flags) Q s tr := by
  refine ⟨h.safe, fun answers _ => ?_⟩
  simp only [tracing, record]
  cases answers (.lfs (.fileOpencfg path flags))
  case ok    => exact hok _ _ ⟨⟨h.safe, nofun⟩, congrArg _ h.opened⟩
  case error => exact herr _ _ ⟨⟨h.safe, nofun⟩, h.opened⟩

-- Anything but opening and closing, on the file that was opened last.
theorem wp_call_use {c : Lfs.Call} {Q : c.Reply → Ram → Trace → Prop} (h : tr.Holds (file :: files))
    (hc : c.file? = some file) (hn : c ≠ .fileClose file)
    (hq : ∀ r tr, tr.Holds (file :: files) → Q r s tr) : wp tracing (lfs c) Q s tr := by
  refine ⟨h.safe, fun answers _ => hq _ _ ⟨⟨h.safe, ?_⟩, ?_⟩⟩
  · simp_all [Call.file?, h.opened]
  · rw [← h.opened]
    cases c <;> first | rfl | simp_all [Lfs.Call.file?]

theorem wp_call_close {Q : Except Error Unit → Ram → Trace → Prop} (h : tr.Holds (file :: files))
    (hq : ∀ r tr, tr.Holds files → Q r s tr) : wp tracing (lfs (.fileClose file)) Q s tr := by
  refine ⟨h.safe, fun answers _ => hq _ _ ⟨⟨h.safe, ?_⟩, ?_⟩⟩
  · simp [Call.file?, Lfs.Call.file?, h.opened]
  · have hf : (tr.opened).erase file = files := by rw [h.opened, List.erase_cons_head]
    exact hf

end Calls

section Operations

variable {s : Ram} {tr : Trace} {files : List File} {file : File} {fuel : Nat}

theorem stat_holds {name : Option CString} {size : Bool} (h : tr.Holds files) :
    wp tracing (stat name size) (fun _ s' tr => Frame s s' ∧ tr.Holds files) s tr := by
  refine wp_idle (stat_frame.weaken ?_) h
  rintro _ ⟨_⟩
  rfl

theorem getStartup_holds {name : Bool} {capacity : Nat} (h : tr.Holds files) :
    wp tracing (getStartup name capacity) (fun _ s' tr => Frame s s' ∧ tr.Holds files) s tr := by
  refine getStartup_frame.and_wp ?_
  simp only [getStartup, remember, wp_bind, wp_get, wp_ite, wp_pure, wp_modify]
  split
  · exact h
  split
  · exact h
  refine wp_call_open h (fun file tr h => ?_) (fun e tr h => h)
  simp only [wp_bind]
  refine wp_call_use h rfl (by rintro ⟨⟩) fun count tr h => ?_
  refine wp_call_close h fun _ tr h => ?_
  split
  case h_1 => exact h
  case h_2 =>
    simp only [wp_ite, wp_bind, wp_pure, wp_modify]
    split <;> exact h

theorem read_holds {name : Option CString} {offset : UInt32} {data : Bool} {capacity : Nat}
    {readSize : Bool} (h : tr.Holds files) :
    wp tracing (read name offset data capacity readSize) (fun _ s' tr => Frame s s' ∧ tr.Holds files)
      s tr := by
  refine read_frame.and_wp ?_
  simp only [read, remember, wp_bind, wp_get, wp_ite, wp_pure, wp_modify]
  split
  · exact h
  split
  · exact h
  split
  · exact h
  refine wp_call_open h (fun file tr h => ?_) (fun e tr h => h)
  simp only [wp_bind]
  refine wp_call_use h rfl (by rintro ⟨⟩) fun position tr h => ?_
  split
  case h_1 =>
    rw [wp_bind]
    exact wp_call_close h fun _ _ h => h
  case h_2 =>
    simp only [wp_bind, wp_ite, wp_pure]
    split
    case isTrue =>
      refine wp_call_use h rfl (by rintro ⟨⟩) fun count tr h => ?_
      refine wp_call_close h fun _ tr h => ?_
      split <;> exact h
    case isFalse => exact wp_call_close h fun _ _ h => h

theorem remove_holds {name : Option CString} (h : tr.Holds files) :
    wp tracing (remove name) (fun _ s' tr => Frame s s' ∧ tr.Holds files) s tr := by
  refine remove_frame.and_wp ?_
  simp only [remove, remember, wp_bind, wp_get, wp_ite, wp_pure, wp_modify]
  split
  · exact h
  split
  · exact h
  split
  · exact h
  refine wp_mono (getStartup_holds h) ?_
  rintro ⟨result, startup⟩ s tr ⟨-, h⟩
  split
  case isTrue =>
    refine wp_call_idle h rfl fun r tr h => ?_
    split
    case h_3 => exact h
    all_goals
      rw [wp_bind]
      exact wp_call_idle h rfl fun _ _ h => h
  case isFalse => exact wp_call_idle h rfl fun _ _ h => h

theorem syncClose_holds (h : tr.Holds (file :: files)) :
    wp tracing (syncClose file) (fun _ s' tr => s' = s ∧ tr.Holds files) s tr := by
  simp only [syncClose, wp_bind, wp_pure]
  refine wp_call_use h rfl (by rintro ⟨⟩) fun result tr h => ?_
  exact wp_call_close h fun closeResult tr h => ⟨rfl, h⟩

theorem setStartup_holds {name : Option CString} (h : tr.Holds files) :
    wp tracing (setStartup name) (fun _ s' tr => Frame s s' ∧ tr.Holds files) s tr := by
  refine setStartup_frame.and_wp ?_
  simp only [setStartup, atomicMetadata, remember, wp_bind, wp_get, wp_ite, wp_pure, wp_modify]
  split
  · exact h
  split
  · exact h
  split
  · refine wp_call_idle h rfl fun r tr h => ?_
    split <;> exact h
  split
  · exact h
  refine wp_call_idle h rfl fun info tr h => ?_
  split
  case h_1 => exact h
  simp only [wp_bind, wp_ite, wp_pure, wp_modify]
  split
  · exact h
  refine wp_call_idle h rfl fun _ tr h => ?_
  refine wp_call_open h (fun file tr h => ?_) (fun e tr h => h)
  simp only [wp_bind, wp_ite, wp_pure]
  refine wp_call_use h rfl (by rintro ⟨⟩) fun written tr h => ?_
  split
  case isTrue =>
    refine wp_call_close h fun _ tr h => ?_
    exact wp_call_idle h rfl fun _ tr h => h
  case isFalse =>
    refine wp_mono (syncClose_holds h) ?_
    rintro result s tr ⟨-, h⟩
    split
    · exact wp_call_idle h rfl fun _ tr h => h
    · exact h

theorem verifyUpload_holds (h : tr.Holds files) :
    wp tracing (verifyUpload fuel) (fun _ s' tr => s' = s ∧ tr.Holds files) s tr := by
  refine verifyUpload_eq.and_wp ?_
  simp only [verifyUpload, wp_bind, wp_get]
  refine wp_call_open h (fun file tr h => ?_) (fun e tr h => h)
  refine wp_seq (P := fun _ _ tr => tr.Holds (file :: files)) ?_ ?_
  case refine_1 =>
    refine wp_loop (fun _ _ tr => tr.Holds (file :: files)) (fun _ _ _ h => h.safe) ?_ h
    rintro ⟨crc, total⟩ s tr h
    rw [wp_bind]
    refine wp_call_use h rfl (by rintro ⟨⟩) fun data tr h => ?_
    split
    case h_1 => exact h
    case h_2 => split <;> exact h
  case refine_2 =>
    rintro ⟨count, crc, total⟩ s tr h
    rw [wp_bind]
    refine wp_call_close h fun _ tr h => ?_
    split
    · exact h
    · split <;> exact h

end Operations

-- The upload's file, if the record says that it is open.
def Upload.held (upload : Upload) : List File :=
  if upload.fileOpen then [upload.file] else []

@[simp]
theorem Upload.held_zero : Upload.held .zero = [] := rfl

-- Between two operations only the upload's file is open. It is open for an active upload only, and
-- uploads are only active on a mounted file system.
structure Coherent (s : Ram) (tr : Trace) : Prop where
  holds : tr.Holds s.upload.held
  active : s.upload.fileOpen → s.upload.active
  mounted : s.upload.active → s.state = .mounted

namespace Coherent

variable {s s' : Ram} {tr tr' : Trace} {fuel : Nat}

theorem zero : Coherent .zero [] where
  holds   := ⟨trivial, rfl⟩
  active  := nofun
  mounted := nofun

theorem of_eq (h : Coherent s tr) (hu : s'.upload = s.upload) (hs : s'.state = s.state)
    (ht : tr'.Holds s.upload.held) : Coherent s' tr' where
  holds     := hu ▸ ht
  active    := hu ▸ h.active
  mounted a := hs ▸ h.mounted (hu ▸ a)

theorem frame (h : Coherent s tr) (hf : Frame s s') (ht : tr'.Holds s.upload.held) :
    Coherent s' tr' :=
  h.of_eq hf.upload_eq hf.state_eq ht

theorem of_zero (hu : s'.upload = .zero) (ht : tr'.Holds []) : Coherent s' tr' where
  holds := hu ▸ ht
  active  := by simp [hu, Upload.zero]
  mounted := by simp [hu, Upload.zero]

-- Without an upload nothing is open.
theorem held_of_inactive (h : Coherent s tr) (ha : s.upload.active = false) : s.upload.held = [] := by
  have hf : s.upload.fileOpen = false := by
    by_contra hf
    simp [h.active (by simpa using hf)] at ha
  simp [Upload.held, hf]

-- The state may change freely when there is no upload.
theorem of_inactive (h : Coherent s tr) (ha : s.upload.active = false) (hu : s'.upload = s.upload)
    (ht : tr'.Holds s.upload.held) : Coherent s' tr' where
  holds   := hu ▸ ht
  active  := hu ▸ h.active
  mounted := by simp [hu, ha]

theorem inactive_of_unmounted (h : Coherent s tr) (hs : s.state ≠ .mounted) :
    s.upload.active = false := by
  by_contra ha
  exact hs <| h.mounted <| by simpa using ha

theorem mount (h : Coherent s tr) : wp tracing (mount fuel) (fun _ => Coherent) s tr := by
  by_cases hs : s.state = .mounted
  case pos =>
    refine wp_mono (wp_idle ((mount_mounted hs).weaken nofun) h.holds) ?_
    exact fun _ _ _ ⟨hf, ht⟩ => h.frame hf ht
  case neg =>
    have ha := h.inactive_of_unmounted hs
    have hh := h.held_of_inactive ha
    refine wp_mono (wp_idle ((mount_tidy hs).weaken fun _ => Tidy.idle) h.holds) ?_
    rintro _ s' tr ⟨⟨hu | hu, -⟩, ht⟩
    · exact ⟨hu ▸ ht, hu ▸ h.active, by simp [hu, ha]⟩
    · exact of_zero hu (hh ▸ ht)

theorem uploadAbort {id : UInt32} (h : Coherent s tr) :
    wp tracing (uploadAbort id) (fun _ s' tr => Coherent s' tr ∧ s'.state = s.state ∧
      (s.upload.active → id = s.upload.id → s'.upload = .zero)) s tr := by
  simp only [Userfs.uploadAbort, clearUpload, remember, wp_bind, wp_get, wp_ite, wp_pure, wp_modify]
  split
  case isTrue hn =>
    refine ⟨h.of_eq rfl rfl h.holds, rfl, fun ha hi => ?_⟩
    simp [ha, hi] at hn
  case isFalse =>
    split
    case isTrue hf =>
      have ht := h.holds
      rw [Upload.held, if_pos hf] at ht
      refine wp_call_close ht fun _ _ ht => ?_
      exact wp_call_idle ht rfl fun _ _ ht => ⟨of_zero rfl ht, rfl, fun _ _ => trivial⟩
    case isFalse hf =>
      have ht := h.holds
      rw [Upload.held, if_neg hf] at ht
      exact wp_call_idle ht rfl fun _ _ ht => ⟨of_zero rfl ht, rfl, fun _ _ => trivial⟩

theorem unmount (h : Coherent s tr) :
    wp tracing unmount (fun _ s tr => Coherent s tr ∧ s.state ≠ .mounted) s tr := by
  simp only [Userfs.unmount, setState, remember, wp_bind, wp_get, wp_ite, wp_pure, wp_modify]
  split
  case isTrue hs => exact ⟨h.of_eq rfl rfl h.holds, hs⟩
  have unmounted {s tr} (h : Coherent s tr) (ha : s.upload.active = false) :
      wp tracing (lfs .unmount) (fun result s' tr =>
        let state := if result.isOk then State.uninitialized else .ioError
        Coherent { s' with state, lastError := fromLfs result } tr ∧ state ≠ .mounted) s tr := by
    refine wp_call_idle h.holds rfl fun _ _ ht => ⟨h.of_inactive ha rfl ht, ?_⟩
    split <;> rintro ⟨⟩
  split
  case isTrue ha =>
    refine wp_mono h.uploadAbort ?_
    rintro _ s' tr ⟨h, -, hz⟩
    exact unmounted h <| by simp [hz ha rfl, Upload.zero]
  case isFalse ha => exact unmounted h <| by simpa using ha

theorem formatUnmounted (h : Coherent s tr) (hs : s.state ≠ .mounted) :
    wp tracing (formatUnmounted fuel) (fun _ => Coherent) s tr := by
  have ha := h.inactive_of_unmounted hs
  simp only [Userfs.formatUnmounted, setState, configure, remember, wp_bind]
  refine wp_mono (wp_idle (readyFlash_tidy.weaken fun _ => Tidy.idle) h.holds) ?_
  rintro info _ tr ⟨rfl, ht⟩
  split
  case h_2 => exact h.of_inactive ha rfl ht
  rw [wp_bind]
  refine wp_call_idle ht trivial fun partition tr ht => ?_
  split
  case h_2 => exact h.of_inactive ha rfl ht
  simp only [wp_ite, wp_bind, wp_pure, wp_modify]
  split
  · exact h.of_inactive ha rfl ht
  refine wp_call_idle ht rfl fun r tr ht => ?_
  split
  case h_1 => exact h.of_inactive ha rfl ht
  case h_2 =>
    simp only [wp_bind, wp_modify]
    exact mount <| h.of_inactive ha rfl ht

theorem formatExplicit (h : Coherent s tr) :
    wp tracing (formatExplicit fuel) (fun _ => Coherent) s tr := by
  simp only [Userfs.formatExplicit, wp_bind, wp_get, wp_ite]
  split
  case isTrue =>
    refine wp_mono h.unmount ?_
    rintro _ s tr ⟨h, hs⟩
    exact h.formatUnmounted hs
  case isFalse hs => exact h.formatUnmounted hs

theorem uploadBegin {name : Option CString} {size crc32 : UInt32} {uploadId : Bool}
    (h : Coherent s tr) :
    wp tracing (uploadBegin name size crc32 uploadId) (fun _ => Coherent) s tr := by
  simp only [Userfs.uploadBegin, clearUpload, remember, wp_bind, wp_get, wp_ite, wp_pure, wp_modify]
  split
  case isTrue => exact h.of_eq rfl rfl h.holds
  case isFalse hs =>
  split
  case isTrue => exact h.of_eq rfl rfl h.holds
  case isFalse ha =>
  have hh := h.held_of_inactive (by simpa using ha)
  have ht := h.holds
  rw [hh] at ht
  split
  case isTrue => exact h.of_eq rfl rfl h.holds
  case isFalse =>
    refine wp_call_idle ht rfl fun _ tr ht => ?_
    refine wp_call_open ht (fun file tr ht => ?_) (fun e tr ht => ?_)
    case refine_1 => exact ⟨ht, fun _ => rfl, fun _ => by simpa using hs⟩
    case refine_2 => exact of_zero rfl ht

theorem uploadWrite {id offset : UInt32} {buffer : Buffer} (h : Coherent s tr)
    (hu : (Op.uploadWrite id offset buffer).UsesUpload s.upload → s.upload.fileOpen) :
    wp tracing (uploadWrite id offset buffer) (fun _ => Coherent) s tr := by
  simp only [Userfs.uploadWrite, remember, wp_bind, wp_get, wp_ite, wp_pure, wp_modify]
  split
  case isTrue => exact h.of_eq rfl rfl h.holds
  case isFalse hn =>
  split
  case isTrue => exact h.of_eq rfl rfl h.holds
  case isFalse ho =>
  split
  case isTrue => exact h.of_eq rfl rfl h.holds
  case isFalse hb =>
  have hf : s.upload.fileOpen := hu <| by simp_all [Op.UsesUpload]
  have hh : s.upload.held = [s.upload.file] := if_pos hf
  refine wp_call_use (hh ▸ h.holds) rfl (by rintro ⟨⟩) fun written tr ht => ?_
  rw [← hh] at ht
  split
  case h_3 =>
    simp only [wp_bind, wp_ite, wp_pure, wp_modify]
    split
    · exact h.of_eq rfl rfl ht
    · exact ⟨ht, h.active, h.mounted⟩
  all_goals exact h.of_eq rfl rfl ht

theorem uploadCommit {id : UInt32} (h : Coherent s tr)
    (hu : (Op.uploadCommit id).UsesUpload s.upload → s.upload.fileOpen) :
    wp tracing (uploadCommit fuel id) (fun _ => Coherent) s tr := by
  simp only [Userfs.uploadCommit, clearUpload, remember, wp_bind, wp_get, wp_ite, wp_pure, wp_modify]
  split
  case isTrue => exact h.of_eq rfl rfl h.holds
  case isFalse hn =>
  split
  case isTrue => exact h.of_eq rfl rfl h.holds
  case isFalse ho =>
  have hf : s.upload.fileOpen := hu <| by simp_all [Op.UsesUpload]
  have hh : s.upload.held = [s.upload.file] := if_pos hf
  refine wp_mono (syncClose_holds (hh ▸ h.holds)) ?_
  rintro result s tr ⟨rfl, ht⟩
  -- The record is still active, but it does not claim the file any more.
  have closed (e : Result) {tr} (ht : tr.Holds []) : Coherent
      { s with upload := { s.upload with fileOpen := false }, lastError := e } tr :=
    ⟨ht, (by rintro ⟨⟩), h.mounted⟩
  split
  case isTrue => exact closed _ ht
  refine wp_mono (verifyUpload_holds ht) ?_
  rintro verify _ tr ⟨rfl, ht⟩
  split
  case isTrue => exact closed _ ht
  refine wp_call_idle ht rfl fun r tr ht => ?_
  split
  case h_1 => exact closed _ ht
  case h_2 => exact of_zero rfl ht

theorem perform {op : Op} (h : Coherent s tr) (hu : op.UsesUpload s.upload → s.upload.fileOpen) :
    wp tracing (op.perform fuel) (fun _ => Coherent) s tr := by
  have frame {α} (_ : α) s' tr' (hf : Frame s s' ∧ tr'.Holds s.upload.held) : Coherent s' tr' :=
    h.frame hf.left hf.right
  cases op
  case mount          => exact h.mount
  case unmount        => exact wp_mono h.unmount fun _ _ _ => And.left
  case formatExplicit => exact h.formatExplicit
  case uploadWrite    => exact h.uploadWrite hu
  case uploadCommit   => exact h.uploadCommit hu
  case uploadAbort    => exact wp_mono h.uploadAbort fun _ _ _ => And.left
  case remove         => exact wp_mono (remove_holds h.holds) frame
  case setStartup     => exact wp_mono (setStartup_holds h.holds) frame
  all_goals rw [Op.perform, wp_map]
  case getStatus   => exact wp_mono (wp_idle (getStatus_tidy.weaken fun _ => Tidy.idle) h.holds) fun _ _ _ ⟨hs, ht⟩ => h.of_eq (by rw [hs]) (by rw [hs]) ht
  case list        => exact wp_mono (wp_idle (list_tidy.weaken fun _ => Tidy.idle) h.holds) frame
  case stat        => exact wp_mono (stat_holds h.holds) frame
  case read        => exact wp_mono (read_holds h.holds) frame
  case getStartup  => exact wp_mono (getStartup_holds h.holds) frame
  case uploadBegin => exact h.uploadBegin

end Coherent

instance (upload : Upload) : (op : Op) → Decidable (op.UsesUpload upload)
  | .uploadWrite _ _ _ => inferInstanceAs (Decidable (_ ∧ _))
  | .uploadCommit _    => inferInstanceAs (Decidable (_ ∧ _))
  | .mount | .unmount | .formatExplicit | .getStatus | .list _ | .stat _ _ | .read _ _ _ _ _
  | .remove _ | .uploadBegin _ _ _ _ | .uploadAbort _ | .setStartup _ | .getStartup _ _ =>
    .isFalse id

-- The operation does not hand a file that is already closed to littlefs.
def Op.Ready (op : Op) (_ : List Answers) (s : Ram) (_ : Trace) : Prop :=
  op.UsesUpload s.upload → s.upload.fileOpen

instance (op : Op) (answers : List Answers) (s : Ram) (tr : Trace) :
    Decidable (op.Ready answers s tr) :=
  inferInstanceAs (Decidable (_ → _))

variable {fuel : Nat} {es : List (Op × Option Result)} {s : Ram} {tr : Trace}

theorem Coherent.meets {op : Op} {answers : List Answers} (h : Coherent s tr)
    (hr : op.Ready answers s tr) (fuel : Nat) :
    ((op.perform fuel).run record s answers tr).Meets tracing fun a => Coherent a.snd :=
  run_meets (fun _ _ => trivial) (h.perform hr)

theorem coherent_of_run (r : Run record (Op.perform fuel) none Op.Ready .zero [] es s tr) :
    Coherent s tr := by
  refine r.invariant (fun _ => Coherent) .zero ?_
  intro es s tr op answers hr h
  have hm := h.meets hr fuel
  revert hm
  cases (op.perform fuel).run record s answers tr
  case done => exact id
  all_goals exact fun _ _ h => nomatch h

-- As long as no operation is given a closed file, no call of any operation uses a closed file, and
-- all files are closed when the upload's record is cleared.
theorem handles_safe (r : Run record (Op.perform fuel) none Op.Ready .zero [] es s tr) :
    tr.Safe ∧ (s.upload.active = false → tr.opened = []) ∧
      ∀ (op : Op) answers, op.Ready answers s tr →
        ((op.perform fuel).run record s answers tr).world.Safe := by
  have h := coherent_of_run r
  refine ⟨h.holds.safe, fun ha => h.holds.opened.trans <| h.held_of_inactive ha, ?_⟩
  intro op answers hr
  have hm := h.meets hr fuel
  revert hm
  cases (op.perform fuel).run record s answers tr
  case done => exact fun h => h.holds.safe
  case cut  => exact fun ⟨_, h⟩ => h
  case hung => exact id

-- Answers with which all calls to littlefs fail.
def fail : Answers
  | .lfs _   => .error .io
  | .flash c => succeed (.flash c)

-- After a commit that failed, the upload can be aborted.
theorem handles_safe_abort :
    ∃ es s tr, Run record (Op.perform 4) none Op.Ready .zero [] es s tr ∧
      es.length = 4 ∧ tr.Safe ∧ tr.opened = [] :=
  have ⟨es, s, tr, r, hl, ha⟩ := exists_run (P := fun es s _ => es.length = 4 ∧ s.upload.active = false) [
    (.mount, .replicate 6 succeed),
    (.uploadBegin (some (ascii "a")) 0 0 true, [succeed, succeed]),
    (.uploadCommit 1, [fail, succeed]),
    (.uploadAbort 1, [succeed])
  ] (by decide)
  have h := handles_safe r
  ⟨es, s, tr, r, hl, h.left, h.right.left ha⟩

-- A commit whose `lfs_file_sync` fails closes the file. When it is tried again, the closed file is
-- synced.
theorem handles_unsafe_retry :
    ∃ es s tr, Run record (Op.perform 4) none (fun _ _ _ _ => True) .zero [] es s tr ∧ ¬tr.Safe :=
  exists_run [
    (.mount, .replicate 6 succeed),
    (.uploadBegin (some (ascii "a")) 0 0 true, [succeed, succeed]),
    (.uploadCommit 1, [fail, succeed]),
    (.uploadCommit 1, .replicate 6 succeed)
  ] (by decide)

end Userfs
