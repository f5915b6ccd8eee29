import HackyLens.Hmpy.Theorems.Uploads
import HackyLens.Storage.Theorems.Paths

-- Which names get from a session to littlefs.

namespace Hmpy.Session

open Prog Micropython
open Lfs (CString)
open Userfs (Result)

-- A call to littlefs is proper.
def Proper : Userfs.Call ⊕ Call → Prop
  | .inl c => Userfs.Proper c
  | .inr _ => True

-- Programs that only make proper calls, and that keep the record of the upload sound.
abbrev Tame {α : Type} (p : Task α) : Prop :=
  Keeps (.any (Sum.elim Userfs.Call.Reply Call.Reply) Proper) (fun g _ => g.userfs.upload.Sound) p

variable {α : Type} {fuel : Nat} {f : Frame}

theorem tame_ask {c : Call} : Tame (ask c) :=
  fun _ _ h => ⟨trivial, fun _ _ => h⟩

theorem tame_modify {m : State → State} : Tame (modifySession m) :=
  .modify fun _ _ h => h

theorem tame_userfs {p : Userfs.Task α} (hp : Userfs.Tame p) : Tame (userfs p) := by
  intro g w h
  have he : Ensures Userfs.Proper p (fun _ ram => ram.upload.Sound) g.userfs := hp g.userfs () h
  refine wp_mono (wp_focused (he.keeps (fun _ => True) ?_ ?_ trivial)) ?_
  · exact fun c _ hc _ => ⟨hc, fun _ _ => trivial⟩
  · exact fun _ _ => trivial
  · rintro _ _ _ ⟨ram, ⟨h, -⟩, rfl⟩
    exact h

theorem tame_mount : Tame (userfs (Userfs.mount fuel)) :=
  tame_userfs Userfs.tame_mount

theorem tame_stat {name : Option CString} {size : Bool} : Tame (userfs (Userfs.stat name size)) :=
  tame_userfs <| Userfs.tame_frame (fun _ => Userfs.StatCalls.proper) fun _ => Userfs.stat_frame

theorem tame_read {name : Option CString} {offset : UInt32} {capacity : Nat} :
    Tame (userfs (Userfs.read name offset true capacity true)) :=
  tame_userfs <| Userfs.tame_frame (fun _ => Userfs.ReadCalls.proper) fun _ => Userfs.read_frame

theorem tame_getStartup {capacity : Nat} : Tame (userfs (Userfs.getStartup true capacity)) :=
  tame_userfs <| Userfs.tame_frame (fun _ => Userfs.GetStartupCalls.proper) fun _ =>
    Userfs.getStartup_frame

theorem tame_send : Tame (send f) := by
  rw [send]
  split
  case h_1 => exact .pure
  case h_2 => exact .bind tame_ask fun _ => .pure

theorem tame_response {type : UInt8} {requestId : UInt32} {payload : List UInt8} {more : Bool} :
    Tame (response type requestId payload more) :=
  tame_send

theorem tame_respond {type : UInt8} {requestId : UInt32} {payload : List UInt8} {more : Bool} :
    Tame (do let _ ← response type requestId payload more) :=
  .bind tame_send fun _ => .pure

theorem tame_error {type : UInt8} {requestId : UInt32} {code : ErrorCode} {detail : CString} :
    Tame (error type requestId code detail) :=
  .bind tame_send fun _ => .pure

theorem tame_emitFileChanged {operation : UInt8} {name : CString} :
    Tame (emitFileChanged operation name) :=
  .bind tame_send fun _ => .pure

theorem tame_runFile {name : CString} {timeLimitMs : UInt32} :
    Tame (Program.runFile fuel name timeLimitMs) := by
  refine .ite (fun _ => .pure) fun _ => .bind tame_mount fun mounted => ?_
  refine .ite (fun _ => .pure) fun _ => .bind tame_stat ?_
  rintro ⟨result, size⟩
  refine .ite (fun _ => .pure) fun _ => .ite (fun _ => .pure) fun _ => .bind tame_read ?_
  rintro ⟨result, source⟩
  refine .ite (fun _ => .pure) fun _ => .ite (fun _ => .pure) fun _ => ?_
  refine .bind tame_ask fun started => .ite (fun _ => .pure) fun _ => ?_
  exact .bind tame_ask fun _ => .pure

theorem tame_runProgram {name : CString} {timeLimitMs : UInt32} :
    Tame (runProgram fuel name timeLimitMs) := by
  refine .ite (fun _ => tame_runFile) fun _ => .bind tame_mount fun mounted => ?_
  refine .ite (fun _ => .pure) fun _ => .bind tame_getStartup ?_
  rintro ⟨result, name⟩
  exact .ite (fun _ => .pure) fun _ => tame_runFile

theorem tame_userfsList {callback : CString → UInt32 → Task Bool}
    (hc : ∀ name size, Tame (callback name size)) : Tame (userfsList fuel callback) := by
  have remember {result : Result} : Tame (userfs (Userfs.remember result)) :=
    tame_userfs Userfs.tame_remember
  refine .get fun g => .ite (fun _ => remember) fun _ => .ite (fun _ => remember) fun _ => ?_
  refine .bind (tame_userfs (Userfs.keeps_lfs rfl)) fun opened => ?_
  cases opened
  case error => exact remember
  case ok    =>
    refine .bind (.loop (fun _ _ _ => trivial) fun _ => ?_) fun result => ?_
    · refine .bind (tame_userfs (Userfs.keeps_lfs trivial)) fun entry => ?_
      split
      case h_1 => exact .pure
      case h_2 => exact .pure
      case h_3 => exact .ite (fun _ => .pure) fun _ => .bind (hc _ _) fun _ => .pure
    · exact .bind (tame_userfs (Userfs.keeps_lfs trivial)) fun _ => remember

theorem tame_handleHello {build : Build} : Tame (handleHello build fuel f) := by
  refine .ite (fun _ => tame_error) fun _ => .bind tame_mount fun mounted => ?_
  refine .bind (tame_userfs Userfs.tame_getStatus) fun filesystem =>
    .bind tame_ask fun runtime => ?_
  exact .bind tame_ask fun recovered => tame_respond

theorem tame_handleList : Tame (handleList fuel f) := by
  refine .ite (fun _ => tame_error) fun _ => .bind (tame_userfsList fun _ _ => tame_send) ?_
  exact fun result => .ite (fun _ => tame_error) fun _ => tame_respond

theorem tame_handleStat : Tame (handleStat f) := by
  rw [handleStat]
  split
  case h_2 => exact tame_error
  refine .bind tame_stat ?_
  rintro ⟨result, size⟩
  refine .ite (fun _ => tame_error) fun _ => .bind tame_getStartup ?_
  rintro ⟨_, startup⟩
  exact tame_respond

theorem tame_handleRead : Tame (handleRead f) := by
  refine .get fun g => .ite (fun _ => tame_error) fun _ => ?_
  split
  case h_2 => exact tame_error
  refine .ite (fun _ => tame_error) fun _ => .bind tame_stat ?_
  rintro ⟨result, size⟩
  exact .ite (fun _ => tame_error) fun _ => .ite (fun _ => tame_error) fun _ => tame_modify

theorem tame_handleUploadBegin : Tame (handleUploadBegin f) := by
  rw [handleUploadBegin]
  split
  case h_2 => exact tame_error
  refine .ite (fun _ => tame_error) fun _ => .bind (tame_userfs Userfs.tame_uploadBegin) ?_
  rintro ⟨result, uploadId⟩
  exact .ite (fun _ => tame_error) fun _ => .bind tame_modify fun _ => tame_respond

theorem tame_handleUploadChunk : Tame (handleUploadChunk f) := by
  refine .ite (fun _ => tame_error) fun _ => .get fun g => .ite (fun _ => tame_error) fun _ => ?_
  refine .ite (fun _ => tame_error) fun _ => .ite (fun _ => tame_respond) fun _ => ?_
  refine .bind (tame_userfs Userfs.tame_uploadWrite) fun result => ?_
  exact .ite (fun _ => tame_error) fun _ => .bind tame_modify fun _ => tame_respond

theorem tame_handleUploadFinish {abort : Bool} : Tame (handleUploadFinish fuel f abort) := by
  refine .ite (fun _ => tame_error) fun _ => .get fun g => .ite (fun _ => tame_error) fun _ => ?_
  refine .bind (tame_userfs ?_) fun result => ?_
  · exact .ite (fun _ => Userfs.tame_uploadAbort) fun _ => Userfs.tame_uploadCommit
  refine .ite (fun _ => tame_error) fun _ => .bind tame_send fun _ => ?_
  refine .ite (fun _ => ?_) fun _ => tame_modify
  exact .get fun g => .bind tame_emitFileChanged fun _ => tame_modify

theorem tame_handleDelete : Tame (handleDelete f) := by
  rw [handleDelete]
  split
  case h_2 => exact tame_error
  refine .bind (tame_userfs ?_) fun result => .ite (fun _ => tame_error) fun _ => ?_
  · exact Userfs.tame_frame (fun _ => Userfs.RemoveCalls.proper) fun _ => Userfs.remove_frame
  · exact .bind tame_send fun _ => tame_emitFileChanged

theorem tame_handleSetStartup : Tame (handleSetStartup f) := by
  rw [handleSetStartup]
  split
  case h_2 => exact tame_error
  refine .bind (tame_userfs ?_) fun result => .ite (fun _ => tame_error) fun _ => ?_
  · exact Userfs.tame_frame (fun _ => Userfs.SetStartupCalls.proper)
      fun _ => Userfs.setStartup_frame
  · exact .bind tame_send fun _ => tame_emitFileChanged

theorem tame_handleFormat : Tame (handleFormat fuel f) := by
  refine .get fun g => .ite (fun _ => tame_error) fun _ => .ite (fun _ => tame_error) fun _ => ?_
  refine .bind (tame_userfs Userfs.tame_formatExplicit) fun result => ?_
  exact .ite (fun _ => tame_error) fun _ => .bind tame_send fun _ => tame_emitFileChanged

theorem tame_handleRun : Tame (handleRun fuel f) := by
  rw [handleRun]
  split
  case h_2 => exact tame_error
  refine .ite (fun _ => tame_error) fun _ => .ite (fun _ => tame_error) fun _ => ?_
  refine .bind tame_runProgram ?_
  rintro ⟨result, runId⟩
  exact .ite (fun _ => tame_error) fun _ => tame_respond

theorem tame_handleStop : Tame (handleStop f) :=
  .ite (fun _ => tame_error) fun _ => .bind tame_ask fun _ =>
    .ite (fun _ => tame_error) fun _ => tame_respond

theorem tame_handleStatus : Tame (handleStatus f) := by
  refine .ite (fun _ => tame_error) fun _ => .bind ?_ fun payload => tame_respond
  exact .bind tame_ask fun runtime => .bind (tame_userfs Userfs.tame_getStatus) fun _ => .pure

theorem tame_sessionFinish : Tame sessionFinish := by
  refine .get fun g => .ite (fun _ => ?_) fun _ => .bind tame_modify fun _ => tame_ask
  exact .bind (tame_userfs Userfs.tame_uploadAbort) fun _ => .bind tame_modify fun _ => tame_ask

theorem tame_handleSessionClose : Tame (handleSessionClose f) :=
  .ite (fun _ => tame_error) fun _ => .bind tame_send fun _ => tame_sessionFinish

theorem tame_handleFrame {build : Build} : Tame (handleFrame build fuel f) := by
  refine .ite (fun _ => .ite (fun _ => tame_error) fun _ => .pure) fun _ => .get fun g => ?_
  refine .ite (fun _ => tame_error) fun _ => ?_
  split
  case h_1  => exact tame_handleHello
  case h_2  => exact tame_handleList
  case h_3  => exact tame_handleStat
  case h_4  => exact tame_handleRead
  case h_5  => exact tame_handleUploadBegin
  case h_6  => exact tame_handleUploadChunk
  case h_7  => exact tame_handleUploadFinish
  case h_8  => exact tame_handleUploadFinish
  case h_9  => exact tame_handleDelete
  case h_10 => exact tame_handleSetStartup
  case h_11 => exact tame_handleFormat
  case h_12 => exact tame_handleRun
  case h_13 => exact tame_handleStop
  case h_14 => exact tame_handleStatus
  case h_15 => exact tame_respond
  case h_16 => exact tame_handleSessionClose
  case h_17 => exact tame_error

theorem tame_sendDrained {capacity : Nat} {type : MessageType} {stream : UInt8} {runId : UInt32}
    {drained : Drained capacity} : Tame (sendDrained type stream runId drained) := by
  refine .bind (.ite (fun _ => .bind tame_send fun _ => .pure) fun _ => .pure) fun _ => ?_
  exact .ite (fun _ => .pure) fun _ => .bind tame_send fun _ => .pure

theorem tame_pumpRead : Tame pumpRead := by
  refine .get fun g => .ite (fun _ => .pure) fun _ => .bind tame_read ?_
  rintro ⟨result, data⟩
  refine .ite (fun _ => .bind tame_error fun _ => tame_modify) fun _ =>
    .bind tame_modify fun _ => ?_
  refine .bind tame_send fun _ => .bind tame_ask fun now => .bind tame_modify fun _ => ?_
  exact .ite (fun _ => tame_modify) fun _ => .pure

theorem tame_pump : Tame pump := by
  refine .get fun g => .ite (fun _ => .pure) fun _ => .ite (fun _ => tame_pumpRead) fun _ => ?_
  refine .bind ?_ fun changed => .ite (fun _ => .pure) fun _ => .bind ?_ fun _ => ?_
  · refine .bind tame_ask fun _ => .bind tame_ask fun runtime => .get fun g => ?_
    exact .ite (fun _ => .pure) fun _ => .bind tame_modify fun _ => .bind tame_send fun _ => .pure
  all_goals
    refine .bind tame_ask fun runtime => .get fun g => .bind tame_ask fun drained => ?_
    exact .bind tame_modify fun _ => tame_sendDrained

theorem tame_touch : Tame touch :=
  .bind tame_ask fun _ => tame_modify

theorem tame_receiveByte {build : Build} : Tame (receiveByte build fuel) := by
  refine .get fun g => .ite (fun _ => .pure) fun _ => .bind tame_ask fun byte => ?_
  cases byte
  case none      => exact .pure
  case some byte =>
  refine .get fun g => .bind tame_modify fun _ => ?_
  split
  case h_1 =>
    refine .bind tame_touch fun _ => .bind tame_handleFrame fun _ => .get fun g => ?_
    exact .ite (fun _ => .bind tame_touch fun _ => .pure) fun _ => .pure
  all_goals exact .pure

theorem tame_sessionTick {build : Build} : Tame (sessionTick build fuel) := by
  refine .get fun g => .ite (fun _ => .pure) fun _ => .bind tame_ask fun now => .get fun g => ?_
  refine .ite (fun _ => tame_sessionFinish) fun _ => .bind ?_ fun _ => tame_pump
  exact .loop (fun _ _ _ => trivial) fun _ => tame_receiveByte

theorem tame_sessionBegin : Tame (sessionBegin fuel) := by
  refine .get fun g => .ite (fun _ => .pure) fun _ => .bind tame_modify fun _ => ?_
  refine .bind tame_ask fun now => .bind tame_ask fun cursor => .bind tame_modify fun _ => ?_
  exact .bind tame_ask fun _ => .bind tame_ask fun _ => .bind tame_mount fun _ => .pure

theorem tame_shutdownRestore : Tame (shutdownRestore fuel) := by
  refine .get fun g => .ite (fun _ => .bind tame_mount fun _ => ?_) fun _ => ?_
  all_goals exact .modify fun _ _ h => h

theorem tame_expired {deadline : App.Deadline} : Tame (expired deadline) :=
  .ite (fun _ => .pure) fun _ => .bind tame_ask fun _ => .pure

theorem tame_shutdownPrepare {deadline : App.Deadline} :
    Tame (shutdownPrepare fuel deadline) := by
  refine .bind tame_expired fun late => .ite (fun _ => .pure) fun _ =>
    .bind tame_ask fun runtime => ?_
  refine .ite (fun _ => .bind tame_ask fun _ => .pure) fun _ => .bind tame_ask fun flushed => ?_
  refine .ite (fun _ => .pure) fun _ => .bind (tame_userfs Userfs.tame_getStatus) fun status => ?_
  refine .bind ?_ fun aborted => .ite (fun _ => .pure) fun _ => .bind ?_ fun unmounted => ?_
  · exact .ite (fun _ => .pure) fun _ => tame_userfs Userfs.tame_uploadAbort
  · refine .ite (fun _ => .pure) fun _ => .bind (tame_userfs Userfs.tame_unmount) fun result => ?_
    exact .ite (fun _ => .bind (.modify fun _ _ h => h) fun _ => .pure) fun _ => .pure
  refine .ite (fun _ => .pure) fun _ => .bind tame_expired fun late =>
    .ite (fun _ => ?_) fun _ => .pure
  exact .bind tame_shutdownRestore fun _ => .pure

theorem tame_perform {build : Build} {op : Op} : Tame (op.perform build fuel) := by
  cases op
  case sessionBegin    => exact tame_sessionBegin
  case sessionTick     => exact tame_sessionTick
  case shutdownPrepare => exact .map tame_shutdownPrepare
  case shutdownRestore => exact tame_shutdownRestore
  case files op        => exact .map (tame_userfs Userfs.tame_perform)

-- The calls that have been made, the latest first.
def note (calls : List (Userfs.Call ⊕ Call)) (c : Userfs.Call ⊕ Call)
    (_ : Sum.elim Userfs.Call.Reply Call.Reply c) : List (Userfs.Call ⊕ Call) :=
  c :: calls

theorem noted_perform {build : Build} {op : Op} {g : Globals} {calls : List (Userfs.Call ⊕ Call)}
    (hg : g.userfs.upload.Sound) (hc : ∀ c ∈ calls, Proper c) :
    wp (.observing note fun calls => ∀ c ∈ calls, Proper c) (op.perform build fuel)
      (fun _ g calls => g.userfs.upload.Sound ∧ ∀ c ∈ calls, Proper c) g calls := by
  have he : Ensures Proper (op.perform build fuel) (fun _ g => g.userfs.upload.Sound) g :=
    tame_perform g () hg
  refine he.keeps (fun calls => ∀ c ∈ calls, Proper c) ?_ (fun _ h => h) hc
  exact fun c calls h hc => ⟨hc, fun _ _ => List.forall_mem_cons.mpr ⟨h, hc⟩⟩

-- Whatever bytes a host sends and whatever littlefs answers, even where what it lists or has in
-- `.startup` is no name that the firmware would have written, no other names are handed to littlefs
-- than the root, those of the firmware's own files and valid names of files of the user. Only
-- temporary files are written to. They take the place of the others when they are complete.
theorem names_proper {build : Build} {es : List (Op × Option Unit)} {g : Globals}
    {calls : List (Userfs.Call ⊕ Call)}
    (r : Run (observing note) (Op.perform build fuel) none (fun _ _ _ _ => True) .zero [] es g
      calls) :
    (∀ c ∈ calls, Proper c) ∧ ∀ (op : Op) answers, ∀ c ∈ ((op.perform build fuel).run
      (observing note) g answers calls).world, Proper c := by
  have h : g.userfs.upload.Sound ∧ ∀ c ∈ calls, Proper c := by
    refine r.observed (fun calls => ∀ c ∈ calls, Proper c)
      (fun g calls => g.userfs.upload.Sound ∧ ∀ c ∈ calls, Proper c) ⟨.zero, by simp⟩ ?_
    exact fun _ _ _ _ _ h => noted_perform h.left h.right
  refine ⟨h.right, fun op answers => ?_⟩
  exact observed_world (noted_perform h.left h.right) fun _ _ _ h => h.right

-- Whether a call creates the file of the first upload.
def createsFirst : Userfs.Call ⊕ Call → Bool
  | .inl (.lfs c)            => c = .fileOpencfg (Userfs.temporaryName 1) .wronlyCreatExcl
  | .inl (.flash _) | .inr _ => false

theorem names_proper_uploading :
    ∃ es g calls, Run (observing note) (Op.perform .test 99) none (fun _ _ _ _ => True) .zero [] es
        g calls ∧ calls.any createsFirst ∧ ∀ c ∈ calls, Proper c :=
  have ⟨es, g, calls, r, hc⟩ := exists_run
    (P := fun _ _ calls => calls.any createsFirst) uploading (by decide +kernel)
  ⟨es, g, calls, r, hc, (names_proper r).left⟩

end Hmpy.Session
