import HackyLens.Lib.Run
import HackyLens.Storage.Theorems.Cleanup
import HackyLens.Storage.Theorems.Invariant

-- What is visible under a name only changes as a whole.

namespace Userfs

open Prog Lfs

-- The operations that were performed, the latest first.
abbrev History := List (Op × Option Result)

-- The chunks that were accepted since the latest upload was begun.
def accepted : History → List UInt8
  | []                                      => []
  | (.uploadBegin _ _ _ _, some .ok) :: _   => []
  | (.uploadWrite _ _ buffer, some .ok) :: es => accepted es ++ buffer.data
  | _ :: es                                 => accepted es

-- The latest upload that was begun, as its target, its size and its checksum.
def begun : History → Option (CString × UInt32 × UInt32)
  | []                                              => none
  | (.uploadBegin name size crc32 _, some .ok) :: _ => some (normalName (name.getD []), size, crc32)
  | _ :: es                                         => begun es

-- What is stored when `bytes` were to be written.
structure Stored (bytes data : List UInt8) : Prop where
  length_le : data.length ≤ Fs.fileMax
  eq : data.length = bytes.length → data = bytes

namespace Stored

variable {bytes data part : List UInt8}

theorem nil : Stored bytes [] where
  length_le := Nat.zero_le _
  eq h      := (List.length_eq_zero_iff.mp h.symm).symm

-- Parts of a chunk that is not accepted.
theorem append (h : Stored bytes data) (hl : bytes.length ≤ data.length)
    (hp : part ≠ [] → (data ++ part).length ≤ Fs.fileMax) : Stored bytes (data ++ part) := by
  by_cases hn : part = []
  case pos => rwa [hn, List.append_nil]
  case neg =>
    refine ⟨hp hn, fun he => ?_⟩
    have := List.length_pos_iff.mpr hn
    rw [List.length_append] at he
    omega

-- A chunk that is accepted.
theorem accept (h : Stored bytes data) (hp : part ≠ [] → (data ++ part).length ≤ Fs.fileMax) :
    Stored (bytes ++ part) (data ++ part) where
  length_le := by
    by_cases hn : part = []
    case pos => rw [hn, List.append_nil]; exact h.length_le
    case neg => exact hp hn
  eq he := by
    rw [h.eq]
    simpa using he

end Stored

-- The offset after a chunk that fits.
theorem offset_add {offset size : UInt32} {length : Nat} (h : offset ≤ size)
    (hl : length ≤ (size - offset).toNat) :
    (offset + length.toUInt32).toNat = offset.toNat + length ∧ offset + length.toUInt32 ≤ size := by
  have hs := size.toNat_lt
  rw [UInt32.toNat_sub_of_le _ _ h] at hl
  rw [UInt32.le_iff_toNat_le] at h ⊢
  have hn : length.toUInt32.toNat = length := Nat.mod_eq_of_lt (by omega)
  have ha : (offset + length.toUInt32).toNat = offset.toNat + length := by
    rw [UInt32.toNat_add, hn]
    exact Nat.mod_eq_of_lt (by omega)
  exact ⟨ha, by omega⟩

theorem Buffer.length_data {buffer : Buffer} (h : buffer.missing = false) :
    buffer.data.length = buffer.length := by
  cases buffer
  case null n  =>
    have hn : n = 0 := by simpa [missing] using h
    exact hn.symm
  case bytes _ => rfl

-- How an upload's file goes with what was accepted.
inductive Uploaded (bytes : List UInt8) (upload : Upload) (fs : Fs) : Prop
  | writing (data : List UInt8) : upload.fileOpen → Stored bytes data → bytes.length ≤ data.length →
    fs.opened upload.file = some ⟨upload.temporary, true, data, 0⟩ →
    fs.find upload.temporary = some (.reg []) → Uploaded bytes upload fs
  | closed : upload.fileOpen = false → upload.offset = upload.expectedSize →
    fs.opened upload.file = none →
    (∀ data, fs.find upload.temporary = some (.reg data) → Stored bytes data) →
    Uploaded bytes upload fs

structure Uploading (es : History) (upload : Upload) (fs : Fs) : Prop where
  begun : begun es = some (upload.target, upload.expectedSize, upload.expectedCrc)
  offset_eq : upload.offset.toNat = (accepted es).length
  offset_le : upload.offset ≤ upload.expectedSize
  expectedSize_le : upload.expectedSize ≤ fileMax
  number_le : upload.file.number ≤ fs.nextNumber
  uploaded : Uploaded (accepted es) upload fs

variable {es es' : History} {upload : Upload} {s : Ram} {fs fs' : Fs} {fuel : Nat}

theorem Uploading.reads (h : Uploading es upload fs) (hr : Reads fs fs')
    (hb : Userfs.begun es' = Userfs.begun es) (ha : accepted es' = accepted es) :
    Uploading es' upload fs' := by
  have ho := hr.opened_eq _ h.number_le
  refine ⟨hb ▸ h.begun, ha ▸ h.offset_eq, h.offset_le, h.expectedSize_le,
    h.number_le.trans hr.nextNumber_le, ?_⟩
  rw [ha]
  cases h.uploaded
  case writing data hf hs hl hd ht => exact .writing data hf hs hl (ho.trans hd) (hr.find_eq _ ▸ ht)
  case closed hf he hd ht          => exact .closed hf he (ho.trans hd) (hr.find_eq _ ▸ ht)

theorem Uploading.stored {data : List UInt8} (h : Uploading es { upload with fileOpen := false } fs)
    (hd : fs.find upload.temporary = some (.reg data)) : Stored (accepted es) data := by
  cases h.uploaded
  case writing hf _ _ _ _ => cases hf
  case closed _ _ _ hs    => exact hs data hd

-- What holds between two operations.
structure Uploads (es : History) (s : Ram) (fs : Fs) : Prop where
  ok : s.Ok
  wf : fs.Wf
  uploading : s.upload.active → Uploading es s.upload fs

namespace Uploads

theorem reads {s' : Ram} (h : Uploads es s fs) (hf : Frame s s') (hr : Reads fs fs')
    (hb : begun es' = begun es) (ha : accepted es' = accepted es) : Uploads es' s' fs' := by
  refine ⟨h.ok.frame hf, hr.wf, ?_⟩
  rw [hf.upload_eq]
  exact fun hu => (h.uploading hu).reads hr hb ha

theorem of_inactive (hw : fs.Wf) (ha : s.upload.active = false) : Uploads es s fs :=
  ⟨.of_inactive ha, hw, by simp [ha]⟩

end Uploads

-- The names that an operation may change, apart from the target of a commit.
def Op.Changes : Op → CString → Prop
  | remove name, path    => Hidden path ∨ path = normalName (name.getD [])
  | formatExplicit, _    => True
  | _, path              => Hidden path

theorem Op.changes_of_hidden {op : Op} {path : CString} (h : Hidden path) : op.Changes path := by
  cases op
  case remove         => exact .inl h
  case formatExplicit => trivial
  all_goals exact h

theorem Op.changes_of_temporary {op : Op} (path : CString) (h : Temporary path) : op.Changes path :=
  changes_of_hidden h.hidden

-- What a commit that succeeds has put under the target's name.
def Committed (es : History) (fs fs' : Fs) : Prop :=
  ∃ target size crc32, begun es = some (target, size, crc32) ∧
    fs'.find target = some (.reg (accepted es)) ∧ (accepted es).length = size.toNat ∧
    Core.crc32Update 0 (accepted es) = crc32 ∧
    ∀ name, ¬Hidden name → name ≠ target → fs'.find name = fs.find name

def Op.Commits : Op → Result → Prop
  | uploadCommit _, .ok => True
  | _,              _   => False

theorem Op.commits_iff {op : Op} {r : Result} :
    op.Commits r ↔ (∃ id, op = .uploadCommit id) ∧ r = .ok := by
  constructor
  · intro h
    cases op <;> cases r <;> first | exact h.elim | exact ⟨⟨_, rfl⟩, rfl⟩
  · rintro ⟨⟨_, rfl⟩, rfl⟩
    trivial

-- After an operation.
structure Performed (es : History) (op : Op) (fs : Fs) (r : Result) (s' : Ram) (fs' : Fs) : Prop where
  uploads : Uploads ((op, some r) :: es) s' fs'
  committed : op.Commits r → Committed es fs fs'
  kept : ¬op.Commits r → Kept op.Changes fs fs'

-- The operation neither begins an upload, nor adds to it, nor publishes it.
structure Op.Silent (op : Op) (r : Result) : Prop where
  begun : ∀ es, begun ((op, some r) :: es) = begun es
  accepted : ∀ es, accepted ((op, some r) :: es) = accepted es
  not_commits : ¬op.Commits r

theorem Op.silent_of_ne_ok {op : Op} {r : Result} (h : r ≠ .ok) : op.Silent r := by
  constructor
  case not_commits => cases op <;> cases r <;> first | exact absurd rfl h | exact id
  all_goals
    intro es
    cases op <;> cases r <;> first | exact absurd rfl h | rfl

namespace Uploads

variable {op : Op} {α : Type} {ok : Userfs.Call → Prop}

theorem performed {r : Result} {s' : Ram} (h : Uploads es s fs) (hr : op.Silent r)
    (hf : Frame s s') (hr' : Reads fs fs') : Performed es op fs r s' fs' :=
  ⟨h.reads hf hr' (hr.begun es) (hr.accepted es), fun hc => absurd hc hr.not_commits,
    fun _ => hr'.kept <| .refl h.wf⟩

-- A function that only reads.
theorem of_reads {p : Userfs.Task Result} (h : Uploads es s fs) (hs : ∀ r, op.Silent r)
    (hp : wp (env (Kept op.Changes fs)) p (fun _ s' fs' => Frame s s' ∧ Reads fs fs') s fs) :
    wp (env (Kept op.Changes fs)) p (Performed es op fs) s fs :=
  wp_mono hp fun r _ _ ⟨hf, hr⟩ => h.performed (hs r) hf hr

-- A function that makes no call, and refuses to begin an upload.
theorem of_refused {p : Userfs.Task Result} (h : Uploads es s fs)
    (hp : Ensures (fun _ => False) p (fun r s' => op.Silent r ∧ Frame s s') s) :
    wp (env (Kept op.Changes fs)) p (Performed es op fs) s fs := by
  refine wp_mono (hp.keeps (E := env _) (· = fs) nofun ?_ rfl) ?_
  · rintro _ rfl
    exact .refl h.wf
  · rintro r s' _ ⟨⟨hs, hf⟩, rfl⟩
    exact h.performed hs hf (.refl h.wf)

-- A function after which no upload is active.
theorem of_confined {p : Userfs.Task Result} {Q : Result → Ram → Prop} (h : Uploads es s fs)
    (hp : Ensures ok p Q s) (hc : ∀ c, ok c → Confined op.Changes c) (hn : ∀ r, ¬op.Commits r)
    (hq : ∀ r s', Q r s' → s'.upload.active = false) :
    wp (env (Kept op.Changes fs)) p (Performed es op fs) s fs := by
  refine wp_mono (wp_kept hp (.refl h.wf) Op.changes_of_temporary hc fun _ => id) ?_
  exact fun r s' fs' ⟨hQ, hk⟩ =>
    ⟨of_inactive hk.wf (hq r s' hQ), fun hc => absurd hc (hn r), fun _ => hk⟩

end Uploads

-- The operations that are refused while an upload is active.
def Op.Excluded : Op → Prop
  | list _ | read _ _ _ _ _ | remove _ | uploadBegin _ _ _ _ | setStartup _ => True
  | _                                                                       => False

theorem excluded_busy {op : Op} (he : op.Excluded) (hm : s.state = .mounted) (ha : s.upload.active) :
    Ensures (fun _ => False) (op.perform fuel) (fun r s' => r = .errorBusy ∧ Frame s s') s := by
  cases op <;> cases he
  all_goals
    simp only [Op.perform, Ensures, wp_map, list, read, remove, uploadBegin, setStartup, remember,
      wp_bind, wp_get, wp_ite, wp_pure, wp_modify]
    rw [if_neg (by simp [hm]), if_pos ha]
    exact ⟨trivial, _, rfl⟩

theorem changes_confined {op : Op} {c : Call} (h : Confined Temporary c) : Confined op.Changes c :=
  h.mono Op.changes_of_temporary

namespace Uploads

theorem mount (h : Uploads es s fs) :
    wp (env (Kept (Op.Changes .mount) fs)) (mount fuel) (Performed es .mount fs) s fs := by
  by_cases hs : s.state = .mounted
  case pos => exact h.of_refused <| (mount_mounted hs).mono fun _ _ hf => ⟨⟨fun _ => rfl, fun _ => rfl, id⟩, hf⟩
  case neg =>
    refine h.of_confined (mount_tidy hs) (fun _ hc => changes_confined <| confined_of_tidy hc) (fun _ => id) ?_
    rintro _ s' ⟨hu | hu, -⟩
    · exact hu ▸ h.ok.inactive hs
    · exact hu ▸ rfl

theorem unmount (h : Uploads es s fs) :
    wp (env (Kept (Op.Changes .unmount) fs)) unmount (Performed es .unmount fs) s fs :=
  h.of_confined h.ok.unmount (fun _ hc => changes_confined <| h.ok.unmount_confined hc)
    (fun _ => id) fun _ _ => id

theorem formatExplicit (h : Uploads es s fs) :
    wp (env (Kept (Op.Changes .formatExplicit) fs)) (formatExplicit fuel)
      (Performed es .formatExplicit fs) s fs := by
  refine h.of_confined h.ok.formatExplicit ?_ (fun _ => id) fun _ _ => id
  rintro _ (hc | hc | _)
  · exact changes_confined <| h.ok.unmount_confined hc
  · exact changes_confined <| confined_of_tidy hc
  · exact fun _ => trivial

theorem getStatus (h : Uploads es s fs) :
    wp (env (Kept (Op.Changes .getStatus) fs)) (Op.perform fuel .getStatus) (Performed es .getStatus fs)
      s fs := by
  refine h.of_reads (fun _ => ⟨fun _ => rfl, fun _ => rfl, id⟩) ?_
  have kept : Frame s s ∧ Reads fs fs := ⟨.refl s, .refl h.wf⟩
  simp only [Op.perform, Userfs.getStatus, wp_map, wp_bind, wp_get]
  split
  case isTrue  =>
    rw [wp_bind]
    exact wp_lfs_not_write (Kept.refl h.wf) (by rintro _ _ ⟨⟩) (fun _ => kept) fun _ _ _ => kept
  case isFalse => exact kept

theorem stat {name : Option CString} {size : Bool} (h : Uploads es s fs) :
    wp (env (Kept (Op.Changes (.stat name size)) fs)) (Op.perform fuel (.stat name size))
      (Performed es (.stat name size) fs) s fs := by
  refine h.of_reads (fun _ => ⟨fun _ => rfl, fun _ => rfl, id⟩) ?_
  rw [Op.perform, wp_map]
  refine stat_frame.and_wp ?_
  have kept : Reads fs fs := .refl h.wf
  simp only [Userfs.stat, remember, wp_bind, wp_get, wp_ite, wp_pure, wp_modify]
  split
  · exact kept
  split
  · exact kept
  refine wp_stat (.refl h.wf) (fun entry _ => ?_) fun e => kept
  simp only [wp_ite, wp_bind, wp_pure, wp_modify]
  split <;> exact kept

theorem getStartup {name : Bool} {capacity : Nat} (h : Uploads es s fs) :
    wp (env (Kept (Op.Changes (.getStartup name capacity)) fs))
      (Op.perform fuel (.getStartup name capacity)) (Performed es (.getStartup name capacity) fs) s fs := by
  refine h.of_reads (fun _ => ⟨fun _ => rfl, fun _ => rfl, id⟩) ?_
  rw [Op.perform, wp_map]
  exact getStartup_reads (fun _ hr => hr.kept <| .refl h.wf) h.wf

-- The operations that are refused while an upload is active, and the calls that they make otherwise.
theorem excluded {op : Op} {ok : Call → Prop} (h : Uploads es s fs) (he : op.Excluded)
    (hp : Ensures ok (op.perform fuel) (fun _ => Frame s) s) (hc : ∀ c, ok c → Confined op.Changes c) :
    wp (env (Kept op.Changes fs)) (op.perform fuel) (Performed es op fs) s fs := by
  by_cases ha : s.upload.active
  case pos =>
    refine h.of_refused <| (excluded_busy he (h.ok.mounted ha) ha).mono ?_
    rintro _ _ ⟨rfl, hf⟩
    exact ⟨Op.silent_of_ne_ok nofun, hf⟩
  case neg =>
    refine h.of_confined hp hc (fun r hr => ?_) ?_
    · cases op <;> first | exact he | exact hr
    exact fun _ _ hf => hf.upload_eq ▸ by simpa using ha

theorem uploadAbort {id : UInt32} (h : Uploads es s fs) :
    wp (env (Kept (Op.Changes (.uploadAbort id)) fs)) (uploadAbort id)
      (Performed es (.uploadAbort id) fs) s fs := by
  by_cases hc : s.upload.active ∧ id = s.upload.id
  case pos =>
    refine h.of_confined uploadAbort_spec
      (fun _ hc => changes_confined <| h.ok.abort_confined hc) (fun _ h => h) ?_
    rintro r s' ⟨hok, hne⟩
    by_cases hr : r = .ok
    case pos => exact (hok hr).upload ▸ rfl
    case neg => exact absurd hc (hne hr).left
  case neg =>
    simp only [Userfs.uploadAbort, remember, wp_bind, wp_get, wp_ite, wp_pure, wp_modify]
    rw [if_pos]
    · exact h.performed (Op.silent_of_ne_ok (by rintro ⟨⟩)) ⟨_, rfl⟩ (.refl h.wf)
    · rw [Bool.or_eq_true, Bool.not_eq_true', bne_iff_ne, ← Bool.not_eq_true]
      exact not_and_or.mp hc

theorem uploadBegin {name : Option CString} {size crc32 : UInt32} {uploadId : Bool}
    (h : Uploads es s fs) :
    wp (env (Kept (Op.Changes (.uploadBegin name size crc32 uploadId)) fs))
      (Op.perform fuel (.uploadBegin name size crc32 uploadId))
      (Performed es (.uploadBegin name size crc32 uploadId) fs) s fs := by
  have refused (r : Result) (lastError : Result) (hr : r ≠ .ok) :
      Performed es (.uploadBegin name size crc32 uploadId) fs r { s with lastError } fs :=
    h.performed (Op.silent_of_ne_ok hr) ⟨_, rfl⟩ (.refl h.wf)
  simp only [Op.perform, Userfs.uploadBegin, remember, clearUpload, wp_map, wp_bind, wp_get, wp_ite,
    wp_pure, wp_modify]
  split
  · exact refused _ _ (by rintro ⟨⟩)
  case isFalse hm =>
  split
  · exact refused _ _ (by rintro ⟨⟩)
  case isFalse ha =>
  split
  · exact refused _ _ (by rintro ⟨⟩)
  case isFalse hv =>
  simp only [Bool.or_eq_true, Bool.not_eq_true', decide_eq_true_eq, not_or, Bool.not_eq_false,
    UInt32.not_lt] at hv
  have ht := temporaryName_temporary s.nextId
  refine wp_confined (T := Hidden) (.refl h.wf) (.refl h.wf) (fun _ => Temporary.hidden) ht.hidden ?_
  intro _ fs' hk
  refine wp_create (fun _ => id) hk ht.hidden ht (fun file fs'' hk' ho hf => ?_) fun e => ?_
  case refine_2 =>
    exact ⟨of_inactive hk.wf rfl, (by rintro ⟨⟩), fun _ => hk⟩
  case refine_1 =>
    cases name
    case none => cases hv.left.right
    case some name =>
    have hn := validName_iff.mp hv.left.right
    have htake : (normalName name).take nameMax = normalName name := List.take_of_length_le hn.length_le
    refine ⟨⟨⟨fun _ => by simpa using hm, fun _ => ht, fun _ => ?_⟩, hk'.wf, fun _ => ?_⟩, (by rintro ⟨⟩),
      fun _ => hk'⟩
    case refine_1 => exact fun hh => hn.visible (htake ▸ hh)
    case refine_2 =>
      refine ⟨?_, rfl, UInt32.zero_le, hv.right, (hk'.wf file _ ho).number_le, ?_⟩
      · simp only [begun, Option.getD_some, htake]
      · exact .writing [] rfl .nil (Nat.le_refl _) ho hf

theorem uploadWrite {id offset : UInt32} {buffer : Buffer} (h : Uploads es s fs) :
    wp (env (Kept (Op.Changes (.uploadWrite id offset buffer)) fs)) (uploadWrite id offset buffer)
      (Performed es (.uploadWrite id offset buffer) fs) s fs := by
  have refused (r : Result) (lastError : Result) (hr : r ≠ .ok) :
      Performed es (.uploadWrite id offset buffer) fs r { s with lastError } fs :=
    h.performed (Op.silent_of_ne_ok hr) ⟨_, rfl⟩ (.refl h.wf)
  simp only [Userfs.uploadWrite, remember, wp_bind, wp_get, wp_ite, wp_pure, wp_modify]
  split
  · exact refused _ _ (by rintro ⟨⟩)
  case isFalse ha =>
  split
  · exact refused _ _ (by rintro ⟨⟩)
  case isFalse ho =>
  split
  · exact refused _ _ (by rintro ⟨⟩)
  case isFalse hl =>
  simp only [Bool.or_eq_true, Bool.not_eq_true', bne_iff_ne, decide_eq_true_eq, not_or,
    Bool.not_eq_false, Bool.not_eq_true, Nat.not_lt, ne_eq, Decidable.not_not] at ha ho hl
  obtain ⟨⟨hmissing, _⟩, hroom⟩ := hl
  have hb := buffer.length_data hmissing
  have hu := h.uploading ha.left
  obtain ⟨hadd, hle⟩ := offset_add hu.offset_le hroom
  -- It remains to show what the file is like.
  have failed {r : Result} {lastError : Result} {fs'} (hr : r ≠ .ok) (hk : Kept Hidden fs fs')
      (hn : s.upload.file.number ≤ fs'.nextNumber) (hup : Uploaded (accepted es) s.upload fs') :
      Performed es (.uploadWrite id offset buffer) fs r { s with lastError } fs' := by
    have hs := @Op.silent_of_ne_ok (.uploadWrite id offset buffer) r hr
    have ha := hs.accepted es
    refine ⟨⟨h.ok.frame ⟨_, rfl⟩, hk.wf, fun _ => ?_⟩, (by rintro ⟨⟩), fun _ => hk⟩
    exact ⟨hs.begun es ▸ hu.begun, ha ▸ hu.offset_eq, hu.offset_le, hu.expectedSize_le, hn, ha ▸ hup⟩
  have accepts {fs'} (hk : Kept Hidden fs fs') (hn : s.upload.file.number ≤ fs'.nextNumber)
      (hup : Uploaded (accepted es ++ buffer.data)
        { s.upload with offset := s.upload.offset + buffer.length.toUInt32 } fs') :
      Performed es (.uploadWrite id offset buffer) fs .ok { s with
        upload := { s.upload with offset := s.upload.offset + buffer.length.toUInt32 }
        lastError := .ok
      } fs' := by
    refine ⟨⟨⟨h.ok.mounted, h.ok.temporary, h.ok.target⟩, hk.wf, fun _ => ?_⟩, (by rintro ⟨⟩), fun _ => hk⟩
    refine ⟨hu.begun, ?_, hle, hu.expectedSize_le, hn, hup⟩
    rw [hadd, hu.offset_eq, accepted, List.length_append, hb]
  cases hu.uploaded
  case closed hf he hd hs =>
    -- Nothing is left to be written.
    have hz : buffer.length = 0 := by simpa [he] using hroom
    refine wp_dead (.refl h.wf) rfl hd fun r => ?_
    split
    case h_1 | h_2 => exact failed (by rintro ⟨⟩) (.refl h.wf) hu.number_le hu.uploaded
    case h_3 written =>
    simp only [wp_ite, wp_bind, wp_pure, wp_modify]
    split
    case isTrue  => exact failed (by rintro ⟨⟩) (.refl h.wf) hu.number_le hu.uploaded
    case isFalse =>
    refine accepts (.refl h.wf) hu.number_le ?_
    rw [List.eq_nil_of_length_eq_zero (hb.trans hz), List.append_nil]
    exact .closed hf (by simp [hz, he]) hd hs
  case writing data hf hs hle hd ht =>
    refine wp_append (fun _ h => h) (.refl h.wf) hd fun r kept fs' hk he ho hr hmax => ?_
    have ht' : fs'.find s.upload.temporary = some (.reg []) := by rw [Fs.find, he]; exact ht
    have hn := (hk.wf _ _ ho).number_le
    have hup : Uploaded (accepted es) s.upload fs' := by
      refine .writing _ hf (hs.append hle fun hp => ?_) ?_ ho ht'
      · exact List.length_append ▸ hmax hp
      · exact hle.trans <| List.length_append ▸ Nat.le_add_right _ _
    split
    case h_1 | h_2 => exact failed (by rintro ⟨⟩) hk hn hup
    case h_3 written =>
    simp only [wp_ite, wp_bind, wp_pure, wp_modify]
    split
    case isTrue => exact failed (by rintro ⟨⟩) hk hn hup
    case isFalse hw =>
    have hkept : buffer.data.take kept = buffer.data := by
      rw [hr <| congrArg _ <| (Decidable.not_not.mp hw).trans hb.symm, List.take_length]
    rw [hkept] at ho hmax
    refine accepts hk hn <| .writing _ hf (hs.accept fun hp => ?_) ?_ ho ht'
    · exact List.length_append ▸ hmax hp
    · simpa using hle

-- The file is closed, whether it was open or not.
theorem syncClose (h : Uploads es s fs) (ha : s.upload.active)
    (he : s.upload.offset = s.upload.expectedSize) :
    wp (env (Kept Hidden fs)) (syncClose s.upload.file) (fun _ s' fs' => s' = s ∧
      Kept Hidden fs fs' ∧ Uploading es { s.upload with fileOpen := false } fs') s fs := by
  have hu := h.uploading ha
  have hk := Kept.refl (T := Hidden) h.wf
  cases hu.uploaded
  case closed hf _ hd hs =>
    simp only [Userfs.syncClose, wp_bind, wp_pure]
    refine wp_dead hk rfl hd fun _ => wp_dead hk rfl hd fun _ => ⟨rfl, hk, ?_⟩
    exact ⟨hu.begun, hu.offset_eq, hu.offset_le, hu.expectedSize_le, hu.number_le,
      .closed rfl he hd hs⟩
  case writing data hf hs hle hd ht =>
    refine wp_mono (syncClose_closed (fun _ h => h) (fun _ => Temporary.hidden) hk hd rfl) ?_
    rintro r s fs' ⟨rfl, hc⟩
    refine ⟨rfl, hc.kept, hu.begun, hu.offset_eq, hu.offset_le, hu.expectedSize_le,
      hc.nextNumber_eq ▸ hu.number_le, .closed rfl he hc.opened fun data' hd' => ?_⟩
    cases hc.find
    case inl hf => cases Option.some.inj <| hd'.symm.trans (hf.trans ht); exact .nil
    case inr hf => cases Option.some.inj <| hd'.symm.trans hf; exact hs

theorem uploadCommit {id : UInt32} (h : Uploads es s fs) :
    wp (env (Kept (Op.Changes (.uploadCommit id)) fs)) (uploadCommit fuel id)
      (Performed es (.uploadCommit id) fs) s fs := by
  simp only [Userfs.uploadCommit, remember, clearUpload, wp_bind, wp_get, wp_ite, wp_pure, wp_modify]
  have refused (r : Result) (lastError : Result) (hr : r ≠ .ok) :
      Performed es (.uploadCommit id) fs r { s with lastError } fs :=
    h.performed (Op.silent_of_ne_ok hr) ⟨_, rfl⟩ (.refl h.wf)
  split
  · exact refused _ _ (by rintro ⟨⟩)
  case isFalse ha =>
  split
  · exact refused _ _ (by rintro ⟨⟩)
  case isFalse he =>
  simp only [Bool.or_eq_true, Bool.not_eq_true', bne_iff_ne, not_or, Bool.not_eq_false, ne_eq,
    Decidable.not_not] at ha he
  refine wp_mono (h.syncClose ha.left he) ?_
  rintro result s fs₁ ⟨rfl, hk, hu⟩
  have failed {r : Result} {lastError : Result} {fs₂} (hr : r ≠ .ok) (hr' : Reads fs₁ fs₂) :
      Performed es (.uploadCommit id) fs r
        { s with upload := { s.upload with fileOpen := false }, lastError } fs₂ := by
    have hs := @Op.silent_of_ne_ok (.uploadCommit id) r hr
    refine ⟨⟨⟨h.ok.mounted, h.ok.temporary, h.ok.target⟩, hr'.wf, fun _ => ?_⟩,
      fun hc => absurd hc hs.not_commits, fun _ => hr'.kept hk⟩
    exact hu.reads hr' (hs.begun es) (hs.accepted es)
  split
  case isTrue hr => exact failed (fun h => by simp [fromLfs_eq_ok h] at hr) (.refl hk.wf)
  refine wp_mono (verifyUpload_reads (fun _ hr => hr.kept hk) hk.wf) ?_
  rintro verify s' fs₂ ⟨rfl, hr, hv⟩
  split
  case isTrue hne => exact failed hne hr
  case isFalse hok =>
  refine wp_rename (hr.kept hk) (fun entry hf => ?_) fun e => failed (fromError_ne_ok e) hr
  obtain ⟨data, hd, hsize, hcrc⟩ := hv <| Decidable.not_not.mp hok
  have hl : data.length = (accepted es).length := by
    rw [← hu.offset_eq, he, ← hsize]
    exact (Nat.mod_eq_of_lt <| Nat.lt_of_le_of_lt (hu.stored hd).length_le (by decide)).symm
  have heq := (hu.stored hd).eq hl
  refine ⟨of_inactive (hr.kept hk).wf rfl, fun _ => ⟨_, _, _, hu.begun, ?_, ?_, ?_, ?_⟩,
    fun hc => absurd trivial hc⟩
  case refine_1 =>
    rw [hr.find_eq, hd] at hf
    cases hf
    exact heq ▸ AList.lookup_insert ..
  case refine_2 => rw [← hu.offset_eq, he]
  case refine_3 => exact heq ▸ hcrc
  case refine_4 =>
    intro name hn ht
    refine (AList.lookup_insert_ne ht).trans <| (AList.lookup_erase_ne ?_).trans ((hr.kept hk).find name hn)
    rintro rfl
    exact hn (h.ok.temporary ha.left).hidden

theorem perform {op : Op} (h : Uploads es s fs) :
    wp (env (Kept op.Changes fs)) (op.perform fuel) (Performed es op fs) s fs := by
  have mapped {α} {ok} {p : Userfs.Task α} {f : α → Result}
      (hp : Ensures ok p (fun _ => Frame s) s) : Ensures ok (f <$> p) (fun _ => Frame s) s := by
    rw [Ensures, wp_map]
    exact hp
  cases op
  case mount          => exact h.mount
  case unmount        => exact h.unmount
  case formatExplicit => exact h.formatExplicit
  case getStatus      => exact h.getStatus
  case stat           => exact h.stat
  case getStartup     => exact h.getStartup
  case uploadWrite    => exact h.uploadWrite
  case uploadCommit   => exact h.uploadCommit
  case uploadAbort    => exact h.uploadAbort
  case uploadBegin    => exact h.uploadBegin
  case list           =>
    exact h.excluded trivial (mapped list_tidy) fun _ hc => changes_confined <| confined_of_tidy hc
  case read name _ _ _ _ =>
    refine h.excluded trivial (mapped <| read_frame) ?_
    rintro _ (_ | _ | _ | _) <;> trivial
  case setStartup name =>
    refine h.excluded trivial setStartup_frame ?_
    rintro _ (_ | _ | _ | _ | _ | _ | _ | _)
    case clear   => exact startupFile_hidden
    case cleanup => exact metaTemp_temporary.hidden
    case «open»  => exact ⟨metaTemp_temporary.hidden, metaTemp_temporary⟩
    case rename  => exact ⟨metaTemp_temporary.hidden, startupFile_hidden⟩
    all_goals trivial
  case remove name =>
    refine h.excluded trivial remove_frame ?_
    rintro _ (hc | _ | _)
    · cases hc <;> trivial
    · exact .inl startupFile_hidden
    · exact .inr rfl

end Uploads

-- How one more operation may end, also when it is cut short or does not end.
structure Atomic (fuel : Nat) (es : History) (op : Op) (ds : List Decision) (s : Ram) (fs : Fs)
    (o : Outcome (Result × Ram) Fs) : Prop where
  -- Only a format, a removal and a commit that succeeds change what is visible under a name.
  visible : ∀ name, ¬Hidden name → o.world.find name ≠ fs.find name →
    op = .formatExplicit ∨ (∃ path, op = .remove path ∧ name = normalName (path.getD [])) ∨
      (∃ id, op = .uploadCommit id) ∧ o.result.map Prod.fst = some .ok ∧
        ∃ size crc32, begun es = some (name, size, crc32)
  -- A commit that succeeds publishes what was accepted.
  committed : ∀ id, op = .uploadCommit id → o.result.map Prod.fst = some .ok →
    Committed es fs o.world
  -- A mount whose calls to littlefs all succeed ends, and removes the temporary files.
  cleaned : op = .mount → s.state ≠ .mounted → (∀ d ∈ ds, d.fault = none) →
    fs.entries.keys.length + 2 < fuel → (∀ fs', o ≠ .hung fs') ∧
      (o.result.map Prod.fst = some .ok → ∀ name, Temporary name → o.world.find name = none)

theorem Uploads.meets (h : Uploads es s fs) (op : Op) (ds : List Decision) (fuel : Nat) :
    ((op.perform fuel).run Lfs.handler s ds fs).Meets (env (Kept op.Changes fs))
      fun a => Performed es op fs a.fst a.snd :=
  run_meets (fun _ _ => trivial) h.perform

theorem uploads_of_run {fs₀ : Fs} (r : Run Lfs.handler (Op.perform fuel) (some .zero)
    (fun _ _ _ _ => True) .zero fs₀ es s fs) (hw : fs₀.Wf) : Uploads es s fs := by
  refine r.invariant Uploads (.of_inactive hw rfl) ?_
  intro es s fs op ds _ h
  have hm := h.meets op ds fuel
  revert hm
  cases (op.perform fuel).run Lfs.handler s ds fs
  case done => exact fun hm => hm.uploads
  all_goals rintro hm _ ⟨⟩
  case cut  => exact .of_inactive hm.choose_spec.wf rfl
  case hung => exact .of_inactive hm.wf rfl

theorem Op.changes_of_ne {op : Op} {name : CString} (hk : Kept op.Changes fs fs') (hn : ¬Hidden name)
    (hne : fs'.find name ≠ fs.find name) :
    op = .formatExplicit ∨ ∃ path, op = .remove path ∧ name = normalName (path.getD []) := by
  have hc : op.Changes name := by
    by_contra hc
    exact hne (hk.find name hc)
  cases op
  case remove path    => exact .inr ⟨path, rfl, hc.resolve_left hn⟩
  case formatExplicit => exact .inl rfl
  all_goals exact absurd hc hn

-- In every run, what is visible under a name changes only as a whole, and every commit that succeeds
-- publishes the chunks that were accepted.
theorem publish_atomic {fs₀ : Fs} (r : Run Lfs.handler (Op.perform fuel) (some .zero)
    (fun _ _ _ _ => True) .zero fs₀ es s fs) (hw : fs₀.Wf) (hs : fs₀.Short) (op : Op)
    (ds : List Decision) : Atomic fuel es op ds s fs ((op.perform fuel).run Lfs.handler s ds fs) := by
  have hm := (uploads_of_run r hw).meets op ds fuel
  refine ⟨?_, ?_, ?_⟩
  case refine_1 =>
    revert hm
    cases (op.perform fuel).run Lfs.handler s ds fs
    case cut  => exact fun ⟨_, hk⟩ _ hn hne => (Op.changes_of_ne hk hn hne).imp_right .inl
    case hung => exact fun hk _ hn hne => (Op.changes_of_ne hk hn hne).imp_right .inl
    case done a fs' =>
      intro hm name hn hne
      by_cases hc : op.Commits a.fst
      case neg => exact (Op.changes_of_ne (hm.kept hc) hn hne).imp_right .inl
      case pos =>
        obtain ⟨target, size, crc32, hb, _, _, _, hf⟩ := hm.committed hc
        have ht : name = target := by
          by_contra ht
          exact hne (hf name hn ht)
        obtain ⟨hop, hr⟩ := Op.commits_iff.mp hc
        exact .inr <| .inr ⟨hop, congrArg some hr, size, crc32, ht ▸ hb⟩
  case refine_2 =>
    rintro id rfl
    revert hm
    cases (Op.perform fuel (.uploadCommit id)).run Lfs.handler s ds fs
    case done a fs' =>
      intro hm hr
      exact hm.committed <| Op.commits_iff.mpr ⟨⟨id, rfl⟩, Option.some.inj hr⟩
    all_goals exact fun _ hr => nomatch hr
  case refine_3 =>
    rintro rfl hs' hd hf
    have hs := r.world_invariant Fs.Short hs fun _ _ _ h => h.handler
    have hm := mount_meets hd hs' hs hf
    revert hm
    rw [Op.perform]
    cases (mount fuel).run Lfs.handler s ds fs
    case done a fs' => exact fun hm => ⟨(by rintro _ ⟨⟩), fun hr => hm <| Option.some.inj hr⟩
    case cut fs'    => exact fun _ => ⟨(by rintro _ ⟨⟩), (by rintro ⟨⟩)⟩
    case hung fs'   => exact fun hm => hm.elim

-- The upload of a file that is then committed.
def uploading : List (Op × List Decision) := [
  (.mount, .replicate 8 .passes),
  (.uploadBegin (some (ascii "a")) 2 (Core.crc32Update 0 (ascii "hi")) true, .replicate 2 .passes),
  (.uploadWrite 1 0 (.bytes (ascii "hi")), [.passes])
]

theorem publish_atomic_commit :
    ∃ es s fs, Run Lfs.handler (Op.perform 8) (some .zero) (fun _ _ _ _ => True) .zero .empty es s fs ∧
      accepted es = ascii "hi" ∧
      Committed es fs ((Op.perform 8 (.uploadCommit 1)).run Lfs.handler s (.replicate 8 .passes) fs).world :=
  have ⟨es, s, fs, r, ha, hr⟩ := exists_run (P := fun es s fs => accepted es = ascii "hi" ∧
    ((Op.perform 8 (.uploadCommit 1)).run Lfs.handler s (.replicate 8 .passes) fs).result.map Prod.fst =
      some .ok) uploading (by decide)
  ⟨es, s, fs, r, ha, (publish_atomic r nofun ⟨fun _ h => absurd rfl h, nofun⟩ _ _).committed 1 rfl hr⟩

-- After a reset in an upload, a mount whose `lfs_remove` fails leaves the temporary file behind.
theorem temporary_survives :
    ∃ es s fs, Run Lfs.handler (Op.perform 8) (some .zero) (fun _ _ _ _ => True) .zero .empty es s fs ∧
      s.state ≠ .mounted ∧ ∃ ds,
        ((Op.perform 8 .mount).run Lfs.handler s ds fs).result.map Prod.fst = some .ok ∧
        ∃ name, Temporary name ∧ ((Op.perform 8 .mount).run Lfs.handler s ds fs).world.find name ≠ none :=
  have ⟨es, s, fs, r, hs, hr, hf⟩ := exists_run (P := fun _ s fs => s.state ≠ .mounted ∧
      ((Op.perform 8 .mount).run Lfs.handler s (.replicate 8 .passes ++ [.breaks]) fs).result.map Prod.fst =
        some .ok ∧
      ((Op.perform 8 .mount).run Lfs.handler s (.replicate 8 .passes ++ [.breaks]) fs).world.find
        (temporaryName 1) ≠ none)
    (uploading ++ [(.uploadCommit 1, [])]) (by decide)
  ⟨es, s, fs, r, hs, _, hr, _, temporaryName_temporary 1, hf⟩

end Userfs
