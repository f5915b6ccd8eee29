import Mathlib.Data.List.TakeWhile
import HackyLens.Storage.Theorems.Reading

-- What holds between any two operations, and what an upload's file is like when it is closed.

namespace Userfs

open Prog Lfs

section Names

variable {name : CString}

def Hidden (name : CString) : Prop :=
  name.head? = some 46

theorem Temporary.hidden : Temporary name → Hidden name
  | .inl ⟨_, h⟩ => h ▸ rfl
  | .inr h      => h ▸ rfl

theorem startupFile_hidden : Hidden startupFile := rfl

theorem startupFile_not_temporary : ¬Temporary startupFile := by
  rintro (h | h)
  · exact absurd h (by decide)
  · exact absurd h (by decide)

-- The characters of a valid name are all visible.
structure Valid (name : CString) : Prop where
  ne_nil : normalName name ≠ []
  length_le : (normalName name).length ≤ nameMax
  visible : ¬Hidden (normalName name)
  chars : ∀ c ∈ normalName name, nameChar c

theorem validName_iff : validName (some name) false ↔ Valid name := by
  simp only [validName]
  split
  case isTrue h =>
    refine iff_of_false nofun fun hv => ?_
    obtain ⟨hn, hl, hh, _⟩ := hv
    simp only [Hidden] at hh
    simp [hn, hh, Nat.not_lt.mpr hl] at h
  case isFalse h =>
    obtain ⟨⟨hn, hl⟩, hh⟩ : (normalName name ≠ [] ∧ (normalName name).length ≤ nameMax) ∧
        ¬Hidden (normalName name) := by simpa [Hidden] using h
    refine ⟨fun hc => ⟨hn, hl, hh, ?_⟩, fun hv => ?_⟩
    · simp_all
    · have h₁ : normalName name ≠ ascii "." := by
        intro he
        exact hh (he ▸ rfl)
      have h₂ : normalName name ≠ ascii ".." := by
        intro he
        exact hh (he ▸ rfl)
      simpa [h₁, h₂] using hv.chars

theorem nameChar_ne {c : UInt8} (h : nameChar c) : c ≠ 0 ∧ c ≠ 47 := by
  constructor <;> rintro rfl <;> exact absurd h (by decide)

theorem Valid.normalName_eq (h : Valid name) : normalName (normalName name) = normalName name := by
  have hc := h.chars
  generalize normalName name = n at *
  unfold normalName
  split
  case isFalse => rfl
  case isTrue hh =>
    have := hc 47 (List.mem_of_head? hh)
    exact absurd rfl (nameChar_ne this).right

theorem Valid.normal (h : Valid name) : Valid (normalName name) :=
  ⟨by rw [h.normalName_eq]; exact h.ne_nil, by rw [h.normalName_eq]; exact h.length_le,
    by rw [h.normalName_eq]; exact h.visible, by rw [h.normalName_eq]; exact h.chars⟩

-- A valid name is read back as it was written.
theorem Valid.cString_take (h : Valid name) :
    cString ((normalName name).take nameMax) = normalName name := by
  rw [List.take_of_length_le h.length_le, cString, List.takeWhile_eq_self_iff]
  intro c hc
  simpa using (nameChar_ne (h.chars c hc)).left

end Names

-- An active upload needs a mount, a temporary file and a visible target.
structure Ram.Ok (s : Ram) : Prop where
  mounted : s.upload.active → s.state = .mounted
  temporary : s.upload.active → Temporary s.upload.temporary
  target : s.upload.active → ¬Hidden s.upload.target

namespace Ram.Ok

variable {s s' : Ram} {fuel : Nat}

theorem zero : Ram.zero.Ok := ⟨nofun, nofun, nofun⟩

theorem of_eq (h : s.Ok) (hu : s'.upload = s.upload) (hs : s'.state = s.state) : s'.Ok where
  mounted a   := hs ▸ h.mounted (hu ▸ a)
  temporary a := hu ▸ h.temporary (hu ▸ a)
  target a    := hu ▸ h.target (hu ▸ a)

theorem frame (h : s.Ok) (hf : Frame s s') : s'.Ok :=
  h.of_eq hf.upload_eq hf.state_eq

theorem of_inactive (ha : s.upload.active = false) : s.Ok := by
  constructor <;> simp [ha]

theorem of_zero (hu : s.upload = .zero) : s.Ok :=
  of_inactive <| by rw [hu]; rfl

theorem inactive (h : s.Ok) (hs : s.state ≠ .mounted) : s.upload.active = false := by
  by_contra ha
  exact hs <| h.mounted <| by simpa using ha

theorem begun {name : Option CString} {size crc32 : UInt32} (h : Begun name size crc32 s s') : s'.Ok := by
  obtain ⟨file, hu⟩ := h.upload
  cases name
  case none => exact absurd h.valid nofun
  case some name =>
    have hv := validName_iff.mp h.valid
    constructor <;> rw [hu]
    · exact fun _ => h.state_eq.trans h.mounted
    · exact fun _ => temporaryName_temporary _
    · intro _
      rw [Option.getD_some, List.take_of_length_le hv.length_le]
      exact hv.visible

theorem mount (h : s.Ok) : Ensures (fun _ => True) (mount fuel) (fun _ s' => s'.Ok) s := by
  by_cases hs : s.state = .mounted
  case pos =>
    refine Ensures.mono ((mount_mounted hs).weaken nofun) ?_
    exact fun _ _ => h.frame
  case neg =>
    have ha := h.inactive hs
    refine Ensures.mono ((mount_tidy hs).weaken fun _ _ => trivial) ?_
    rintro _ s' ⟨hu | hu, -⟩
    · exact of_inactive (hu ▸ ha)
    · exact of_zero hu

theorem unmount (h : s.Ok) :
    Ensures (UnmountCalls s.upload) unmount (fun _ s' => s'.upload.active = false) s := by
  refine unmount_spec.mono ?_
  rintro _ s' ⟨-, hu | ⟨hu, hs⟩⟩
  · exact hu ▸ rfl
  · by_contra ha
    have ha : s.upload.active := by simpa [hu] using ha
    exact hs ha <| h.mounted ha

theorem formatExplicit (h : s.Ok) :
    Ensures (fun c => UnmountCalls s.upload c ∨ FormatCalls c) (formatExplicit fuel)
      (fun _ s' => s'.upload.active = false) s := by
  have formatted {s : Ram} (ha : s.upload.active = false) :
      Ensures FormatCalls (formatUnmounted fuel) (fun _ s' => s'.upload.active = false) s := by
    refine formatUnmounted_spec.mono ?_
    rintro _ s' (hu | hu)
    · exact hu ▸ ha
    · exact hu ▸ rfl
  simp only [Userfs.formatExplicit, wp_bind, wp_get, wp_ite, Ensures]
  split
  case isTrue     =>
    exact wp_mono (h.unmount.weaken fun _ => .inl) fun _ _ _ ha => (formatted ha).weaken fun _ => .inr
  case isFalse hs => exact (formatted <| h.inactive hs).weaken fun _ => .inr

theorem uploadBegin {name : Option CString} {size crc32 : UInt32} {uploadId : Bool} (h : s.Ok) :
    Ensures (fun _ => True) (uploadBegin name size crc32 uploadId) (fun _ s' => s'.Ok) s := by
  refine Ensures.mono (uploadBegin_spec.weaken fun _ _ => trivial) ?_
  rintro r s' ⟨hb, hr⟩
  by_cases he : r.fst = .ok
  case pos => exact begun (hb he).right.right
  case neg =>
    have hr := hr he
    cases hr.upload
    case inl hu => exact h.of_eq hu hr.state_eq
    case inr hu => exact of_zero hu

theorem uploadWrite {id offset : UInt32} {buffer : Buffer} (h : s.Ok) :
    Ensures (fun _ => True) (uploadWrite id offset buffer) (fun _ s' => s'.Ok) s := by
  refine Ensures.mono (uploadWrite_spec.weaken fun _ _ => trivial) ?_
  rintro r s' ⟨hw, hr⟩
  by_cases he : r = .ok
  case pos =>
    refine frame ?_ (hw he).right
    exact ⟨h.mounted, h.temporary, h.target⟩
  case neg => exact h.frame (hr he)

theorem uploadAbort {id : UInt32} (h : s.Ok) :
    Ensures (fun _ => True) (uploadAbort id) (fun _ s' => s'.Ok) s := by
  refine Ensures.mono (uploadAbort_spec.weaken fun _ _ => trivial) ?_
  rintro r s' ⟨hc, hr⟩
  by_cases he : r = .ok
  case pos => exact of_zero (hc he).upload
  case neg => exact h.frame (hr he).right

theorem uploadCommit {id : UInt32} (h : s.Ok) :
    Ensures (fun _ => True) (uploadCommit fuel id) (fun _ s' => s'.Ok) s := by
  refine Ensures.mono uploadCommit_spec ?_
  rintro r s' ⟨hc, hr⟩
  by_cases he : r = .ok
  case pos => exact of_zero (hc he).left.upload
  case neg =>
    cases hr he
    case refused hf    => exact h.frame hf
    case closed _ _ hf =>
      refine frame ?_ hf
      exact ⟨h.mounted, h.temporary, h.target⟩

theorem perform {op : Op} (h : s.Ok) :
    Ensures (fun _ => True) (op.perform fuel) (fun _ s' => s'.Ok) s := by
  have frame {α} {ok} {p : Userfs.Task α} (hp : Ensures ok p (fun _ => Frame s) s) :
      Ensures (fun _ => True) p (fun _ s' => s'.Ok) s :=
    (hp.weaken fun _ _ => trivial).mono fun _ _ => h.frame
  cases op
  case mount          => exact h.mount
  case unmount        => exact (h.unmount.weaken fun _ _ => trivial).mono fun _ _ => of_inactive
  case formatExplicit => exact (h.formatExplicit.weaken fun _ _ => trivial).mono fun _ _ => of_inactive
  case uploadWrite    => exact h.uploadWrite
  case uploadCommit   => exact h.uploadCommit
  case uploadAbort    => exact h.uploadAbort
  case remove         => exact frame remove_frame
  case setStartup     => exact frame setStartup_frame
  all_goals rw [Op.perform, Ensures, wp_map]
  case getStatus   => exact (getStatus_tidy.weaken fun _ _ => trivial).mono fun _ _ hs => hs ▸ h
  case list        => exact frame list_tidy
  case stat        => exact frame stat_frame
  case read        => exact frame read_frame
  case getStartup  => exact frame getStartup_frame
  case uploadBegin => exact h.uploadBegin

theorem abort_confined {c : Userfs.Call} (h : s.Ok) : AbortCalls s.upload c → Confined Temporary c
  | .close _  => trivial
  | .remove a => h.temporary a

theorem unmount_confined {c : Userfs.Call} (h : s.Ok) :
    UnmountCalls s.upload c → Confined Temporary c
  | .abort hc => h.abort_confined hc
  | .unmount  => trivial

end Ram.Ok

-- After a file that was written is synced and closed. If both succeed, its name has what was written.
structure Closed (T : CString → Prop) (file : File) (o : OpenFile) (fs₀ fs fs' : Fs)
    (r : Except Error Unit) : Prop where
  kept : Kept T fs₀ fs'
  opened : fs'.opened file = none
  nextNumber_eq : fs'.nextNumber = fs.nextNumber
  published : r.isOk → fs'.find o.name = some (.reg o.data)
  find : fs'.find o.name = fs.find o.name ∨ fs'.find o.name = some (.reg o.data)

theorem syncClose_closed {I : Fs → Prop} {T : CString → Prop} {s : Ram} {fs₀ fs : Fs} {file : File}
    {o : OpenFile} (hI : ∀ fs, Kept T fs₀ fs → I fs) (hT : ∀ name, Temporary name → T name)
    (h : Kept T fs₀ fs) (ho : fs.opened file = some o) (hw : o.writable) :
    wp (env I) (syncClose file) (fun r s' fs' => s' = s ∧ Closed T file o fs₀ fs fs' r) s fs := by
  refine syncClose_eq.and_wp ?_
  simp only [syncClose, wp_bind, wp_pure]
  have publish := h.publish hT ho
  have find := @Fs.find_publish fs _ hw
  refine wp_sync (hI _ h) ho ?_ fun e => ?_
  case refine_1 =>
    -- Closing the file publishes the same data once more.
    refine wp_close (hI _ publish) (by rwa [Fs.opened_publish]) ?_ fun e => ?_
    case refine_1 =>
      have again := publish.publish hT <| by rwa [Fs.opened_publish]
      exact ⟨again.close, Fs.opened_update, by simp, fun _ => Fs.find_publish hw, .inr <| Fs.find_publish hw⟩
    case refine_2 => exact ⟨publish.close, Fs.opened_update, by simp, (by intros; contradiction), .inr find⟩
  case refine_2 =>
    refine wp_close (hI _ h) ho ?_ fun e' => ?_
    · exact ⟨publish.close, Fs.opened_update, by simp, (by intros; contradiction), .inr find⟩
    · exact ⟨h.close, Fs.opened_update, by simp, (by intros; contradiction), .inl rfl⟩

end Userfs
