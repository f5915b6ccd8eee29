import HackyLens.Storage.Theorems.Fs

-- The functions that read a file from its start to its end.

namespace Userfs

open Prog Lfs

-- What reading a file leaves behind: the same entries, and the same open files among those that had
-- been opened before.
structure Reads (fs fs' : Fs) : Prop where
  entries_eq : fs'.entries = fs.entries
  wf : fs'.Wf
  nextNumber_le : fs.nextNumber ≤ fs'.nextNumber
  opened_eq : ∀ file, file.number ≤ fs.nextNumber → fs'.opened file = fs.opened file

theorem Reads.refl {fs : Fs} (h : fs.Wf) : Reads fs fs :=
  ⟨rfl, h, Nat.le_refl _, fun _ _ => rfl⟩

theorem Reads.find_eq {fs fs' : Fs} (h : Reads fs fs') (name : CString) :
    fs'.find name = fs.find name := by
  rw [Fs.find, h.entries_eq]
  rfl

theorem Reads.kept {T : CString → Prop} {fs₀ fs fs' : Fs} (h : Reads fs fs') (hk : Kept T fs₀ fs) :
    Kept T fs₀ fs' :=
  ⟨fun name hn => (h.find_eq name).trans (hk.find name hn), h.wf⟩

-- A file that is being read.
structure Reading (fs₀ : Fs) (path : CString) (data : List UInt8) (position : Nat) (file : File)
    (fs : Fs) : Prop where
  entries_eq : fs.entries = fs₀.entries
  wf : fs.Wf
  nextNumber_le : fs₀.nextNumber ≤ fs.nextNumber
  opened_eq : ∀ file, file.number ≤ fs₀.nextNumber → fs.opened file = fs₀.opened file
  number : fs₀.nextNumber < file.number
  opened : fs.opened file = some ⟨path, false, data, position⟩

namespace Reading

variable {I : Fs → Prop} {s : Ram} {fs₀ fs : Fs} {path : CString} {data : List UInt8}
variable {position : Nat} {file : File}

theorem reads (h : Reading fs₀ path data position file fs) : Reads fs₀ fs :=
  ⟨h.entries_eq, h.wf, h.nextNumber_le, h.opened_eq⟩

theorem update (h : Reading fs₀ path data position file fs) {o : Option OpenFile}
    (ho : ∀ p, o = some p → p.writable = false) : Reads fs₀ (fs.update file o) := by
  refine ⟨h.entries_eq, h.wf.update fun p hp => ⟨?_, (h.wf file _ h.opened).number_le⟩,
    h.nextNumber_le, ?_⟩
  · simp [ho p hp]
  · intro file' hf
    rw [Fs.opened_update_ne, h.opened_eq file' hf]
    rintro rfl
    exact absurd h.number (Nat.not_lt.mpr hf)

theorem openFile {Q : Except Error File → Ram → Fs → Prop} (hr : ∀ fs, Reads fs₀ fs → I fs)
    (h : fs₀.Wf)
    (hok : ∀ data file fs, fs₀.find path = some (.reg data) → Reading fs₀ path data 0 file fs →
      Q (.ok file) s fs)
    (herr : ∀ e, Q (.error e) s fs₀) : wp (env I) (fileOpen path .rdonly) Q s fs₀ := by
  refine wp_open_rdonly (hr _ <| .refl h) (fun data hf => hok data _ _ hf ?_) herr
  have wf := ((Kept.refl (T := fun _ => True) h).opening (o := ⟨path, false, data, 0⟩) nofun).wf
  refine ⟨rfl, wf, Nat.le_succ _, fun file hf => ?_, Nat.lt_succ_self _, Fs.opened_update⟩
  refine Fs.opened_update_ne ?_
  rintro rfl
  exact absurd hf (Nat.not_succ_le_self _)

theorem read {size : Nat} {Q : (Lfs.Call.fileRead file size).Reply → Ram → Fs → Prop}
    (hr : ∀ fs, Reads fs₀ fs → I fs) (h : Reading fs₀ path data position file fs)
    (hok : ∀ bytes fs, bytes.val = (data.drop position).take size →
      Reading fs₀ path data (position + bytes.val.length) file fs → Q (.ok bytes) s fs)
    (herr : ∀ e, Q (.error e) s fs) : wp (env I) (lfs (.fileRead file size)) Q s fs := by
  refine wp_read (hr _ h.reads) h.opened (fun bytes hb => hok bytes _ hb ?_) herr
  obtain ⟨he, hw, hn, ho⟩ := h.update (o := some ⟨path, false, data, position + bytes.val.length⟩) <| by
    rintro _ ⟨⟩
    rfl
  exact ⟨he, hw, hn, ho, h.number, Fs.opened_update⟩

theorem close {Q : Except Error Unit → Ram → Fs → Prop} (hr : ∀ fs, Reads fs₀ fs → I fs)
    (h : Reading fs₀ path data position file fs) (hq : ∀ r fs, Reads fs₀ fs → Q r s fs) :
    wp (env I) (lfs (.fileClose file)) Q s fs :=
  wp_close (hr _ h.reads) h.opened (hq _ _ <| h.update nofun) (fun _ => hq _ _ <| h.update nofun)

end Reading

variable {I : Fs → Prop} {s : Ram} {fs : Fs}

-- An upload is verified when its temporary file has the expected size and checksum.
def Verified (upload : Upload) (fs : Fs) : Prop :=
  ∃ data, fs.find upload.temporary = some (.reg data) ∧
    data.length.toUInt32 = upload.expectedSize ∧ Core.crc32Update 0 data = upload.expectedCrc

theorem verifyUpload_reads {fuel : Nat} (hr : ∀ fs', Reads fs fs' → I fs') (h : fs.Wf) :
    wp (env I) (verifyUpload fuel)
      (fun r s' fs' => s' = s ∧ Reads fs fs' ∧ (r = .ok → Verified s.upload fs)) s fs := by
  refine verifyUpload_eq.and_wp ?_
  simp only [verifyUpload, wp_bind, wp_get]
  refine Reading.openFile hr h (fun data file fs' hf h => ?_)
    (fun e => ⟨.refl h, fun he => absurd he (fromError_ne_ok e)⟩)
  -- What the loop has read is a prefix of the file. Without an error it ends when that is all of it.
  let Inv := fun (x : UInt32 × UInt32) (_ : Ram) fs' => ∃ position,
    Reading fs s.upload.temporary data position file fs' ∧
      x = (Core.crc32Update 0 (data.take position), (data.take position).length.toUInt32)
  let Done := fun (x : Result × UInt32 × UInt32) (_ : Ram) fs' =>
    (∃ position, Reading fs s.upload.temporary data position file fs') ∧
      (x.fst = .ok → x.snd = (Core.crc32Update 0 data, data.length.toUInt32))
  refine wp_seq (P := Done) ?_ ?_
  case refine_1 =>
    refine wp_loop Inv (fun _ _ _ hi => ?_) ?_ ⟨0, h, by simp⟩
    · obtain ⟨_, h, _⟩ := hi
      exact hr _ h.reads
    rintro ⟨crc, total⟩ s' fs' ⟨position, h, hx⟩
    rw [wp_bind]
    refine h.read hr (fun bytes fs'' hb h => ?_) (fun e => ?_)
    case refine_2 => exact ⟨⟨position, h⟩, fun he => absurd he (fromError_ne_ok e)⟩
    cases hx
    simp only [wp_ite, wp_pure]
    split
    case isTrue hl =>
      -- Nothing was left.
      have ha : data.take position = data := by
        rw [hb, List.length_eq_zero_iff, List.take_eq_nil_iff] at hl
        exact List.take_of_length_le <| List.drop_eq_nil_iff.mp <| hl.resolve_left (fun hn => by cases hn)
      refine ⟨⟨_, h⟩, fun _ => ?_⟩
      rw [ha]
    case isFalse =>
      have ha : data.take position ++ bytes.val = data.take (position + bytes.val.length) := by
        rw [List.take_add, hb, List.length_take, ← List.take_eq_take_min]
      refine ⟨_, h, ?_⟩
      rw [Core.crc32Update_append, ha, ← ha, List.length_append]
      exact congrArg _ <| (UInt32.ofNat_add _ _).symm
  case refine_2 =>
    rintro ⟨count, crc, total⟩ s' fs' ⟨⟨position, h⟩, hx⟩
    rw [wp_bind]
    refine h.close hr fun _ fs'' hf' => ?_
    simp only [wp_ite, wp_pure]
    split
    case isTrue hc => exact ⟨hf', fun h => absurd h hc⟩
    case isFalse hc =>
    cases hx <| Decidable.not_not.mp hc
    split
    case isTrue => exact ⟨hf', (by rintro ⟨⟩)⟩
    case isFalse ht =>
    refine ⟨hf', fun h => ⟨data, hf, Decidable.not_not.mp ht, ?_⟩⟩
    by_contra hcrc
    simp [hcrc] at h

theorem getStartup_reads {name : Bool} {capacity : Nat} (hr : ∀ fs', Reads fs fs' → I fs')
    (h : fs.Wf) :
    wp (env I) (getStartup name capacity) (fun _ s' fs' => Frame s s' ∧ Reads fs fs') s fs := by
  refine getStartup_frame.and_wp ?_
  simp only [getStartup, remember, wp_bind, wp_get, wp_ite, wp_pure, wp_modify]
  split
  · exact .refl h
  split
  · exact .refl h
  refine Reading.openFile hr h (fun data file fs' hf h => ?_) (fun e => .refl h)
  simp only [wp_bind]
  refine h.read hr (fun bytes fs' _ h => ?_) (fun e => h.close hr fun _ _ h => h)
  refine h.close hr fun _ fs' h => ?_
  simp only [wp_ite, wp_bind, wp_pure, wp_modify]
  split <;> exact h

end Userfs
