import HackyLens.Storage.Fs
import HackyLens.Storage.Theorems.Frame

-- What single calls do to the named files, and which calls leave a given set of names alone.

namespace Lfs

open Prog Userfs

namespace Fs

variable {fs : Fs} {name path : CString} {file : File}

@[simp]
theorem find_update {o : Option OpenFile} : (fs.update file o).find name = fs.find name := rfl

@[simp]
theorem opened_update {o : Option OpenFile} : (fs.update file o).opened file = o :=
  Function.update_self ..

theorem opened_update_ne {file' : File} {o : Option OpenFile} (h : file' ≠ file) :
    (fs.update file o).opened file' = fs.opened file' :=
  Function.update_of_ne h ..

theorem update_opened : fs.update file (fs.opened file) = fs := by
  simp [update]

@[simp]
theorem nextNumber_update {o : Option OpenFile} : (fs.update file o).nextNumber = fs.nextNumber := rfl

@[simp]
theorem opened_publish {o : OpenFile} : (fs.publish o).opened = fs.opened := by
  unfold publish
  split <;> rfl

@[simp]
theorem nextNumber_publish {o : OpenFile} : (fs.publish o).nextNumber = fs.nextNumber := by
  unfold publish
  split <;> rfl

theorem find_publish {o : OpenFile} (h : o.writable) : (fs.publish o).find o.name = some (.reg o.data) := by
  simp [publish, h, find]

theorem find_publish_ne {o : OpenFile} (h : o.writable → name ≠ o.name) :
    (fs.publish o).find name = fs.find name := by
  unfold publish
  split
  case isTrue hw => exact AList.lookup_insert_ne (h hw)
  case isFalse   => rfl

-- A file that may be open under the number it has: if it is written to, it is a temporary one.
structure OpenFile.Ok (o : OpenFile) (number limit : Nat) : Prop where
  temporary : o.writable → Temporary o.name
  number_le : number ≤ limit

-- Numbers are only given out once.
def Wf (fs : Fs) : Prop :=
  ∀ file o, fs.opened file = some o → OpenFile.Ok o file.number fs.nextNumber

theorem Wf.update {o : Option OpenFile} (h : fs.Wf)
    (ho : ∀ p, o = some p → OpenFile.Ok p file.number fs.nextNumber) : (fs.update file o).Wf := by
  intro file' p hp
  by_cases hf : file' = file
  case pos =>
    subst hf
    exact ho p <| opened_update.symm.trans hp
  case neg =>
    rw [opened_update_ne hf] at hp
    exact h file' p hp

end Fs

-- The calls that only create, remove or rename names in `T`, and only write to temporary files.
def Confined (T : CString → Prop) : Userfs.Call → Prop
  | .lfs .format                               => ∀ name, T name
  | .lfs (.remove path)                        => T path
  | .lfs (.rename oldpath newpath)             => T oldpath ∧ T newpath
  | .lfs (.fileOpencfg path .wronlyCreatExcl) => T path ∧ Temporary path
  | _                                          => True

theorem Confined.mono {T T' : CString → Prop} {c : Userfs.Call} (hT : ∀ name, T name → T' name)
    (h : Confined T c) : Confined T' c := by
  cases c
  case flash => trivial
  case lfs c =>
    cases c
    case format      => exact fun name => hT name (h name)
    case remove      => exact hT _ h
    case rename      => exact ⟨hT _ h.left, hT _ h.right⟩
    case fileOpencfg flags =>
      cases flags
      case rdonly          => trivial
      case wronlyCreatExcl => exact ⟨hT _ h.left, h.right⟩
    all_goals trivial

theorem confined_of_tidy {c : Userfs.Call} (h : Tidy c) : Confined Temporary c := by
  cases c
  case flash => trivial
  case lfs c =>
    cases c
    case remove                        => exact h
    case fileOpencfg | rename | format => cases h
    all_goals trivial

-- The names outside of `T` have not changed.
structure Kept (T : CString → Prop) (fs₀ fs : Fs) : Prop where
  find : ∀ name, ¬T name → fs.find name = fs₀.find name
  wf : fs.Wf

namespace Kept

variable {T : CString → Prop} {fs₀ fs fs' : Fs} {file : File} {o o' : OpenFile}

theorem refl (h : fs.Wf) : Kept T fs fs :=
  ⟨fun _ _ => rfl, h⟩

theorem mono {T' : CString → Prop} (hT : ∀ name, T name → T' name) (h : Kept T fs₀ fs) :
    Kept T' fs₀ fs :=
  ⟨fun name hn => h.find name <| mt (hT name) hn, h.wf⟩

theorem trans {fs₁ fs₂ fs₃ : Fs} (h₁ : Kept T fs₁ fs₂) (h₂ : Kept T fs₂ fs₃) : Kept T fs₁ fs₃ :=
  ⟨fun name hn => (h₂.find name hn).trans (h₁.find name hn), h₂.wf⟩

-- Other entries, but the same open files.
theorem entries {entries} (h : Kept T fs₀ fs)
    (he : ∀ name, ¬T name → entries.lookup name = fs.find name) :
    Kept T fs₀ { fs with entries } :=
  ⟨fun name hn => (he name hn).trans (h.find name hn), h.wf⟩

theorem listing {listing} (h : Kept T fs₀ fs) : Kept T fs₀ { fs with listing } :=
  ⟨h.find, h.wf⟩

theorem forget (h : Kept T fs₀ fs) : Kept T fs₀ fs.forget :=
  ⟨h.find, nofun⟩

theorem close (h : Kept T fs₀ fs) : Kept T fs₀ (fs.update file none) :=
  ⟨h.find, h.wf.update nofun⟩

-- A file that stays open under its name.
theorem update (h : Kept T fs₀ fs) (ho : fs.opened file = some o) (hn : o'.name = o.name)
    (hw : o'.writable = o.writable) : Kept T fs₀ (fs.update file (some o')) := by
  refine ⟨h.find, h.wf.update ?_⟩
  rintro _ ⟨⟩
  obtain ⟨ht, hl⟩ := h.wf file o ho
  exact ⟨by rwa [hn, hw], hl⟩

theorem publish (h : Kept T fs₀ fs) (hT : ∀ name, Temporary name → T name)
    (ho : fs.opened file = some o) : Kept T fs₀ (fs.publish o) := by
  refine ⟨fun name hn => ?_, fun file p hp => ?_⟩
  case refine_1 =>
    rw [Fs.find_publish_ne, h.find name hn]
    rintro hw rfl
    exact hn <| hT _ <| (h.wf file o ho).temporary hw
  case refine_2 =>
    rw [Fs.opened_publish] at hp
    rw [Fs.nextNumber_publish]
    exact h.wf file p hp

-- A file that is given a new number.
theorem opening (h : Kept T fs₀ fs) (ho : o.writable → Temporary o.name) :
    Kept T fs₀ (Fs.update { fs with nextNumber := fs.nextNumber + 1 } ⟨fs.nextNumber + 1⟩ (some o)) := by
  refine ⟨h.find, Fs.Wf.update ?_ ?_⟩
  case refine_1 =>
    intro file p hp
    obtain ⟨ht, hl⟩ := h.wf file p hp
    exact ⟨ht, Nat.le_succ_of_le hl⟩
  case refine_2 =>
    rintro _ ⟨⟩
    exact ⟨ho, Nat.le_refl _⟩

theorem erase {path : CString} (h : Kept T fs₀ fs) (hp : T path) :
    Kept T fs₀ { fs with entries := fs.entries.erase path } :=
  h.entries fun _ hn => AList.lookup_erase_ne fun he => hn (he ▸ hp)

theorem rename {oldpath newpath : CString} {entry : Entry} (h : Kept T fs₀ fs) (ho : T oldpath)
    (hn : T newpath) :
    Kept T fs₀ { fs with entries := (fs.entries.erase oldpath).insert newpath entry } := by
  refine h.entries fun name hname => ?_
  have h₁ : name ≠ newpath := fun he => hname (he ▸ hn)
  have h₂ : name ≠ oldpath := fun he => hname (he ▸ ho)
  exact (AList.lookup_insert_ne h₁).trans (AList.lookup_erase_ne h₂)

theorem create {path : CString} (h : Kept T fs₀ fs) (hp : T path) (ht : Temporary path) :
    Kept T fs₀ { Fs.update { fs with nextNumber := fs.nextNumber + 1 } ⟨fs.nextNumber + 1⟩
      (some ⟨path, true, [], 0⟩) with entries := fs.entries.insert path (.reg []) } := by
  refine (h.opening fun _ => ht).entries fun name hn => ?_
  exact AList.lookup_insert_ne fun he => hn (he ▸ hp)

-- All calls that are confined to `T`.
theorem perform {c : Call} (h : Kept T fs₀ fs) (hT : ∀ name, Temporary name → T name)
    (hc : Confined T (.lfs c)) (r : c.Reply) : Kept T fs₀ (fs.perform c r).snd := by
  cases c <;> simp only [Fs.perform]
  case mount | unmount => exact h.forget
  case format          => exact h.forget.entries fun name hn => absurd (hc name) hn
  case fsSize | stat   => exact h
  case dirOpen | dirRead | dirClose => exact h.listing
  case remove =>
    split
    · exact h.erase hc
    · exact h
  case rename =>
    split
    case isTrue => exact h
    split
    case h_4 => exact h.rename hc.left hc.right
    all_goals exact h
  case fileOpencfg flags =>
    split
    case h_3 => exact h.opening nofun
    case h_5 =>
      split
      · exact h
      · exact h.create hc.left hc.right
    all_goals exact h
  case fileSeek | fileRead =>
    split
    case h_1    => exact h
    case h_2 ho => exact h.update ho rfl rfl
  case fileWrite =>
    split
    case h_1 => exact h
    case h_2 ho =>
      split
      · exact h
      · exact h.update ho rfl rfl
  case fileSync =>
    split
    · exact h
    · exact h.publish hT ‹_›
  case fileClose =>
    split
    · exact h
    · exact (h.publish hT ‹_›).close

theorem fail {c : Call} {kept : Nat} (h : Kept T fs₀ fs) : Kept T fs₀ (fs.fail kept c) := by
  cases c <;> simp only [Fs.fail]
  case fileWrite =>
    split
    case h_1 => exact h
    case h_2 ho =>
      split
      · exact h
      · exact h.update ho rfl rfl
  case fileClose => exact h.close
  all_goals exact h

theorem short {c : Call} {kept : Nat} (h : Kept T fs₀ fs) (hT : ∀ name, Temporary name → T name)
    (hc : Confined T (.lfs c)) (r : c.Reply) : Kept T fs₀ (fs.short kept c r).snd := by
  cases c
  case fileWrite =>
    simp only [Fs.short]
    split
    · exact h.fail (c := .fileWrite _ _)
    · exact h.perform hT hc r
  all_goals exact h.perform hT hc r

theorem handler {c : Userfs.Call} {d : Decision} (h : Kept T fs₀ fs)
    (hT : ∀ name, Temporary name → T name) (hc : Confined T c) :
    Kept T fs₀ (Lfs.handler d c fs).snd := by
  cases c
  case flash => exact h
  case lfs c =>
    simp only [Lfs.handler, Fs.answer]
    split
    case h_1 => exact h.perform hT hc _
    case h_2 => exact h.fail
    case h_3 => exact h.short hT hc _

end Kept

-- Anything may go wrong with a call, and `I` is to hold of the file system at each of them.
def env (I : Fs → Prop) : Env Userfs.Call Userfs.Call.Reply Fs Decision where
  handler  := handler
  admits _ := True
  call _   := I
  hung     := I

section Rules

variable {α : Type} {I : Fs → Prop} {s : Ram} {fs : Fs} {path : CString} {file : File} {o : OpenFile}

-- A function that only makes confined calls.
theorem wp_kept {T : CString → Prop} {ok : Userfs.Call → Prop} {p : Userfs.Task α} {Q : α → Ram → Prop}
    {fs₀ : Fs} (hp : Ensures ok p Q s) (h : Kept T fs₀ fs) (hT : ∀ name, Temporary name → T name)
    (hc : ∀ c, ok c → Confined T c) (hI : ∀ fs, Kept T fs₀ fs → I fs) :
    wp (env I) p (fun a s fs => Q a s ∧ Kept T fs₀ fs) s fs :=
  hp.keeps (Kept T fs₀) (fun c _ ho h => ⟨hI _ h, fun _ _ => h.handler hT (hc c ho)⟩) hI h

theorem wp_confined {T : CString → Prop} {c : Call} {Q : c.Reply → Ram → Fs → Prop} {fs₀ : Fs}
    (hI : I fs) (h : Kept T fs₀ fs) (hT : ∀ name, Temporary name → T name)
    (hc : Confined T (.lfs c)) (hq : ∀ r fs', Kept T fs₀ fs' → Q r s fs') :
    wp (env I) (lfs c) Q s fs :=
  ⟨hI, fun _ _ => hq _ _ <| h.handler hT hc⟩

-- What holds of a call that succeeds and of one that fails, holds of the call.
theorem wp_lfs {c : Call} {Q : c.Reply → Ram → Fs → Prop} (hI : I fs)
    (hok : ∀ r, Q (fs.perform c r).fst s (fs.perform c r).snd)
    (hfail : ∀ e kept, e ≠ .noent → Q (.error e) s (fs.fail kept c))
    (hshort : ∀ kept r, Q (fs.short kept c r).fst s (fs.short kept c r).snd) :
    wp (env I) (lfs c) Q s fs := by
  refine ⟨hI, fun d _ => ?_⟩
  simp only [env, handler, Fs.answer]
  split
  · exact hok _
  · exact hfail _ _ ‹_›
  · exact hshort _ _

-- Only a write can be short.
theorem wp_lfs_not_write {c : Call} {Q : c.Reply → Ram → Fs → Prop} (hI : I fs)
    (hc : ∀ file buffer, c ≠ .fileWrite file buffer)
    (hok : ∀ r, Q (fs.perform c r).fst s (fs.perform c r).snd)
    (hfail : ∀ e kept, e ≠ .noent → Q (.error e) s (fs.fail kept c)) :
    wp (env I) (lfs c) Q s fs := by
  refine wp_lfs hI hok hfail fun kept r => ?_
  cases c
  case fileWrite file buffer => exact absurd rfl (hc file buffer)
  all_goals exact hok r

-- A file that is not open.
theorem wp_dead {c : Call} {Q : c.Reply → Ram → Fs → Prop} (hI : I fs) (hc : c.file? = some file)
    (ho : fs.opened file = none) (hq : ∀ r, Q r s fs) : wp (env I) (lfs c) Q s fs := by
  have closed : fs.update file none = fs := ho ▸ Fs.update_opened
  refine wp_lfs hI (fun r => ?_) (fun e kept _ => ?_) fun kept r => ?_
  all_goals
    cases c <;> cases hc
    all_goals simp only [Fs.short, Fs.perform, Fs.fail, ho, closed]
    all_goals first
      | exact hq _
      | split <;> exact hq _

theorem wp_open_rdonly {Q : Except Error File → Ram → Fs → Prop} (hI : I fs)
    (hok : ∀ data, fs.find path = some (.reg data) → Q (.ok ⟨fs.nextNumber + 1⟩) s
      (Fs.update { fs with nextNumber := fs.nextNumber + 1 } ⟨fs.nextNumber + 1⟩
        (some ⟨path, false, data, 0⟩)))
    (herr : ∀ e, Q (.error e) s fs) : wp (env I) (fileOpen path .rdonly) Q s fs := by
  refine wp_lfs_not_write hI nofun (fun r => ?_) (fun e _ _ => herr e)
  simp only [Fs.perform]
  split
  case h_3 _ _ _ data _ _ hf => exact hok data hf
  case h_4 | h_5   => contradiction
  all_goals exact herr _

theorem wp_open_create {Q : Except Error File → Ram → Fs → Prop} (hI : I fs)
    (hok : fs.find path = none → Q (.ok ⟨fs.nextNumber + 1⟩) s
      { Fs.update { fs with nextNumber := fs.nextNumber + 1 } ⟨fs.nextNumber + 1⟩
        (some ⟨path, true, [], 0⟩) with entries := fs.entries.insert path (.reg []) })
    (herr : ∀ e, Q (.error e) s fs) : wp (env I) (fileOpen path .wronlyCreatExcl) Q s fs := by
  refine wp_lfs_not_write hI nofun (fun r => ?_) (fun e _ _ => herr e)
  simp only [Fs.perform]
  split
  case h_5 hf            =>
    split
    · exact herr _
    · exact hok hf
  case h_1 | h_2 | h_3   => contradiction
  case h_4               => exact herr _

theorem wp_read {size : Nat} {Q : (Call.fileRead file size).Reply → Ram → Fs → Prop} (hI : I fs)
    (ho : fs.opened file = some o)
    (hok : ∀ data, data.val = (o.data.drop o.position).take size → Q (.ok data) s
      (fs.update file (some { o with position := o.position + data.val.length })))
    (herr : ∀ e, Q (.error e) s fs) : wp (env I) (lfs (.fileRead file size)) Q s fs := by
  refine wp_lfs_not_write hI nofun (fun r => ?_) (fun e _ _ => herr e)
  simp only [Fs.perform, ho]
  exact hok _ rfl

-- A write that is not complete stores some bytes of its buffer.
theorem wp_write {buffer : List UInt8} {Q : Except Error Nat → Ram → Fs → Prop} (hI : I fs)
    (ho : fs.opened file = some o)
    (hok : o.data.length + buffer.length ≤ Fs.fileMax →
      Q (.ok buffer.length) s (fs.update file (some { o with data := o.data ++ buffer })))
    (hpart : ∀ r kept, r ≠ .ok buffer.length → o.data.length + (buffer.take kept).length ≤ Fs.fileMax →
      Q r s (fs.update file (some { o with data := o.data ++ buffer.take kept })))
    (herr : ∀ r, r ≠ .ok buffer.length → Q r s fs) :
    wp (env I) (lfs (.fileWrite file buffer)) Q s fs := by
  have perform r : Q (fs.perform (.fileWrite file buffer) r).fst s
      (fs.perform (.fileWrite file buffer) r).snd := by
    simp only [Fs.perform, ho]
    split
    case isTrue    => exact herr _ nofun
    case isFalse h => exact hok (Nat.le_of_not_lt h)
  have fail r kept (hr : r ≠ .ok buffer.length) : Q r s (fs.fail kept (.fileWrite file buffer)) := by
    simp only [Fs.fail, ho]
    split
    case isTrue    => exact herr r hr
    case isFalse h =>
      refine hpart r kept hr ?_
      rw [List.length_take]
      omega
  refine wp_lfs hI perform (fun e kept _ => fail _ _ nofun) fun kept r => ?_
  simp only [Fs.short]
  split
  case isTrue h  =>
    refine fail _ _ ?_
    simp only [ne_eq, Except.ok.injEq]
    exact Nat.ne_of_lt h
  case isFalse h => exact perform r

theorem wp_sync {Q : Except Error Unit → Ram → Fs → Prop} (hI : I fs) (ho : fs.opened file = some o)
    (hok : Q (.ok ()) s (fs.publish o)) (herr : ∀ e, Q (.error e) s fs) :
    wp (env I) (lfs (.fileSync file)) Q s fs := by
  refine wp_lfs_not_write hI nofun (fun r => ?_) (fun e _ _ => herr e)
  simpa only [Fs.perform, ho] using hok

theorem wp_close {Q : Except Error Unit → Ram → Fs → Prop} (hI : I fs) (ho : fs.opened file = some o)
    (hok : Q (.ok ()) s ((fs.publish o).update file none))
    (herr : ∀ e, Q (.error e) s (fs.update file none)) :
    wp (env I) (lfs (.fileClose file)) Q s fs := by
  refine wp_lfs_not_write hI nofun (fun r => ?_) (fun e _ _ => herr e)
  simpa only [Fs.perform, ho] using hok

theorem wp_remove {Q : Except Error Unit → Ram → Fs → Prop} (hI : I fs)
    (hok : Q (.ok ()) s { fs with entries := fs.entries.erase path })
    (herr : ∀ e, (e = .noent → fs.find path = none) → Q (.error e) s fs) :
    wp (env I) (lfs (.remove path)) Q s fs := by
  refine wp_lfs_not_write hI nofun (fun r => ?_) (fun e _ he => herr e fun h => absurd h he)
  simp only [Fs.perform]
  split
  case h_1    => exact hok
  case h_2 hn => exact herr _ fun _ => hn

theorem wp_rename {oldpath newpath : CString} {Q : Except Error Unit → Ram → Fs → Prop} (hI : I fs)
    (hok : ∀ entry, fs.find oldpath = some entry → Q (.ok ()) s
      { fs with entries := (fs.entries.erase oldpath).insert newpath entry })
    (herr : ∀ e, Q (.error e) s fs) : wp (env I) (lfs (.rename oldpath newpath)) Q s fs := by
  refine wp_lfs_not_write hI nofun (fun r => ?_) (fun e _ _ => herr e)
  simp only [Fs.perform]
  split
  case isTrue => exact herr _
  split
  case h_4 _ _ entry hf _ _ => exact hok entry hf
  all_goals exact herr _

theorem wp_stat {Q : Except Error Info → Ram → Fs → Prop} (hI : I fs)
    (hok : ∀ entry, fs.find path = some entry → Q (.ok (entry.info path)) s fs)
    (herr : ∀ e, Q (.error e) s fs) : wp (env I) (lfs (.stat path)) Q s fs := by
  refine wp_lfs_not_write hI nofun (fun r => ?_) (fun e _ _ => herr e)
  simp only [Fs.perform]
  cases hf : fs.find path
  case none       => exact herr _
  case some entry => exact hok entry hf

-- The rules for files that are written, when the names outside of `T` are kept.

variable {T : CString → Prop} {fs₀ : Fs}

theorem wp_create {Q : Except Error File → Ram → Fs → Prop} (hI : ∀ fs, Kept T fs₀ fs → I fs)
    (h : Kept T fs₀ fs) (hp : T path) (ht : Temporary path)
    (hok : ∀ file fs', Kept T fs₀ fs' → fs'.opened file = some ⟨path, true, [], 0⟩ →
      fs'.find path = some (.reg []) → Q (.ok file) s fs')
    (herr : ∀ e, Q (.error e) s fs) : wp (env I) (fileOpen path .wronlyCreatExcl) Q s fs :=
  wp_open_create (hI _ h)
    (fun _ => hok _ _ (h.create hp ht) Fs.opened_update (AList.lookup_insert ..)) herr

-- A write that is not complete adds some bytes of its buffer, or none.
theorem wp_append {buffer : List UInt8} {Q : Except Error Nat → Ram → Fs → Prop}
    (hI : ∀ fs, Kept T fs₀ fs → I fs) (h : Kept T fs₀ fs) (ho : fs.opened file = some o)
    (hq : ∀ r kept fs', Kept T fs₀ fs' → fs'.entries = fs.entries →
      fs'.opened file = some { o with data := o.data ++ buffer.take kept } →
      (r = .ok buffer.length → kept = buffer.length) →
      (buffer.take kept ≠ [] → o.data.length + (buffer.take kept).length ≤ Fs.fileMax) → Q r s fs') :
    wp (env I) (lfs (.fileWrite file buffer)) Q s fs := by
  refine wp_write (hI _ h) ho (fun hl => ?_) (fun r kept hr hl => ?_) (fun r hr => ?_)
  case refine_1 =>
    refine hq _ buffer.length _ (h.update ho rfl rfl) rfl ?_ (fun _ => rfl) ?_
    · rw [List.take_length, Fs.opened_update]
    · intro _
      rwa [List.take_length]
  case refine_2 =>
    refine hq _ kept _ (h.update ho rfl rfl) rfl Fs.opened_update (fun he => absurd he hr) ?_
    exact fun _ => hl
  case refine_3 =>
    refine hq _ 0 _ h rfl ?_ (fun he => absurd he hr) nofun
    simp [ho]

end Rules

end Lfs
