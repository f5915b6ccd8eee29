import HackyLens.Script.Screen

-- Which script is selected in the list, and that it is the one that is acted on.

open Userfs (Result)
open Lfs (CString ascii)

namespace Micropython

-- The scripts among the files, in their order.
def scripts (files : List FileInfo) : List FileInfo :=
  files.filter fun file => pythonFileName file.name

theorem scripts_concat {files : List FileInfo} {file : FileInfo} :
    scripts (files ++ [file]) =
      if pythonFileName file.name then scripts files ++ [file] else scripts files := by
  rw [scripts, List.filter_append, ← scripts]
  split
  case isTrue h  => rw [List.filter_cons, if_pos h, List.filter_nil]
  case isFalse h => rw [List.filter_cons, if_neg h, List.filter_nil, List.append_nil]

theorem foldl_countFile (wanted : CString) (files : List FileInfo) :
    (files.foldl (countFile wanted) ⟨0, none⟩).count = (scripts files).length := by
  induction files using List.reverseRecOn with
  | nil => rfl
  | append_singleton files file ih =>
    rw [List.foldl_concat, countFile, scripts_concat]
    split
    case isTrue  => rw [List.length_append, List.length_singleton, ih]
    case isFalse => exact ih

-- The selected row is one of those that are shown, and has the name that has been selected.
structure Ui.Highlighted (ui : Ui) : Prop where
  from_top : ui.listTop ≤ ui.selectedIndex
  inside : ui.selectedIndex < ui.listTop + listVisibleRows
  visible : ui.selectedIndex - ui.listTop < ui.visibleCount
  name : (ui.files (ui.selectedIndex - ui.listTop)).name = ui.selectedName

-- What has been loaded of the files so far.
structure Loading (top selected : Nat) (files : List FileInfo) (page : FilePage) : Prop where
  listTop : page.ui.listTop = top
  selectedIndex : page.ui.selectedIndex = selected
  index : page.index = (scripts files).length
  reached : selected < (scripts files).length → page.ui.Highlighted ∧
    ((scripts files)[selected]?.map fun file => clipName file.name) = some page.ui.selectedName
  ahead : (scripts files).length ≤ selected → page.ui.visibleCount ≤ selected - top

section Loading

variable {top selected : Nat} {files : List FileInfo} {page : FilePage} {file : FileInfo}
  {ui : Ui} {index : Nat}

@[simp] theorem Ui.fill_listTop : (ui.fill index file).listTop = ui.listTop := by
  rw [fill]
  split <;> rfl

@[simp] theorem Ui.fill_selectedIndex :
    (ui.fill index file).selectedIndex = ui.selectedIndex := by
  rw [fill]
  split <;> rfl

@[simp] theorem Ui.fill_selectedName : (ui.fill index file).selectedName = ui.selectedName := by
  rw [fill]
  split <;> rfl

@[simp] theorem Ui.pick_listTop : (ui.pick index file).listTop = ui.listTop := by
  rw [pick]
  split <;> rfl

@[simp] theorem Ui.pick_selectedIndex :
    (ui.pick index file).selectedIndex = ui.selectedIndex := by
  rw [pick]
  split <;> rfl

@[simp] theorem Ui.pick_visibleCount : (ui.pick index file).visibleCount = ui.visibleCount := by
  rw [pick]
  split <;> rfl

@[simp] theorem Ui.pick_files : (ui.pick index file).files = ui.files := by
  rw [pick]
  split <;> rfl

-- A row that has been filled stays as it is while other ones are filled.
theorem Ui.Highlighted.fill_pick (h : ui.Highlighted) (hgt : ui.selectedIndex < index) :
    ((ui.fill index file).pick index file).Highlighted ∧
      ((ui.fill index file).pick index file).selectedName = ui.selectedName := by
  have hname : ((ui.fill index file).pick index file).selectedName = ui.selectedName := by
    rw [pick, if_neg (by rw [fill_selectedIndex]; omega), fill_selectedName]
  obtain ⟨hfrom, hinside, hvisible, hrow⟩ := h
  refine ⟨⟨?_, ?_, ?_, ?_⟩, hname⟩
  · rw [pick_listTop, fill_listTop, pick_selectedIndex, fill_selectedIndex]
    exact hfrom
  · rw [pick_listTop, fill_listTop, pick_selectedIndex, fill_selectedIndex]
    exact hinside
  · rw [pick_listTop, fill_listTop, pick_selectedIndex, fill_selectedIndex, pick_visibleCount, fill]
    split
    case isTrue  => exact Nat.lt_of_lt_of_le hvisible (Nat.le_max_left _ _)
    case isFalse => exact hvisible
  · rw [hname, pick_listTop, fill_listTop, pick_selectedIndex, fill_selectedIndex, pick_files, fill]
    split
    case isFalse => exact hrow
    case isTrue  =>
      have hne : ui.selectedIndex - ui.listTop ≠ index - ui.listTop := by omega
      dsimp only
      rw [Function.update_of_ne hne]
      exact hrow

theorem Ui.fill_pick_selected (hshows : ui.shows ui.selectedIndex)
    (hindex : index = ui.selectedIndex) :
    ((ui.fill index file).pick index file).Highlighted ∧
      ((ui.fill index file).pick index file).selectedName = clipName file.name := by
  have hname : ((ui.fill index file).pick index file).selectedName = clipName file.name := by
    rw [pick, if_pos (by rw [fill_selectedIndex, hindex])]
  refine ⟨⟨?_, ?_, ?_, ?_⟩, hname⟩
  · rw [pick_listTop, fill_listTop, pick_selectedIndex, fill_selectedIndex]
    exact hshows.1
  · rw [pick_listTop, fill_listTop, pick_selectedIndex, fill_selectedIndex]
    exact hshows.2
  · rw [pick_listTop, fill_listTop, pick_selectedIndex, fill_selectedIndex, pick_visibleCount, fill,
      hindex, if_pos hshows]
    exact Nat.lt_of_lt_of_le (Nat.lt_succ_self _) (Nat.le_max_right _ _)
  · rw [hname, pick_listTop, fill_listTop, pick_selectedIndex, fill_selectedIndex, pick_files, fill,
      hindex, if_pos hshows]
    dsimp only
    rw [Function.update_self]
    rfl

theorem Ui.fill_visibleCount (hlt : index < ui.selectedIndex)
    (h : ui.visibleCount ≤ ui.selectedIndex - ui.listTop) :
    (ui.fill index file).visibleCount ≤ ui.selectedIndex - ui.listTop := by
  rw [fill]
  split
  case isFalse         => exact h
  case isTrue hshows =>
    have hfrom := hshows.1
    exact Nat.max_le.mpr ⟨h, by omega⟩

-- The selected row is filled together with the name, and is left alone from then on.
theorem Loading.step (h : Loading top selected files page)
    (hwindow : top ≤ selected ∧ selected < top + listVisibleRows) :
    Loading top selected (files ++ [file]) (loadFileRow page file) := by
  obtain ⟨htop, hselected, hindex, hreached, hahead⟩ := h
  have hscripts := @scripts_concat files file
  rw [loadFileRow]
  split
  case isFalse hpy =>
    rw [if_neg hpy] at hscripts
    rw [← hscripts] at hindex hreached hahead
    exact ⟨htop, hselected, hindex, hreached, hahead⟩
  case isTrue hpy =>
    rw [if_pos hpy] at hscripts
    have hlength : (scripts (files ++ [file])).length = page.index + 1 := by
      rw [hscripts, List.length_append, List.length_singleton, hindex]
    rw [← hindex] at hreached hahead
    refine ⟨?_, ?_, hlength.symm, fun hr => ?_, fun hr => ?_⟩
    · rw [Ui.pick_listTop, Ui.fill_listTop, htop]
    · rw [Ui.pick_selectedIndex, Ui.fill_selectedIndex, hselected]
    · obtain heq | hgt := Nat.eq_or_lt_of_le (Nat.lt_succ_iff.mp (hlength ▸ hr))
      case inl =>
        have hget : (scripts (files ++ [file]))[selected]? = some file := by
          rw [hscripts, heq, hindex, List.getElem?_concat_length]
        have hshows : page.ui.shows page.ui.selectedIndex := by
          rw [Ui.shows, hselected, htop]
          exact hwindow
        obtain ⟨hhigh, hname⟩ := @Ui.fill_pick_selected file _ _ hshows
          (heq.symm.trans hselected.symm)
        refine ⟨hhigh, ?_⟩
        rw [hget, hname]
        rfl
      case inr =>
        obtain ⟨hold, hget⟩ := hreached hgt
        obtain ⟨hhigh, hname⟩ := @Ui.Highlighted.fill_pick file _ _ hold (hselected ▸ hgt)
        refine ⟨hhigh, ?_⟩
        rw [hname, ← hget, hscripts, List.getElem?_append_left (by omega)]
    · have hvisible := hahead (by omega)
      rw [← hselected, ← htop] at hvisible ⊢
      rw [Ui.pick_visibleCount]
      exact Ui.fill_visibleCount (by omega) hvisible

theorem Loading.foldl (changed : Bool) (htop : ui.listTop = top)
    (hselected : ui.selectedIndex = selected) (hvisible : ui.visibleCount = 0)
    (hwindow : top ≤ selected ∧ selected < top + listVisibleRows) :
    Loading top selected files (files.foldl loadFileRow ⟨ui, 0, changed⟩) := by
  induction files using List.reverseRecOn with
  | nil =>
    refine ⟨htop, hselected, rfl, fun h => absurd h (Nat.not_lt_zero _), fun _ => ?_⟩
    exact Nat.le_trans (Nat.le_of_eq hvisible) (Nat.zero_le _)
  | append_singleton files file ih =>
    rw [List.foldl_concat]
    exact ih.step hwindow

end Loading

-- The part of the view that says what is selected.
structure Selection where
  files : Nat → FileRow
  fileCount : Nat
  selectedIndex : Nat
  listTop : Nat
  visibleCount : Nat
  selectedName : CString

def Ui.selection (ui : Ui) : Selection where
  files         := ui.files
  fileCount     := ui.fileCount
  selectedIndex := ui.selectedIndex
  listTop       := ui.listTop
  visibleCount  := ui.visibleCount
  selectedName  := ui.selectedName

theorem Ui.Highlighted.of_selection {u v : Ui} (h : u.Highlighted)
    (heq : v.selection = u.selection) : v.Highlighted := by
  have hfiles : v.files = u.files := congrArg Selection.files heq
  have hindex : v.selectedIndex = u.selectedIndex := congrArg Selection.selectedIndex heq
  have htop : v.listTop = u.listTop := congrArg Selection.listTop heq
  have hvisible : v.visibleCount = u.visibleCount := congrArg Selection.visibleCount heq
  have hname : v.selectedName = u.selectedName := congrArg Selection.selectedName heq
  obtain ⟨h₁, h₂, h₃, h₄⟩ := h
  refine ⟨?_, ?_, ?_, ?_⟩
  · rw [hindex, htop]
    exact h₁
  · rw [hindex, htop]
    exact h₂
  · rw [hindex, htop, hvisible]
    exact h₃
  · rw [hindex, htop, hfiles, hname]
    exact h₄

namespace App

variable {a : App} {r : Replies}

@[simp] theorem setStatus_ui (text : CString) :
    (a.setStatus text).ui = { a.ui with status := text.take statusColumns } := by
  rw [setStatus]
  split
  case isTrue h  => rw [← h]
  case isFalse   => rfl

@[simp] theorem setStatus_selection (text : CString) :
    (a.setStatus text).ui.selection = a.ui.selection := by
  rw [setStatus_ui]
  rfl

@[simp] theorem setStatus_mode (text : CString) : (a.setStatus text).ui.mode = a.ui.mode := by
  rw [setStatus_ui]

@[simp] theorem refreshStartup_selection (reply : Except Result CString) :
    (a.refreshStartup reply).ui.selection = a.ui.selection :=
  rfl

@[simp] theorem showConsole_selection : a.showConsole.ui.selection = a.ui.selection := by
  rw [showConsole]
  split <;> rfl

@[simp] theorem say_ui (text : CString) : (a.say text).ui = a.ui := by
  rw [say]

@[simp] theorem stopRequested_ui : (a.stopRequested r).ui = a.ui := by
  rw [stopRequested]
  split
  case isTrue  => exact say_ui _
  case isFalse => rfl

@[simp] theorem requestListRender_ui : a.requestListRender.ui = a.ui :=
  rfl

@[simp] theorem requestRuntimeStop_ui : (a.requestRuntimeStop r).ui = a.ui := by
  rw [requestRuntimeStop]
  split
  case isTrue  => exact stopRequested_ui
  case isFalse => exact stopRequested_ui

@[simp] theorem leaveTo_selection (mode : Mode) :
    (a.leaveTo mode).ui.selection = a.ui.selection :=
  setStatus_selection _

@[simp] theorem leaveTo_mode (mode : Mode) : (a.leaveTo mode).ui.mode = mode :=
  setStatus_mode _

@[simp] theorem showPreview_selection (preview : Preview) :
    (a.showPreview preview).ui.selection = a.ui.selection :=
  setStatus_selection _

end App

-- What `select` leaves is one of the files.
theorem foldl_found {wanted : CString} {files : List FileInfo} {i : Nat}
    (h : (files.foldl (countFile wanted) ⟨0, none⟩).found = some i) :
    i < (scripts files).length := by
  induction files using List.reverseRecOn with
  | nil => cases h
  | append_singleton files file ih =>
    have hcount := foldl_countFile wanted files
    rw [List.foldl_concat, countFile] at h
    rw [scripts_concat]
    split at h
    case isFalse hpy =>
      rw [if_neg hpy]
      exact ih h
    case isTrue hpy =>
      rw [if_pos hpy, List.length_append, List.length_singleton]
      dsimp only at h
      split at h
      case isTrue  =>
        rw [← Option.some.inj h, hcount]
        exact Nat.lt_succ_self _
      case isFalse => exact Nat.lt_succ_of_lt (ih h)

-- What the first scan counts and finds.
def Ui.counted (ui : Ui) (preserveName : Bool) (scan : Scan) : FileCount :=
  scan.counted.foldl (countFile (if preserveName then ui.selectedName else [])) ⟨0, none⟩

-- The index of the file that `refresh_file_list` selects after it has counted the files.
def Ui.chosen (ui : Ui) (preserveName : Bool) (scan : Scan) : Nat :=
  ui.select preserveName (ui.counted preserveName scan)

theorem Ui.chosen_lt {ui : Ui} {preserveName : Bool} {scan : Scan}
    (h : scripts scan.counted ≠ []) :
    ui.chosen preserveName scan < (scripts scan.counted).length := by
  have hpos := List.length_pos_iff.mpr h
  rw [chosen, select.eq_def]
  split
  case h_1 found hfound => exact foldl_found hfound
  case h_2 =>
    rw [counted, foldl_countFile]
    split <;> omega

theorem Ui.top_window {ui : Ui} {count : Nat} (h : ui.selectedIndex < count) :
    ui.top count ≤ ui.selectedIndex ∧ ui.selectedIndex < ui.top count + listVisibleRows := by
  have hrows : listVisibleRows = 7 := rfl
  rw [top]
  split_ifs <;> omega

-- What is left of the view after the rows below have been cleared.
theorem Ui.highlighted_trim {u : Ui} {files : Nat → FileRow}
    (hfiles : ∀ row, row < u.visibleCount → files row = u.files row) :
    { u with files := files }.Highlighted ↔ u.Highlighted := by
  constructor
  · intro h
    refine ⟨h.from_top, h.inside, h.visible, ?_⟩
    rw [← hfiles _ h.visible]
    exact h.name
  · intro h
    refine ⟨h.from_top, h.inside, h.visible, ?_⟩
    dsimp only
    rw [hfiles _ h.visible]
    exact h.name

theorem foldl_loadFileRow_fileCount {files : List FileInfo} {page : FilePage} :
    (files.foldl loadFileRow page).ui.fileCount = page.ui.fileCount := by
  induction files generalizing page with
  | nil                  => rfl
  | cons file files ih =>
    rw [List.foldl_cons, ih, loadFileRow]
    split
    case isFalse => rfl
    case isTrue  =>
      dsimp only
      rw [Ui.pick, Ui.fill]
      split <;> split <;> rfl

theorem foldl_loadFileRow_mode {files : List FileInfo} {page : FilePage} :
    (files.foldl loadFileRow page).ui.mode = page.ui.mode := by
  induction files generalizing page with
  | nil                  => rfl
  | cons file files ih =>
    rw [List.foldl_cons, ih, loadFileRow]
    split
    case isFalse => rfl
    case isTrue  =>
      dsimp only
      rw [Ui.pick, Ui.fill]
      split <;> split <;> rfl

namespace App

variable {a : App} {r : Replies} {scan : Scan} {preserveName markChanges : Bool}

@[simp] theorem markList_ui (old : Ui) (changed : Bool) :
    (a.markList old markChanges changed).ui = a.ui := by
  rw [markList]
  split <;> rfl

theorem refresh_eq_of_failed (h : scan.countResult ≠ .ok) :
    a.refreshFileList preserveName markChanges scan =
      (a.refreshStartup scan.startup).setStatus (ascii "LIST " ++ resultName scan.countResult) := by
  rw [refreshFileList, if_pos h]

theorem refresh_eq_of_empty (hok : scan.countResult = .ok) (hnone : scripts scan.counted = []) :
    a.refreshFileList preserveName markChanges scan =
      (a.refreshStartup scan.startup).listNone a.ui markChanges := by
  rw [refreshFileList, if_neg (not_not_intro hok), foldl_countFile, hnone, List.length_nil,
    if_pos rfl]

theorem refresh_eq_of_loaded (hok : scan.countResult = .ok)
    (hsome : scripts scan.counted ≠ []) :
    a.refreshFileList preserveName markChanges scan =
      ((a.refreshStartup scan.startup).selectFile preserveName
        (a.ui.counted preserveName scan)).loadList a.ui markChanges scan := by
  have hne : (scripts scan.counted).length ≠ 0 := mt List.length_eq_zero_iff.mp hsome
  have hcount := foldl_countFile (if preserveName then a.ui.selectedName else []) scan.counted
  rw [refreshFileList, if_neg (not_not_intro hok), if_neg (by rw [hcount]; exact hne)]
  rfl

theorem refresh_failed (h : scan.countResult ≠ .ok) :
    (a.refreshFileList preserveName markChanges scan).ui.selection = a.ui.selection := by
  rw [refresh_eq_of_failed h, setStatus_selection, refreshStartup_selection]

theorem refresh_empty (hok : scan.countResult = .ok) (hnone : scripts scan.counted = []) :
    (a.refreshFileList preserveName markChanges scan).ui.fileCount = 0 := by
  rw [refresh_eq_of_empty hok hnone, listNone, markList_ui]

theorem loadList_selection (old : Ui) : ∃ files : Nat → FileRow,
    (∀ row, row < (scan.loaded.foldl loadFileRow ⟨a.ui, 0, false⟩).ui.visibleCount →
      files row = (scan.loaded.foldl loadFileRow ⟨a.ui, 0, false⟩).ui.files row) ∧
    (a.loadList old markChanges scan).ui.selection =
      { (scan.loaded.foldl loadFileRow ⟨a.ui, 0, false⟩).ui with files := files }.selection := by
  rw [loadList]
  split
  case isTrue =>
    rw [setStatus_selection]
    exact ⟨_, fun _ _ => rfl, rfl⟩
  case isFalse =>
    rw [markList_ui]
    refine ⟨fun row =>
      if row < (scan.loaded.foldl loadFileRow ⟨a.ui, 0, false⟩).ui.visibleCount then
        (scan.loaded.foldl loadFileRow ⟨a.ui, 0, false⟩).ui.files row
      else
        .zero, fun row hrow => if_pos hrow, ?_⟩
    split
    case isTrue  => rw [setStatus_selection]
    case isFalse => rfl

-- The row is shown just if the second scan comes as far as the index that has been selected.
theorem loadList_spec (old : Ui) (hvisible : a.ui.visibleCount = 0)
    (hwindow : a.ui.listTop ≤ a.ui.selectedIndex ∧
      a.ui.selectedIndex < a.ui.listTop + listVisibleRows) :
    ((a.loadList old markChanges scan).ui.Highlighted ↔
      a.ui.selectedIndex < (scripts scan.loaded).length) ∧
    (a.ui.selectedIndex < (scripts scan.loaded).length →
      ((scripts scan.loaded)[a.ui.selectedIndex]?.map fun file => clipName file.name) =
        some (a.loadList old markChanges scan).ui.selectedName) ∧
    (a.loadList old markChanges scan).ui.fileCount = a.ui.fileCount ∧
    (a.loadList old markChanges scan).ui.selectedIndex = a.ui.selectedIndex := by
  obtain ⟨files, hfiles, heq⟩ := @loadList_selection a scan markChanges old
  have hload := @Loading.foldl _ _ scan.loaded _ false rfl rfl hvisible hwindow
  have hcount := @foldl_loadFileRow_fileCount scan.loaded ⟨a.ui, 0, false⟩
  have hname : (a.loadList old markChanges scan).ui.selectedName =
      (scan.loaded.foldl loadFileRow ⟨a.ui, 0, false⟩).ui.selectedName :=
    congrArg Selection.selectedName heq
  refine ⟨⟨fun h => ?_, fun h => ?_⟩, fun h => ?_, ?_, ?_⟩
  · refine Nat.not_le.mp fun hle => ?_
    have hhigh := (Ui.highlighted_trim hfiles).mp (h.of_selection heq.symm)
    have hvisible := hhigh.visible
    rw [hload.selectedIndex, hload.listTop] at hvisible
    exact absurd (hload.ahead hle) (Nat.not_le.mpr hvisible)
  · have hhigh := (Ui.highlighted_trim hfiles).mpr (hload.reached h).1
    exact hhigh.of_selection heq
  · rw [hname]
    exact (hload.reached h).2
  · rw [← hcount]
    exact congrArg Selection.fileCount heq
  · rw [← hload.selectedIndex]
    exact congrArg Selection.selectedIndex heq

theorem refresh_loaded (hok : scan.countResult = .ok) (hsome : scripts scan.counted ≠ []) :
    ((a.refreshFileList preserveName markChanges scan).ui.Highlighted ↔
      a.ui.chosen preserveName scan < (scripts scan.loaded).length) ∧
    (a.ui.chosen preserveName scan < (scripts scan.loaded).length →
      ((scripts scan.loaded)[a.ui.chosen preserveName scan]?.map fun file => clipName file.name) =
        some (a.refreshFileList preserveName markChanges scan).ui.selectedName) ∧
    (a.refreshFileList preserveName markChanges scan).ui.fileCount =
      (scripts scan.counted).length ∧
    (a.refreshFileList preserveName markChanges scan).ui.selectedIndex =
      a.ui.chosen preserveName scan := by
  have hcount := foldl_countFile (if preserveName then a.ui.selectedName else []) scan.counted
  have hchosen := @Ui.chosen_lt a.ui preserveName scan hsome
  rw [refresh_eq_of_loaded hok hsome]
  obtain ⟨hhigh, hname, hfiles, hindex⟩ := @loadList_spec
    ((a.refreshStartup scan.startup).selectFile preserveName (a.ui.counted preserveName scan))
    scan markChanges a.ui rfl (Ui.top_window (by rw [Ui.counted, hcount]; exact hchosen))
  exact ⟨hhigh, hname, hfiles.trans hcount, hindex⟩

theorem loadList_mode (old : Ui) : (a.loadList old markChanges scan).ui.mode = a.ui.mode := by
  have hmode := @foldl_loadFileRow_mode scan.loaded ⟨a.ui, 0, false⟩
  rw [loadList]
  split
  case isTrue  => rw [setStatus_mode, hmode]
  case isFalse =>
    rw [markList_ui]
    split
    case isTrue  => rw [setStatus_mode, hmode]
    case isFalse => exact hmode

@[simp] theorem refresh_mode :
    (a.refreshFileList preserveName markChanges scan).ui.mode = a.ui.mode := by
  by_cases hok : scan.countResult = .ok
  case neg =>
    rw [refresh_eq_of_failed hok]
    exact setStatus_mode _
  case pos =>
    by_cases hnone : scripts scan.counted = []
    case pos =>
      rw [refresh_eq_of_empty hok hnone, listNone, markList_ui]
      rfl
    case neg =>
      rw [refresh_eq_of_loaded hok hnone]
      exact loadList_mode _

end App

-- Whatever is in the list, the selected row is the one whose name has been selected.
structure Ui.Agrees (ui : Ui) : Prop where
  highlighted : ui.fileCount ≠ 0 → ui.Highlighted
  selected : ui.fileCount ≠ 0 → ui.selectedIndex < ui.fileCount

theorem Ui.Agrees.of_selection {u v : Ui} (h : u.Agrees) (heq : v.selection = u.selection) :
    v.Agrees := by
  have hcount : v.fileCount = u.fileCount := congrArg Selection.fileCount heq
  have hindex : v.selectedIndex = u.selectedIndex := congrArg Selection.selectedIndex heq
  refine ⟨fun hne => (h.highlighted (hcount ▸ hne)).of_selection heq, fun hne => ?_⟩
  rw [hindex, hcount]
  exact h.selected (hcount ▸ hne)

-- The second scan comes as far as the index that the first one leaves selected.
def Ui.Reaches (ui : Ui) (preserveName : Bool) (scan : Scan) : Prop :=
  scan.countResult = .ok → scripts scan.counted ≠ [] →
    ui.chosen preserveName scan < (scripts scan.loaded).length

theorem Ui.Reaches.of_selection {u v : Ui} {preserveName : Bool} {scan : Scan}
    (h : u.Reaches preserveName scan) (heq : v.selection = u.selection) :
    v.Reaches preserveName scan := by
  have hindex : v.selectedIndex = u.selectedIndex := congrArg Selection.selectedIndex heq
  have hname : v.selectedName = u.selectedName := congrArg Selection.selectedName heq
  have hchosen : v.chosen preserveName scan = u.chosen preserveName scan := by
    rw [chosen, chosen, counted, counted, select.eq_def, select.eq_def, hindex, hname]
  rw [Reaches, hchosen]
  exact h

-- Both scans come across the selected name at one index.
def Ui.Keeps (ui : Ui) (scan : Scan) : Prop :=
  scan.countResult = .ok → scripts scan.counted ≠ [] →
    ((scripts scan.loaded)[ui.chosen true scan]?.map fun file => clipName file.name) =
      some ui.selectedName

theorem Ui.Keeps.reaches {ui : Ui} {scan : Scan} (h : ui.Keeps scan) : ui.Reaches true scan := by
  intro hok hsome
  have hget := h hok hsome
  refine Nat.not_le.mp fun hle => ?_
  rw [List.getElem?_eq_none hle] at hget
  cases hget

namespace App

variable {a b : App} {r : Replies} {scan : Scan} {preserveName markChanges : Bool}

theorem refresh_agrees (h : scan.countResult ≠ .ok → a.ui.Agrees)
    (hreach : a.ui.Reaches preserveName scan) :
    (a.refreshFileList preserveName markChanges scan).ui.Agrees := by
  by_cases hok : scan.countResult = .ok
  case neg => exact (h hok).of_selection (refresh_failed hok)
  case pos =>
    by_cases hsome : scripts scan.counted = []
    case pos =>
      have hzero := @refresh_empty a scan preserveName markChanges hok hsome
      exact ⟨fun hne => absurd hzero hne, fun hne => absurd hzero hne⟩
    case neg =>
      obtain ⟨hhigh, -, hcount, hindex⟩ := @refresh_loaded a scan preserveName markChanges hok hsome
      refine ⟨fun _ => hhigh.mpr (hreach hok hsome), fun _ => ?_⟩
      rw [hindex, hcount]
      exact Ui.chosen_lt hsome

-- The other functions leave the selection alone.
theorem navigateActions_selection (back : Bool) :
    (a.navigateActions back).ui.selection = a.ui.selection := by
  rw [navigateActions]
  dsimp only
  rw [setStatus_ui]
  rfl

theorem navigateActions_mode (back : Bool) : (a.navigateActions back).ui.mode = a.ui.mode := by
  rw [navigateActions]
  dsimp only
  rw [setStatus_ui]

theorem runSelectedFile_selection (program : Except ProgramResult UInt32) :
    (a.runSelectedFile program).1.ui.selection = a.ui.selection := by
  rw [runSelectedFile]
  split
  case isTrue  => rfl
  case isFalse =>
    cases program with
    | error result =>
      dsimp only
      rw [say_ui, setStatus_selection, say_ui]
    | ok runId     =>
      dsimp only
      rw [showConsole_selection, setStatus_selection]
      dsimp only
      rw [say_ui]

theorem prepareLog_ui : a.prepareLog.ui = a.ui := by
  rw [prepareLog]
  split <;> rfl

theorem rendered_ui : a.rendered.ui = a.ui := by
  rw [rendered]
  split <;> rfl

theorem renderPending_ui (runtime : Runtime) : (a.renderPending runtime).1.ui = a.ui := by
  rw [renderPending]
  split
  case isTrue  =>
    dsimp only
    rw [rendered_ui, prepareLog_ui]
  case isFalse => rfl

theorem renderIfNeeded_ui (force : Bool) (runtime : Runtime) :
    (a.renderIfNeeded force runtime).1.ui = a.ui := by
  rw [renderIfNeeded]
  split
  case isTrue  => rfl
  case isFalse =>
    split
    case isTrue  => exact renderPending_ui runtime
    case isFalse => exact renderPending_ui runtime

theorem pollState_ui (runtime : Runtime) : (a.pollState runtime).ui = a.ui := by
  rw [pollState]
  split
  case isFalse => rfl
  case isTrue  =>
    dsimp only
    split <;> rfl

theorem pollRun_selection (runtime : Runtime) :
    (a.pollRun runtime).ui.selection = a.ui.selection := by
  rw [pollRun]
  split
  case isFalse => rfl
  case isTrue  =>
    dsimp only
    split
    case isTrue  => exact showConsole_selection
    case isFalse => rfl

theorem pollDropped_ui (dropped : UInt32) : (a.pollDropped dropped).ui = a.ui := by
  rw [pollDropped]
  split
  case isTrue  => rfl
  case isFalse => rfl

theorem pollOutput_selection : (a.pollOutput r).ui.selection = a.ui.selection := by
  rw [pollOutput]
  dsimp only
  rw [pollDropped_ui, pollRun_selection, pollState_ui]

theorem tickConsole_ui : a.tickConsole.ui = a.ui := by
  rw [tickConsole]
  split_ifs <;> rfl

theorem runDebugDefault_selection : (a.runDebugDefault r).ui.selection = a.ui.selection := by
  have hshow (b : App) (h : b.ui.selection = a.ui.selection) :
      (if b.screenActive then b.showConsole else b).ui.selection = a.ui.selection := by
    split
    case isTrue  => rw [showConsole_selection, h]
    case isFalse => exact h
  rw [runDebugDefault]
  dsimp only
  split
  case isTrue =>
    split
    case h_1 => rw [say_ui]; rfl
    case h_2 => exact hshow _ (by rw [say_ui]; rfl)
  case isFalse =>
    split
    case isTrue  => rw [say_ui]; rfl
    case isFalse => exact hshow _ (by rw [say_ui]; rfl)

theorem deleteSelected_of_failed (h : r.remove ≠ .ok) :
    (a.deleteSelected r).1.ui.selection = a.ui.selection := by
  rw [deleteSelected, if_pos h]
  exact setStatus_selection _

-- What a step may do: the agreement stays, and nothing else is selected unless the list is shown.
structure Follows (a b : App) : Prop where
  agrees : a.ui.Agrees → b.ui.Agrees
  target : b.ui.mode ≠ .list → a.ui.fileCount ≠ 0 →
    b.ui.fileCount ≠ 0 ∧ b.ui.selectedName = a.ui.selectedName

theorem Follows.of_selection (h : b.ui.selection = a.ui.selection) : Follows a b where
  agrees hagrees := hagrees.of_selection h
  target _ hne   := by
    have hcount : b.ui.fileCount = a.ui.fileCount := congrArg Selection.fileCount h
    exact ⟨hcount ▸ hne, congrArg Selection.selectedName h⟩

theorem Follows.in_list (h : a.ui.Agrees → b.ui.Agrees) (hmode : b.ui.mode = .list) :
    Follows a b :=
  ⟨h, fun hne => absurd hmode hne⟩

theorem refresh_keeps (hkeeps : a.ui.Keeps scan) (hsome : scan.countResult = .ok →
    scripts scan.counted ≠ []) (hne : a.ui.fileCount ≠ 0) :
    (a.refreshFileList true markChanges scan).ui.fileCount ≠ 0 ∧
      (a.refreshFileList true markChanges scan).ui.selectedName = a.ui.selectedName := by
  by_cases hok : scan.countResult = .ok
  case neg =>
    have hsame := @refresh_failed a scan true markChanges hok
    have hcount : (a.refreshFileList true markChanges scan).ui.fileCount = a.ui.fileCount :=
      congrArg Selection.fileCount hsame
    exact ⟨hcount ▸ hne, congrArg Selection.selectedName hsame⟩
  case pos =>
    obtain ⟨-, hname, hcount, -⟩ := @refresh_loaded a scan true markChanges hok (hsome hok)
    have hname := hname (hkeeps.reaches hok (hsome hok))
    rw [hkeeps hok (hsome hok)] at hname
    refine ⟨?_, (Option.some.inj hname).symm⟩
    rw [hcount]
    exact mt List.length_eq_zero_iff.mp (hsome hok)

end App

-- The condition on the scans of one step. In the list, the first scan may fail unless the selection
-- has been moved before it. Elsewhere the selected file has to be found again.
def App.SteadyButtons (a : App) (pressed : Pressed) (r : Replies) : Mode → Prop
  | .list          => pressed.back = false → pressed.left ∨ pressed.right → a.ui.fileCount ≠ 0 →
    (a.ui.fileCount = 1 ∨ r.scan.countResult = .ok) ∧
      (a.moveTo (a.ui.neighbour pressed.left)).ui.Reaches false r.scan
  | .actions       => pressed.back = false → pressed.left = false → pressed.right = false →
    pressed.ok → a.ui.actionIndex = actionStartup → r.setStartup = .ok →
      a.ui.Keeps r.scan ∧ (r.scan.countResult = .ok → scripts r.scan.counted ≠ [])
  | .preview       => True
  | .console       => pressed.ok = false → pressed.back → r.runtime.state.active = false →
    a.ui.Reaches true r.scan ∧ (a.ui.fileCount ≠ 0 → a.ui.Keeps r.scan)
  | .deleteConfirm => pressed.back = false → pressed.ok → r.remove = .ok →
    a.ui.Reaches false r.scan

def App.Steady (a : App) (r : Replies) : Event → Prop
  | .enter                  => r.mount = .ok →
    (a.reset.selectStartup r.startup).ui.Reaches true r.scan
  | .exit                   => True
  | .buttons pressed        => a.SteadyButtons pressed r a.ui.mode
  | .timer                  => a.ui.mode = .list → a.refreshTicks + 1 ≥ listRefreshTicks →
    ¬(r.runtime.runId ≠ a.observedRunId ∧ a.screenActive ∧ r.runtime.state.active) →
      a.ui.Reaches true r.scan
  | .command .formatConfirm => a.screenActive → r.format = .ok → a.ui.Reaches false r.scan
  | .command _              => True

namespace App

variable {a b : App} {r : Replies} {pressed : Pressed}

theorem neighbour_of_one {ui : Ui} {back : Bool} (h : ui.Agrees) (hone : ui.fileCount = 1) :
    ui.neighbour back = ui.selectedIndex := by
  have hlt := h.selected (by omega)
  rw [Ui.neighbour]
  split
  case isTrue  => split <;> omega
  case isFalse => rw [hone, Nat.mod_one]; omega

theorem moveTo_ui (index : Nat) :
    (a.moveTo index).ui = { a.ui with selectedIndex := index, status := [] } := by
  rw [moveTo, setStatus_ui, List.take_nil]

theorem navigateFiles_ui (back : Bool) (hne : a.ui.fileCount ≠ 0) :
    (a.navigateFiles back r.scan).ui =
      ((a.moveTo (a.ui.neighbour back)).refreshFileList false false r.scan).ui := by
  rw [navigateFiles, if_neg hne]
  dsimp only
  split <;> rfl

theorem navigateFiles_follows (back : Bool) (hmode : a.ui.mode = .list)
    (h : a.ui.fileCount ≠ 0 → (a.ui.fileCount = 1 ∨ r.scan.countResult = .ok) ∧
      (a.moveTo (a.ui.neighbour back)).ui.Reaches false r.scan) :
    Follows a (a.navigateFiles back r.scan) := by
  by_cases hne : a.ui.fileCount = 0
  case pos =>
    rw [navigateFiles, if_pos hne]
    exact .of_selection rfl
  case neg =>
    obtain ⟨hcount, hreach⟩ := h hne
    refine .in_list (fun hagrees => ?_) ?_
    · rw [navigateFiles_ui back hne]
      refine refresh_agrees (fun hfailed => ?_) hreach
      have hone := hcount.resolve_right hfailed
      rw [moveTo_ui, neighbour_of_one hagrees hone]
      exact hagrees.of_selection rfl
    · rw [navigateFiles_ui back hne, refresh_mode, moveTo_ui]
      exact hmode

theorem handleListButtons_follows (hmode : a.ui.mode = .list)
    (h : a.SteadyButtons pressed r .list) : Follows a (a.handleListButtons pressed r) := by
  rw [handleListButtons]
  split
  case isTrue =>
    split
    case isTrue  =>
      refine .of_selection ?_
      rw [requestRuntimeStop_ui, showConsole_selection]
    case isFalse => exact .of_selection rfl
  case isFalse hback =>
    have hback := Bool.eq_false_iff.mpr hback
    split
    case isTrue hleft =>
      have h := h hback (.inl hleft)
      rw [hleft] at h
      exact navigateFiles_follows true hmode h
    case isFalse hleft =>
      split
      case isTrue hright =>
        have h := h hback (.inr hright)
        rw [Bool.eq_false_iff.mpr hleft] at h
        exact navigateFiles_follows false hmode h
      case isFalse =>
        split
        case isTrue  => exact .of_selection (leaveTo_selection _)
        case isFalse => exact .of_selection rfl

theorem toggleStartup_follows (h : r.setStartup = .ok →
    a.ui.Keeps r.scan ∧ (r.scan.countResult = .ok → scripts r.scan.counted ≠ [])) :
    Follows a (a.toggleStartup r) := by
  rw [toggleStartup]
  split
  case isFalse     => exact .of_selection (setStatus_selection _)
  case isTrue hset =>
    obtain ⟨hkeeps, hsome⟩ := h hset
    refine ⟨fun hagrees => ?_, fun _ hne => ?_⟩
    · exact (refresh_agrees (fun _ => hagrees) hkeeps.reaches).of_selection
        (setStatus_selection _)
    · have hkept := @refresh_keeps a r.scan false hkeeps hsome hne
      dsimp only
      rw [setStatus_ui]
      exact hkept

theorem executeAction_follows (h : a.ui.actionIndex = actionStartup → r.setStartup = .ok →
    a.ui.Keeps r.scan ∧ (r.scan.countResult = .ok → scripts r.scan.counted ≠ [])) :
    Follows a (a.executeAction r).1 := by
  rw [executeAction]
  split
  case isTrue  => exact .of_selection (runSelectedFile_selection _)
  case isFalse =>
    split
    case isTrue  => exact .of_selection (showPreview_selection _)
    case isFalse =>
      split
      case isTrue  => exact .of_selection showConsole_selection
      case isFalse =>
        split
        case isTrue hstartup => exact toggleStartup_follows (h hstartup)
        case isFalse         =>
          split
          case isTrue  => exact .of_selection (setStatus_selection _)
          case isFalse => exact .of_selection rfl

theorem handleActionButtons_follows (h : a.SteadyButtons pressed r .actions) :
    Follows a (a.handleActionButtons pressed r).1 := by
  rw [handleActionButtons]
  split
  case isTrue => exact .of_selection (leaveTo_selection _)
  case isFalse hback =>
    split
    case isTrue => exact .of_selection (navigateActions_selection _)
    case isFalse hleft =>
      split
      case isTrue => exact .of_selection (navigateActions_selection _)
      case isFalse hright =>
        split
        case isFalse    => exact .of_selection rfl
        case isTrue hok =>
          exact executeAction_follows (h (Bool.eq_false_iff.mpr hback)
            (Bool.eq_false_iff.mpr hleft) (Bool.eq_false_iff.mpr hright) hok)

theorem handlePreviewButtons_follows : Follows a (a.handlePreviewButtons pressed r).1 := by
  refine .of_selection ?_
  rw [handlePreviewButtons]
  split
  case isTrue  => exact leaveTo_selection _
  case isFalse =>
    split
    case isTrue  => exact showPreview_selection _
    case isFalse =>
      split
      case isTrue  => exact showPreview_selection _
      case isFalse => rfl

theorem pageConsole_ui : (a.pageConsole pressed).ui = a.ui := by
  rw [pageConsole]
  split
  case isTrue  => rfl
  case isFalse => split <;> rfl

theorem handleConsoleButtons_follows (h : a.SteadyButtons pressed r .console) :
    Follows a (a.handleConsoleButtons pressed r) := by
  rw [handleConsoleButtons]
  split
  case isTrue =>
    refine .of_selection ?_
    split
    case isTrue  => rw [requestRuntimeStop_ui, pageConsole_ui]
    case isFalse => rw [pageConsole_ui]
  case isFalse hok =>
    split
    case isFalse      => exact .of_selection (by rw [pageConsole_ui])
    case isTrue hback =>
      split
      case isTrue         => exact .of_selection (by rw [requestRuntimeStop_ui, pageConsole_ui])
      case isFalse hactive =>
        obtain ⟨hreach, hkeeps⟩ := h (Bool.eq_false_iff.mpr hok) hback
          (Bool.eq_false_iff.mpr hactive)
        rw [← @pageConsole_ui a pressed] at hreach hkeeps
        refine ⟨fun hagrees => ?_, fun hmode hne => ?_⟩
        · rw [← @pageConsole_ui a pressed] at hagrees
          exact (refresh_agrees (fun _ => hagrees) hreach).of_selection (leaveTo_selection _)
        · rw [← @pageConsole_ui a pressed] at hne
          have hsome (hok : r.scan.countResult = .ok) : scripts r.scan.counted ≠ [] := by
            intro hnone
            have hzero := @refresh_empty (a.pageConsole pressed) r.scan true false hok hnone
            rw [leaveTo_mode, if_neg (not_not_intro hzero)] at hmode
            exact hmode rfl
          have hkept := @refresh_keeps _ r.scan false (hkeeps hne) hsome hne
          have hsame := @leaveTo_selection
            ((a.pageConsole pressed).refreshFileList true false r.scan)
            (if ((a.pageConsole pressed).refreshFileList true false r.scan).ui.fileCount ≠ 0 then
              .actions else .list)
          rw [← @pageConsole_ui a pressed]
          refine ⟨fun hz => hkept.1 ?_, (congrArg Selection.selectedName hsame).trans hkept.2⟩
          exact (congrArg Selection.fileCount hsame).symm.trans hz

theorem deleteSelected_follows (h : r.remove = .ok → a.ui.Reaches false r.scan) :
    Follows a (a.deleteSelected r).1 := by
  rw [deleteSelected]
  split
  case isTrue        => exact .of_selection (setStatus_selection _)
  case isFalse hgone =>
    have hreach := h (Decidable.of_not_not hgone)
    refine .in_list (fun hagrees => ?_) ?_
    · have hagrees' : { a with ui.mode := .list }.ui.Agrees := hagrees.of_selection rfl
      have hreach' : { a with ui.mode := .list }.ui.Reaches false r.scan := hreach.of_selection rfl
      exact (refresh_agrees (fun _ => hagrees') hreach').of_selection (setStatus_selection _)
    · dsimp only
      rw [setStatus_mode, refresh_mode]

theorem handleButtons_follows (h : a.SteadyButtons pressed r a.ui.mode) :
    Follows a (a.handleButtons pressed r).1 := by
  rw [handleButtons]
  split
  case h_1 hmode => exact handleActionButtons_follows (hmode ▸ h)
  case h_2 hmode => exact handlePreviewButtons_follows
  case h_3 hmode => exact handleConsoleButtons_follows (hmode ▸ h)
  case h_5 hmode => exact handleListButtons_follows hmode (hmode ▸ h)
  case h_4 hmode =>
    rw [hmode] at h
    split
    case isTrue        => exact .of_selection (leaveTo_selection _)
    case isFalse hback =>
      split
      case isFalse    => exact .of_selection rfl
      case isTrue hok => exact deleteSelected_follows (h (Bool.eq_false_iff.mpr hback) hok)

theorem tickList_follows (h : a.ui.mode = .list → a.refreshTicks + 1 ≥ listRefreshTicks →
    a.ui.Reaches true r.scan) : Follows a (a.tickList r.scan) := by
  rw [tickList]
  split
  case isFalse      => exact .of_selection rfl
  case isTrue hmode =>
    split
    case isFalse       => exact .of_selection rfl
    case isTrue hticks =>
      refine .in_list (fun hagrees => ?_) ?_
      · exact refresh_agrees (fun _ => hagrees) (h hmode hticks)
      · rw [refresh_mode]
        exact hmode

theorem Follows.of_ui_eq {c : App} (h : Follows a b) (heq : c.ui = b.ui) : Follows a c := by
  obtain ⟨hagrees, htarget⟩ := h
  rw [← heq] at hagrees htarget
  exact ⟨hagrees, htarget⟩

theorem Follows.after_selection {c : App} (heq : b.ui.selection = a.ui.selection)
    (h : Follows b c) : Follows a c := by
  have hcount : b.ui.fileCount = a.ui.fileCount := congrArg Selection.fileCount heq
  have hname : b.ui.selectedName = a.ui.selectedName := congrArg Selection.selectedName heq
  refine ⟨fun hagrees => h.agrees (hagrees.of_selection heq), fun hmode hne => ?_⟩
  rw [← hname]
  exact h.target hmode (hcount ▸ hne)

theorem tick_follows (h : a.ui.mode = .list → a.refreshTicks + 1 ≥ listRefreshTicks →
    a.ui.Reaches true r.scan) : Follows a (a.tick r).1 := by
  have hlist := tickList_follows h
  rw [tick]
  split
  case isTrue =>
    refine hlist.of_ui_eq ?_
    rw [renderIfNeeded_ui]
    exact tickConsole_ui
  case isFalse => exact hlist.of_ui_eq tickConsole_ui

theorem pollState_frame (runtime : Runtime) : (a.pollState runtime).screenActive = a.screenActive ∧
    (a.pollState runtime).observedRunId = a.observedRunId ∧
    (a.pollState runtime).refreshTicks = a.refreshTicks := by
  rw [pollState]
  split
  case isFalse => exact ⟨rfl, rfl, rfl⟩
  case isTrue  =>
    dsimp only
    split <;> exact ⟨rfl, rfl, rfl⟩

theorem showConsole_mode : a.showConsole.ui.mode = .console := by
  rw [showConsole]
  split <;> rfl

theorem pollRun_list {runtime : Runtime} (h : (a.pollRun runtime).ui.mode = .list) :
    a.ui.mode = .list ∧
    ¬(runtime.runId ≠ a.observedRunId ∧ a.screenActive ∧ runtime.state.active) ∧
    (a.pollRun runtime).refreshTicks = a.refreshTicks := by
  rw [pollRun] at h ⊢
  split at h
  case isFalse hsame =>
    rw [if_neg hsame]
    exact ⟨h, fun hrun => hsame hrun.1, rfl⟩
  case isTrue hnew =>
    rw [if_pos hnew]
    dsimp only at h ⊢
    split at h
    case isTrue hshow  =>
      rw [showConsole_mode] at h
      cases h
    case isFalse hshow =>
      rw [if_neg hshow]
      exact ⟨h, fun hrun => hshow hrun.2, rfl⟩

theorem pollDropped_refreshTicks (dropped : UInt32) :
    (a.pollDropped dropped).refreshTicks = a.refreshTicks := by
  rw [pollDropped]
  split
  case isTrue  => rfl
  case isFalse => rfl

-- The list is still shown after the output has been read unless there is a new run.
theorem pollOutput_list (h : (a.pollOutput r).ui.mode = .list) : a.ui.mode = .list ∧
    ¬(r.runtime.runId ≠ a.observedRunId ∧ a.screenActive ∧ r.runtime.state.active) ∧
    (a.pollOutput r).refreshTicks = a.refreshTicks := by
  obtain ⟨hactive, hrun, hticks⟩ := @pollState_frame a r.runtime
  rw [pollOutput] at h ⊢
  dsimp only at h ⊢
  rw [pollDropped_ui] at h
  obtain ⟨hmode, hnew, hsame⟩ := pollRun_list h
  rw [pollState_ui] at hmode
  rw [hrun, hactive] at hnew
  refine ⟨hmode, hnew, ?_⟩
  rw [pollDropped_refreshTicks, hsame, hticks]

theorem step_follows {e : Event} (hne : e ≠ .enter) (h : a.Steady r e) :
    Follows a (a.step r e).1 := by
  cases e with
  | enter           => exact absurd rfl hne
  | exit            => exact .of_selection rfl
  | buttons pressed => exact handleButtons_follows h
  | timer           =>
    refine .after_selection pollOutput_selection (tick_follows fun hmode hticks => ?_)
    obtain ⟨hlist, hrun, hsame⟩ := pollOutput_list hmode
    rw [hsame] at hticks
    exact (h hlist hticks hrun).of_selection pollOutput_selection
  | command command =>
    cases command with
    | run    => exact .of_selection runDebugDefault_selection
    | status => exact .of_selection (refreshStartup_selection _)
    | log    => exact .of_selection pollOutput_selection
    | test   =>
      refine .of_selection ?_
      rw [step, handleDebugCommand]
      dsimp only
      split
      case isTrue  => exact showConsole_selection
      case isFalse => rfl
    | formatConfirm =>
      rw [step, handleDebugCommand]
      dsimp only
      split
      case isFalse        => exact .of_selection rfl
      case isTrue hactive =>
        split
        case isFalse     => exact .of_selection rfl
        case isTrue hfmt =>
          refine .in_list (fun hagrees => ?_) ?_
          · have hreach : { a with ui.mode := .list }.ui.Reaches false r.scan :=
              (h hactive hfmt).of_selection rfl
            exact refresh_agrees (fun _ => hagrees.of_selection rfl) hreach
          · dsimp only
            rw [refresh_mode]

theorem firstList_agrees (h : r.mount = .ok →
    (a.selectStartup r.startup).ui.Reaches true r.scan) (hzero : a.ui.fileCount = 0) :
    (a.firstList r).ui.Agrees := by
  rw [firstList]
  split
  case isTrue =>
    refine Ui.Agrees.of_selection ?_ (setStatus_selection _)
    exact ⟨fun hne => absurd hzero hne, fun hne => absurd hzero hne⟩
  case isFalse hmount =>
    refine refresh_agrees (fun _ => ?_) (h (Decidable.of_not_not hmount))
    exact ⟨fun hne => absurd hzero hne, fun hne => absurd hzero hne⟩

theorem enter_agrees (h : a.Steady r .enter) : (a.enter r).1.ui.Agrees := by
  have hfirst := firstList_agrees h (show a.reset.ui.fileCount = 0 from rfl)
  have hselection : (a.enter r).1.ui.selection = (a.reset.firstList r).ui.selection := by
    rw [enter]
    rw [renderIfNeeded_ui]
    split
    case isTrue =>
      rw [setStatus_selection]
      split
      case isTrue  => exact showConsole_selection
      case isFalse => rfl
    case isFalse =>
      split
      case isTrue  => exact showConsole_selection
      case isFalse => rfl
  exact hfirst.of_selection hselection

theorem runSelectedFile_op {program : Except ProgramResult UInt32} {op : Op}
    (h : (a.runSelectedFile program).2 = some op) : op.name = a.ui.selectedName := by
  rw [runSelectedFile] at h
  split at h
  case isTrue  => cases h
  case isFalse =>
    cases program <;> cases h <;> rfl

theorem startupOp_name : a.startupOp.name = a.ui.selectedName := by
  rw [startupOp]
  split <;> rfl

theorem executeAction_op {op : Op} (h : (a.executeAction r).2 = some op) :
    op.name = a.ui.selectedName := by
  rw [executeAction] at h
  split at h
  case isTrue  => exact runSelectedFile_op h
  case isFalse =>
    split at h
    case isTrue  => cases h; rfl
    case isFalse =>
      split at h
      case isTrue  => cases h
      case isFalse =>
        split at h
        case isTrue  =>
          rw [← Option.some.inj h]
          exact startupOp_name
        case isFalse => split at h <;> cases h

-- Outside the list, and only there, something is done with the script that has been selected.
theorem handleButtons_op {op : Op} (h : (a.handleButtons pressed r).2 = some op) :
    a.ui.mode ≠ .list ∧ op.name = a.ui.selectedName := by
  rw [handleButtons] at h
  split at h
  case h_1 hmode =>
    refine ⟨fun hlist => (by rw [hmode] at hlist; cases hlist), ?_⟩
    rw [handleActionButtons] at h
    split_ifs at h
    exact executeAction_op h
  case h_2 hmode =>
    refine ⟨fun hlist => (by rw [hmode] at hlist; cases hlist), ?_⟩
    rw [handlePreviewButtons] at h
    split_ifs at h <;> cases h <;> rfl
  case h_3 hmode => cases h
  case h_5 hmode => cases h
  case h_4 hmode =>
    refine ⟨fun hlist => (by rw [hmode] at hlist; cases hlist), ?_⟩
    split_ifs at h
    rw [deleteSelected] at h
    split at h <;> cases h <;> rfl

theorem step_op {e : Event} {op : Op} (h : (a.step r e).2.2 = some op) :
    op.name = a.ui.selectedName := by
  cases e with
  | buttons pressed => exact (handleButtons_op h).2
  | enter           => cases h
  | exit            => cases h
  | timer           => cases h
  | command command => cases h

end App

-- The app with the name of the row that was highlighted when the list was last shown.
structure Session where
  app : App
  highlighted : Option CString

def Ui.highlightedName (ui : Ui) : Option CString :=
  if ui.fileCount ≠ 0 then some (ui.files (ui.selectedIndex - ui.listTop)).name else none

def Event.entering : Event → Bool
  | .enter => true
  | _      => false

namespace Session

def step (s : Session) (e : Event × Replies) : Session :=
  let app := (s.app.step e.2 e.1).1
  { app         := app
    highlighted :=
      if app.ui.mode = .list then app.ui.highlightedName
      else if e.1.entering then none
      else s.highlighted }

def run (s : Session) (events : List (Event × Replies)) : Session :=
  events.foldl step s

-- Every step of the run meets the condition.
def Steady : Session → List (Event × Replies) → Prop
  | _, []          => True
  | s, e :: events => s.app.Steady e.2 e.1 ∧ (s.step e).Steady events

structure Sound (s : Session) : Prop where
  agrees : s.app.ui.Agrees
  target : ∀ name, s.highlighted = some name →
    s.app.ui.fileCount ≠ 0 ∧ s.app.ui.selectedName = name

variable {s : Session} {e : Event × Replies} {events : List (Event × Replies)}

theorem Sound.in_list {u : Ui} {name : CString} (h : u.Agrees)
    (hname : u.highlightedName = some name) : u.fileCount ≠ 0 ∧ u.selectedName = name := by
  rw [Ui.highlightedName] at hname
  split at hname
  case isFalse    => cases hname
  case isTrue hne =>
    refine ⟨hne, ?_⟩
    rw [← Option.some.inj hname, (h.highlighted hne).name]

theorem Sound.enter (h : s.app.Steady e.2 .enter) (he : e.1 = .enter) : (s.step e).Sound := by
  have hagrees : (s.app.step e.2 e.1).1.ui.Agrees := by
    rw [he]
    exact App.enter_agrees h
  refine ⟨hagrees, fun name hname => ?_⟩
  rw [Session.step] at hname
  dsimp only at hname
  split at hname
  case isTrue  => exact Sound.in_list hagrees hname
  case isFalse =>
    rw [he] at hname
    cases hname

theorem Sound.step (hs : s.Sound) (h : s.app.Steady e.2 e.1) : (s.step e).Sound := by
  by_cases he : e.1 = .enter
  case pos => exact Sound.enter (he ▸ h) he
  case neg =>
    have hfollows := App.step_follows he h
    have hagrees := hfollows.agrees hs.agrees
    refine ⟨hagrees, fun name hname => ?_⟩
    rw [Session.step] at hname
    dsimp only at hname
    split at hname
    case isTrue        => exact Sound.in_list hagrees hname
    case isFalse hmode =>
      split at hname
      case isTrue  => cases hname
      case isFalse =>
        obtain ⟨hne, hsame⟩ := hs.target name hname
        obtain ⟨hne', hsame'⟩ := hfollows.target hmode hne
        exact ⟨hne', hsame'.trans hsame⟩

theorem Sound.run (hs : s.Sound) (h : s.Steady events) : (s.run events).Sound := by
  induction events generalizing s with
  | nil => exact hs
  | cons e events ih =>
    obtain ⟨hstep, hrest⟩ := h
    exact ih (hs.step hstep) hrest

-- Whenever the list is shown, the selected name is the one in the row that is marked, and later on
-- it is the script with that name that something is done with.
theorem acts_on_highlighted (a : App) (r : Replies) (events : List (Event × Replies))
    (h : Steady ⟨a, none⟩ ((.enter, r) :: events)) :
    ((run ⟨a, none⟩ ((.enter, r) :: events)).app.ui.mode = .list →
      (run ⟨a, none⟩ ((.enter, r) :: events)).app.ui.fileCount ≠ 0 →
      ∃ row, row < listVisibleRows ∧
        (run ⟨a, none⟩ ((.enter, r) :: events)).app.ui.rowSelected row ∧
        ((run ⟨a, none⟩ ((.enter, r) :: events)).app.ui.files row).name =
          (run ⟨a, none⟩ ((.enter, r) :: events)).app.ui.selectedName) ∧
    ∀ e r' op name, ((run ⟨a, none⟩ ((.enter, r) :: events)).app.step r' e).2.2 = some op →
      (run ⟨a, none⟩ ((.enter, r) :: events)).highlighted = some name → op.name = name := by
  obtain ⟨hfirst, hrest⟩ := h
  have hsound : (run ⟨a, none⟩ ((.enter, r) :: events)).Sound :=
    (Sound.enter hfirst rfl).run hrest
  refine ⟨fun _ hne => ?_, fun e r' op name hop hname => ?_⟩
  · obtain ⟨hfrom, hinside, hvisible, hrow⟩ := hsound.agrees.highlighted hne
    exact ⟨_, by omega, ⟨hvisible, by omega⟩, hrow⟩
  · rw [App.step_op hop]
    exact (hsound.target name hname).2

def unstarted : App where
  ui             := ⟨.list, fun _ => .zero, 0, 0, 0, 0, 0, [], 0, [], [],
    ⟨[], 0, false, false, 0, 0, 0, 0, .clear⟩⟩
  log            := .reset
  update         := .zero
  screenActive   := false
  closeRequested := false
  renderDivider  := 0
  consoleTicks   := 0
  refreshTicks   := 0
  observedRunId  := 0
  lastState      := .stopped
  lastExit       := .none
  lastDropped    := 0

-- No script is running, all calls succeed, and there are two scripts.
def twoScripts : Replies where
  runtime       := ⟨.stopped, .none, 0, 0⟩
  stopping      := ⟨.stopped, .none, 0, 0⟩
  rendered      := ⟨.stopped, .none, 0, 0⟩
  stopRequested := false
  started       := false
  program       := .ok 1
  mount         := .ok
  watchdog      := false
  startup       := .error .errorNotFound
  scan          :=
    { startup     := .error .errorNotFound
      counted     := [⟨ascii "a.py", 8⟩, ⟨ascii "b.py", 8⟩]
      countResult := .ok
      loaded      := [⟨ascii "a.py", 8⟩, ⟨ascii "b.py", 8⟩]
      loadResult  := .ok }
  setStartup    := .ok
  remove        := .ok
  format        := .ok
  fs            := ⟨fun _ _ => .ok [], .ok 8⟩
  output        := []

-- An upload is going on.
def uploading : Replies :=
  { twoScripts with scan :=
    { startup     := .error .errorNotFound
      counted     := []
      countResult := .errorBusy
      loaded      := []
      loadResult  := .errorBusy } }

def right : Pressed :=
  ⟨false, false, true, false⟩

def ok : Pressed :=
  ⟨false, true, false, false⟩

theorem acts_on_highlighted_two : ∃ s : Session,
    s = run ⟨unstarted, none⟩ [(.enter, twoScripts), (.buttons right, twoScripts)] ∧
    s.app.ui.mode = .list ∧ s.app.ui.fileCount = 2 ∧
    ∃ row, row < listVisibleRows ∧ s.app.ui.rowSelected row ∧
      (s.app.ui.files row).name = s.app.ui.selectedName :=
  ⟨_, rfl, by decide +kernel, by decide +kernel,
    (acts_on_highlighted unstarted twoScripts [(.buttons right, twoScripts)]
      ⟨fun _ _ _ => by decide +kernel, fun _ _ _ => ⟨.inr rfl, fun _ _ => by decide +kernel⟩,
        trivial⟩).1 (by decide +kernel) (by decide +kernel)⟩

-- The selection moves although the list is refused, and the script that is run is the one before.
theorem refused_list : ∃ s : Session,
    s = run ⟨unstarted, none⟩ [(.enter, twoScripts), (.buttons right, uploading)] ∧
    s.app.ui.mode = .list ∧ s.app.ui.fileCount = 2 ∧ s.app.ui.rowSelected 1 ∧
    (s.app.ui.files 1).name = ascii "b.py" ∧ s.app.ui.selectedName = ascii "a.py" ∧
    ((s.step (.buttons ok, twoScripts)).app.step twoScripts (.buttons ok)).2.2 =
      some (.run (ascii "a.py")) :=
  ⟨_, rfl, by decide +kernel, by decide +kernel, by decide +kernel, by decide +kernel,
    by decide +kernel, by decide +kernel⟩

end Session
end Micropython
