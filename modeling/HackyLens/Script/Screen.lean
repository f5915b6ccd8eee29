import HackyLens.Script.Log
import HackyLens.Script.Preview

-- The app of `micropython_app.c`: the list of the scripts, what can be done with one of them, and
-- what has to be drawn again.

open Userfs (Result)
open Lfs (CString ascii)

namespace Micropython

def listVisibleRows : Nat := 7
def actionCount : Nat := 5
def statusColumns : Nat := 25
def listRefreshTicks : Nat := 200
def renderTicks : Nat := 5
def consoleRenderTicks : Nat := 20

inductive Mode
  | list | actions | preview | console | deleteConfirm
  deriving DecidableEq

-- The actions have the numbers of their rows.
def actionRun : Nat := 0
def actionView : Nat := 1
def actionLogs : Nat := 2
def actionStartup : Nat := 3
def actionDelete : Nat := 4

inductive RuntimeState
  | stopped | starting | running | stopping | finished | error
  deriving DecidableEq

inductive RuntimeExit
  | none | complete | requested | timeout | exception | busy | invalidSource | core1Failure
  deriving DecidableEq

-- What is looked at of a `micropython_runtime_status_t`.
structure Runtime where
  state : RuntimeState
  exitReason : RuntimeExit
  runId : UInt32
  outputDropped : UInt32

-- `runtime_active`
def RuntimeState.active (state : RuntimeState) : Bool :=
  state = .starting ∨ state = .running ∨ state = .stopping

inductive ProgramResult
  | ok | invalidArgument | notFound | filesystem | tooLarge | busy | io
  deriving DecidableEq

-- `micropython_program_result_name`
def ProgramResult.name : ProgramResult → CString
  | .ok              => ascii "ok"
  | .invalidArgument => ascii "invalid-argument"
  | .notFound        => ascii "not-found"
  | .filesystem      => ascii "filesystem"
  | .tooLarge        => ascii "too-large"
  | .busy            => ascii "busy"
  | .io              => ascii "io"

-- `userfs_result_name`
def resultName : Result → CString
  | .ok                    => ascii "ok"
  | .errorInvalidArgument  => ascii "invalid-argument"
  | .errorNotMounted       => ascii "not-mounted"
  | .errorUnsupportedFlash => ascii "unsupported-flash"
  | .errorUnformatted      => ascii "unformatted"
  | .errorCorrupt          => ascii "corrupt"
  | .errorIo               => ascii "io"
  | .errorNotFound         => ascii "not-found"
  | .errorExists           => ascii "exists"
  | .errorNoSpace          => ascii "no-space"
  | .errorBusy             => ascii "busy"
  | .errorOutOfOrder       => ascii "out-of-order"
  | .errorSize             => ascii "size"
  | .errorCrc              => ascii "crc"

-- `micropython_view_update_t`
structure Update where
  full : Bool
  info : Bool
  body : Bool
  rowMask : UInt8
  deriving DecidableEq

namespace Update

def zero : Update :=
  ⟨false, false, false, 0⟩

-- `request_full_render`
def requestFull : Update :=
  { zero with full := true }

-- `request_info_render`
def requestInfo (u : Update) : Update :=
  if u.full then u else { u with info := true }

-- `request_body_render`
def requestBody (u : Update) : Update :=
  if u.full then u else { u with body := true, rowMask := 0 }

-- `request_row_render`
def requestRow (u : Update) (row : Nat) : Update :=
  if u.full ∨ u.body ∨ row ≥ 8 then u else { u with rowMask := u.rowMask ||| 1 <<< UInt8.ofNat row }

-- `render_pending`
def pending (u : Update) : Bool :=
  u.full || u.info || u.body || u.rowMask != 0

end Update

-- `micropython_file_row_t`
structure FileRow where
  name : CString
  size : UInt32
  startup : Bool
  deriving DecidableEq

def FileRow.zero : FileRow :=
  ⟨[], 0, false⟩

-- `micropython_view_state_t` without the log.
structure Ui where
  mode : Mode
  files : Nat → FileRow
  fileCount : Nat
  selectedIndex : Nat
  listTop : Nat
  visibleCount : Nat
  actionIndex : Nat
  selectedName : CString
  selectedSize : UInt32
  startup : CString
  status : CString
  preview : Preview

-- What `draw_list_row` marks as the selected row.
def Ui.rowSelected (ui : Ui) (row : Nat) : Prop :=
  row < ui.visibleCount ∧ ui.listTop + row = ui.selectedIndex

instance (ui : Ui) (row : Nat) : Decidable (ui.rowSelected row) :=
  inferInstanceAs (Decidable (_ ∧ _))

structure App where
  ui : Ui
  log : Log
  update : Update
  screenActive : Bool
  closeRequested : Bool
  renderDivider : Nat
  consoleTicks : Nat
  refreshTicks : Nat
  observedRunId : UInt32
  lastState : RuntimeState
  lastExit : RuntimeExit
  lastDropped : UInt32

-- A file that `userfs_list` comes across.
structure FileInfo where
  name : CString
  size : UInt32
  deriving DecidableEq

-- What the two scans of `refresh_file_list` come across until they end, and how, after the name of
-- the startup script has been read.
structure Scan where
  startup : Except Result CString
  counted : List FileInfo
  countResult : Result
  loaded : List FileInfo
  loadResult : Result

-- What the calls of one step return. A file is read by what `fs` says.
structure Replies where
  runtime : Runtime
  stopping : Runtime
  rendered : Runtime
  stopRequested : Bool
  started : Bool
  program : Except ProgramResult UInt32
  mount : Result
  watchdog : Bool
  startup : Except Result CString
  scan : Scan
  setStartup : Result
  remove : Result
  format : Result
  fs : Userfs
  output : List (List UInt8)

-- What is done with a script.
inductive Op
  | run (name : CString)
  | view (name : CString)
  | setStartup (name : CString)
  | clearStartup (name : CString)
  | remove (name : CString)
  deriving DecidableEq

def Op.name : Op → CString
  | .run name          => name
  | .view name         => name
  | .setStartup name   => name
  | .clearStartup name => name
  | .remove name       => name

-- `python_file_name`
def pythonFileName (name : CString) : Bool :=
  name.length > 3 && name[name.length - 3]? == some 0x2E &&
    (name[name.length - 2]? == some 0x70 || name[name.length - 2]? == some 0x50) &&
    (name[name.length - 1]? == some 0x79 || name[name.length - 1]? == some 0x59)

def clipName (name : CString) : CString :=
  name.take Userfs.nameMax

-- `file_count_context_t`
structure FileCount where
  count : Nat
  found : Option Nat

-- `count_file`
def countFile (wanted : CString) (scan : FileCount) (file : FileInfo) : FileCount :=
  if pythonFileName file.name then
    { count := scan.count + 1
      found := if wanted ≠ [] ∧ wanted = file.name then some scan.count else scan.found }
  else
    scan

-- `file_page_context_t` and the view that it changes.
structure FilePage where
  ui : Ui
  index : Nat
  changed : Bool

-- The row that `load_file_row` fills.
def Ui.row (ui : Ui) (file : FileInfo) : FileRow where
  name    := clipName file.name
  size    := file.size
  startup := ui.startup ≠ [] ∧ ui.startup = file.name

def Ui.shows (ui : Ui) (index : Nat) : Prop :=
  index ≥ ui.listTop ∧ index < ui.listTop + listVisibleRows

instance (ui : Ui) (index : Nat) : Decidable (ui.shows index) :=
  inferInstanceAs (Decidable (_ ∧ _))

-- The parts of `load_file_row`: whether the row has something else, the row, and the selection.
def Ui.outdated (ui : Ui) (index : Nat) (file : FileInfo) : Bool :=
  let old := ui.files (index - ui.listTop)
  let startup : Bool := ui.startup ≠ [] ∧ ui.startup = file.name
  ui.shows index ∧ (old.name ≠ file.name ∨ old.size ≠ file.size ∨ old.startup ≠ startup)

def Ui.fill (ui : Ui) (index : Nat) (file : FileInfo) : Ui :=
  if ui.shows index then
    { ui with
      files        := Function.update ui.files (index - ui.listTop) (ui.row file)
      visibleCount := max ui.visibleCount (index - ui.listTop + 1) }
  else
    ui

def Ui.pick (ui : Ui) (index : Nat) (file : FileInfo) : Ui :=
  if index = ui.selectedIndex then
    { ui with selectedName := clipName file.name, selectedSize := file.size }
  else
    ui

-- `load_file_row`
def loadFileRow (page : FilePage) (file : FileInfo) : FilePage :=
  if pythonFileName file.name then
    { ui      := (page.ui.fill page.index file).pick page.index file
      index   := page.index + 1
      changed := page.changed || page.ui.outdated page.index file }
  else
    page

namespace App

-- `set_status`
def setStatus (a : App) (text : CString) : App :=
  let next := text.take statusColumns
  if a.ui.status = next then
    a
  else
    { a with ui.status := next, update := a.update.requestInfo }

-- `refresh_startup`
def refreshStartup (a : App) (reply : Except Result CString) : App :=
  { a with ui.startup := match reply with
    | .ok name => name
    | .error _ => [] }

def requestListRender (a : App) : App :=
  { a with update := a.update.requestInfo.requestBody }

-- Nothing is selected or shown.
def clearList (a : App) : App :=
  { a with
    ui.selectedIndex := 0
    ui.listTop       := 0
    ui.selectedName  := []
    ui.selectedSize  := 0
    ui.visibleCount  := 0
    ui.files         := fun _ => .zero }

end App

-- The index that `refresh_file_list` selects, and then the first one that it shows.
def Ui.select (ui : Ui) (preserveName : Bool) (scan : FileCount) : Nat :=
  match preserveName, scan.found with
  | true, some found => found
  | _,    _          => if ui.selectedIndex ≥ scan.count then scan.count - 1 else ui.selectedIndex

def Ui.top (ui : Ui) (count : Nat) : Nat :=
  let top :=
    if ui.selectedIndex < ui.listTop then
      ui.selectedIndex
    else if ui.selectedIndex ≥ ui.listTop + listVisibleRows then
      ui.selectedIndex - listVisibleRows + 1
    else
      ui.listTop
  if top + listVisibleRows > count then count - listVisibleRows else top

-- The index before the selected one or behind it.
def Ui.neighbour (ui : Ui) (back : Bool) : Nat :=
  if back then
    if ui.selectedIndex ≠ 0 then ui.selectedIndex - 1 else ui.fileCount - 1
  else
    (ui.selectedIndex + 1) % ui.fileCount

namespace App

-- What `refresh_file_list` compares.
def Differs (old new : Ui) : Prop :=
  old.fileCount ≠ new.fileCount ∨ old.selectedIndex ≠ new.selectedIndex ∨
    old.listTop ≠ new.listTop ∨ old.selectedSize ≠ new.selectedSize ∨
    old.visibleCount ≠ new.visibleCount ∨ old.selectedName ≠ new.selectedName ∨
    old.startup ≠ new.startup

instance (old new : Ui) : Decidable (Differs old new) :=
  inferInstanceAs (Decidable (_ ∨ _ ∨ _ ∨ _ ∨ _ ∨ _ ∨ _))

-- Whether a row from `visibleCount` on is not empty yet.
def stale (ui : Ui) : Bool :=
  (List.range listVisibleRows).any fun row => row ≥ ui.visibleCount && ui.files row != .zero

-- The end of `refresh_file_list`.
def markList (a : App) (old : Ui) (markChanges changed : Bool) : App :=
  if markChanges ∧ (changed ∨ Differs old a.ui) then a.requestListRender else a

-- The part of `refresh_file_list` where there are no scripts.
def listNone (a : App) (old : Ui) (markChanges : Bool) : App :=
  let changed := (List.range listVisibleRows).any fun row => (a.ui.files row).name ≠ []
  { a.clearList with ui.fileCount := 0 }.markList old markChanges changed

-- The part where there are some, before they are loaded.
def selectFile (a : App) (preserveName : Bool) (count : FileCount) : App :=
  let a := { a with ui.fileCount := count.count }
  let a := { a with ui.selectedIndex := a.ui.select preserveName count }
  { a with ui.listTop := a.ui.top count.count, ui.visibleCount := 0 }

-- The part after that.
def loadList (a : App) (old : Ui) (markChanges : Bool) (scan : Scan) : App :=
  let page := scan.loaded.foldl loadFileRow ⟨a.ui, 0, false⟩
  let a := { a with ui := page.ui }
  if scan.loadResult ≠ .ok then
    a.setStatus (ascii "LIST " ++ resultName scan.loadResult)
  else
    let changed := page.changed || stale a.ui
    let a := { a with
      ui.files := fun row => if row < a.ui.visibleCount then a.ui.files row else .zero }
    let a := if a.ui.status.take 5 = ascii "LIST " then a.setStatus [] else a
    a.markList old markChanges changed

-- `refresh_file_list`
def refreshFileList (a : App) (preserveName markChanges : Bool) (scan : Scan) : App :=
  let old := a.ui
  let wanted := if preserveName then a.ui.selectedName else []
  let a := a.refreshStartup scan.startup
  let count := scan.counted.foldl (countFile wanted) ⟨0, none⟩
  if scan.countResult ≠ .ok then
    a.setStatus (ascii "LIST " ++ resultName scan.countResult)
  else if count.count = 0 then
    a.listNone old markChanges
  else
    (a.selectFile preserveName count).loadList old markChanges scan

-- `log_message`
def say (a : App) (text : CString) : App :=
  { a with log := a.log.message text }

-- `show_console`
def showConsole (a : App) : App :=
  let changed := a.ui.mode ≠ .console
  let a := { a with ui.mode := .console, log.follow := true }
  if changed then { a with update := .requestFull } else a.requestListRender

-- Selects another file, of which only the index is known.
def moveTo (a : App) (index : Nat) : App :=
  { a with ui.selectedIndex := index }.setStatus []

-- A difference that is converted to a byte.
def rowOf (index top : Nat) : Nat :=
  (index + 2 ^ 32 - top) % 256

-- `navigate_files`, to the left or to the right.
def navigateFiles (a : App) (back : Bool) (scan : Scan) : App :=
  if a.ui.fileCount = 0 then
    a
  else
    let previousIndex := a.ui.selectedIndex
    let previousTop := a.ui.listTop
    let a := (a.moveTo (a.ui.neighbour back)).refreshFileList false false scan
    if previousTop ≠ a.ui.listTop then
      { a with update := a.update.requestBody }
    else
      let update := a.update.requestRow (rowOf previousIndex previousTop)
      { a with update := update.requestRow (rowOf a.ui.selectedIndex a.ui.listTop) }

-- `navigate_actions`
def navigateActions (a : App) (back : Bool) : App :=
  let previous := a.ui.actionIndex
  let a := { a with ui.actionIndex :=
    if back then
      if a.ui.actionIndex ≠ 0 then a.ui.actionIndex - 1 else actionCount - 1
    else
      (a.ui.actionIndex + 1) % actionCount }
  let a := a.setStatus []
  { a with update := (a.update.requestRow previous).requestRow a.ui.actionIndex }

-- `run_selected_file`
def runSelectedFile (a : App) (program : Except ProgramResult UInt32) : App × Option Op :=
  if a.ui.selectedName = [] then
    (a, none)
  else
    let name := a.ui.selectedName
    let a := { a with log := .reset }.say (ascii "RUN " ++ name)
    match program with
    | .error result =>
      let a := a.setStatus (ascii "RUN " ++ result.name)
      (a.say a.ui.status, some (.run name))
    | .ok runId     =>
      let a := { a with observedRunId := runId }
      ((a.setStatus []).showConsole, some (.run name))

-- What `preview_load` and `preview_previous_page` say of it.
def previewText : Status → CString
  | .clear       => []
  | .view result => ascii "VIEW " ++ resultName result
  | .shortRead   => ascii "VIEW short-read"

def showPreview (a : App) (preview : Preview) : App :=
  { a with ui.preview := preview }.setStatus (previewText preview.status)

-- The case of `execute_action` where the startup script is set or cleared.
def startupOp (a : App) : Op :=
  if a.ui.startup ≠ [] ∧ a.ui.startup = a.ui.selectedName then
    .clearStartup a.ui.selectedName
  else
    .setStartup a.ui.selectedName

def toggleStartup (a : App) (r : Replies) : App :=
  if r.setStartup = .ok then
    let a := a.refreshFileList true false r.scan
    let text := if a.ui.startup ≠ [] then ascii "STARTUP SET" else ascii "STARTUP CLEARED"
    let a := a.setStatus text
    { a with update := a.update.requestRow actionStartup }
  else
    a.setStatus (ascii "STARTUP " ++ resultName r.setStartup)

-- `execute_action`
def executeAction (a : App) (r : Replies) : App × Option Op :=
  let name := a.ui.selectedName
  if a.ui.actionIndex = actionRun then
    a.runSelectedFile r.program
  else if a.ui.actionIndex = actionView then
    let a := { a with ui.mode := .preview }
    let a := a.showPreview (a.ui.preview.load r.fs 0 1)
    ({ a with update := .requestFull }, some (.view name))
  else if a.ui.actionIndex = actionLogs then
    (a.showConsole, none)
  else if a.ui.actionIndex = actionStartup then
    (a.toggleStartup r, some a.startupOp)
  else if a.ui.actionIndex = actionDelete then
    let a := { a with ui.mode := .deleteConfirm }
    ({ a.setStatus [] with update := .requestFull }, none)
  else
    (a, none)

-- `delete_selected`
def deleteSelected (a : App) (r : Replies) : App × Option Op :=
  let deleted := a.ui.selectedName
  if r.remove ≠ .ok then
    (a.setStatus (ascii "DELETE " ++ resultName r.remove), some (.remove deleted))
  else
    let a := { a with ui.mode := .list }
    let a := (a.refreshFileList false false r.scan).setStatus (ascii "DELETED " ++ deleted)
    ({ a with update := .requestFull }, some (.remove deleted))

def stopRequested (a : App) (r : Replies) : App :=
  if r.stopping.state ≠ .stopping ∧ r.stopRequested then
    a.say (ascii "STOP REQUESTED")
  else
    a

-- `request_runtime_stop`
def requestRuntimeStop (a : App) (r : Replies) : App :=
  let a := a.stopRequested r
  if a.ui.mode = .console then a.requestListRender else a

-- Goes to another screen, as the back button does.
def leaveTo (a : App) (mode : Mode) : App :=
  { { a with ui.mode := mode }.setStatus [] with update := .requestFull }

end App

-- The buttons that are pressed.
structure Pressed where
  left : Bool
  ok : Bool
  right : Bool
  back : Bool

namespace App

-- `handle_list_buttons`
def handleListButtons (a : App) (pressed : Pressed) (r : Replies) : App :=
  if pressed.back then
    if r.runtime.state.active then
      a.showConsole.requestRuntimeStop r
    else
      { a with closeRequested := true }
  else if pressed.left then
    a.navigateFiles true r.scan
  else if pressed.right then
    a.navigateFiles false r.scan
  else if pressed.ok ∧ a.ui.fileCount ≠ 0 then
    { a with ui.actionIndex := actionRun }.leaveTo .actions
  else
    a

-- `handle_action_buttons`
def handleActionButtons (a : App) (pressed : Pressed) (r : Replies) : App × Option Op :=
  if pressed.back then
    (a.leaveTo .list, none)
  else if pressed.left then
    (a.navigateActions true, none)
  else if pressed.right then
    (a.navigateActions false, none)
  else if pressed.ok then
    a.executeAction r
  else
    (a, none)

-- `handle_preview_buttons`
def handlePreviewButtons (a : App) (pressed : Pressed) (r : Replies) : App × Option Op :=
  let name := a.ui.selectedName
  if pressed.back then
    (a.leaveTo .actions, none)
  else if pressed.left ∧ a.ui.preview.hasPrevious then
    ((a.showPreview (a.ui.preview.press r.fs .left)).requestListRender, some (.view name))
  else if pressed.right ∧ a.ui.preview.hasNext then
    ((a.showPreview (a.ui.preview.press r.fs .right)).requestListRender, some (.view name))
  else
    (a, none)

def pageConsole (a : App) (pressed : Pressed) : App :=
  if pressed.left then
    { a with log := a.log.pageUp }.requestListRender
  else if pressed.right then
    { a with log := a.log.pageDown }.requestListRender
  else
    a

-- `handle_console_buttons`
def handleConsoleButtons (a : App) (pressed : Pressed) (r : Replies) : App :=
  let a := a.pageConsole pressed
  if pressed.ok then
    if r.runtime.state.active then a.requestRuntimeStop r else a
  else if pressed.back then
    if r.runtime.state.active then
      a.requestRuntimeStop r
    else
      let a := a.refreshFileList true false r.scan
      a.leaveTo (if a.ui.fileCount ≠ 0 then .actions else .list)
  else
    a

-- `micropython_handle_buttons`
def handleButtons (a : App) (pressed : Pressed) (r : Replies) : App × Option Op :=
  match a.ui.mode with
  | .actions       => a.handleActionButtons pressed r
  | .preview       => a.handlePreviewButtons pressed r
  | .console       => (a.handleConsoleButtons pressed r, none)
  | .deleteConfirm =>
    if pressed.back then
      (a.leaveTo .actions, none)
    else if pressed.ok then
      a.deleteSelected r
    else
      (a, none)
  | .list          => (a.handleListButtons pressed r, none)

-- The frame that `micropython_view_render` gets.
structure Frame where
  ui : Ui
  log : Log
  runtime : Runtime
  update : Update

-- The parts of `render_if_needed` before and after the frame is drawn.
def prepareLog (a : App) : App :=
  if a.ui.mode = .console then { a with log := a.log.prepare } else a

def rendered (a : App) : App :=
  if a.ui.mode = .console ∧ (a.update.full ∨ a.update.body) then
    { a with update := .zero, log.liveDirty := false, consoleTicks := 0 }
  else
    { a with update := .zero }

def renderPending (a : App) (runtime : Runtime) : App × Option Frame :=
  if a.update.pending then
    let a := a.prepareLog
    (a.rendered, some ⟨a.ui, a.log, runtime, a.update⟩)
  else
    (a, none)

-- `render_if_needed`
def renderIfNeeded (a : App) (force : Bool) (runtime : Runtime) : App × Option Frame :=
  if !a.screenActive then
    (a, none)
  else if force then
    { a with update := .requestFull }.renderPending runtime
  else
    a.renderPending runtime

-- The variables at the start of `micropython_enter`.
def reset (a : App) : App :=
  let a := { a with
    closeRequested := false
    screenActive   := true
    update         := .zero
    renderDivider  := 0
    consoleTicks   := 0
    refreshTicks   := 0
    log            := .reset
    ui.mode        := .list
    ui.fileCount   := 0
    ui.actionIndex := 0
    ui.startup     := []
    ui.status      := []
    ui.preview     := ⟨[], 0, false, false, 0, 0, 0, 0, .clear⟩ }
  a.clearList

def selectStartup (a : App) (reply : Except Result CString) : App :=
  let a := a.refreshStartup reply
  { a with ui.selectedName := a.ui.startup }

def firstList (a : App) (r : Replies) : App :=
  if r.mount ≠ .ok then
    a.setStatus (ascii "USERFS " ++ resultName r.mount)
  else
    (a.selectStartup r.startup).refreshFileList true false r.scan

def observe (a : App) (runtime : Runtime) : App :=
  { a with
    observedRunId := runtime.runId
    lastState     := runtime.state
    lastExit      := runtime.exitReason
    lastDropped   := runtime.outputDropped }

-- `micropython_enter`
def enter (a : App) (r : Replies) : App × Option Frame :=
  let a := (a.reset.firstList r).observe r.runtime
  let a := if r.runtime.state.active then a.showConsole else a
  let a := if r.watchdog then a.setStatus (ascii "WDT RECOVERY: PREVIOUS RUN RESET") else a
  a.renderIfNeeded true r.rendered

-- The number of bytes that were lost, in decimal.
def lostMessage (lost : UInt32) : CString :=
  ascii "[" ++ ascii (toString lost.toNat) ++ ascii " LOG BYTES LOST]"

-- The parts of `micropython_poll_output`.
def pollState (a : App) (runtime : Runtime) : App :=
  if runtime.state ≠ a.lastState ∨ runtime.exitReason ≠ a.lastExit then
    let a := { a with lastState := runtime.state, lastExit := runtime.exitReason }
    if a.screenActive ∧ a.ui.mode = .console then a.requestListRender else a
  else
    a

def pollRun (a : App) (runtime : Runtime) : App :=
  if runtime.runId ≠ a.observedRunId then
    let a := { a with observedRunId := runtime.runId, lastDropped := 0 }
    if a.screenActive ∧ runtime.state.active then a.showConsole else a
  else
    a

def pollDropped (a : App) (dropped : UInt32) : App :=
  if dropped > a.lastDropped then
    { a with
      log         := a.log.message (lostMessage (dropped - a.lastDropped))
      lastDropped := dropped }
  else
    { a with lastDropped := dropped }

-- `micropython_poll_output`
def pollOutput (a : App) (r : Replies) : App :=
  let a := ((a.pollState r.runtime).pollRun r.runtime).pollDropped r.runtime.outputDropped
  { a with log := ((r.output.take 4).takeWhile (· ≠ [])).foldl Log.bytes a.log }

-- The parts of `micropython_tick`.
def tickList (a : App) (scan : Scan) : App :=
  if a.ui.mode = .list then
    if a.refreshTicks + 1 ≥ listRefreshTicks then
      { a with refreshTicks := 0 }.refreshFileList true true scan
    else
      { a with refreshTicks := a.refreshTicks + 1 }
  else
    a

def tickConsole (a : App) : App :=
  if a.ui.mode = .console ∧ a.log.liveDirty then
    if a.consoleTicks + 1 ≥ consoleRenderTicks then
      { a with consoleTicks := 0, log.liveDirty := false }.requestListRender
    else
      { a with consoleTicks := a.consoleTicks + 1 }
  else
    { a with consoleTicks := 0 }

-- `micropython_tick`
def tick (a : App) (r : Replies) : App × Option Frame :=
  let a := (a.tickList r.scan).tickConsole
  if a.renderDivider + 1 ≥ renderTicks then
    { a with renderDivider := 0 }.renderIfNeeded false r.rendered
  else
    ({ a with renderDivider := a.renderDivider + 1 }, none)

-- `micropython_exit`
def exit (a : App) : App :=
  { a with screenActive := false }

-- `run_debug_default`
def runDebugDefault (a : App) (r : Replies) : App :=
  let a := { a.refreshStartup r.startup with log := .reset }
  if a.ui.startup ≠ [] then
    match r.program with
    | .error _ => a.say (ascii "STARTUP RUN FAILED")
    | .ok _    =>
      let a := a.say (ascii "RUN STARTUP")
      if a.screenActive then a.showConsole else a
  else if !r.started then
    a.say (ascii "VM START FAILED/BUSY")
  else
    let a := a.say (ascii "RUN SMOKE")
    if a.screenActive then a.showConsole else a

end App

-- The commands of the debug console that change something here.
inductive Command
  | run
  | test
  | status
  | log
  | formatConfirm

inductive Event
  | enter
  | exit
  | buttons (pressed : Pressed)
  | timer
  | command (command : Command)

namespace App

-- `micropython_handle_debug_command`
def handleDebugCommand (a : App) (r : Replies) : Command → App
  | .run           => a.runDebugDefault r
  | .test          =>
    let a := { a with log := .reset }
    if r.started ∧ a.screenActive then a.showConsole else a
  | .status        => a.refreshStartup r.startup
  | .log           => a.pollOutput r
  | .formatConfirm =>
    let a := a.refreshStartup r.startup
    if a.screenActive then
      let a := if r.format = .ok then
          { a with ui.mode := .list }.refreshFileList false false r.scan
        else
          a
      { a with update := .requestFull }
    else
      a

-- What an event does, what is drawn, and what is done with a script.
def step (a : App) (r : Replies) : Event → App × Option Frame × Option Op
  | .enter           =>
    let (a, frame) := a.enter r
    (a, frame, none)
  | .exit            => (a.exit, none, none)
  | .buttons pressed =>
    let (a, op) := a.handleButtons pressed r
    (a, none, op)
  | .timer           =>
    let (a, frame) := (a.pollOutput r).tick r
    (a, frame, none)
  | .command command => (a.handleDebugCommand r command, none, none)

end App
end Micropython
