import HackyLens.Display.Panel

-- `display_adapter.c`: two planes that share one stage, and the workspace that holds the staged and
-- the committed commands of the overlay.

namespace Display

open App (Result)

def timeMax : UInt64 := 0xFFFFFFFFFFFFFFFF
def generationMax : UInt32 := 0xFFFFFFFF

-- Where a pointer leads: nowhere, into one of the three parts of the workspace that was lent under
-- a generation, or to the adapter's own list of regions.
inductive Pointer
  | null
  | stage (generation : UInt32)
  | overlay (generation : UInt32)
  | overlayRepair (generation : UInt32)
  | baseRepair
  deriving DecidableEq

-- `HK_DISPLAY_PLANE_*`
inductive PlaneKind
  | base | overlay
  deriving DecidableEq

-- `display_plane_t`. Sessions are addresses, and 0 is `NULL`.
structure Plane where
  session : Nat
  repair : Pointer
  committedGeneration : UInt32
  repairCount : Nat
  active : Bool
  deriving DecidableEq

def Plane.zero : Plane :=
  ⟨0, .null, 0, 0, false⟩

-- `DISPLAY_STAGE_*`, where the kind of a surface is never used.
inductive StageKind
  | none | batch
  deriving DecidableEq

-- `display_stage_t`
structure Stage where
  session : Nat
  clip : Rect
  dirty : Pointer
  commands : Pointer
  text : Pointer
  borrow : Borrow
  commandCount : Nat
  textBytes : Nat
  dirtyCount : Nat
  rollbackFirst : Command
  rollbackFirstValid : Bool
  kind : StageKind

def Stage.zero : Stage :=
  ⟨0, .zero, .null, .null, .null, .none, 0, 0, 0, .zero, false, .none⟩

-- `display_overlay_t`
structure Overlay where
  commands : Pointer
  text : Pointer
  dirty : Pointer
  commandCount : Nat
  textBytes : Nat
  dirtyCount : Nat
  deriving DecidableEq

def Overlay.zero : Overlay :=
  ⟨.null, .null, .null, 0, 0, 0⟩

-- `display_workspace_t`
structure Workspace where
  stageCommands : Nat → Command
  stageText : Memory
  stageDirty : List Rect
  overlayCommands : Nat → Command
  overlayText : Memory
  overlayDirty : List Rect
  overlayRepair : List Rect

def Workspace.zero : Workspace where
  stageCommands _   := .zero
  stageText _       := 0
  stageDirty        := []
  overlayCommands _ := .zero
  overlayText _     := 0
  overlayDirty      := []
  overlayRepair     := []

-- `display_surface_stage_t`
structure Surface where
  session : Nat
  dirty : List Rect
  active : Bool
  deriving DecidableEq

def Surface.zero : Surface :=
  ⟨0, [], false⟩

-- `k210_display_state_t`, with the framebuffer and the flag of the transport. The workspace is told
-- by the generation under which it was lent, and 0 is `NULL`. `memory` is what it holds.
structure State where
  base : Plane
  overlayPlane : Plane
  stage : Stage
  surface : Surface
  overlay : Overlay
  baseRepair : List Rect
  workspaceBorrow : UInt32
  workspace : UInt32
  memory : Workspace
  shadow : Nat → Row
  pixelStreamActive : Bool

def State.zero : State where
  base              := .zero
  overlayPlane      := .zero
  stage             := .zero
  surface           := .zero
  overlay           := .zero
  baseRepair        := []
  workspaceBorrow   := 0
  workspace         := 0
  memory            := .zero
  shadow _ _        := 0
  pixelStreamActive := false

def State.plane (state : State) : PlaneKind → Plane
  | .base    => state.base
  | .overlay => state.overlayPlane

def State.withPlane (state : State) : PlaneKind → Plane → State
  | .base,    plane => { state with base := plane }
  | .overlay, plane => { state with overlayPlane := plane }

abbrev Task := Prog Call Call.Reply State

def ask (c : Call) : Task c.Reply :=
  Prog.call c

def onlyIf (b : Prop) [Decidable b] (p : Task Unit) : Task Unit :=
  if b then p else pure ()

-- A pointer is followed that is `NULL` or that leads into a workspace that was given back.
def fault {α : Type} : Task α :=
  Prog.hang

-- The workspace that was lent under a generation is only there until it is given back.
def State.holds (state : State) (generation : UInt32) : Bool :=
  generation != 0 && generation == state.workspaceBorrow

-- The regions, commands and text at a pointer.
def State.rectsAt (state : State) : Pointer → Option (List Rect)
  | .null            => none
  | .stage g         => if state.holds g then some state.memory.stageDirty else none
  | .overlay g       => if state.holds g then some state.memory.overlayDirty else none
  | .overlayRepair g => if state.holds g then some state.memory.overlayRepair else none
  | .baseRepair      => some state.baseRepair

def State.commandsAt (state : State) : Pointer → Option (Nat → Command)
  | .stage g   => if state.holds g then some state.memory.stageCommands else none
  | .overlay g => if state.holds g then some state.memory.overlayCommands else none
  | _          => none

def State.textAt (state : State) : Pointer → Option Memory
  | .stage g   => if state.holds g then some state.memory.stageText else none
  | .overlay g => if state.holds g then some state.memory.overlayText else none
  | _          => none

def follow {α : Type} : Option α → Task α
  | some a => pure a
  | none   => fault

def setRects (pointer : Pointer) (rects : List Rect) : Task Unit := do
  let state ← get
  let _ ← follow (state.rectsAt pointer)
  match pointer with
  | .null            => pure ()
  | .stage _         => set { state with memory.stageDirty := rects }
  | .overlay _       => set { state with memory.overlayDirty := rects }
  | .overlayRepair _ => set { state with memory.overlayRepair := rects }
  | .baseRepair      => set { state with baseRepair := rects }

def setCommands (pointer : Pointer) (commands : Nat → Command) : Task Unit := do
  let state ← get
  let _ ← follow (state.commandsAt pointer)
  match pointer with
  | .stage _   => set { state with memory.stageCommands := commands }
  | .overlay _ => set { state with memory.overlayCommands := commands }
  | _          => pure ()

def setText (pointer : Pointer) (text : Memory) : Task Unit := do
  let state ← get
  let _ ← follow (state.textAt pointer)
  match pointer with
  | .stage _   => set { state with memory.stageText := text }
  | .overlay _ => set { state with memory.overlayText := text }
  | _          => pure ()

-- The first `count` regions at a pointer. It is not followed for none of them.
def readRects (pointer : Pointer) (count : Nat) : Task (List Rect) := do
  if count = 0 then
    return []
  else
    let state ← get
    let rects ← follow (state.rectsAt pointer)
    return rects.take count

def modifyStage (f : Stage → Stage) : Task Unit :=
  modify fun state => { state with stage := f state.stage }

def screenRect (board : Board) : Rect :=
  ⟨0, 0, board.width, board.height⟩

-- `find_plane`
def State.findPlane (state : State) (session : Nat) : Option PlaneKind :=
  if session = 0 then none
  else if state.base.active ∧ state.base.session = session then some .base
  else if state.overlayPlane.active ∧ state.overlayPlane.session = session then some .overlay
  else none

-- The stage, or the surface, belongs to a session.
def State.staged (state : State) (session : Nat) : Bool :=
  state.stage.kind != .none && session != 0 && state.stage.session == session

def State.surfaced (state : State) (session : Nat) : Bool :=
  state.surface.active && session != 0 && state.surface.session == session

-- `workspace_acquire`
def workspaceAcquire : Task Bool := do
  let state ← get
  if state.workspace ≠ 0 then
    return true
  else
    match ← ask .borrow with
    | none   => return false
    | some g =>
      set { state with
        workspaceBorrow := g
        workspace := g
        memory := .zero
        stage := { state.stage with commands := .stage g, text := .stage g, dirty := .stage g }
        overlay :=
          { state.overlay with commands := .overlay g, text := .overlay g, dirty := .overlay g }
        overlayPlane := { state.overlayPlane with repair := .overlayRepair g } }
      return true

-- `workspace_release_if_idle`
def workspaceReleaseIfIdle : Task Unit := do
  let state ← get
  if state.workspace = 0 ∨ state.stage.kind ≠ .none ∨ state.overlay.commandCount ≠ 0 ∨
      state.overlayPlane.repairCount ≠ 0 then
    return ()
  else
    ask (.release state.workspaceBorrow)
    set { state with
      workspaceBorrow := 0
      workspace := 0
      stage := { state.stage with commands := .null, text := .null, dirty := .null }
      overlay := { state.overlay with commands := .null, text := .null, dirty := .null }
      overlayPlane := { state.overlayPlane with repair := .null } }

-- `overlay_reset`
def overlayReset : Task Unit :=
  modify fun state =>
    { state with
      overlay := { state.overlay with commandCount := 0, textBytes := 0, dirtyCount := 0 } }

-- `stage_reset`
def stageReset (board : Board) : Task Unit :=
  modifyStage fun stage =>
    { stage with
      session := 0
      clip := screenRect board
      commandCount := 0
      textBytes := 0
      dirtyCount := 0
      borrow := .none
      rollbackFirstValid := false
      kind := .none }

def surfaceReset : Task Unit :=
  modify fun state => { state with surface := .zero }

-- `stage_for`
def stageFor (session : Nat) : Task Result := do
  let state ← get
  if (state.findPlane session).isNone then
    return .internal
  else if ¬state.staged session then
    return .invalidState
  else
    return .ok

-- `k210_display_open`
def «open» (session : Nat) (plane : Option PlaneKind) : Task Result := do
  let state ← get
  match plane with
  | none      => return .invalidArgument
  | some kind =>
    if session = 0 then
      return .invalidArgument
    else if (state.plane kind).active then
      return .busy
    else
      let repair :=
        match kind with
        | .base    => .baseRepair
        | .overlay => if state.workspace ≠ 0 then .overlayRepair state.workspace else .null
      set (state.withPlane kind
        { state.plane kind with session, repair, repairCount := 0, active := true })
      return .ok

-- The cancellation is 0 where there is none.
def cancelRequested (cancel : Nat) : Task Bool :=
  if cancel = 0 then pure false else ask (.probe cancel)

-- `terminal_result`, which the transport has a copy of.
def terminalResult (deadline : UInt64) (cancel : Nat) : Task Result := do
  let cancelled ← cancelRequested cancel
  if cancelled then
    return .cancelled
  else if deadline = 0 then
    return .ok
  else
    let now ← ask .timeUs
    return if now ≥ deadline then .deadlineExceeded else .ok

-- `transfer_failure`
def transferFailure (deadline : UInt64) : Task Result := do
  if deadline = 0 then
    return .io
  else
    let now ← ask .timeUs
    return if now ≥ deadline then .deadlineExceeded else .io

def setStream (active : Bool) : Task Unit :=
  modify fun state => { state with pixelStreamActive := active }

-- `lcd_st7789_transport_abort`
def transportAbort : Task Unit := do
  let state ← get
  if state.pixelStreamActive then
    ask .txAbort
    setStream false

-- `lcd_st7789_transport_begin`
def transportBegin (board : Board) (rect : Rect) (deadline : UInt64) : Task Result := do
  let result ← terminalResult deadline 0
  if result ≠ .ok then
    return result
  else
    let state ← get
    if state.pixelStreamActive then
      return .invalidState
    else if rect.x < 0 ∨ rect.y < 0 ∨ rect.empty ∨ rect.x + rect.width > board.width ∨
        rect.y + rect.height > board.height then
      return .invalidArgument
    else
      let selected ← ask (.window rect)
      if ¬selected then
        transferFailure deadline
      else
        let begun ← ask .txBegin
        if ¬begun then
          transferFailure deadline
        else
          setStream true
          return .ok

-- `lcd_st7789_transport_write`
def transportWrite (pixels : List UInt16) (deadline : UInt64) (cancel : Nat) : Task Result := do
  let result ← terminalResult deadline cancel
  if result ≠ .ok then
    transportAbort
    return result
  else
    let state ← get
    if ¬state.pixelStreamActive then
      return .invalidState
    else if pixels.isEmpty then
      return .invalidArgument
    else
      let written ← ask (.txWrite pixels)
      if ¬written then
        transportAbort
        transferFailure deadline
      else
        terminalResult deadline cancel

-- `lcd_st7789_transport_end`
def transportEnd (deadline : UInt64) (cancel : Nat) : Task Result := do
  let result ← terminalResult deadline cancel
  let state ← get
  if ¬state.pixelStreamActive then
    return .invalidState
  else if result ≠ .ok then
    transportAbort
    return result
  else
    let ended ← ask .txEnd
    setStream false
    if ¬ended then
      transferFailure deadline
    else
      terminalResult deadline cancel

-- What is rendered on top of the framebuffer: the staged commands, or those of an overlay.
structure Layer where
  commands : Pointer
  text : Pointer
  commandCount : Nat
  textBytes : Nat
  borrow : Borrow

def Stage.layer (stage : Stage) : Layer :=
  ⟨stage.commands, stage.text, stage.commandCount, stage.textBytes, stage.borrow⟩

def Overlay.layer (overlay : Overlay) : Layer :=
  ⟨overlay.commands, overlay.text, overlay.commandCount, overlay.textBytes, .none⟩

-- Renders the commands of a layer, if there is one. Its pointers are only followed for a command.
def renderLayer (board : Board) (span : Span) (layer : Option Layer) (pixels : Row) : Task Row := do
  match layer with
  | none       => return pixels
  | some layer =>
    if layer.commandCount = 0 then
      return pixels
    else
      let state ← get
      let commands ← follow (state.commandsAt layer.commands)
      let text ← follow (state.textAt layer.text)
      return renderCommandsSpan board span ((List.range layer.commandCount).map commands) text
        layer.textBytes layer.borrow pixels

-- `render_span`
def renderSpan (board : Board) (span : Span) (base overlay : Option Layer) : Task Row := do
  let state ← get
  let pixels ← renderLayer board span base (state.shadow span.y)
  renderLayer board span overlay pixels

-- The pixels of a span, in the order in which they are sent.
def Span.pixels (span : Span) (row : Row) : List UInt16 :=
  (List.range span.width).map fun i => row (span.x + i)

-- The loop of `transfer_rect`. The `Bool` is what `*progress` ends as.
def transferSpans (board : Board) (base overlay : Option Layer) (deadline : UInt64) (cancel : Nat) :
    List Span → Bool → Task (Result × Bool)
  | [],            progress => return (.ok, progress)
  | span :: spans, progress => do
    let result ← terminalResult deadline cancel
    if result ≠ .ok then
      transportAbort
      return (result, progress)
    else
      let row ← renderSpan board span base overlay
      let result ← transportWrite (span.pixels row) deadline cancel
      if result ≠ .ok then
        transportAbort
        return (result, progress)
      else
        transferSpans board base overlay deadline cancel spans true

-- `transfer_rect`
def transferRect (board : Board) (rect : Rect) (base overlay : Option Layer) (deadline : UInt64)
    (cancel : Nat) (progress : Bool) : Task (Result × Bool) := do
  let result ← terminalResult deadline cancel
  if result ≠ .ok then
    return (result, progress)
  else
    let result ← transportBegin board rect deadline
    if result ≠ .ok then
      return (result, progress)
    else
      let sent ← transferSpans board base overlay deadline cancel (rectSpans rect) progress
      if sent.1 ≠ .ok then
        return sent
      else
        let result ← transportEnd deadline cancel
        onlyIf (result ≠ .ok) transportAbort
        return (result, sent.2)

-- `transfer_regions`
def transferRegions (board : Board) (base overlay : Option Layer) (deadline : UInt64)
    (cancel : Nat) : List Rect → Bool → Task (Result × Bool)
  | [],              progress => return (.ok, progress)
  | region :: rects, progress => do
    let sent ← transferRect board region base overlay deadline cancel progress
    if sent.1 ≠ .ok then
      return sent
    else
      transferRegions board base overlay deadline cancel rects sent.2

-- `overlay_from_stage`
def overlayFromStage : Task Unit := do
  let state ← get
  let commands ← follow (state.commandsAt state.stage.commands)
  let text ← follow (state.textAt state.stage.text)
  let dirty ← follow (state.rectsAt state.stage.dirty)
  let oldCommands ← follow (state.commandsAt state.overlay.commands)
  let oldText ← follow (state.textAt state.overlay.text)
  setCommands state.overlay.commands fun i =>
    if i < state.stage.commandCount then commands i else oldCommands i
  setText state.overlay.text (oldText.overlay 0 state.stage.textBytes text)
  setRects state.overlay.dirty (dirty.take state.stage.dirtyCount)
  modify fun state =>
    { state with
      overlay :=
        { state.overlay with
          commandCount := state.stage.commandCount
          textBytes := state.stage.textBytes
          dirtyCount := state.stage.dirtyCount } }

-- Puts the pixels of a span into the framebuffer.
def writeShadow (span : Span) (row : Row) : Task Unit :=
  modify fun state =>
    { state with
      shadow := fun y x =>
        if y = span.y ∧ span.x ≤ x ∧ x < span.x + span.width then row x else state.shadow y x }

-- `shadow_apply`
def shadowApply (board : Board) : Task Unit := do
  let state ← get
  let dirty ← readRects state.stage.dirty state.stage.dirtyCount
  (dirty.flatMap rectSpans).forM fun span => do
    let row ← renderSpan board span (some state.stage.layer) none
    writeShadow span row

-- `k210_display_begin`
def begin (board : Board) (session : Nat) : Task Result := do
  let state ← get
  if (state.findPlane session).isNone then
    return .internal
  else if state.surfaced session then
    return .invalidState
  else if state.stage.kind ≠ .none then
    return .busy
  else
    let acquired ← workspaceAcquire
    if ¬acquired then
      return .busy
    else
      stageReset board
      modifyStage fun stage => { stage with session, kind := .batch }
      return .ok

-- `k210_display_clip`
def clip (board : Board) (session : Nat) (rect : Option Rect) : Task Result := do
  let result ← stageFor session
  if result ≠ .ok then
    return result
  else
    match rect with
    | none      =>
      modifyStage fun stage => { stage with clip := screenRect board }
      return .ok
    | some rect =>
      if ¬rect.valid then
        return .invalidArgument
      else
        modifyStage fun stage => { stage with clip := rect.intersection (screenRect board) }
        return .ok

-- `append_command`
def appendCommand (session : Nat) (command : Command) (text : List UInt8)
    (borrow : Option Borrow) : Task Result := do
  let result ← stageFor session
  if result ≠ .ok then
    return result
  else if command.rect.empty then
    return .ok
  else
    let { stage, .. } ← get
    if stage.commandCount ≥ maxCommands ∨ text.length > maxTextBytes - stage.textBytes ∨
        (borrow.isSome ∧ stage.borrow.active) then
      return .limit
    else
      let state ← get
      let rects ← follow (state.rectsAt stage.dirty)
      match dirtyAdd (rects.take stage.dirtyCount) command.rect with
      | none       => return .limit
      | some dirty =>
        let command :=
          if text = [] then command
          else { command with textOffset := stage.textBytes, textLength := text.length }
        onlyIf (text ≠ []) do
          let old ← follow (state.textAt stage.text)
          setText stage.text
            (old.overlay stage.textBytes text.length fun a => text.getD (a - stage.textBytes) 0)
        let commands ← follow (state.commandsAt stage.commands)
        setCommands stage.commands fun i => if i = stage.commandCount then command else commands i
        setRects stage.dirty dirty
        modifyStage fun stage =>
          { stage with
            borrow := borrow.getD stage.borrow
            commandCount := stage.commandCount + 1
            textBytes := stage.textBytes + text.length
            dirtyCount := dirty.length }
        return .ok

-- `clipped_command`, and the part of `k210_display_text` that is the same.
def clippedCommand (session : Nat) (rect : Rect) (type : CommandType) (color : UInt16)
    (text : List UInt8) : Task Result := do
  let result ← stageFor session
  if result ≠ .ok then
    return result
  else if ¬rect.valid then
    return .invalidArgument
  else
    let { stage, .. } ← get
    appendCommand session ⟨type, color, 0, 0, rect.intersection stage.clip⟩ text none

-- `k210_display_clear`
def clear (session : Nat) (color : UInt16) : Task Result := do
  let result ← stageFor session
  if result ≠ .ok then
    return result
  else
    let { stage, .. } ← get
    appendCommand session ⟨.clear, color, 0, 0, stage.clip⟩ [] none

-- `k210_display_fill`
def fill (session : Nat) (rect : Rect) (color : UInt16) : Task Result :=
  clippedCommand session rect .fill color []

-- `k210_display_stroke`
def stroke (session : Nat) (rect : Rect) (color : UInt16) : Task Result :=
  clippedCommand session rect .stroke color []

-- `k210_display_text`. There is no text where it is `NULL`.
def text (session : Nat) (bounds : Rect) (utf8 : Option (List UInt8)) (color : UInt16) :
    Task Result :=
  match utf8 with
  | none      => return .invalidArgument
  | some utf8 =>
    if utf8.length > 0xFFFF then
      return .invalidArgument
    else
      clippedCommand session bounds .text color utf8

-- `hk_buffer_view_t`, with what it shows. `aligned` is whether the address is a multiple of 4.
structure View where
  data : Memory
  sizeBytes : Nat
  strideBytes : Nat
  aligned : Bool

-- `k210_display_blit`
def blit (session : Nat) (destination : Option Rect) (pixels : Option View) (rgb565 : Bool) :
    Task Result := do
  match destination, pixels with
  | some destination, some pixels =>
    if ¬rgb565 ∨ ¬destination.valid ∨ destination.width * 2 > 0xFFFFFFFF ∨
        pixels.strideBytes < destination.width * 2 ∨ ¬pixels.aligned ∨
        pixels.strideBytes % 2 = 1 then
      return .invalidArgument
    else
      let result ← stageFor session
      if result ≠ .ok then
        return result
      else
        let state ← get
        let required :=
          if destination.height = 0 then 0
          else (destination.height - 1) * pixels.strideBytes + destination.width * 2
        if state.findPlane session = some .overlay then
          return .featureUnavailable
        else if required > pixels.sizeBytes then
          return .invalidArgument
        else
          let rect := destination.intersection state.stage.clip
          appendCommand session ⟨.blit, 0, 0, 0, rect⟩ [] (some {
            data := pixels.data
            sizeBytes := pixels.sizeBytes
            strideBytes := pixels.strideBytes
            sourceX := (rect.x - destination.x).toNat
            sourceY := (rect.y - destination.y).toNat
            active := true })
  | _, _                          => return .invalidArgument

-- `k210_display_mark`
def mark (board : Board) (session : Nat) (rect : Option Rect) : Task Result := do
  let state ← get
  if (state.findPlane session).isNone then
    return .internal
  else if ¬state.staged session ∧ ¬state.surfaced session then
    return .invalidState
  else
    match rect with
    | none      => return .invalidArgument
    | some rect =>
      let clipped := rect.intersection (screenRect board)
      if ¬rect.valid then
        return .invalidArgument
      else if state.staged session then
        let rects ← follow (state.rectsAt state.stage.dirty)
        match dirtyAdd (rects.take state.stage.dirtyCount) clipped with
        | none       => return .limit
        | some dirty =>
          setRects state.stage.dirty dirty
          modifyStage fun stage => { stage with dirtyCount := dirty.length }
          return .ok
      else
        match dirtyAdd state.surface.dirty clipped with
        | none       => return .limit
        | some dirty =>
          set { state with surface := { state.surface with dirty } }
          return .ok

-- `k210_display_surface`, without what it tells about the framebuffer
def surface (session : Nat) : Task Result := do
  let state ← get
  match state.findPlane session with
  | none          => return .internal
  | some .overlay => return .featureUnavailable
  | some .base    =>
    if state.surface.active then
      return .busy
    else if state.staged session then
      return .invalidState
    else
      set { state with surface := ⟨session, [], true⟩ }
      return .ok

-- The overlay, as far as it has commands.
def State.shown (state : State) : Option Layer :=
  if state.overlay.commandCount = 0 then none else some state.overlay.layer

-- `repair_regions`
def repairRegions (board : Board) (kind : PlaneKind) (deadline : UInt64) (cancel : Nat) :
    Task (Result × Bool) := do
  let state ← get
  let plane := state.plane kind
  let regions ← readRects plane.repair plane.repairCount
  transferRegions board none state.shown deadline cancel regions false

def setRepair (kind : PlaneKind) (regions : List Rect) : Task Unit := do
  let state ← get
  setRects (state.plane kind).repair regions
  modify fun state =>
    state.withPlane kind { state.plane kind with repairCount := regions.length }

def clearRepair (kind : PlaneKind) : Task Unit :=
  modify fun state => state.withPlane kind { state.plane kind with repairCount := 0 }

-- The damage of the stage or of the surface.
def ownDamage (staged : Bool) : Task (List Rect) := do
  let state ← get
  if staged then
    readRects state.stage.dirty state.stage.dirtyCount
  else
    return state.surface.dirty

-- What the overlay covered before.
def oldDamage (kind : PlaneKind) : Task (List Rect) := do
  let { overlay, .. } ← get
  if kind = .overlay then
    readRects overlay.dirty overlay.dirtyCount
  else
    return []

-- The regions that a present has to transfer. There are none where they are too many.
def affectedRegions (kind : PlaneKind) (staged : Bool) : Task (Option (List Rect)) := do
  let dirty ← ownDamage staged
  match dirtyAddAll [] dirty with
  | none          => return none
  | some affected =>
    let old ← oldDamage kind
    return dirtyAddAll affected old

-- The layers that a present shows. A surface has no commands, and the overlay has no surface.
def presentLayers (kind : PlaneKind) (staged : Bool) : Task (Option Layer × Option Layer) := do
  let state ← get
  match kind, staged with
  | .base,    true  => return (some state.stage.layer, state.shown)
  | .base,    false => return (none, state.shown)
  | .overlay, true  => return (none, some { state.stage.layer with borrow := .none })
  | .overlay, false => fault

def commitLayer (board : Board) (kind : PlaneKind) (staged : Bool) : Task Unit :=
  if kind = .overlay then overlayFromStage
  else if staged then shadowApply board
  else pure ()

def nextGeneration (kind : PlaneKind) : Task Unit :=
  modify fun state =>
    let plane := state.plane kind
    if plane.committedGeneration ≠ generationMax then
      state.withPlane kind { plane with committedGeneration := plane.committedGeneration + 1 }
    else
      state

-- What a present does once everything has been transferred.
def presentCommit (board : Board) (kind : PlaneKind) (staged : Bool) : Task Unit := do
  commitLayer board kind staged
  nextGeneration kind
  if staged then
    stageReset board
    workspaceReleaseIfIdle
  else
    surfaceReset

-- The part of `k210_display_present` after the repair.
def presentTransfer (board : Board) (kind : PlaneKind) (staged : Bool) (deadline : UInt64)
    (cancel : Nat) (progress : Bool) : Task Result := do
  match ← affectedRegions kind staged with
  | none          => return .limit
  | some affected =>
    let layers ← presentLayers kind staged
    let sent ←
      transferRegions board layers.1 layers.2 deadline cancel affected progress
    if sent.1 ≠ .ok then
      onlyIf sent.2 (setRepair kind affected)
      return sent.1
    else
      presentCommit board kind staged
      return .ok

-- `k210_display_present`
def present (board : Board) (session : Nat) (deadline : UInt64) (cancel : Nat) : Task Result := do
  if deadline = timeMax then
    return .invalidArgument
  else
    let state ← get
    match state.findPlane session with
    | none      => return .internal
    | some kind =>
      let staged := state.staged session
      if ¬staged ∧ ¬state.surfaced session then
        return .invalidState
      else
        let result ← terminalResult deadline cancel
        if result ≠ .ok then
          return result
        else
          let repaired ← repairRegions board kind deadline cancel
          if repaired.1 ≠ .ok then
            return repaired.1
          else
            clearRepair kind
            presentTransfer board kind staged deadline cancel repaired.2

-- `k210_display_abort`
def abort (board : Board) (session : Nat) : Task Result := do
  let state ← get
  if (state.findPlane session).isNone then
    return .internal
  else if state.staged session then
    stageReset board
    workspaceReleaseIfIdle
    return .ok
  else if state.surfaced session then
    surfaceReset
    return .ok
  else
    return .invalidState

-- `k210_display_checkpoint`, with the two counts
def checkpoint (session : Nat) : Task (Result × Option (Nat × Nat)) := do
  let result ← stageFor session
  if result ≠ .ok then
    return (result, none)
  else
    let { stage, .. } ← get
    modifyStage fun stage => { stage with rollbackFirstValid := false }
    return (.ok, some (stage.commandCount, stage.textBytes))

-- `dirty_rebuild`
def dirtyRebuild : Task Unit := do
  let state ← get
  if state.stage.commandCount = 0 then
    modifyStage fun stage => { stage with dirtyCount := 0 }
  else
    let commands ← follow (state.commandsAt state.stage.commands)
    let rects := (List.range state.stage.commandCount).map fun i => (commands i).rect
    let dirty := dirtyAddAny [] rects
    setRects state.stage.dirty dirty
    modifyStage fun stage => { stage with dirtyCount := dirty.length }

-- Remembers the first command, and puts another one in its place.
def saveFirst : Task Unit := do
  let state ← get
  let commands ← follow (state.commandsAt state.stage.commands)
  modifyStage fun stage =>
    { stage with rollbackFirst := commands 0, rollbackFirstValid := true }

def putFirst (command : Command) : Task Unit := do
  let state ← get
  let commands ← follow (state.commandsAt state.stage.commands)
  setCommands state.stage.commands fun i => if i = 0 then command else commands i

-- `k210_display_restore`
def restore (session : Nat) (commands textBytes : Nat) : Task Result := do
  let result ← stageFor session
  if result ≠ .ok then
    return result
  else if commands > maxCommands ∨ textBytes > maxTextBytes then
    return .invalidArgument
  else
    let { stage, .. } ← get
    onlyIf (commands = 0 ∧ stage.commandCount ≠ 0) saveFirst
    let { stage, .. } ← get
    onlyIf (stage.rollbackFirstValid ∧ commands ≠ 0) (putFirst stage.rollbackFirst)
    modifyStage fun stage =>
      { stage with
        commandCount := commands
        textBytes
        borrow := if commands = 0 then .none else stage.borrow }
    dirtyRebuild
    return .ok

-- `k210_display_keep_last_clear`
def keepLastClear (session : Nat) : Task Result := do
  let result ← stageFor session
  if result ≠ .ok then
    return result
  else
    let state ← get
    if state.stage.commandCount = 0 then
      return .invalidState
    else
      let commands ← follow (state.commandsAt state.stage.commands)
      let command := commands (state.stage.commandCount - 1)
      if command.type ≠ .clear then
        return .invalidState
      else
        onlyIf (state.stage.commandCount > 1) saveFirst
        putFirst command
        modifyStage fun stage => { stage with commandCount := 1, textBytes := 0, borrow := .none }
        dirtyRebuild
        return .ok

-- The regions that a close has to clean up.
def cleanupRegions (kind : PlaneKind) : Task (List Rect) := do
  let state ← get
  let plane := state.plane kind
  let repair ← readRects plane.repair plane.repairCount
  let old ← oldDamage kind
  return dirtyAddAny (dirtyAddAny [] repair) old

-- What is staged or borrowed by a session is given up.
def dropStage (board : Board) (session : Nat) : Task Unit := do
  let state ← get
  onlyIf (state.staged session) (stageReset board)

def dropSurface (session : Nat) : Task Unit := do
  let state ← get
  onlyIf (state.surfaced session) surfaceReset

-- A plane is given up.
def dropPlane (kind : PlaneKind) : Task Unit := do
  onlyIf (kind = .overlay) overlayReset
  modify fun state =>
    state.withPlane kind { state.plane kind with session := 0, repairCount := 0, active := false }

-- `k210_display_close`
def close (board : Board) (session : Nat) (deadline : UInt64) : Task Result := do
  let state ← get
  match state.findPlane session with
  | none      => return .internal
  | some kind =>
    let result ← terminalResult deadline 0
    if result ≠ .ok then
      return result
    else
      onlyIf (state.staged session) do
        stageReset board
        workspaceReleaseIfIdle
      dropSurface session
      let cleanup ← cleanupRegions kind
      let sent ← transferRegions board none none deadline 0 cleanup false
      if sent.1 ≠ .ok then
        return if sent.2 then .internal else sent.1
      else
        dropPlane kind
        workspaceReleaseIfIdle
        return .ok

def dropFound : Option PlaneKind → Task Unit
  | none      => pure ()
  | some kind => dropPlane kind

-- `k210_display_retire`
def retire (board : Board) (session : Nat) : Task Unit := do
  let state ← get
  dropStage board session
  dropSurface session
  dropFound (state.findPlane session)
  workspaceReleaseIfIdle

inductive Op
  | «open» (session : Nat) (plane : Option PlaneKind)
  | begin (session : Nat)
  | clip (session : Nat) (rect : Option Rect)
  | clear (session : Nat) (color : UInt16)
  | fill (session : Nat) (rect : Rect) (color : UInt16)
  | stroke (session : Nat) (rect : Rect) (color : UInt16)
  | text (session : Nat) (bounds : Rect) (utf8 : Option (List UInt8)) (color : UInt16)
  | blit (session : Nat) (destination : Option Rect) (pixels : Option View) (rgb565 : Bool)
  | mark (session : Nat) (rect : Option Rect)
  | surface (session : Nat)
  | present (session : Nat) (deadline : UInt64) (cancel : Nat)
  | abort (session : Nat)
  | checkpoint (session : Nat)
  | restore (session commands textBytes : Nat)
  | keepLastClear (session : Nat)
  | close (session : Nat) (deadline : UInt64)
  | retire (session : Nat)
  -- What else happens to the frame pool: one of the four calls that are not the adapter's.
  | reserveCamera
  | releaseCamera
  | borrowElsewhere
  | releaseElsewhere

-- The result of an operation, if it has one.
def Op.perform (board : Board) : Op → Task (Option Result)
  | .open session plane           => some <$> Display.«open» session plane
  | .begin session                => some <$> Display.begin board session
  | .clip session rect            => some <$> Display.clip board session rect
  | .clear session color          => some <$> Display.clear session color
  | .fill session rect color      => some <$> Display.fill session rect color
  | .stroke session rect color    => some <$> Display.stroke session rect color
  | .text session bounds s color  => some <$> Display.text session bounds s color
  | .blit session rect pixels rgb => some <$> Display.blit session rect pixels rgb
  | .mark session rect            => some <$> Display.mark board session rect
  | .surface session              => some <$> Display.surface session
  | .present session deadline c   => some <$> Display.present board session deadline c
  | .abort session                => some <$> Display.abort board session
  | .checkpoint session           => (fun x => some x.1) <$> Display.checkpoint session
  | .restore session n m          => some <$> Display.restore session n m
  | .keepLastClear session        => some <$> Display.keepLastClear session
  | .close session deadline       => some <$> Display.close board session deadline
  | .retire session               => (fun _ => none) <$> Display.retire board session
  | .reserveCamera                => (fun _ => none) <$> ask .reserveCamera
  | .releaseCamera                => (fun _ => none) <$> ask .releaseCamera
  | .borrowElsewhere              => (fun _ => none) <$> ask .borrowElsewhere
  | .releaseElsewhere             => (fun _ => none) <$> ask .releaseElsewhere

end Display
