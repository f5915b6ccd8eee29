import HackyLens.Display.Theorems.Drawing

-- The overlay is presented, and its batch is opened again.

namespace Display

open App (Result)
open Prog

variable {board : Board} {session : Nat} {s s' : State} {w w' : World} {deadline : UInt64}
variable {cancel : Nat} {admits : Decision → Prop} {frame : Frame}

section Operations

variable {Q : Result → State → World → Prop} {regions : List Rect} {E : Env Call Call.Reply World Decision}

theorem Staging.overlayCommandsAt (h : Staging session s) :
    s.commandsAt s.overlay.commands = some s.memory.overlayCommands := by
  simp [State.commandsAt, h.bound.overlayCommands, h.holds]

theorem Staging.overlayTextAt (h : Staging session s) :
    s.textAt s.overlay.text = some s.memory.overlayText := by
  simp [State.textAt, h.bound.overlayText, h.holds]

theorem Staging.overlayRectsAt (h : Staging session s) :
    s.rectsAt s.overlay.dirty = some s.memory.overlayDirty := by
  simp [State.rectsAt, h.bound.overlayDirty, h.holds]

theorem Staging.repairAt (h : Staging session s) :
    s.rectsAt s.overlayPlane.repair = some s.memory.overlayRepair := by
  simp [State.rectsAt, h.bound.repair, h.holds]

theorem wp_readRects {p : Pointer} {count : Nat} {rects : List Rect} {Q : List Rect → State → World → Prop}
    (hp : s.rectsAt p = some rects) (hq : Q (rects.take count) s w) :
    wp E (readRects p count) Q s w := by
  rw [readRects, wp_ite]
  split
  case isTrue hz =>
    rw [hz, List.take_zero] at hq
    exact hq
  case isFalse =>
    rw [wp_bind, wp_get]
    beta_reduce
    rw [hp]
    exact hq

theorem Staging.withMemory {memory : Workspace} (h : Staging session s) :
    Staging session { s with memory } :=
  have hb := h.bound
  ⟨h.1, h.2, h.3, h.4, h.5, h.6, h.7, ⟨hb.1, hb.2, hb.3, hb.4, hb.5, hb.6, hb.7, hb.8⟩⟩

variable {p : Pointer} {R : Unit → State → World → Prop}

theorem Staging.wp_setOverlayCommands (h : Staging session s) {commands : Nat → Command}
    (hp : p = s.overlay.commands) (hr : R () { s with memory.overlayCommands := commands } w) :
    wp E (setCommands p commands) R s w := by
  rw [setCommands, wp_bind, wp_get]
  beta_reduce
  rw [hp, h.overlayCommandsAt, h.bound.overlayCommands]
  exact hr

theorem Staging.wp_setOverlayText (h : Staging session s) {text : Memory}
    (hp : p = s.overlay.text) (hr : R () { s with memory.overlayText := text } w) :
    wp E (setText p text) R s w := by
  rw [setText, wp_bind, wp_get]
  beta_reduce
  rw [hp, h.overlayTextAt, h.bound.overlayText]
  exact hr

theorem Staging.wp_setOverlayRects (h : Staging session s) {rects : List Rect}
    (hp : p = s.overlay.dirty) (hr : R () { s with memory.overlayDirty := rects } w) :
    wp E (setRects p rects) R s w := by
  rw [setRects, wp_bind, wp_get]
  beta_reduce
  rw [hp, h.overlayRectsAt, h.bound.overlayDirty]
  exact hr

theorem Staging.wp_setOverlayRepair (h : Staging session s) {rects : List Rect}
    (hr : R () { s with
      memory.overlayRepair := rects, overlayPlane.repairCount := rects.length } w) :
    wp E (setRepair .overlay rects) R s w := by
  rw [setRepair, wp_bind, wp_get]
  beta_reduce
  rw [wp_bind, setRects, wp_bind, wp_get]
  beta_reduce
  show wp E (follow (s.rectsAt s.overlayPlane.repair) >>= _) _ s w
  rw [h.repairAt, State.plane, h.bound.repair]
  exact hr

-- The overlay holds what the batch held.
def State.adopted (s : State) : State :=
  { s with
    memory := { s.memory with
      overlayCommands := fun i =>
        if i < s.stage.commandCount then s.memory.stageCommands i else s.memory.overlayCommands i
      overlayText := s.memory.overlayText.overlay 0 s.stage.textBytes s.memory.stageText
      overlayDirty := s.memory.stageDirty.take s.stage.dirtyCount }
    overlay := { s.overlay with
      commandCount := s.stage.commandCount
      textBytes := s.stage.textBytes
      dirtyCount := s.stage.dirtyCount } }

theorem adopted_committed : s.adopted.committed = s.frame := by
  ext1
  · exact List.map_congr_left fun i hi => if_pos (List.mem_range.mp hi)
  · exact Memory.read_overlay le_rfl le_rfl
  · exact List.take_take.trans (congrArg (List.take · _) (Nat.min_self _))

theorem Staging.wp_overlayFromStage (h : Staging session s) (hr : R () s.adopted w) :
    wp E overlayFromStage R s w := by
  rw [overlayFromStage, wp_bind, wp_get]
  beta_reduce
  rw [wp_bind, h.commandsAt, wp_follow, wp_bind, h.textAt, wp_follow, wp_bind, h.rectsAt, wp_follow,
    wp_bind, h.overlayCommandsAt, wp_follow, wp_bind, h.overlayTextAt, wp_follow, wp_bind]
  refine h.wp_setOverlayCommands rfl ?_
  rw [wp_bind]
  refine Staging.wp_setOverlayText (by exact h.withMemory) rfl ?_
  rw [wp_bind]
  exact Staging.wp_setOverlayRects (by exact h.withMemory) rfl hr

end Operations

-- The regions that wait for a repair have changed, and nothing else.
def State.repairing (s : State) (regions : List Rect) (count : Nat) : State :=
  { s with memory.overlayRepair := regions, overlayPlane.repairCount := count }

theorem Inv.repairing {regions : List Rect} {count : Nat} (h : Inv s w) (hs : s.workspace ≠ 0)
    (hp : w'.pool = w.pool) : Inv (s.repairing regions count) w' := by
  have hq : Inv { s with memory.overlayRepair := regions } w' :=
    h.quiet ⟨rfl, rfl, rfl, rfl, rfl, rfl, rfl, hp⟩
  show Inv (State.withPlane { s with memory.overlayRepair := regions } .overlay
    { s.overlayPlane with repairCount := count }) w'
  exact hq.withPlane rfl rfl rfl fun _ => hs

theorem Drawing.repairing {regions : List Rect} {count : Nat} (h : Drawing board session s w)
    (hp : w'.pool = w.pool) (hr : ∀ r ∈ regions.take count, (screenRect board).Covers r) :
    Drawing board session (s.repairing regions count) w' where
  inv     := h.inv.repairing h.staging.workspace hp
  staging :=
    have hs := h.staging
    have hb := hs.bound
    ⟨hs.1, hs.2, hs.3, hs.4, hs.5, hs.6, hs.7, ⟨hb.1, hb.2, hb.3, hb.4, hb.5, hb.6, hb.7, hb.8⟩⟩
  stream  := h.stream
  clip    := h.clip
  counted := h.counted
  built   := h.built
  inside  := h.inside
  covered := h.covered
  repair  := hr
  camera  := hp ▸ h.camera

theorem Drawing.idle (h : Drawing board session s w) (hp : w'.pool = w.pool) :
    Drawing board session s w' :=
  h.repairing hp h.repair

theorem Drawing.not_blank (h : Drawing board session s w) : ¬s.Blank session := by
  rintro ⟨-, -, hc, hn⟩
  have he : s.frame.commands = [] := List.length_eq_zero_iff.mp (frame_length.trans hc)
  have hd := h.built.dirty
  rw [he] at hd
  obtain hn | hn := hn
  · exact hn (h.counted.symm.trans (congrArg List.length (Option.some_inj.mp hd).symm))
  · exact hn (frame_text_length.symm.trans (congrArg List.length (h.built.unused he)))

-- The batch is empty.
def State.begun (s : State) (board : Board) (session : Nat) : State :=
  { s with
    stage := { s.stage with
      session
      clip := screenRect board
      commandCount := 0
      textBytes := 0
      dirtyCount := 0
      borrow := .none
      rollbackFirstValid := false
      kind := .batch } }

-- The session has the overlay, but nobody has a batch.
structure Closed (session : Nat) (s : State) : Prop where
  real : session ≠ 0
  base : s.base.active = true → s.base.session ≠ session
  active : s.overlayPlane.active = true
  owner : s.overlayPlane.session = session
  kind : s.stage.kind = .none

-- What is needed to open the batch again after it has been presented.
structure Presented (board : Board) (session : Nat) (frame : Frame) (w₀ : World) (s : State) (w : World) :
    Prop where
  inv : Inv s w
  closed : Closed session s
  stream : s.pixelStreamActive = false
  repair : s.overlayPlane.repairCount = 0
  committed : s.committed = frame
  kept : frame.commands ≠ [] → s.workspace ≠ 0 ∧
    Recoverable frame (s.begun board session)
  gone : frame.commands = [] → s.workspace = 0 ∧ w.pool.activeGeneration = 0
  pool : w.pool.cameraReserved = false ∧ w.pool.generation = w₀.pool.generation

section Present

variable {staged : Bool} {progress : Bool}

theorem wp_affectedRegions (h : Drawing board session s w)
    {Q : Option (List Rect) → State → World → Prop}
    (hq : ∀ affected, (∀ r ∈ affected, (screenRect board).Covers r) → Q (some affected) s w) :
    wp (panel admits) (affectedRegions .overlay true) Q s w := by
  have hd : dirtyAddAll [] s.frame.dirty = some s.frame.dirty :=
    @Damage.addAll_eq [] _ h.built.damage
  obtain ⟨affected, ha⟩ := h.built.damage.addAll_spanned h.covered
  have hi := h.built.damage.inside_addAll ha h.inside fun r hr _ => by
    obtain ⟨outer, ho, hc⟩ := h.covered r hr
    exact (h.inside outer ho).trans hc
  rw [affectedRegions, wp_bind, ownDamage, wp_bind, wp_get]
  beta_reduce
  rw [wp_ite, if_pos rfl]
  refine wp_readRects h.staging.rectsAt ?_
  have hd : dirtyAddAll [] (s.memory.stageDirty.take s.stage.dirtyCount) = some s.frame.dirty := hd
  rw [hd]
  dsimp only
  rw [wp_bind, oldDamage, wp_bind, wp_get]
  beta_reduce
  rw [wp_ite, if_pos rfl]
  refine wp_readRects h.staging.overlayRectsAt ?_
  show Q (dirtyAddAll s.frame.dirty s.committed.dirty) s w
  rw [ha]
  exact hq affected hi

theorem wp_nextGeneration {R : Unit → State → World → Prop}
    (hr : ∀ generation, R () { s with overlayPlane.committedGeneration := generation } w) :
    wp (panel admits) (nextGeneration .overlay) R s w := by
  rw [nextGeneration, wp_modify]
  show R () (if s.overlayPlane.committedGeneration ≠ generationMax then _ else s) w
  split
  case isTrue  => exact hr _
  case isFalse => exact hr s.overlayPlane.committedGeneration

-- Nothing refers to the workspace.
def State.Idle (s : State) : Prop :=
  s.workspace ≠ 0 ∧ s.stage.kind = .none ∧ s.overlay.commandCount = 0 ∧
    s.overlayPlane.repairCount = 0

def State.released (s : State) : State :=
  { s with
    workspaceBorrow := 0
    workspace := 0
    stage := { s.stage with commands := .null, text := .null, dirty := .null }
    overlay := { s.overlay with commands := .null, text := .null, dirty := .null }
    overlayPlane := { s.overlayPlane with repair := .null } }

theorem wp_releaseIfIdle {R : Unit → State → World → Prop} (hk : ¬s.Idle → R () s w)
    (hg : s.Idle → R () s.released { w with pool := w.pool.release s.workspaceBorrow }) :
    wp (panel admits) workspaceReleaseIfIdle R s w := by
  rw [workspaceReleaseIfIdle, wp_bind, wp_get]
  beta_reduce
  rw [wp_ite]
  split
  case isTrue hn =>
    refine hk fun hi => ?_
    simp [hi.1, hi.2.1, hi.2.2.1, hi.2.2.2] at hn
  case isFalse hn =>
    simp only [not_or, not_not] at hn
    rw [wp_bind]
    exact wp_panel fun _ _ => hg hn

theorem Pool.release_rest {pool : Pool} {generation : UInt32} :
    (pool.release generation).cameraReserved = pool.cameraReserved ∧
      (pool.release generation).generation = pool.generation := by
  unfold Pool.release
  split <;> exact ⟨rfl, rfl⟩

theorem Drawing.ready (h : Drawing board session s w) : Ready s .overlay true := by
  have hr := h.inv.ready h.staging.findPlane (by simp [h.staging.staged]) h.not_blank
  rwa [h.staging.staged] at hr

theorem Pool.release_active {pool : Pool} {generation : UInt32}
    (h : generation = pool.activeGeneration ∧ generation ≠ 0) :
    (pool.release generation).activeGeneration = 0 := by
  rw [Pool.release, if_pos ⟨h.right, h.left⟩]

-- What a present does once everything has been transferred.
theorem wp_presentCommit (h : Drawing board session s w) (hr : s.overlayPlane.repairCount = 0) :
    wp (panel admits) (presentCommit board .overlay true)
      (fun _ s' w' => Presented board session s.frame w s' w') s w := by
  have hs : wp (panel admits) (presentCommit board .overlay true) (fun _ s' w' => Inv s' w') s w :=
    wp_restrict (fun _ _ => trivial) (safe_presentCommit h.inv h.ready)
  refine wp_assuming hs ?_
  rw [presentCommit, wp_bind, commitLayer, if_pos rfl]
  refine h.staging.wp_overlayFromStage ?_
  rw [wp_bind]
  refine wp_nextGeneration fun generation => ?_
  rw [wp_ite, if_pos rfl, wp_bind, stageReset, wp_modifyStage]
  have hn : s.frame.commands = [] ↔ s.stage.commandCount = 0 := by
    rw [← List.length_eq_zero_iff, frame_length]
  have hw := h.staging.workspace
  have hb : s.workspaceBorrow = w.pool.activeGeneration ∧ s.workspaceBorrow ≠ 0 :=
    ⟨h.staging.bound.workspaceBorrow.trans (h.inv.lent hw).left.symm,
      h.staging.bound.workspaceBorrow.symm ▸ hw⟩
  refine wp_releaseIfIdle (fun hi hinv => ?_) fun hi hinv => ?_
  · exact {
      inv       := hinv
      closed    := ⟨h.staging.real, h.staging.base, h.staging.active, h.staging.owner, rfl⟩
      stream    := h.stream
      repair    := hr
      committed := adopted_committed
      kept _    := by
        refine ⟨h.staging.workspace, ?_⟩
        exact {
          first hn      := (frame_getD (frame_length (s := s) ▸ hn)).symm
          others _ _ hi := (frame_getD (frame_length (s := s) ▸ hi)).symm
          text _ ha     := (frame_text_getD (frame_text_length (s := s) ▸ ha)).symm }
      gone hc   := absurd ⟨h.staging.workspace, rfl, hn.mp hc, hr⟩ hi
      pool      := ⟨h.camera, rfl⟩ }
  · exact {
      inv       := hinv
      closed    := ⟨h.staging.real, h.staging.base, h.staging.active, h.staging.owner, rfl⟩
      stream    := h.stream
      repair    := hr
      committed := adopted_committed
      kept hc   := absurd (hn.mpr hi.2.2.1) hc
      gone _    := ⟨rfl, Pool.release_active hb⟩
      pool      :=
        have hp := @Pool.release_rest w.pool s.workspaceBorrow
        ⟨hp.left.trans h.camera, hp.right⟩ }

-- What the call has come to.
def Outcomes (board : Board) (session : Nat) (s : State) (w : World) (result : Result) (s' : State)
    (w' : World) : Prop :=
  if result = .ok then Presented board session s.frame w s' w'
  else Drawing board session s' w' ∧ s'.frame = s.frame ∧ s'.committed = s.committed

theorem wp_repairRegions {Q : Result × Bool → State → World → Prop} (h : Drawing board session s w)
    (hq : ∀ result progress w', result ≠ .internal → w'.pool = w.pool →
      ((∀ d, admits d → d.Easy) → result = .ok) → Q (result, progress) s w') :
    wp (panel admits) (repairRegions board .overlay deadline cancel) Q s w := by
  rw [repairRegions, wp_bind, wp_get]
  beta_reduce
  rw [wp_bind]
  refine wp_readRects h.staging.repairAt ?_
  refine wp_transferRegions h.stream none_valid h.inv.shown_valid fun result progress w' hi hp he => ?_
  exact hq result progress w' hi hp fun ha => he ha h.repair

theorem wp_presentTransfer (h : Drawing board session s w) (hr : s.overlayPlane.repairCount = 0) :
    wp (panel admits) (presentTransfer board .overlay true deadline cancel progress)
      (fun result s' w' => result ≠ .internal ∧ ((∀ d, admits d → d.Easy) → result = .ok) ∧
        Outcomes board session s w result s' w') s w := by
  rw [presentTransfer, wp_bind]
  refine wp_affectedRegions h fun affected hi => ?_
  dsimp only
  rw [wp_bind, presentLayers, wp_bind, wp_get]
  dsimp only
  rw [wp_pure, wp_bind]
  refine wp_transferRegions h.stream none_valid ?_ fun result progress' w' hi' hp he => ?_
  case refine_1 =>
    intro l hl _
    obtain rfl := Option.mem_some_iff.mp hl
    have hf := h.inv.follows h.staging.workspace
    exact ⟨hf.stageCommands, hf.stageText⟩
  rw [wp_ite]
  split
  case isTrue hf =>
    rw [wp_bind, wp_onlyIf]
    split
    case isTrue =>
      refine h.staging.wp_setOverlayRepair ⟨hi', fun ha => he ha hi, ?_⟩
      rw [Outcomes, if_neg hf]
      refine ⟨h.repairing hp ?_, rfl, rfl⟩
      rwa [List.take_length]
    case isFalse =>
      refine ⟨hi', fun ha => he ha hi, ?_⟩
      rw [Outcomes, if_neg hf]
      exact ⟨h.idle hp, rfl, rfl⟩
  case isFalse hf =>
    rw [wp_bind]
    refine wp_mono (wp_presentCommit (h.idle hp) hr) fun _ s' w'' hc =>
      ⟨(by decide : Result.ok ≠ .internal), fun _ => rfl, ?_⟩
    rw [Outcomes, if_pos rfl]
    exact { hc with pool := ⟨hc.pool.left, hc.pool.right.trans (congrArg _ hp)⟩ }

-- One call of `k210_display_present` for the batch.
theorem wp_present (h : Drawing board session s w) :
    wp (panel admits) (present board session deadline cancel) (fun result s' w' =>
      result ≠ .internal ∧ ((∀ d, admits d → d.Easy) → deadline ≠ timeMax → result = .ok) ∧
        Outcomes board session s w result s' w') s w := by
  have refused {result : Result} {w' : World} (hf : result ≠ .ok) (hp : w'.pool = w.pool) :
      Outcomes board session s w result s w' := by
    rw [Outcomes, if_neg hf]
    exact ⟨h.idle hp, rfl, rfl⟩
  rw [present, wp_ite]
  split
  case isTrue hd =>
    have hr : Result.invalidArgument ≠ .internal ∧ Result.invalidArgument ≠ .ok := by decide
    exact ⟨hr.left, fun _ hn => absurd hd hn, refused hr.right rfl⟩
  rw [wp_bind, wp_get]
  beta_reduce
  rw [h.staging.findPlane]
  dsimp only
  rw [wp_ite, if_neg (by simp [h.staging.staged]), wp_bind]
  refine wp_terminalResult fun result hi he => ?_
  rw [wp_ite]
  split
  case isTrue hf => exact ⟨hi, fun ha _ => he ha, refused hf rfl⟩
  rw [wp_bind]
  refine wp_repairRegions h fun result progress w' hi hp he => ?_
  rw [wp_ite]
  split
  case isTrue hf => exact ⟨hi, fun ha _ => he ha, refused hf hp⟩
  rw [wp_bind, clearRepair, wp_modify, h.staging.staged]
  have h₁ : Drawing board session (s.repairing s.memory.overlayRepair 0) w' :=
    h.repairing hp (by simp)
  refine wp_mono (wp_presentTransfer h₁ rfl) ?_
  rintro result s' w'' ⟨hi, he, ho⟩
  refine ⟨hi, fun ha _ => he ha, ?_⟩
  rw [Outcomes] at ho ⊢
  split at ho
  case isTrue hf  =>
    rw [if_pos hf]
    exact { ho with pool := ⟨ho.pool.left, ho.pool.right.trans (congrArg _ hp)⟩ }
  case isFalse hf =>
    rw [if_neg hf]
    exact ho

end Present

section Begin

theorem Pool.borrow_of_free {pool : Pool} (hc : pool.cameraReserved = false)
    (ha : pool.activeGeneration = 0) (hg : pool.generation ≠ 0xFFFFFFFF) :
    pool.borrow = some (pool.generation + 1) := by
  simp [Pool.borrow, hc, ha, hg]

-- A workspace has been lent.
def State.lent (s : State) (generation : UInt32) : State :=
  { s with
    workspaceBorrow := generation
    workspace := generation
    memory := .zero
    stage := { s.stage with
      commands := .stage generation, text := .stage generation, dirty := .stage generation }
    overlay := { s.overlay with
      commands := .overlay generation, text := .overlay generation, dirty := .overlay generation }
    overlayPlane := { s.overlayPlane with repair := .overlayRepair generation } }

theorem Closed.findPlane (h : Closed session s) : s.findPlane session = some .overlay := by
  unfold State.findPlane
  rw [if_neg h.real, if_neg fun hb => h.base hb.left hb.right, if_pos ⟨h.active, h.owner⟩]

theorem Closed.wp_begin (h : Closed session s) (hi : Inv s w)
    {Q : Result → State → World → Prop} (hk : s.workspace ≠ 0 → Q .ok (s.begun board session) w)
    (hl : ∀ generation, s.workspace = 0 → w.pool.borrow = some generation →
      Q .ok ((s.lent generation).begun board session) { w with pool := w.pool.borrowed })
    (hn : s.workspace = 0 → w.pool.borrow = none → Q .busy s w) :
    wp (panel admits) (begin board session) Q s w := by
  have hs : ¬s.surfaced session = true := by
    intro hs
    obtain ⟨ha, -, he⟩ := State.surfaced_iff.mp hs
    have hb := hi.surface ha
    exact h.base hb.left (hb.right.trans he)
  rw [begin, wp_bind, wp_get]
  beta_reduce
  rw [wp_ite, h.findPlane, if_neg (by simp), wp_ite, if_neg hs, wp_ite, if_neg (by simp [h.kind]),
    wp_bind, workspaceAcquire, wp_bind, wp_get]
  beta_reduce
  rw [wp_ite]
  split
  case isTrue hw => exact hk hw
  case isFalse hw =>
    have hw := not_not.mp hw
    rw [wp_bind]
    refine wp_panel fun d _ => ?_
    have hr : (handler d .borrow w).fst = w.pool.borrow := rfl
    rw [hr]
    cases hb : w.pool.borrow with
    | none            =>
      have hp : (handler d .borrow w).snd = w := by
        show { w with pool := w.pool.borrowed } = w
        rw [Pool.borrow_none hb]
      rw [hp]
      exact hn hw hb
    | some generation => exact hl generation hw hb

-- The batch is open and empty, and a frame can be restored into it.
structure Reopened (board : Board) (session : Nat) (frame : Frame) (s : State) (w : World) :
    Prop where
  inv : Inv s w
  staging : Staging session s
  stream : s.pixelStreamActive = false
  clip : s.stage.clip = screenRect board
  repair : s.overlayPlane.repairCount = 0
  committed : s.committed = frame
  recoverable : Recoverable frame s
  camera : w.pool.cameraReserved = false

theorem begun_frame : (s.begun board session).frame = .empty := by
  simp [State.frame, State.begun, Frame.empty, Memory.read]

theorem begun_counted : (s.begun board session).Counted := by
  rw [State.Counted, begun_frame]
  rfl

theorem begun_staging (h : Closed session s) (hb : s.Bound) (hw : s.workspace ≠ 0) :
    Staging session (s.begun board session) :=
  ⟨h.real, h.base, h.active, h.owner, rfl, rfl, hw,
    ⟨hb.1, hb.2, hb.3, hb.4, hb.5, hb.6, hb.7, hb.8⟩⟩

theorem Recoverable.empty : Recoverable .empty s :=
  ⟨nofun, nofun, nofun⟩

theorem lent_committed {generation : UInt32} (h : s.committed = .empty) :
    (s.lent generation).committed = .empty := by
  have hc : s.overlay.commandCount = 0 := by
    simpa [State.committed, Frame.empty] using congrArg (·.commands.length) h
  have ht : s.overlay.textBytes = 0 := by
    simpa [State.committed, Frame.empty] using congrArg (·.text.length) h
  simp [State.committed, State.lent, hc, ht, Frame.empty, Memory.read, Workspace.zero]

-- The batch is opened again after it has been presented, if there is a workspace for it.
theorem Presented.wp_begin {w₀ : World} (h : Presented board session frame w₀ s w)
    (hf : frame.Built) (hg : frame.commands = [] → w₀.pool.generation ≠ 0xFFFFFFFF) :
    wp (panel admits) (begin board session) (fun result s' w' =>
      result = .ok ∧ Reopened board session frame s' w') s w := by
  have hs : wp (panel admits) (begin board session) (fun _ s' w' => Inv s' w') s w :=
    wp_restrict (fun _ _ => trivial) (safe_begin h.inv)
  refine wp_assuming hs ?_
  have hn (hw : s.workspace = 0) : frame.commands = [] := by
    by_contra hn
    exact (h.kept hn).left hw
  refine h.closed.wp_begin h.inv (fun hw hi => ⟨rfl, ?_⟩) (fun generation hw hb hi => ⟨rfl, ?_⟩) ?_
  · have hr := h.kept fun hc => hw (h.gone hc).left
    exact {
      inv         := hi
      staging     := begun_staging h.closed (h.inv.bound hw) hw
      stream      := h.stream
      clip        := rfl
      repair      := h.repair
      committed   := h.committed
      recoverable := hr.right
      camera      := h.pool.left }
  · have he := hf.of_nil (hn hw)
    have hl := Pool.borrow_some hb h.inv.tokens
    have hp : w.pool.borrowed.cameraReserved = w.pool.cameraReserved := by
      rw [Pool.borrowed, hb]
    exact {
      inv         := hi
      staging     := begun_staging ⟨h.closed.1, h.closed.2, h.closed.3, h.closed.4, h.closed.5⟩
        ⟨rfl, rfl, rfl, rfl, rfl, rfl, rfl, rfl⟩ hl.left
      stream      := h.stream
      clip        := rfl
      repair      := h.repair
      committed   := he ▸ lent_committed (h.committed.trans he)
      recoverable := he ▸ .empty
      camera      := hp.trans h.pool.left }
  · intro hw hb
    have hc := hn hw
    rw [Pool.borrow_of_free h.pool.left (h.gone hc).right (h.pool.right ▸ hg hc)] at hb
    cases hb

theorem begun_drawing (hi : Inv (s.begun board session) w)
    (hst : Staging session (s.begun board session)) (hs : s.pixelStreamActive = false)
    (hr : s.overlayPlane.repairCount = 0) (hc : s.committed = .empty)
    (hp : w.pool.cameraReserved = false) : Drawing board session (s.begun board session) w where
  inv     := hi
  staging := hst
  stream  := hs
  clip    := rfl
  counted := begun_counted
  built   := begun_frame ▸ .empty
  inside  := by
    rw [begun_frame]
    exact fun _ => nofun
  covered := by
    show ∀ r ∈ s.committed.dirty, _
    rw [hc]
    exact fun _ => nofun
  repair  := by
    show ∀ r ∈ s.memory.overlayRepair.take s.overlayPlane.repairCount, _
    rw [hr, List.take_zero]
    exact fun _ => nofun
  camera  := hp

-- A batch is opened for the first time.
theorem Closed.wp_begin_first (h : Closed session s) (hi : Inv s w)
    (hs : s.pixelStreamActive = false) (hr : s.overlayPlane.repairCount = 0)
    (hc : s.committed = .empty)
    (hp : w.pool.activeGeneration ≠ 0 → w.pool.cameraReserved = false) :
    wp (panel admits) (begin board session) (fun result s' w' =>
      (result = .ok ∧ Drawing board session s' w' ∧ s'.frame = .empty) ∨
        result = .busy ∧ s' = s ∧ w' = w) s w := by
  have hsafe : wp (panel admits) (begin board session) (fun _ s' w' => Inv s' w') s w :=
    wp_restrict (fun _ _ => trivial) (safe_begin hi)
  refine wp_assuming hsafe ?_
  refine h.wp_begin hi (fun hw hinv => .inl ⟨rfl, ?_, begun_frame⟩)
    (fun generation hw hb hinv => .inl ⟨rfl, ?_, begun_frame⟩) fun _ _ _ => .inr ⟨rfl, rfl, rfl⟩
  · have hl := (hi.lent hw).left
    exact begun_drawing hinv (begun_staging h (hi.bound hw) hw) hs hr hc (hp (hl ▸ hw))
  · have hl := Pool.borrow_some hb hi.tokens
    have hcam : w.pool.cameraReserved = false := by
      by_contra hn
      simp [Pool.borrow, hn] at hb
    have hb' : w.pool.borrowed.cameraReserved = w.pool.cameraReserved := by
      rw [Pool.borrowed, hb]
    exact begun_drawing hinv (begun_staging ⟨h.1, h.2, h.3, h.4, h.5⟩
      ⟨rfl, rfl, rfl, rfl, rfl, rfl, rfl, rfl⟩ hl.left) hs hr (lent_committed hc) (hb'.trans hcam)

theorem Reopened.wp_restore (h : Reopened board session frame s w) (hf : frame.Built)
    (hd : ∀ r ∈ frame.dirty, (screenRect board).Covers r) :
    wp (panel admits) (restore session frame.commands.length frame.text.length)
      (fun result s' w' => w' = w ∧ result = .ok ∧ Drawing board session s' w ∧
        s'.frame = frame ∧ s'.committed = frame) s w := by
  have hs : wp (panel admits) (restore session frame.commands.length frame.text.length)
      (fun _ s' w' => Inv s' w') s w :=
    wp_restrict (fun _ _ => trivial) (safe_restore h.inv)
  refine wp_mono (wp_and hs (Display.wp_restore h.staging hf h.recoverable)) ?_
  rintro result s' w' ⟨hi, rfl, rfl, hr, he, hc⟩
  have hm := (committed_of_rest hr).trans h.committed
  refine ⟨rfl, rfl, ?_, he, hm⟩
  have hn : s'.overlayPlane.repairCount = 0 :=
    (congrArg (·.overlayPlane.repairCount) hr).trans h.repair
  exact {
    inv     := hi
    staging := h.staging.of_rest hr
    stream  := (congrArg State.pixelStreamActive hr).trans h.stream
    clip    := (congrArg (·.stage.clip) hr).trans h.clip
    counted := hc
    built   := he ▸ hf
    inside  := he ▸ hd
    covered := by
      rw [hm, he]
      exact fun r hr => ⟨r, hr, .refl (hf.damage.nonempty r hr)⟩
    repair  := by
      rw [hn, List.take_zero]
      exact fun _ => nofun
    camera  := h.camera }

end Begin
end Display
