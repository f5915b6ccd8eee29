import HackyLens.Display.Adapter
import HackyLens.Lib.Run
import HackyLens.Lib.Wp

-- The workspace is held while anything refers to it, so that no pointer is followed that leads
-- nowhere.

namespace Display

open App (Result)
open Prog

-- The pointers lead into the workspace that is lent.
structure State.Bound (s : State) : Prop where
  workspaceBorrow : s.workspaceBorrow = s.workspace
  stageCommands : s.stage.commands = .stage s.workspace
  stageText : s.stage.text = .stage s.workspace
  stageDirty : s.stage.dirty = .stage s.workspace
  overlayCommands : s.overlay.commands = .overlay s.workspace
  overlayText : s.overlay.text = .overlay s.workspace
  overlayDirty : s.overlay.dirty = .overlay s.workspace
  repair : s.overlayPlane.repair = .overlayRepair s.workspace

-- Something refers to the workspace.
def State.Refers (s : State) : Prop :=
  s.stage.kind ≠ .none ∨ s.overlay.commandCount ≠ 0 ∨ s.overlay.textBytes ≠ 0 ∨
    s.overlay.dirtyCount ≠ 0 ∨ s.overlayPlane.repairCount ≠ 0

-- The session's batch is for the overlay, and it has damage or text, but no commands.
def State.Blank (s : State) (session : Nat) : Prop :=
  s.findPlane session = some .overlay ∧ s.staged session = true ∧ s.stage.commandCount = 0 ∧
    (s.stage.dirtyCount ≠ 0 ∨ s.stage.textBytes ≠ 0)

structure Inv (s : State) (w : World) : Prop where
  bound : s.workspace ≠ 0 → s.Bound
  unbound : s.workspace = 0 → s.workspaceBorrow = 0
  held : s.stage.kind ≠ .none ∨ s.overlay.commandCount ≠ 0 ∨ s.overlayPlane.repairCount ≠ 0 →
    s.workspace ≠ 0
  overlay : s.overlay.commandCount = 0 → s.overlay.textBytes = 0 ∧ s.overlay.dirtyCount = 0
  base : s.base.active = true → s.base.repair = .baseRepair
  repair : s.base.repairCount ≠ 0 → s.base.active = true
  surface : s.surface.active = true → s.base.active = true ∧ s.base.session = s.surface.session
  lent : s.workspace ≠ 0 →
    w.pool.activeGeneration = s.workspace ∧ w.pool.elsewhere ≠ s.workspace
  tokens : w.pool.elsewhere ≤ w.pool.generation

-- All calls are allowed, and no pointer may be followed that leads nowhere.
def env : Env Call Call.Reply World Decision where
  handler  := handler
  admits _ := True
  call _ _ := True
  hung _   := False

-- What happened has nothing to do with who owns the workspace.
structure Quiet (s : State) (w : World) (s' : State) (w' : World) : Prop where
  base : s'.base = s.base
  overlayPlane : s'.overlayPlane = s.overlayPlane
  stage : s'.stage = s.stage
  surface : s'.surface = s.surface
  overlay : s'.overlay = s.overlay
  workspaceBorrow : s'.workspaceBorrow = s.workspaceBorrow
  workspace : s'.workspace = s.workspace
  pool : w'.pool = w.pool

variable {board : Board} {s s' s'' : State} {w w' w'' : World} {session : Nat}
variable {deadline : UInt64} {cancel : Nat} {α : Type}

theorem Quiet.refl : Quiet s w s w :=
  ⟨rfl, rfl, rfl, rfl, rfl, rfl, rfl, rfl⟩

theorem Quiet.trans (h₁ : Quiet s w s' w') (h₂ : Quiet s' w' s'' w'') : Quiet s w s'' w'' where
  base            := h₂.base.trans h₁.base
  overlayPlane    := h₂.overlayPlane.trans h₁.overlayPlane
  stage           := h₂.stage.trans h₁.stage
  surface         := h₂.surface.trans h₁.surface
  overlay         := h₂.overlay.trans h₁.overlay
  workspaceBorrow := h₂.workspaceBorrow.trans h₁.workspaceBorrow
  workspace       := h₂.workspace.trans h₁.workspace
  pool            := h₂.pool.trans h₁.pool

theorem Quiet.bound (h : Quiet s w s' w') (hb : s.Bound) : s'.Bound where
  workspaceBorrow := by rw [h.workspaceBorrow, h.workspace, hb.workspaceBorrow]
  stageCommands   := by rw [h.stage, h.workspace, hb.stageCommands]
  stageText       := by rw [h.stage, h.workspace, hb.stageText]
  stageDirty      := by rw [h.stage, h.workspace, hb.stageDirty]
  overlayCommands := by rw [h.overlay, h.workspace, hb.overlayCommands]
  overlayText     := by rw [h.overlay, h.workspace, hb.overlayText]
  overlayDirty    := by rw [h.overlay, h.workspace, hb.overlayDirty]
  repair          := by rw [h.overlayPlane, h.workspace, hb.repair]

theorem Inv.quiet (hi : Inv s w) (h : Quiet s w s' w') : Inv s' w' where
  bound hn   := h.bound (hi.bound (h.workspace ▸ hn))
  unbound hn := h.workspaceBorrow.trans (hi.unbound (h.workspace ▸ hn))
  held       := by
    rw [h.stage, h.overlay, h.overlayPlane, h.workspace]
    exact hi.held
  overlay    := h.overlay ▸ hi.overlay
  base       := h.base ▸ hi.base
  repair     := h.base ▸ hi.repair
  surface    := by
    rw [h.surface, h.base]
    exact hi.surface
  lent       := by
    rw [h.workspace, h.pool]
    exact hi.lent
  tokens     := h.pool ▸ hi.tokens

section Transport

-- The calls of the transport, and the questions to the caller and to the clock.
def Call.Quiet : Call → Prop
  | probe _ | timeUs | now | window _ | txBegin | txWrite _ | txEnd | txAbort => True
  | _ => False

theorem wp_ask {c : Call} {Q : c.Reply → State → World → Prop} (hc : c.Quiet)
    (hq : ∀ r w', w'.pool = w.pool → Q r s w') : wp env (ask c) Q s w := by
  rw [ask, wp_call]
  refine ⟨trivial, fun d _ => hq _ _ ?_⟩
  cases c
  case window =>
    simp only [env, handler]
    split <;> rfl
  case probe | timeUs | now | txBegin | txWrite | txEnd | txAbort => rfl
  all_goals exact hc.elim

-- A program that leaves everything alone that matters for the workspace.
def Keeps (p : Task α) (s : State) (w : World) : Prop :=
  wp env p (fun _ s' w' => Quiet s w s' w') s w

theorem Keeps.pure {a : α} : Keeps (pure a) s w :=
  Quiet.refl

theorem Keeps.seq {β : Type} {p : Task α} {f : α → Task β} (hp : Keeps p s w)
    (hf : ∀ a s' w', Quiet s w s' w' → Keeps (f a) s' w') : Keeps (p >>= f) s w := by
  refine wp_seq hp fun a s' w' hq => ?_
  exact wp_mono (hf a s' w' hq) fun _ _ _ => hq.trans

theorem Keeps.ask {c : Call} (hc : c.Quiet) : Keeps (ask c) s w :=
  wp_ask hc fun _ _ hp => ⟨rfl, rfl, rfl, rfl, rfl, rfl, rfl, hp⟩

theorem Keeps.get {f : State → Task α} (hf : Keeps (f s) s w) : Keeps (get >>= f) s w :=
  hf

theorem Keeps.ite {b : Prop} [Decidable b] {p q : Task α} (hp : b → Keeps p s w)
    (hq : ¬b → Keeps q s w) : Keeps (if b then p else q) s w := by
  split
  case isTrue hb  => exact hp hb
  case isFalse hb => exact hq hb

theorem Keeps.onlyIf {b : Prop} [Decidable b] {p : Task Unit} (hp : b → Keeps p s w) :
    Keeps (onlyIf b p) s w :=
  .ite hp fun _ => .pure

theorem Keeps.stream {active : Bool} : Keeps (setStream active) s w :=
  ⟨rfl, rfl, rfl, rfl, rfl, rfl, rfl, rfl⟩

theorem keeps_cancelRequested : Keeps (cancelRequested cancel) s w :=
  .ite (fun _ => .pure) fun _ => .ask (c := .probe cancel) trivial

theorem keeps_terminalResult : Keeps (terminalResult deadline cancel) s w := by
  refine .seq keeps_cancelRequested fun cancelled s₁ w₁ _ => ?_
  refine .ite (fun _ => .pure) fun _ => .ite (fun _ => .pure) fun _ => ?_
  exact .seq (.ask (c := .timeUs) trivial) fun _ _ _ _ => .pure

theorem keeps_transferFailure : Keeps (transferFailure deadline) s w :=
  .ite (fun _ => .pure) fun _ => .seq (.ask trivial) fun _ _ _ _ => .pure

theorem keeps_transportAbort : Keeps transportAbort s w :=
  .get <| .ite (fun _ => .seq (.ask trivial) fun _ _ _ _ => .stream) fun _ => .pure

theorem keeps_transportBegin {rect : Rect} : Keeps (transportBegin board rect deadline) s w := by
  refine .seq keeps_terminalResult fun result s₁ w₁ _ => .ite (fun _ => .pure) fun _ => ?_
  refine .get <| .ite (fun _ => .pure) fun _ => .ite (fun _ => .pure) fun _ => ?_
  refine .seq (.ask (c := .window rect) trivial) fun selected s₂ w₂ _ => ?_
  refine .ite (fun _ => keeps_transferFailure) fun _ => ?_
  refine .seq (.ask (c := .txBegin) trivial) fun begun s₃ w₃ _ => ?_
  refine .ite (fun _ => keeps_transferFailure) fun _ => ?_
  exact .seq .stream fun _ _ _ _ => .pure

theorem keeps_transportWrite {pixels : List UInt16} :
    Keeps (transportWrite pixels deadline cancel) s w := by
  refine .seq keeps_terminalResult fun result s₁ w₁ _ => .ite (fun _ => ?_) fun _ => ?_
  · exact .seq keeps_transportAbort fun _ _ _ _ => .pure
  refine .get <| .ite (fun _ => .pure) fun _ => .ite (fun _ => .pure) fun _ => ?_
  refine .seq (.ask (c := .txWrite pixels) trivial) fun written s₂ w₂ _ => ?_
  refine .ite (fun _ => ?_) fun _ => keeps_terminalResult
  exact .seq keeps_transportAbort fun _ _ _ _ => keeps_transferFailure

theorem keeps_transportEnd : Keeps (transportEnd deadline cancel) s w := by
  refine .seq keeps_terminalResult fun result s₁ w₁ _ => .get <| .ite (fun _ => .pure) fun _ => ?_
  refine .ite (fun _ => .seq keeps_transportAbort fun _ _ _ _ => .pure) fun _ => ?_
  refine .seq (.ask (c := .txEnd) trivial) fun ended s₂ w₂ _ => .seq .stream fun _ s₃ w₃ _ => ?_
  exact .ite (fun _ => keeps_transferFailure) fun _ => keeps_terminalResult

end Transport

section Transfer

-- The pointers of a layer can be followed, unless there is no command.
def Layer.Valid (s : State) (layer : Layer) : Prop :=
  layer.commandCount ≠ 0 →
    (s.commandsAt layer.commands).isSome = true ∧ (s.textAt layer.text).isSome = true

variable {base overlay : Option Layer} {layer : Layer} {span : Span} {pixels : Row}

theorem Quiet.holds (h : Quiet s w s' w') {generation : UInt32} :
    s'.holds generation = s.holds generation := by
  simp [State.holds, h.workspaceBorrow]

theorem Quiet.commandsAt (h : Quiet s w s' w') {p : Pointer} :
    (s'.commandsAt p).isSome = (s.commandsAt p).isSome := by
  cases p <;> simp only [State.commandsAt, h.holds] <;> split <;> rfl

theorem Quiet.textAt (h : Quiet s w s' w') {p : Pointer} :
    (s'.textAt p).isSome = (s.textAt p).isSome := by
  cases p <;> simp only [State.textAt, h.holds] <;> split <;> rfl

theorem Layer.Valid.quiet (hv : layer.Valid s) (h : Quiet s w s' w') : layer.Valid s' := by
  intro hn
  rw [h.commandsAt, h.textAt]
  exact hv hn

theorem Keeps.follow {β : Type} {a : Option β} {f : β → Task α} (ha : a.isSome = true)
    (hf : ∀ b, a = some b → Keeps (f b) s w) : Keeps (follow a >>= f) s w := by
  cases a
  case none   => cases ha
  case some b => exact hf b rfl

theorem keeps_renderLayer (hv : ∀ l ∈ base, l.Valid s) :
    Keeps (renderLayer board span base pixels) s w := by
  cases base with
  | none       => exact .pure
  | some layer =>
    refine .ite (fun _ => .pure) fun hn => .get ?_
    have hv := hv layer rfl hn
    exact .follow hv.left fun commands _ => .follow hv.right fun text _ => .pure

theorem keeps_renderSpan (hb : ∀ l ∈ base, l.Valid s) (ho : ∀ l ∈ overlay, l.Valid s) :
    Keeps (renderSpan board span base overlay) s w :=
  .get <| .seq (keeps_renderLayer hb) fun _ _ _ hq =>
    keeps_renderLayer fun l hl => (ho l hl).quiet hq

theorem keeps_transferSpans {spans : List Span} {progress : Bool} (hb : ∀ l ∈ base, l.Valid s)
    (ho : ∀ l ∈ overlay, l.Valid s) :
    Keeps (transferSpans board base overlay deadline cancel spans progress) s w := by
  induction spans generalizing s w progress with
  | nil => exact .pure
  | cons span spans ih =>
    refine .seq keeps_terminalResult fun result s₁ w₁ h₁ => .ite (fun _ => ?_) fun _ => ?_
    · exact .seq keeps_transportAbort fun _ _ _ _ => .pure
    refine .seq (keeps_renderSpan (fun l hl => (hb l hl).quiet h₁) fun l hl => (ho l hl).quiet h₁)
      fun row s₂ w₂ h₂ => ?_
    refine .seq keeps_transportWrite fun result s₃ w₃ h₃ => .ite (fun _ => ?_) fun _ => ?_
    · exact .seq keeps_transportAbort fun _ _ _ _ => .pure
    · have h := (h₁.trans h₂).trans h₃
      exact ih (fun l hl => (hb l hl).quiet h) fun l hl => (ho l hl).quiet h

theorem keeps_transferRect {rect : Rect} {progress : Bool} (hb : ∀ l ∈ base, l.Valid s)
    (ho : ∀ l ∈ overlay, l.Valid s) :
    Keeps (transferRect board rect base overlay deadline cancel progress) s w := by
  refine .seq keeps_terminalResult fun result s₁ w₁ h₁ => .ite (fun _ => .pure) fun _ => ?_
  refine .seq keeps_transportBegin fun result s₂ w₂ h₂ => .ite (fun _ => .pure) fun _ => ?_
  have h := h₁.trans h₂
  refine .seq (keeps_transferSpans (fun l hl => (hb l hl).quiet h) fun l hl => (ho l hl).quiet h)
    fun sent s₃ w₃ h₃ => .ite (fun _ => .pure) fun _ => ?_
  refine .seq keeps_transportEnd fun result s₄ w₄ h₄ => ?_
  exact .seq (.onlyIf fun _ => keeps_transportAbort) fun _ _ _ _ => .pure

theorem keeps_transferRegions {regions : List Rect} {progress : Bool}
    (hb : ∀ l ∈ base, l.Valid s) (ho : ∀ l ∈ overlay, l.Valid s) :
    Keeps (transferRegions board base overlay deadline cancel regions progress) s w := by
  induction regions generalizing s w progress with
  | nil => exact .pure
  | cons region regions ih =>
    refine .seq (keeps_transferRect hb ho) fun sent s₁ w₁ h => .ite (fun _ => .pure) fun _ => ?_
    exact ih (fun l hl => (hb l hl).quiet h) fun l hl => (ho l hl).quiet h

end Transfer

section Memory

variable {p : Pointer}

theorem Quiet.rectsAt (h : Quiet s w s' w') : (s'.rectsAt p).isSome = (s.rectsAt p).isSome := by
  cases p
  case baseRepair => rfl
  all_goals simp only [State.rectsAt, h.holds] <;> split <;> rfl

-- Whatever is written to the workspace, it stays whose it is.
theorem keeps_setRects {rects : List Rect} (hp : (s.rectsAt p).isSome = true) :
    Keeps (setRects p rects) s w := by
  refine .get <| .follow hp fun _ _ => ?_
  cases p <;> exact ⟨rfl, rfl, rfl, rfl, rfl, rfl, rfl, rfl⟩

theorem keeps_setCommands {commands : Nat → Command} (hp : (s.commandsAt p).isSome = true) :
    Keeps (setCommands p commands) s w := by
  refine .get <| .follow hp fun _ _ => ?_
  cases p <;> exact ⟨rfl, rfl, rfl, rfl, rfl, rfl, rfl, rfl⟩

theorem keeps_setText {text : Memory} (hp : (s.textAt p).isSome = true) :
    Keeps (setText p text) s w := by
  refine .get <| .follow hp fun _ _ => ?_
  cases p <;> exact ⟨rfl, rfl, rfl, rfl, rfl, rfl, rfl, rfl⟩

theorem keeps_readRects {count : Nat} (hp : count ≠ 0 → (s.rectsAt p).isSome = true) :
    Keeps (readRects p count) s w :=
  .ite (fun _ => .pure) fun hn => .get <| .follow (hp hn) fun _ _ => .pure

-- The pointers of a workspace that is lent can be followed.
structure State.Follows (s : State) : Prop where
  stageCommands : (s.commandsAt s.stage.commands).isSome = true
  stageText : (s.textAt s.stage.text).isSome = true
  stageDirty : (s.rectsAt s.stage.dirty).isSome = true
  overlayCommands : (s.commandsAt s.overlay.commands).isSome = true
  overlayText : (s.textAt s.overlay.text).isSome = true
  overlayDirty : (s.rectsAt s.overlay.dirty).isSome = true
  repair : (s.rectsAt s.overlayPlane.repair).isSome = true

theorem Inv.follows (h : Inv s w) (hn : s.workspace ≠ 0) : s.Follows := by
  have hb := h.bound hn
  have hh : s.holds s.workspace = true := by simp [State.holds, hb.workspaceBorrow, hn]
  constructor
  · simp [hb.stageCommands, State.commandsAt, hh]
  · simp [hb.stageText, State.textAt, hh]
  · simp [hb.stageDirty, State.rectsAt, hh]
  · simp [hb.overlayCommands, State.commandsAt, hh]
  · simp [hb.overlayText, State.textAt, hh]
  · simp [hb.overlayDirty, State.rectsAt, hh]
  · simp [hb.repair, State.rectsAt, hh]

end Memory

section Safe

-- A program that follows no pointer in vain, and that leaves the workspace to those who refer to
-- it.
def Safe (p : Task α) (s : State) (w : World) : Prop :=
  wp env p (fun _ s' w' => Inv s' w') s w

theorem Safe.pure {a : α} (h : Inv s w) : Safe (pure a) s w :=
  h

theorem Keeps.safe {p : Task α} (hp : Keeps p s w) (h : Inv s w) : Safe p s w :=
  wp_mono hp fun _ _ _ => h.quiet

theorem Safe.seq {β : Type} {p : Task α} {f : α → Task β} (hp : Safe p s w)
    (hf : ∀ a s' w', Inv s' w' → Safe (f a) s' w') : Safe (p >>= f) s w :=
  wp_seq hp hf

theorem Safe.after {β : Type} {p : Task α} {f : α → Task β} (hp : Keeps p s w) (h : Inv s w)
    (hf : ∀ a s' w', Inv s' w' → Quiet s w s' w' → Safe (f a) s' w') : Safe (p >>= f) s w :=
  wp_seq hp fun a s' w' hq => hf a s' w' (h.quiet hq) hq

theorem Safe.get {f : State → Task α} (hf : Safe (f s) s w) : Safe (get >>= f) s w :=
  hf

theorem Safe.ite {b : Prop} [Decidable b] {p q : Task α} (hp : b → Safe p s w)
    (hq : ¬b → Safe q s w) : Safe (if b then p else q) s w := by
  split
  case isTrue hb  => exact hp hb
  case isFalse hb => exact hq hb

theorem Safe.onlyIf {b : Prop} [Decidable b] {p : Task Unit} (h : Inv s w)
    (hp : b → Safe p s w) : Safe (onlyIf b p) s w :=
  .ite hp fun _ => h

theorem Safe.follow {β : Type} {a : Option β} {f : β → Task α} (ha : a.isSome = true)
    (hf : ∀ b, a = some b → Safe (f b) s w) : Safe (follow a >>= f) s w := by
  cases a
  case none   => cases ha
  case some b => exact hf b rfl

-- What is staged may change, as long as the pointers stay and the workspace is there.
theorem Inv.staged {stage : Stage} (h : Inv s w) (hc : stage.commands = s.stage.commands)
    (ht : stage.text = s.stage.text) (hd : stage.dirty = s.stage.dirty)
    (hk : stage.kind ≠ .none → s.workspace ≠ 0) : Inv { s with stage } w where
  bound hn :=
    have hb := h.bound hn
    ⟨hb.1, hc.trans hb.2, ht.trans hb.3, hd.trans hb.4, hb.5, hb.6, hb.7, hb.8⟩
  unbound := h.unbound
  held hn := by
    obtain hn | hn := hn
    · exact hk hn
    · exact h.held (.inr hn)
  overlay := h.overlay
  base    := h.base
  repair  := h.repair
  surface := h.surface
  lent    := h.lent
  tokens  := h.tokens

theorem safe_stageReset (h : Inv s w) : Safe (stageReset board) s w :=
  h.staged rfl rfl rfl fun hn => absurd rfl hn

theorem Inv.surfaced {surface : Surface} (h : Inv s w) (hs : surface.active = true →
    s.base.active = true ∧ s.base.session = surface.session) : Inv { s with surface } w where
  bound hn :=
    have hb := h.bound hn
    ⟨hb.1, hb.2, hb.3, hb.4, hb.5, hb.6, hb.7, hb.8⟩
  unbound := h.unbound
  held    := h.held
  overlay := h.overlay
  base    := h.base
  repair  := h.repair
  surface := hs
  lent    := h.lent
  tokens  := h.tokens

theorem safe_surfaceReset (h : Inv s w) : Safe surfaceReset s w :=
  h.surfaced fun hn => by cases hn

theorem Pool.release_tokens {pool : Pool} {generation : UInt32} :
    (pool.release generation).elsewhere = pool.elsewhere ∧
      (pool.release generation).generation = pool.generation := by
  unfold Pool.release
  split <;> exact ⟨rfl, rfl⟩

theorem wp_workspaceReleaseIfIdle (h : Inv s w) :
    wp env workspaceReleaseIfIdle (fun _ s' w' =>
      Inv s' w' ∧ s'.base = s.base ∧ s'.surface = s.surface) s w := by
  unfold workspaceReleaseIfIdle
  rw [wp_bind, wp_get]
  beta_reduce
  rw [wp_ite]
  split
  case isTrue => exact ⟨h, rfl, rfl⟩
  rename_i hn
  simp only [not_or, not_not] at hn
  obtain ⟨hw, hk, hc, hr⟩ := hn
  refine ⟨trivial, fun d _ => ⟨?_, rfl, rfl⟩⟩
  have ht := @Pool.release_tokens w.pool s.workspaceBorrow
  exact {
    bound hn   := absurd rfl hn
    unbound _  := rfl
    held hn    := by
      obtain hn | hn | hn := hn
      · exact absurd hk hn
      · exact absurd hc hn
      · exact absurd hr hn
    overlay    := h.overlay
    base       := h.base
    repair     := h.repair
    surface    := h.surface
    lent hn    := absurd rfl hn
    tokens     := by
      show (w.pool.release s.workspaceBorrow).elsewhere ≤ _
      rw [ht.left]
      exact ht.right ▸ h.tokens }

theorem safe_workspaceReleaseIfIdle (h : Inv s w) : Safe workspaceReleaseIfIdle s w :=
  wp_mono (wp_workspaceReleaseIfIdle h) fun _ _ _ h => h.left

theorem Pool.borrow_some {pool : Pool} {generation : UInt32} (h : pool.borrow = some generation)
    (ht : pool.elsewhere ≤ pool.generation) :
    generation ≠ 0 ∧ pool.borrowed.activeGeneration = generation ∧
      pool.borrowed.elsewhere ≠ generation ∧
      pool.borrowed.elsewhere ≤ pool.borrowed.generation := by
  have hb : pool.borrowed = { pool with generation, activeGeneration := generation } := by
    rw [Pool.borrowed, h]
  rw [hb]
  unfold Pool.borrow at h
  split at h
  case isTrue     => cases h
  case isFalse hn =>
    cases h
    have hg : pool.generation ≠ 0xFFFFFFFF := fun hg => hn (.inr (.inr hg))
    have hs : pool.elsewhere ≠ pool.generation + 1 ∧ pool.elsewhere ≤ pool.generation + 1 ∧
        pool.generation + 1 ≠ 0 := by grind
    exact ⟨hs.right.right, rfl, hs.left, hs.right.left⟩

theorem Pool.borrow_none {pool : Pool} (h : pool.borrow = none) : pool.borrowed = pool := by
  rw [Pool.borrowed, h]

theorem safe_workspaceAcquire (h : Inv s w) :
    wp env workspaceAcquire (fun acquired s' w' => Inv s' w' ∧
      (acquired = true → s'.workspace ≠ 0) ∧ s'.stage.kind = s.stage.kind) s w := by
  unfold workspaceAcquire
  rw [wp_bind, wp_get]
  beta_reduce
  rw [wp_ite]
  split
  case isTrue hn => exact ⟨h, fun _ => hn, rfl⟩
  rename_i hn
  have hn : s.workspace = 0 := not_not.mp hn
  refine ⟨trivial, fun d _ => ?_⟩
  have hr : (handler d .borrow w).fst = w.pool.borrow := rfl
  rw [show env.handler = handler from rfl, hr]
  cases hb : w.pool.borrow with
  | none =>
    refine ⟨h.quiet ⟨rfl, rfl, rfl, rfl, rfl, rfl, rfl, Pool.borrow_none hb⟩, ?_, rfl⟩
    exact fun hn => absurd hn Bool.false_ne_true
  | some generation =>
    obtain ⟨hg, ha, he, ht⟩ := Pool.borrow_some hb h.tokens
    have hu : s.stage.kind = .none ∧ s.overlay.commandCount = 0 ∧
        s.overlayPlane.repairCount = 0 := by
      have hf := mt h.held (not_not.mpr hn)
      simpa only [not_or, not_not] using hf
    refine ⟨?_, fun _ => hg, rfl⟩
    exact {
      bound _    := ⟨rfl, rfl, rfl, rfl, rfl, rfl, rfl, rfl⟩
      unbound hz := absurd hz hg
      held _     := hg
      overlay    := h.overlay
      base       := h.base
      repair     := h.repair
      surface    := h.surface
      lent _     := ⟨ha, he⟩
      tokens     := ht }

end Safe

section Calls

theorem safe_open {plane : Option PlaneKind} (h : Inv s w) : Safe («open» session plane) s w := by
  cases plane with
  | none      => exact h
  | some kind =>
    refine .get <| .ite (fun _ => h) fun _ => .ite (fun _ => h) fun hn => ?_
    cases kind with
    | base =>
      exact {
        bound hn   :=
          have hb := h.bound hn
          ⟨hb.1, hb.2, hb.3, hb.4, hb.5, hb.6, hb.7, hb.8⟩
        unbound    := h.unbound
        held       := h.held
        overlay    := h.overlay
        base _     := rfl
        repair _   := rfl
        surface hs := absurd (h.surface hs).left hn
        lent       := h.lent
        tokens     := h.tokens }
    | overlay =>
      exact {
        bound hn   :=
          have hb := h.bound hn
          ⟨hb.1, hb.2, hb.3, hb.4, hb.5, hb.6, hb.7, if_pos hn⟩
        unbound    := h.unbound
        held hn    := by
          obtain hn | hn | hn := hn
          · exact h.held (.inl hn)
          · exact h.held (.inr (.inl hn))
          · exact absurd rfl hn
        overlay    := h.overlay
        base       := h.base
        repair     := h.repair
        surface    := h.surface
        lent       := h.lent
        tokens     := h.tokens }

theorem safe_begin (h : Inv s w) : Safe (begin board session) s w := by
  refine .get <| .ite (fun _ => h) fun _ => .ite (fun _ => h) fun _ => .ite (fun _ => h) fun _ => ?_
  refine wp_seq (safe_workspaceAcquire h) ?_
  rintro acquired s₁ w₁ ⟨h, ha, -⟩
  refine Safe.ite (fun _ => h) fun ht => ?_
  have hn : s₁.workspace ≠ 0 := ha (by simpa using ht)
  have hr : Inv { s₁ with stage := _ } w₁ := @safe_stageReset board _ _ h
  exact hr.staged rfl rfl rfl fun _ => hn

-- A stage that is found belongs to the session, and so the workspace is there.
theorem safe_stageFor {f : Result → Task α} (h : Inv s w)
    (hf : ∀ r, (r = .ok → s.staged session = true ∧ s.workspace ≠ 0) → Safe (f r) s w) :
    Safe (stageFor session >>= f) s w := by
  have refused {r : Result} (hr : r ≠ .ok) : Safe (f r) s w := hf r fun hn => absurd hn hr
  rw [stageFor, bind_assoc]
  refine .get ?_
  split
  case isTrue => exact refused (by decide)
  split
  case isTrue     => exact refused (by decide)
  case isFalse hs =>
    replace hs := not_not.mp hs
    refine hf .ok fun _ => ⟨hs, h.held (.inl ?_)⟩
    simp only [State.staged, Bool.and_eq_true, bne_iff_ne] at hs
    exact hs.left.left

theorem safe_clip {rect : Option Rect} (h : Inv s w) : Safe (clip board session rect) s w := by
  refine safe_stageFor h fun r hr => .ite (fun _ => h) fun hn => ?_
  have hw := (hr (not_not.mp hn)).right
  cases rect with
  | none      => exact h.staged rfl rfl rfl fun _ => hw
  | some rect => exact .ite (fun _ => h) fun _ => h.staged rfl rfl rfl fun _ => hw

theorem safe_modifyStage {f : Stage → Stage} (h : Inv s w)
    (hc : (f s.stage).commands = s.stage.commands) (ht : (f s.stage).text = s.stage.text)
    (hd : (f s.stage).dirty = s.stage.dirty) (hk : (f s.stage).kind = s.stage.kind) :
    Safe (modifyStage f) s w :=
  h.staged hc ht hd fun hn => h.held (.inl (hk ▸ hn))

theorem safe_appendCommand {command : Command} {text : List UInt8} {borrow : Option Borrow}
    (h : Inv s w) : Safe (appendCommand session command text borrow) s w := by
  refine safe_stageFor h fun r hr => .ite (fun _ => h) fun hn => .ite (fun _ => h) fun _ => ?_
  have hw := (hr (not_not.mp hn)).right
  have hf := h.follows hw
  refine .get <| .ite (fun _ => h) fun _ => .get <| .follow hf.stageDirty fun rects _ => ?_
  split
  case h_1 => exact h
  case h_2 dirty _ =>
    have keeps : Keeps (onlyIf (text ≠ []) do
        let old ← follow (s.textAt s.stage.text)
        setText s.stage.text (old.overlay s.stage.textBytes text.length fun a =>
          text.getD (a - s.stage.textBytes) 0)) s w :=
      .onlyIf fun _ => .follow hf.stageText fun _ _ => keeps_setText hf.stageText
    refine .after keeps h fun _ s₁ w₁ h₁ q₁ => .follow hf.stageCommands fun commands _ => ?_
    refine .after (keeps_setCommands ?_) h₁ fun _ s₂ w₂ h₂ q₂ => ?_
    · rw [q₁.commandsAt]
      exact hf.stageCommands
    refine .after (keeps_setRects ?_) h₂ fun _ s₃ w₃ h₃ q₃ => ?_
    · rw [q₂.rectsAt, q₁.rectsAt]
      exact hf.stageDirty
    exact .seq (safe_modifyStage h₃ rfl rfl rfl rfl) fun _ _ _ h => h

theorem safe_clippedCommand {rect : Rect} {type : CommandType} {color : UInt16}
    {text : List UInt8} (h : Inv s w) :
    Safe (clippedCommand session rect type color text) s w := by
  refine safe_stageFor h fun r _ => .ite (fun _ => h) fun _ => .ite (fun _ => h) fun _ => ?_
  exact .get <| safe_appendCommand h

theorem safe_clear {color : UInt16} (h : Inv s w) : Safe (clear session color) s w :=
  safe_stageFor h fun _ _ => .ite (fun _ => h) fun _ => .get <| safe_appendCommand h

theorem safe_text {bounds : Rect} {utf8 : Option (List UInt8)} {color : UInt16} (h : Inv s w) :
    Safe (text session bounds utf8 color) s w := by
  cases utf8 with
  | none      => exact h
  | some utf8 => exact .ite (fun _ => h) fun _ => safe_clippedCommand h

theorem safe_blit {destination : Option Rect} {pixels : Option View} {rgb565 : Bool}
    (h : Inv s w) : Safe (blit session destination pixels rgb565) s w := by
  unfold blit
  split
  case h_2 => exact h
  case h_1 =>
    refine .ite (fun _ => h) fun _ => safe_stageFor h fun r _ => .ite (fun _ => h) fun _ => ?_
    exact .get <| .ite (fun _ => h) fun _ => .ite (fun _ => h) fun _ => safe_appendCommand h

theorem safe_mark {rect : Option Rect} (h : Inv s w) : Safe (mark board session rect) s w := by
  refine .get <| .ite (fun _ => h) fun _ => .ite (fun _ => h) fun hn => ?_
  cases rect with
  | none      => exact h
  | some rect =>
    refine .ite (fun _ => h) fun _ => .ite (fun hs => ?_) fun hs => ?_
    · have hk : s.stage.kind ≠ .none := by
        simp only [State.staged, Bool.and_eq_true, bne_iff_ne] at hs
        exact hs.left.left
      have hf := h.follows (h.held (.inl hk))
      refine .follow hf.stageDirty fun rects _ => ?_
      split
      case h_1 => exact h
      case h_2 dirty _ =>
        refine .after (keeps_setRects hf.stageDirty) h fun _ s₁ w₁ h₁ _ => ?_
        exact .seq (safe_modifyStage h₁ rfl rfl rfl rfl) fun _ _ _ h => h
    · split
      case h_1 => exact h
      case h_2 dirty _ => exact h.surfaced h.surface

theorem State.findPlane_base (h : s.findPlane session = some .base) :
    s.base.active = true ∧ s.base.session = session := by
  unfold State.findPlane at h
  split at h
  case isTrue => cases h
  split at h
  case isTrue hb => exact hb
  split at h <;> cases h

theorem safe_surface (h : Inv s w) : Safe (surface session) s w := by
  refine .get ?_
  split
  case h_1 => exact h
  case h_2 => exact h
  case h_3 hf =>
    refine .ite (fun _ => h) fun _ => .ite (fun _ => h) fun _ => ?_
    exact h.surfaced fun _ => State.findPlane_base hf

theorem safe_checkpoint (h : Inv s w) : Safe (checkpoint session) s w := by
  refine safe_stageFor h fun r _ => .ite (fun _ => h) fun _ => .get ?_
  exact .seq (safe_modifyStage h rfl rfl rfl rfl) fun _ _ _ h => h

-- The workspace is there, and it stays there.
def Stays (p : Task α) (s : State) (w : World) : Prop :=
  wp env p (fun _ s' w' => Inv s' w' ∧ s'.workspace ≠ 0) s w

theorem Stays.seq {β : Type} {p : Task α} {f : α → Task β} (hp : Stays p s w)
    (hf : ∀ a s' w', Inv s' w' → s'.workspace ≠ 0 → Stays (f a) s' w') : Stays (p >>= f) s w :=
  wp_seq hp fun a s' w' h => hf a s' w' h.left h.right

theorem Stays.safe {p : Task α} (hp : Stays p s w) : Safe p s w :=
  wp_mono hp fun _ _ _ h => h.left

theorem Keeps.stays {p : Task α} (hp : Keeps p s w) (h : Inv s w) (hw : s.workspace ≠ 0) :
    Stays p s w :=
  wp_mono hp fun _ _ _ hq => ⟨h.quiet hq, hq.workspace ▸ hw⟩

theorem Stays.onlyIf {b : Prop} [Decidable b] {p : Task Unit} (h : Inv s w)
    (hw : s.workspace ≠ 0) (hp : Stays p s w) : Stays (onlyIf b p) s w := by
  unfold Display.onlyIf
  split
  case isTrue  => exact hp
  case isFalse => exact ⟨h, hw⟩

theorem Stays.get {f : State → Task α} (hf : Stays (f s) s w) : Stays (get >>= f) s w :=
  hf

theorem Stays.follow {β : Type} {a : Option β} {f : β → Task α} (ha : a.isSome = true)
    (hf : ∀ b, Stays (f b) s w) : Stays (follow a >>= f) s w := by
  cases a
  case none   => cases ha
  case some b => exact hf b

theorem stays_modifyStage {f : Stage → Stage} (h : Inv s w) (hw : s.workspace ≠ 0)
    (hc : (f s.stage).commands = s.stage.commands) (ht : (f s.stage).text = s.stage.text)
    (hd : (f s.stage).dirty = s.stage.dirty) : Stays (modifyStage f) s w :=
  ⟨h.staged hc ht hd fun _ => hw, hw⟩

theorem stays_saveFirst (h : Inv s w) (hw : s.workspace ≠ 0) : Stays saveFirst s w :=
  .get <| .follow (h.follows hw).stageCommands fun _ => stays_modifyStage h hw rfl rfl rfl

theorem stays_putFirst {command : Command} (h : Inv s w) (hw : s.workspace ≠ 0) :
    Stays (putFirst command) s w := by
  have hf := (h.follows hw).stageCommands
  exact .get <| .follow hf fun _ => (keeps_setCommands hf).stays h hw

theorem stays_dirtyRebuild (h : Inv s w) (hw : s.workspace ≠ 0) : Stays dirtyRebuild s w := by
  have hf := h.follows hw
  refine .get ?_
  split
  case isTrue  => exact stays_modifyStage h hw rfl rfl rfl
  case isFalse =>
    refine .follow hf.stageCommands fun _ => ?_
    refine .seq ((keeps_setRects hf.stageDirty).stays h hw) fun _ s₁ w₁ h₁ hw₁ => ?_
    exact stays_modifyStage h₁ hw₁ rfl rfl rfl

theorem safe_restore {commands textBytes : Nat} (h : Inv s w) :
    Safe (restore session commands textBytes) s w := by
  refine safe_stageFor h fun r hr => .ite (fun _ => h) fun hn => .ite (fun _ => h) fun _ => ?_
  have hw := (hr (not_not.mp hn)).right
  refine Stays.safe <| .get <| .seq (.onlyIf h hw (stays_saveFirst h hw)) fun _ s₁ w₁ h hw => ?_
  refine .get <| .seq (.onlyIf h hw (stays_putFirst h hw)) fun _ s₂ w₂ h hw => ?_
  refine .seq (stays_modifyStage h hw rfl rfl rfl) fun _ s₃ w₃ h hw => ?_
  exact .seq (stays_dirtyRebuild h hw) fun _ _ _ h hw => ⟨h, hw⟩

theorem safe_keepLastClear (h : Inv s w) : Safe (keepLastClear session) s w := by
  refine safe_stageFor h fun r hr => .ite (fun _ => h) fun hn => .get ?_
  refine .ite (fun _ => h) fun _ => ?_
  have hw := (hr (not_not.mp hn)).right
  refine .follow (h.follows hw).stageCommands fun commands _ => .ite (fun _ => h) fun _ => ?_
  refine Stays.safe <| .seq (.onlyIf h hw (stays_saveFirst h hw)) fun _ s₁ w₁ h hw => ?_
  refine .seq (stays_putFirst h hw) fun _ s₂ w₂ h hw => ?_
  refine .seq (stays_modifyStage h hw rfl rfl rfl) fun _ s₃ w₃ h hw => ?_
  exact .seq (stays_dirtyRebuild h hw) fun _ _ _ h hw => ⟨h, hw⟩

theorem safe_abort (h : Inv s w) : Safe (abort board session) s w := by
  refine .get <| .ite (fun _ => h) fun _ => .ite (fun _ => ?_) fun _ => ?_
  · refine .seq (safe_stageReset h) fun _ s₁ w₁ h => ?_
    exact .seq (safe_workspaceReleaseIfIdle h) fun _ _ _ h => h
  · exact .ite (fun _ => .seq (safe_surfaceReset h) fun _ _ _ h => h) fun _ => h

end Calls

section Present

variable {kind : PlaneKind} {staged : Bool}

-- What a present relies on after its checks.
structure Ready (s : State) (kind : PlaneKind) (staged : Bool) : Prop where
  lent : staged = true → s.workspace ≠ 0
  base : kind = .base → s.base.active = true
  overlay : kind = .overlay → staged = true
  blank : kind = .overlay → s.stage.commandCount = 0 →
    s.stage.textBytes = 0 ∧ s.stage.dirtyCount = 0

theorem Ready.quiet (h : Ready s kind staged) (hq : Quiet s w s' w') : Ready s' kind staged where
  lent ht   := hq.workspace ▸ h.lent ht
  base hb   := hq.base ▸ h.base hb
  overlay   := h.overlay
  blank     := hq.stage ▸ h.blank

theorem State.staged_iff : s.staged session = true ↔
    s.stage.kind ≠ .none ∧ session ≠ 0 ∧ s.stage.session = session := by
  simp [State.staged, and_assoc]

theorem State.surfaced_iff : s.surfaced session = true ↔
    s.surface.active = true ∧ session ≠ 0 ∧ s.surface.session = session := by
  simp [State.surfaced, and_assoc]

theorem Inv.surfaced_base (h : Inv s w) (hu : s.surfaced session = true) :
    s.findPlane session = some .base := by
  obtain ⟨ha, hz, hs⟩ := State.surfaced_iff.mp hu
  have hp := h.surface ha
  rw [State.findPlane, if_neg hz, if_pos ⟨hp.left, hp.right.trans hs⟩]

theorem Inv.ready (h : Inv s w) (hf : s.findPlane session = some kind)
    (hs : ¬(¬s.staged session = true ∧ ¬s.surfaced session = true)) (hb : ¬s.Blank session) :
    Ready s kind (s.staged session) := by
  have staged (hk : kind = .overlay) : s.staged session = true := by
    by_contra ht
    have hu := h.surfaced_base (not_not.mp fun hu => hs ⟨ht, hu⟩)
    rw [hf, hk] at hu
    cases hu
  refine ⟨fun ht => h.held (.inl (State.staged_iff.mp ht).left), ?_, staged, fun hk hc => ?_⟩
  · exact fun hk => (State.findPlane_base (hk ▸ hf)).left
  · by_contra hn
    refine hb ⟨hk ▸ hf, staged hk, hc, ?_⟩
    by_contra hd
    simp only [not_or, not_not] at hd
    exact hn ⟨hd.right, hd.left⟩

theorem Inv.plane_repair (h : Inv s w) (hn : (s.plane kind).repairCount ≠ 0) :
    (s.rectsAt (s.plane kind).repair).isSome = true := by
  cases kind with
  | base    =>
    show (s.rectsAt s.base.repair).isSome = true
    rw [h.base (h.repair hn)]
    rfl
  | overlay => exact (h.follows (h.held (.inr (.inr hn)))).repair

theorem Inv.shown_valid (h : Inv s w) : ∀ l ∈ s.shown, l.Valid s := by
  intro l hl hn
  unfold State.shown at hl
  split at hl
  case isTrue     => cases hl
  case isFalse hc =>
    obtain rfl := Option.mem_some_iff.mp hl
    have hf := h.follows (h.held (.inr (.inl hc)))
    exact ⟨hf.overlayCommands, hf.overlayText⟩

theorem none_valid : ∀ l ∈ (none : Option Layer), l.Valid s :=
  fun _ hl => by cases hl

theorem keeps_repairRegions (h : Inv s w) :
    Keeps (repairRegions board kind deadline cancel) s w := by
  refine .get <| .seq (keeps_readRects h.plane_repair) fun regions s₁ w₁ q => ?_
  exact keeps_transferRegions none_valid fun l hl => (h.shown_valid l hl).quiet q

theorem keeps_ownDamage (h : Inv s w) (hr : Ready s kind staged) : Keeps (ownDamage staged) s w :=
  .get <| .ite (fun ht => keeps_readRects fun _ => (h.follows (hr.lent ht)).stageDirty)
    fun _ => .pure

theorem keeps_oldDamage (h : Inv s w) : Keeps (oldDamage kind) s w := by
  refine .get <| .ite (fun _ => keeps_readRects fun hn => ?_) fun _ => .pure
  by_cases hc : s.overlay.commandCount = 0
  · exact absurd (h.overlay hc).right hn
  · exact (h.follows (h.held (.inr (.inl hc)))).overlayDirty

theorem keeps_affectedRegions (h : Inv s w) (hr : Ready s kind staged) :
    Keeps (affectedRegions kind staged) s w := by
  refine .seq (keeps_ownDamage h hr) fun dirty s₁ w₁ q => ?_
  split
  case h_1 => exact .pure
  case h_2 => exact .seq (keeps_oldDamage (h.quiet q)) fun _ _ _ _ => .pure

-- The layers that a present shows can be rendered.
theorem wp_presentLayers (h : Inv s w) (hr : Ready s kind staged) :
    wp env (presentLayers kind staged) (fun layers s' w' => s' = s ∧ w' = w ∧
      (∀ l ∈ layers.1, l.Valid s) ∧ ∀ l ∈ layers.2, l.Valid s) s w := by
  have stage (ht : staged = true) (borrow : Borrow) : ∀ l ∈ some { s.stage.layer with borrow },
      l.Valid s := by
    intro l hl _
    obtain rfl := Option.mem_some_iff.mp hl
    have hf := h.follows (hr.lent ht)
    exact ⟨hf.stageCommands, hf.stageText⟩
  cases kind with
  | base =>
    cases staged with
    | true  => exact ⟨rfl, rfl, stage rfl _, h.shown_valid⟩
    | false => exact ⟨rfl, rfl, none_valid, h.shown_valid⟩
  | overlay =>
    cases staged with
    | true  => exact ⟨rfl, rfl, none_valid, stage rfl _⟩
    | false => exact absurd (hr.overlay rfl) Bool.false_ne_true

-- What a plane with regions to repair needs.
def State.Repairs (s : State) : PlaneKind → Prop
  | .base    => s.base.active = true
  | .overlay => s.workspace ≠ 0

theorem Inv.withPlane {plane : Plane} (h : Inv s w) (hs : plane.session = (s.plane kind).session)
    (hp : plane.repair = (s.plane kind).repair) (ha : plane.active = (s.plane kind).active)
    (hc : plane.repairCount ≠ 0 → s.Repairs kind) : Inv (s.withPlane kind plane) w := by
  cases kind with
  | base =>
    exact {
      bound hn   :=
        have hb := h.bound hn
        ⟨hb.1, hb.2, hb.3, hb.4, hb.5, hb.6, hb.7, hb.8⟩
      unbound    := h.unbound
      held       := h.held
      overlay    := h.overlay
      base hn    := hp.trans (h.base (ha.symm.trans hn))
      repair hn  := ha.trans (hc hn)
      surface hn := ⟨ha.trans (h.surface hn).left, hs.trans (h.surface hn).right⟩
      lent       := h.lent
      tokens     := h.tokens }
  | overlay =>
    exact {
      bound hn   :=
        have hb := h.bound hn
        ⟨hb.1, hb.2, hb.3, hb.4, hb.5, hb.6, hb.7, hp.trans hb.8⟩
      unbound    := h.unbound
      held hn    := by
        obtain hn | hn | hn := hn
        · exact h.held (.inl hn)
        · exact h.held (.inr (.inl hn))
        · exact hc hn
      overlay    := h.overlay
      base       := h.base
      repair     := h.repair
      surface    := h.surface
      lent       := h.lent
      tokens     := h.tokens }

theorem Ready.repairs (h : Ready s kind staged) : s.Repairs kind := by
  cases kind with
  | base    => exact h.base rfl
  | overlay => exact h.lent (h.overlay rfl)

theorem Ready.plane_repair (hr : Ready s kind staged) (h : Inv s w) :
    (s.rectsAt (s.plane kind).repair).isSome = true := by
  cases kind with
  | base    =>
    show (s.rectsAt s.base.repair).isSome = true
    rw [h.base (hr.base rfl)]
    rfl
  | overlay => exact (h.follows (hr.lent (hr.overlay rfl))).repair

theorem safe_setRepair {regions : List Rect} (h : Inv s w) (hr : Ready s kind staged) :
    Safe (setRepair kind regions) s w := by
  refine .get <| .after (keeps_setRects (hr.plane_repair h)) h fun _ s₁ w₁ h₁ q => ?_
  exact h₁.withPlane rfl rfl rfl fun _ => (hr.quiet q).repairs

theorem safe_nextGeneration (h : Inv s w) : Safe (nextGeneration kind) s w := by
  show Inv (if _ then _ else _) w
  split
  case isFalse => exact h
  case isTrue  =>
    refine h.withPlane rfl rfl rfl fun hn => ?_
    cases kind with
    | base    => exact h.repair hn
    | overlay => exact h.held (.inr (.inr hn))

theorem safe_overlayFromStage (h : Inv s w) (hw : s.workspace ≠ 0)
    (hb : s.stage.commandCount = 0 → s.stage.textBytes = 0 ∧ s.stage.dirtyCount = 0) :
    Safe overlayFromStage s w := by
  have hf := h.follows hw
  refine .get <| .follow hf.stageCommands fun _ _ => .follow hf.stageText fun _ _ => ?_
  refine .follow hf.stageDirty fun _ _ => .follow hf.overlayCommands fun _ _ => ?_
  refine .follow hf.overlayText fun _ _ => ?_
  refine .after (keeps_setCommands hf.overlayCommands) h fun _ s₁ w₁ h₁ q₁ => ?_
  refine .after (keeps_setText ?_) h₁ fun _ s₂ w₂ h₂ q₂ => ?_
  · rw [q₁.textAt]
    exact hf.overlayText
  refine .after (keeps_setRects ?_) h₂ fun _ s₃ w₃ h₃ q₃ => ?_
  · rw [q₂.rectsAt, q₁.rectsAt]
    exact hf.overlayDirty
  have q := (q₁.trans q₂).trans q₃
  have hw₃ : s₃.workspace ≠ 0 := q.workspace ▸ hw
  have hb₃ : s₃.stage.commandCount = 0 → s₃.stage.textBytes = 0 ∧ s₃.stage.dirtyCount = 0 :=
    q.stage ▸ hb
  exact {
    bound hn :=
      have hb := h₃.bound hn
      ⟨hb.1, hb.2, hb.3, hb.4, hb.5, hb.6, hb.7, hb.8⟩
    unbound  := h₃.unbound
    held _   := hw₃
    overlay  := hb₃
    base     := h₃.base
    repair   := h₃.repair
    surface  := h₃.surface
    lent     := h₃.lent
    tokens   := h₃.tokens }

theorem Keeps.forM {β : Type} {l : List β} {f : β → Task PUnit}
    (hf : ∀ b s' w', Quiet s w s' w' → Keeps (f b) s' w') : Keeps (l.forM f) s w := by
  induction l generalizing s w with
  | nil => exact .pure
  | cons b l ih =>
    refine .seq (hf b s w .refl) fun _ s₁ w₁ q => ih fun b s' w' q' => ?_
    exact hf b s' w' (q.trans q')

theorem keeps_shadowApply (h : Inv s w) (hw : s.workspace ≠ 0) :
    Keeps (shadowApply board) s w := by
  have hf := h.follows hw
  have hv : ∀ l ∈ some s.stage.layer, l.Valid s := by
    intro l hl _
    obtain rfl := Option.mem_some_iff.mp hl
    exact ⟨hf.stageCommands, hf.stageText⟩
  refine .get <| .seq (keeps_readRects fun _ => hf.stageDirty) fun dirty s₁ w₁ q₁ => ?_
  refine .forM fun span s₂ w₂ q₂ => ?_
  refine .seq (keeps_renderSpan (fun l hl => (hv l hl).quiet (q₁.trans q₂)) none_valid) ?_
  exact fun _ _ _ _ => ⟨rfl, rfl, rfl, rfl, rfl, rfl, rfl, rfl⟩

theorem safe_commitLayer (h : Inv s w) (hr : Ready s kind staged) :
    Safe (commitLayer board kind staged) s w := by
  refine .ite (fun hk => ?_) fun _ => .ite (fun ht => ?_) fun _ => h
  · exact safe_overlayFromStage h (hr.lent (hr.overlay hk)) (hr.blank hk)
  · exact (keeps_shadowApply h (hr.lent ht)).safe h

theorem safe_presentCommit (h : Inv s w) (hr : Ready s kind staged) :
    Safe (presentCommit board kind staged) s w := by
  refine .seq (safe_commitLayer h hr) fun _ s₁ w₁ h => ?_
  refine .seq (safe_nextGeneration h) fun _ s₂ w₂ h => .ite (fun _ => ?_) fun _ => ?_
  · exact .seq (safe_stageReset h) fun _ _ _ h => safe_workspaceReleaseIfIdle h
  · exact safe_surfaceReset h

theorem safe_presentTransfer {progress : Bool} (h : Inv s w) (hr : Ready s kind staged) :
    Safe (presentTransfer board kind staged deadline cancel progress) s w := by
  refine .after (keeps_affectedRegions h hr) h fun affected s₁ w₁ h q => ?_
  replace hr := hr.quiet q
  cases affected with
  | none => exact h
  | some affected =>
    refine wp_seq (wp_presentLayers h hr) ?_
    rintro layers s₂ w₂ ⟨rfl, rfl, hb, ho⟩
    refine Safe.after (keeps_transferRegions hb ho) h fun sent s₃ w₃ h q => ?_
    replace hr := hr.quiet q
    refine .ite (fun _ => ?_) fun _ => ?_
    · exact .seq (.onlyIf h fun _ => safe_setRepair h hr) fun _ _ _ h => h
    · exact .seq (safe_presentCommit h hr) fun _ _ _ h => h

theorem safe_present (h : Inv s w) (hb : ¬s.Blank session) :
    Safe (present board session deadline cancel) s w := by
  refine .ite (fun _ => h) fun _ => .get ?_
  cases hf : s.findPlane session with
  | none => exact h
  | some kind =>
    refine .ite (fun _ => h) fun hs => ?_
    have hr := h.ready hf hs hb
    refine .after keeps_terminalResult h fun result s₁ w₁ h q₁ => .ite (fun _ => h) fun _ => ?_
    refine .after (keeps_repairRegions h) h fun repaired s₂ w₂ h q₂ => .ite (fun _ => h) fun _ => ?_
    replace hr := hr.quiet (q₁.trans q₂)
    refine wp_seq (P := fun _ s' w' => Inv s' w' ∧ Ready s' kind (s.staged session)) ?_ ?_
    · refine ⟨h.withPlane rfl rfl rfl fun hn => absurd rfl hn, ?_⟩
      cases kind <;> exact ⟨hr.1, hr.2, hr.3, hr.4⟩
    · exact fun _ s₃ w₃ h => safe_presentTransfer h.left h.right

end Present

section Ending

variable {kind : PlaneKind}

theorem wp_stageRelease {b : Prop} [Decidable b] (h : Inv s w) : wp env (onlyIf b do
      stageReset board
      workspaceReleaseIfIdle) (fun _ s' w' =>
    Inv s' w' ∧ s'.base = s.base ∧ s'.surface = s.surface) s w := by
  unfold onlyIf
  split
  case isFalse => exact ⟨h, rfl, rfl⟩
  case isTrue  => exact wp_workspaceReleaseIfIdle (@safe_stageReset board _ _ h)

-- The surface belongs to the base plane, so it ends with the session of that plane.
theorem wp_dropSurface (h : Inv s w) : wp env (dropSurface session) (fun _ s' w' =>
    Inv s' w' ∧ (session ≠ 0 → s.base.session = session → s'.surface.active = false)) s w := by
  unfold dropSurface onlyIf
  rw [wp_bind, wp_get]
  beta_reduce
  split
  case isTrue     => exact ⟨safe_surfaceReset h, fun _ _ => rfl⟩
  case isFalse hn =>
    refine ⟨h, fun hz hs => ?_⟩
    by_contra ha
    have ha := Bool.of_not_eq_false ha
    exact hn (State.surfaced_iff.mpr ⟨ha, hz, (h.surface ha).right.symm.trans hs⟩)

theorem safe_dropPlane (h : Inv s w) (hs : kind = .base → s.surface.active = false) :
    Safe (dropPlane kind) s w := by
  cases kind with
  | base =>
    exact {
      bound hn   :=
        have hb := h.bound hn
        ⟨hb.1, hb.2, hb.3, hb.4, hb.5, hb.6, hb.7, hb.8⟩
      unbound    := h.unbound
      held       := h.held
      overlay    := h.overlay
      base hn    := by cases hn
      repair hn  := absurd rfl hn
      surface hn := absurd (hn.symm.trans (hs rfl)) (by decide)
      lent       := h.lent
      tokens     := h.tokens }
  | overlay =>
    exact {
      bound hn   :=
        have hb := h.bound hn
        ⟨hb.1, hb.2, hb.3, hb.4, hb.5, hb.6, hb.7, hb.8⟩
      unbound    := h.unbound
      held hn    := by
        obtain hn | hn | hn := hn
        · exact h.held (.inl hn)
        · exact absurd rfl hn
        · exact absurd rfl hn
      overlay _  := ⟨rfl, rfl⟩
      base       := h.base
      repair     := h.repair
      surface    := h.surface
      lent       := h.lent
      tokens     := h.tokens }

theorem State.findPlane_session (h : s.findPlane session = some kind) : session ≠ 0 := by
  rintro rfl
  cases h

theorem keeps_cleanupRegions (h : Inv s w) : Keeps (cleanupRegions kind) s w := by
  refine .get <| .seq (keeps_readRects h.plane_repair) fun repair s₁ w₁ q => ?_
  exact .seq (keeps_oldDamage (h.quiet q)) fun _ _ _ _ => .pure

theorem safe_close (h : Inv s w) : Safe (close board session deadline) s w := by
  refine .get ?_
  cases hf : s.findPlane session with
  | none => exact h
  | some kind =>
    refine .after keeps_terminalResult h fun result s₁ w₁ h q₁ => .ite (fun _ => h) fun _ => ?_
    refine wp_seq (wp_stageRelease h) ?_
    rintro _ s₂ w₂ ⟨h, hb, -⟩
    refine wp_seq (wp_dropSurface h) ?_
    rintro _ s₃ w₃ ⟨h, hs⟩
    refine Safe.after (keeps_cleanupRegions h) h fun cleanup s₄ w₄ h q₄ => ?_
    refine .after (keeps_transferRegions none_valid none_valid) h fun sent s₅ w₅ h q₅ => ?_
    refine .ite (fun _ => h) fun _ => .seq (safe_dropPlane h fun hk => ?_) fun _ s₆ w₆ h => ?_
    · rw [(q₄.trans q₅).surface]
      refine hs (State.findPlane_session hf) ?_
      rw [hb, q₁.base]
      exact (State.findPlane_base (hk ▸ hf)).right
    · exact .seq (safe_workspaceReleaseIfIdle h) fun _ _ _ h => h

theorem safe_retire (h : Inv s w) : Safe (retire board session) s w := by
  refine .get <| wp_seq (P := fun _ s' w' => Inv s' w' ∧ s'.base = s.base) ?_ ?_
  · unfold dropStage onlyIf
    rw [wp_bind, wp_get]
    beta_reduce
    split
    case isTrue  => exact ⟨safe_stageReset h, rfl⟩
    case isFalse => exact ⟨h, rfl⟩
  rintro _ s₁ w₁ ⟨h, hb⟩
  refine wp_seq (wp_dropSurface h) ?_
  rintro _ s₂ w₂ ⟨h, hs⟩
  refine Safe.seq ?_ fun _ _ _ h => safe_workspaceReleaseIfIdle h
  cases hf : s.findPlane session with
  | none      => exact h
  | some kind =>
    refine safe_dropPlane h fun hk => hs (State.findPlane_session hf) ?_
    rw [hb]
    exact (State.findPlane_base (hk ▸ hf)).right

end Ending

section Runs

theorem Inv.pool {pool : Pool} (h : Inv s w) (hl : s.workspace ≠ 0 →
    pool.activeGeneration = s.workspace ∧ pool.elsewhere ≠ s.workspace)
    (ht : pool.elsewhere ≤ pool.generation) : Inv s { w with pool } :=
  ⟨h.bound, h.unbound, h.held, h.overlay, h.base, h.repair, h.surface, hl, ht⟩

theorem safe_borrowElsewhere (h : Inv s w) : Safe (ask .borrowElsewhere) s w := by
  refine ⟨trivial, fun d _ => ?_⟩
  show Inv s { w with pool := w.pool.borrowElsewhere }
  unfold Pool.borrowElsewhere
  split
  case h_1            => exact h
  case h_2 generation hb =>
    have hg : w.pool.borrowed.generation = generation := by rw [Pool.borrowed, hb]
    refine h.pool (fun hw => ?_) (hg ▸ UInt32.le_refl _)
    -- Nothing is lent to anyone else while the adapter has the workspace.
    have ha := (h.lent hw).left
    rw [Pool.borrow, if_pos (.inr (.inl fun hz => hw (ha.symm.trans hz)))] at hb
    cases hb

theorem safe_releaseElsewhere (h : Inv s w) : Safe (ask .releaseElsewhere) s w := by
  refine ⟨trivial, fun d _ => ?_⟩
  refine h.pool (fun hw => ⟨?_, hw.symm⟩) UInt32.zero_le
  have hl := h.lent hw
  show (w.pool.release w.pool.elsewhere).activeGeneration = _
  rw [Pool.release, if_neg fun hn => hl.right (hn.right.trans hl.left)]
  exact hl.left

theorem safe_reserveCamera (h : Inv s w) : Safe (ask .reserveCamera) s w := by
  refine ⟨trivial, fun d _ => ?_⟩
  show Inv s { w with pool := w.pool.reserveCamera }
  unfold Pool.reserveCamera
  split
  case isTrue  => exact h
  case isFalse => exact h.pool h.lent h.tokens

theorem safe_releaseCamera (h : Inv s w) : Safe (ask .releaseCamera) s w :=
  ⟨trivial, fun _ _ => h.pool h.lent h.tokens⟩

-- The session that presents.
def Op.presents : Op → Option Nat
  | .present session _ _ => some session
  | _                    => none

-- No batch for the overlay is presented that has damage or text, but no commands.
def Op.Sensible (op : Op) (s : State) : Prop :=
  ∀ session ∈ op.presents, ¬s.Blank session

instance : Decidable (s.Blank session) :=
  inferInstanceAs (Decidable (_ ∧ _))

instance {op : Op} : Decidable (op.Sensible s) :=
  inferInstanceAs (Decidable (∀ session ∈ op.presents, ¬s.Blank session))

theorem Safe.map {β : Type} {p : Task α} {f : α → β} (h : Safe p s w) : Safe (f <$> p) s w := by
  rw [Safe, wp_map]
  exact h

theorem safe_perform {op : Op} (h : Inv s w) (ho : op.Sensible s) :
    Safe (op.perform board) s w := by
  cases op with
  | «open»           => exact (safe_open h).map
  | begin            => exact (safe_begin h).map
  | clip             => exact (safe_clip h).map
  | clear            => exact (safe_clear h).map
  | fill             => exact (safe_clippedCommand h).map
  | stroke           => exact (safe_clippedCommand h).map
  | text             => exact (safe_text h).map
  | blit             => exact (safe_blit h).map
  | mark             => exact (safe_mark h).map
  | surface          => exact (safe_surface h).map
  | present          => exact (safe_present h (ho _ rfl)).map
  | abort            => exact (safe_abort h).map
  | checkpoint       => exact (safe_checkpoint h).map
  | restore          => exact (safe_restore h).map
  | keepLastClear    => exact (safe_keepLastClear h).map
  | close            => exact (safe_close h).map
  | retire           => exact (safe_retire h).map
  | reserveCamera    => exact (safe_reserveCamera h).map
  | releaseCamera    => exact (safe_releaseCamera h).map
  | borrowElsewhere  => exact (safe_borrowElsewhere h).map
  | releaseElsewhere => exact (safe_releaseElsewhere h).map

theorem Inv.zero {pixels : Nat → Nat → UInt16} : Inv .zero (.boot pixels) where
  bound hn   := absurd rfl hn
  unbound _  := rfl
  held hn    := by simp [State.zero, Stage.zero, Overlay.zero, Plane.zero] at hn
  overlay _  := ⟨rfl, rfl⟩
  base hn    := by cases hn
  repair hn  := absurd rfl hn
  surface hn := by cases hn
  lent hn    := absurd rfl hn
  tokens     := UInt32.le_refl _

variable {es : List (Op × Option (Option Result))} {pixels : Nat → Nat → UInt16}

theorem Inv.run
    (run : Run handler (Op.perform board) none (fun op _ s _ => op.Sensible s) .zero (.boot pixels)
      es s w) : Inv s w := by
  refine run.invariant (fun _ s w => Inv s w) .zero ?_
  intro es s w op ds ho h
  have hm := run_meets (fun d (_ : d ∈ ds) => trivial) (@safe_perform board _ _ _ h ho)
  rw [env] at hm
  cases hr : (op.perform board).run handler s ds w with
  | done a w =>
    rw [hr] at hm
    exact hm
  | cut w | hung w => exact fun _ hn => by cases hn

-- Whatever refers to the workspace leads into the one that is lent, and no operation follows a
-- pointer that leads nowhere.
theorem workspace_held
    (run : Run handler (Op.perform board) none (fun op _ s _ => op.Sensible s) .zero (.boot pixels)
      es s w) :
    (s.Refers → s.workspace ≠ 0 ∧ w.pool.activeGeneration = s.workspace ∧ s.Bound) ∧
      ∀ (op : Op) ds w', op.Sensible s → (op.perform board).run handler s ds w ≠ .hung w' := by
  have h := Inv.run run
  constructor
  · intro hr
    have hw : s.workspace ≠ 0 := by
      refine h.held ?_
      by_contra hn
      simp only [not_or, not_not] at hn
      have ho := h.overlay hn.right.left
      simp [State.Refers, hn.left, hn.right.left, hn.right.right, ho] at hr
    exact ⟨hw, (h.lent hw).left, h.bound hw⟩
  · intro op ds w' ho hr
    have hm := run_meets (fun d (_ : d ∈ ds) => trivial) (@safe_perform board _ _ _ h ho)
    rw [env, hr] at hm
    exact hm

def board320 : Board :=
  ⟨320, 240, fun _ _ _ => false⟩

-- A panel that takes everything.
def obliging : Decision :=
  ⟨false, 0, true, 0⟩

theorem workspace_held_fill : ∃ es s w,
    Run handler (Op.perform board320) none (fun op _ s _ => op.Sensible s) .zero
      (.boot fun _ _ => 0) es s w ∧ s.overlay.commandCount = 1 ∧
    (s.Refers → s.workspace ≠ 0 ∧ w.pool.activeGeneration = s.workspace ∧ s.Bound) ∧
      ∀ (op : Op) ds w', op.Sensible s → (op.perform board320).run handler s ds w ≠ .hung w' := by
  have hx : ∃ es s w, Run handler (Op.perform board320) none (fun op _ s _ => op.Sensible s) .zero
      (.boot fun _ _ => 0) es s w ∧ s.overlay.commandCount = 1 :=
    exists_run (P := fun _ (s : State) (_ : World) => s.overlay.commandCount = 1)
      [(.open 1 (some .overlay), []), (.begin 1, [obliging]), (.fill 1 ⟨0, 0, 1, 1⟩ 0xFFFF, []),
        (.present 1 0 0, .replicate 4 obliging)]
      ⟨_, rfl, rfl⟩
  obtain ⟨es, s, w, r, hc⟩ := hx
  exact ⟨es, s, w, r, hc, workspace_held r⟩

def markSteps : List (Op × List Decision) :=
  [(.open 1 (some .overlay), []), (.begin 1, [obliging]), (.mark 1 (some ⟨0, 0, 1, 1⟩), []),
    (.present 1 0 0, .replicate 6 obliging)]

def markReplies : List (Op × Option (Option Result)) :=
  [(.present 1 0 0, some (some .ok)), (.mark 1 (some ⟨0, 0, 1, 1⟩), some (some .ok)),
    (.begin 1, some (some .ok)), (.open 1 (some .overlay), some (some .ok))]

-- A batch that only marks a pixel is presented. The workspace is given back, and the close of the
-- plane follows a pointer into it.
theorem workspace_lost : ∃ es s w,
    Run handler (Op.perform board320) none (fun _ _ _ _ => True) .zero (.boot fun _ _ => 0) es s w ∧
    es = markReplies ∧ s.overlay.dirtyCount = 1 ∧ s.overlay.dirty = .null ∧ s.workspace = 0 ∧
    ((Op.close 1 0).perform board320).run handler s [] w = .hung w :=
  exists_run (P := fun es s w => es = markReplies ∧ s.overlay.dirtyCount = 1 ∧
      s.overlay.dirty = .null ∧ s.workspace = 0 ∧
      ((Op.close 1 0).perform board320).run handler s [] w = .hung w)
    markSteps ⟨_, rfl, rfl, rfl, rfl, rfl, rfl⟩

end Runs

end Display
