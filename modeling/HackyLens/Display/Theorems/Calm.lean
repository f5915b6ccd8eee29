import HackyLens.Display.Adapter
import HackyLens.Lib.Preserves

-- Between the calls of the adapter the transport is closed, and an overlay that nobody has is empty.

namespace Display

open App (Result)
open Prog

structure Calm (s : State) : Prop where
  stream : s.pixelStreamActive = false
  unused : s.overlayPlane.active = false → s.overlay.commandCount = 0

variable {board : Board} {s : State} {deadline : UInt64} {cancel : Nat} {α : Type}

section Transfer

theorem preserves_follow {P : State → Prop} {o : Option α} : Preserves P (follow o) := by
  cases o
  case none   => exact .hang
  case some a => exact .pure

theorem preserves_terminalResult {P : State → Prop} : Preserves P (terminalResult deadline cancel) := by
  unfold terminalResult cancelRequested
  refine .bind (.ite (fun _ => .pure) fun _ => .call) fun _ => ?_
  exact .ite (fun _ => .pure) fun _ => .ite (fun _ => .pure) fun _ => .bind .call fun _ => .pure

theorem preserves_transferFailure {P : State → Prop} : Preserves P (transferFailure deadline) := by
  unfold transferFailure
  exact .ite (fun _ => .pure) fun _ => .bind .call fun _ => .pure

theorem preserves_readRects {P : State → Prop} {p : Pointer} {count : Nat} :
    Preserves P (readRects p count) :=
  .ite (fun _ => .pure) fun _ => .get fun _ _ => .bind preserves_follow fun _ => .pure

theorem preserves_renderLayer {P : State → Prop} {span : Span} {layer : Option Layer} {pixels : Row} :
    Preserves P (renderLayer board span layer pixels) := by
  unfold renderLayer
  split
  case h_1 => exact .pure
  case h_2 =>
    refine .ite (fun _ => .pure) fun _ => .get fun _ _ => ?_
    exact .bind preserves_follow fun _ => .bind preserves_follow fun _ => .pure

theorem preserves_renderSpan {P : State → Prop} {span : Span} {base overlay : Option Layer} :
    Preserves P (renderSpan board span base overlay) :=
  .get fun _ _ => .bind preserves_renderLayer fun _ => preserves_renderLayer

-- All that may have changed is the flag of the transport.
def Same (s s' : State) : Prop :=
  ∃ active, s' = { s with pixelStreamActive := active }

theorem Same.setStream {s' : State} {active : Bool} (h : Same s s') :
    Same s { s' with pixelStreamActive := active } := by
  obtain ⟨_, rfl⟩ := h
  exact ⟨active, rfl⟩

theorem Same.eq {s' : State} (h : Same s s') (hs : s.pixelStreamActive = false)
    (hs' : s'.pixelStreamActive = false) : s' = s := by
  obtain ⟨active, rfl⟩ := h
  rw [show active = false from hs', ← hs]

variable {rect : Rect} {base overlay : Option Layer} {spans : List Span} {progress : Bool}

theorem preserves_setStream {active : Bool} : Preserves (Same s) (setStream active) :=
  .modify fun _ => Same.setStream

theorem preserves_transportAbort : Preserves (Same s) transportAbort :=
  .get fun _ _ => .ite (fun _ => .bind .call fun _ => preserves_setStream) fun _ => .pure

theorem preserves_transportBegin : Preserves (Same s) (transportBegin board rect deadline) := by
  refine .bind preserves_terminalResult fun _ => .ite (fun _ => .pure) fun _ => .get fun _ _ => ?_
  refine .ite (fun _ => .pure) fun _ => .ite (fun _ => .pure) fun _ => .bind .call fun _ => ?_
  refine .ite (fun _ => preserves_transferFailure) fun _ => .bind .call fun _ => ?_
  exact .ite (fun _ => preserves_transferFailure) fun _ => .bind preserves_setStream fun _ => .pure

theorem preserves_transportWrite {pixels : List UInt16} :
    Preserves (Same s) (transportWrite pixels deadline cancel) := by
  refine .bind preserves_terminalResult fun _ => .ite (fun _ => ?_) fun _ => .get fun _ _ => ?_
  · exact .bind preserves_transportAbort fun _ => .pure
  refine .ite (fun _ => .pure) fun _ => .ite (fun _ => .pure) fun _ => .bind .call fun _ => ?_
  refine .ite (fun _ => ?_) fun _ => preserves_terminalResult
  exact .bind preserves_transportAbort fun _ => preserves_transferFailure

theorem preserves_transportEnd : Preserves (Same s) (transportEnd deadline cancel) := by
  refine .bind preserves_terminalResult fun _ => .get fun _ _ => .ite (fun _ => .pure) fun _ => ?_
  refine .ite (fun _ => .bind preserves_transportAbort fun _ => .pure) fun _ => .bind .call fun _ => ?_
  refine .bind preserves_setStream fun _ => ?_
  exact .ite (fun _ => preserves_transferFailure) fun _ => preserves_terminalResult

theorem preserves_transferSpans :
    Preserves (Same s) (transferSpans board base overlay deadline cancel spans progress) := by
  induction spans generalizing progress with
  | nil             => exact .pure
  | cons span spans ih =>
    refine .bind preserves_terminalResult fun _ => .ite (fun _ => ?_) fun _ => ?_
    · exact .bind preserves_transportAbort fun _ => .pure
    refine .bind preserves_renderSpan fun _ => .bind preserves_transportWrite fun _ => ?_
    exact .ite (fun _ => .bind preserves_transportAbort fun _ => .pure) fun _ => ih

-- The transport is closed.
def Shut (s : State) : Prop :=
  s.pixelStreamActive = false

abbrev Any {α : Type} : Task α → (α → State → Prop) → State → Prop :=
  Ensures fun _ => True

theorem ensures_transportAbort : Any transportAbort (fun _ => Shut) s :=
  .get (.ite (fun _ => .seq .top fun _ _ _ => rfl) fun hn => Bool.eq_false_iff.mpr hn)

theorem ensures_transportBegin (h : Shut s) :
    Any (transportBegin board rect deadline) (fun result => (result ≠ .ok → Shut ·)) s := by
  have keep {p : Task Result} {s : State} (hp : Preserves Shut p) (h : Shut s) :
      Any p (fun result => (result ≠ .ok → Shut ·)) s :=
    (hp s h).mono fun _ _ h _ => h
  refine .seq (preserves_terminalResult s h) fun _ s h => .ite (fun _ _ => h) fun _ => .get ?_
  refine .ite (fun _ _ => h) fun _ => .ite (fun _ _ => h) fun _ => ?_
  refine .seq (Preserves.call s h) fun _ s h => ?_
  refine .ite (fun _ => keep preserves_transferFailure h) fun _ => ?_
  refine .seq (Preserves.call s h) fun _ s h => ?_
  exact .ite (fun _ => keep preserves_transferFailure h) fun _ hn => absurd rfl hn

theorem ensures_transportEnd : Any (transportEnd deadline cancel) (fun _ => Shut) s := by
  refine .seq .top fun _ s _ => .get ?_
  refine .ite (fun hn => Bool.eq_false_iff.mpr hn) fun _ => .ite (fun _ => ?_) fun _ => ?_
  · exact .seq ensures_transportAbort fun _ _ h => h
  refine .seq .top fun _ s _ => .seq (P := fun _ => Shut) rfl fun _ s h => ?_
  refine .ite (fun _ => ?_) fun _ => ?_
  · exact preserves_transferFailure s h
  · exact preserves_terminalResult s h

theorem ensures_transferSpans :
    Any (transferSpans board base overlay deadline cancel spans progress)
      (fun sent => (sent.1 ≠ .ok → Shut ·)) s := by
  induction spans generalizing progress s with
  | nil             => exact fun hn => absurd rfl hn
  | cons span spans ih =>
    refine .seq .top fun _ s _ => ?_
    refine .ite (fun _ => .seq ensures_transportAbort fun _ _ h _ => h) fun _ => ?_
    refine .seq .top fun _ s _ => .seq .top fun _ s _ => ?_
    exact .ite (fun _ => .seq ensures_transportAbort fun _ _ h _ => h) fun _ => ih

theorem preserves_transferRect :
    Preserves (Same s) (transferRect board rect base overlay deadline cancel progress) := by
  refine .bind preserves_terminalResult fun _ => .ite (fun _ => .pure) fun _ => ?_
  refine .bind preserves_transportBegin fun _ => .ite (fun _ => .pure) fun _ => ?_
  refine .bind preserves_transferSpans fun _ => .ite (fun _ => .pure) fun _ => ?_
  refine .bind preserves_transportEnd fun _ => .bind ?_ fun _ => .pure
  exact .ite (fun _ => preserves_transportAbort) fun _ => .pure

theorem ensures_transferRect (h : Shut s) :
    Any (transferRect board rect base overlay deadline cancel progress) (fun _ => Shut) s := by
  refine .seq (preserves_terminalResult s h) fun _ s h => .ite (fun _ => h) fun _ => ?_
  refine .seq (ensures_transportBegin h) fun _ s h => .ite h fun _ => ?_
  refine .seq ensures_transferSpans fun _ s h => .ite h fun _ => ?_
  refine .seq ensures_transportEnd fun _ s h => .seq (P := fun _ => Shut) ?_ fun _ _ h => h
  exact .ite (fun _ => ensures_transportAbort) fun _ => h

-- A transfer leaves the state as it was.
theorem preserves_transferRegions {P : State → Prop} (hp : ∀ s, P s → Shut s) {rects : List Rect} :
    Preserves P (transferRegions board base overlay deadline cancel rects progress) := by
  induction rects generalizing progress with
  | nil              => exact .pure
  | cons rect rects ih =>
    refine .bind (fun s h => ?_) fun _ => .ite (fun _ => .pure) fun _ => ih
    refine wp_mono (wp_and (preserves_transferRect (s := s) s ⟨_, rfl⟩) (ensures_transferRect (hp s h))) ?_
    rintro - s' - ⟨hs, hs'⟩
    rwa [hs.eq (hp s h) hs']

end Transfer

section Operations

variable {session : Nat} {kind : PlaneKind} {staged : Bool} {pointer : Pointer}

-- A change that has nothing to do with the transport or with the overlay.
theorem Calm.of_eq {s' : State} (h : Calm s) (hs : s'.pixelStreamActive = s.pixelStreamActive)
    (ho : s'.overlayPlane.active = s.overlayPlane.active)
    (hc : s'.overlay.commandCount = s.overlay.commandCount) : Calm s' :=
  ⟨hs.trans h.stream, fun hn => hc.trans (h.unused (ho.symm.trans hn))⟩

theorem calm_modify {f : State → State} (hs : ∀ s, (f s).pixelStreamActive = s.pixelStreamActive)
    (ho : ∀ s, (f s).overlayPlane.active = s.overlayPlane.active)
    (hc : ∀ s, (f s).overlay.commandCount = s.overlay.commandCount) :
    Preserves Calm (modify f : Task Unit) :=
  .modify fun s h => h.of_eq (hs s) (ho s) (hc s)

theorem calm_modifyStage {f : Stage → Stage} : Preserves Calm (modifyStage f) :=
  calm_modify (fun _ => rfl) (fun _ => rfl) fun _ => rfl

-- A property that only depends on what being calm depends on.
def Coarse (P : State → Prop) : Prop :=
  ∀ s s', P s → s'.pixelStreamActive = s.pixelStreamActive →
    s'.overlayPlane.active = s.overlayPlane.active →
    s'.overlay.commandCount = s.overlay.commandCount → P s'

theorem calm_coarse : Coarse Calm :=
  fun _ _ h => h.of_eq

variable {P : State → Prop}

theorem Coarse.setRects {rects : List Rect} (hp : Coarse P) :
    Preserves P (setRects pointer rects) := by
  refine .get fun s h => .bind preserves_follow fun _ => ?_
  cases pointer
  case null => exact .pure
  all_goals exact .set (hp s _ h rfl rfl rfl)

theorem Coarse.setCommands {commands : Nat → Command} (hp : Coarse P) :
    Preserves P (setCommands pointer commands) := by
  refine .get fun s h => .bind preserves_follow fun _ => ?_
  cases pointer
  case stage | overlay => exact .set (hp s _ h rfl rfl rfl)
  all_goals exact .pure

theorem Coarse.setText {text : Memory} (hp : Coarse P) : Preserves P (setText pointer text) := by
  refine .get fun s h => .bind preserves_follow fun _ => ?_
  cases pointer
  case stage | overlay => exact .set (hp s _ h rfl rfl rfl)
  all_goals exact .pure

theorem preserves_stageFor {P : State → Prop} : Preserves P (stageFor session) :=
  .get fun _ _ => .ite (fun _ => .pure) fun _ => .ite (fun _ => .pure) fun _ => .pure

theorem calm_stageReset : Preserves Calm (stageReset board) :=
  calm_modifyStage

theorem calm_workspaceAcquire : Preserves Calm workspaceAcquire := by
  refine .get fun s h => .ite (fun _ => .pure) fun _ => .bind .call fun generation => ?_
  cases generation
  case none   => exact .pure
  case some g => exact .bind (.set (h.of_eq rfl rfl rfl)) fun _ => .pure

theorem calm_releaseIfIdle : Preserves Calm workspaceReleaseIfIdle := by
  refine .get fun s h => .ite (fun _ => .pure) fun _ => .bind .call fun _ => ?_
  exact .set (h.of_eq rfl rfl rfl)

theorem calm_surfaceReset : Preserves Calm surfaceReset :=
  calm_modify (fun _ => rfl) (fun _ => rfl) fun _ => rfl

theorem calm_open {plane : Option PlaneKind} : Preserves Calm («open» session plane) := by
  refine .get fun s h => ?_
  cases plane
  case none      => exact .pure
  case some kind =>
    refine .ite (fun _ => .pure) fun _ => .ite (fun _ => .pure) fun _ => .bind (.set ?_) fun _ => .pure
    cases kind
    case base    => exact h.of_eq rfl rfl rfl
    case overlay => exact ⟨h.stream, nofun⟩

theorem calm_begin : Preserves Calm (begin board session) := by
  refine .get fun _ _ => .ite (fun _ => .pure) fun _ => .ite (fun _ => .pure) fun _ => ?_
  refine .ite (fun _ => .pure) fun _ => .bind calm_workspaceAcquire fun _ => ?_
  refine .ite (fun _ => .pure) fun _ => .bind calm_stageReset fun _ => ?_
  exact .bind calm_modifyStage fun _ => .pure

theorem calm_clip {rect : Option Rect} : Preserves Calm (clip board session rect) := by
  refine .bind preserves_stageFor fun _ => .ite (fun _ => .pure) fun _ => ?_
  cases rect
  case none => exact .bind calm_modifyStage fun _ => .pure
  case some => exact .ite (fun _ => .pure) fun _ => .bind calm_modifyStage fun _ => .pure

theorem calm_onlyIf {b : Prop} [Decidable b] {p : Task Unit} (hp : Preserves Calm p) :
    Preserves Calm (onlyIf b p) :=
  .ite (fun _ => hp) fun _ => .pure

theorem calm_appendCommand {command : Command} {text : List UInt8} {borrow : Option Borrow} :
    Preserves Calm (appendCommand session command text borrow) := by
  refine .bind preserves_stageFor fun _ => .ite (fun _ => .pure) fun _ => ?_
  refine .ite (fun _ => .pure) fun _ => .get fun s _ => .ite (fun _ => .pure) fun _ => ?_
  refine .get fun _ _ => .bind preserves_follow fun rects => ?_
  cases dirtyAdd (rects.take s.stage.dirtyCount) command.rect
  case none => exact .pure
  case some =>
    refine .bind (calm_onlyIf (.bind preserves_follow fun _ => calm_coarse.setText)) fun _ => ?_
    refine .bind preserves_follow fun _ => .bind calm_coarse.setCommands fun _ => ?_
    exact .bind calm_coarse.setRects fun _ => .bind calm_modifyStage fun _ => .pure

theorem calm_clippedCommand {rect : Rect} {type : CommandType} {color : UInt16}
    {text : List UInt8} : Preserves Calm (clippedCommand session rect type color text) := by
  refine .bind preserves_stageFor fun _ => .ite (fun _ => .pure) fun _ => ?_
  exact .ite (fun _ => .pure) fun _ => .get fun _ _ => calm_appendCommand

theorem calm_clear {color : UInt16} : Preserves Calm (clear session color) := by
  refine .bind preserves_stageFor fun _ => .ite (fun _ => .pure) fun _ => ?_
  exact .get fun _ _ => calm_appendCommand

theorem calm_text {bounds : Rect} {utf8 : Option (List UInt8)} {color : UInt16} :
    Preserves Calm (text session bounds utf8 color) := by
  cases utf8
  case none => exact .pure
  case some => exact .ite (fun _ => .pure) fun _ => calm_clippedCommand

theorem calm_blit {destination : Option Rect} {pixels : Option View} {rgb565 : Bool} :
    Preserves Calm (blit session destination pixels rgb565) := by
  unfold blit
  split
  case h_1 =>
    refine .ite (fun _ => .pure) fun _ => .bind preserves_stageFor fun _ => ?_
    refine .ite (fun _ => .pure) fun _ => .get fun _ _ => .ite (fun _ => .pure) fun _ => ?_
    exact .ite (fun _ => .pure) fun _ => calm_appendCommand
  case h_2 => exact .pure

theorem calm_mark {rect : Option Rect} : Preserves Calm (mark board session rect) := by
  refine .get fun s h => .ite (fun _ => .pure) fun _ => .ite (fun _ => .pure) fun _ => ?_
  cases rect
  case none      => exact .pure
  case some rect =>
    refine .ite (fun _ => .pure) fun _ => .ite (fun _ => .bind preserves_follow fun rects => ?_)
      fun _ => ?_
    · cases dirtyAdd (rects.take s.stage.dirtyCount) (rect.intersection (screenRect board))
      case none => exact .pure
      case some => exact .bind calm_coarse.setRects fun _ => .bind calm_modifyStage fun _ => .pure
    · cases dirtyAdd s.surface.dirty (rect.intersection (screenRect board))
      case none => exact .pure
      case some => exact .bind (.set (h.of_eq rfl rfl rfl)) fun _ => .pure

theorem calm_surface : Preserves Calm (surface session) := by
  refine .get fun s h => ?_
  cases s.findPlane session with
  | none      => exact .pure
  | some kind =>
    cases kind
    case overlay => exact .pure
    case base    =>
      refine .ite (fun _ => .pure) fun _ => .ite (fun _ => .pure) fun _ => ?_
      exact .bind (.set (h.of_eq rfl rfl rfl)) fun _ => .pure

theorem calm_abort : Preserves Calm (abort board session) := by
  refine .get fun _ _ => .ite (fun _ => .pure) fun _ => .ite (fun _ => ?_) fun _ => ?_
  · exact .bind calm_stageReset fun _ => .bind calm_releaseIfIdle fun _ => .pure
  · exact .ite (fun _ => .bind calm_surfaceReset fun _ => .pure) fun _ => .pure

theorem calm_dirtyRebuild : Preserves Calm dirtyRebuild := by
  refine .get fun _ _ => .ite (fun _ => calm_modifyStage) fun _ => .bind preserves_follow fun _ => ?_
  exact .bind calm_coarse.setRects fun _ => calm_modifyStage

theorem calm_saveFirst : Preserves Calm saveFirst :=
  .get fun _ _ => .bind preserves_follow fun _ => calm_modifyStage

theorem calm_putFirst {command : Command} : Preserves Calm (putFirst command) :=
  .get fun _ _ => .bind preserves_follow fun _ => calm_coarse.setCommands

theorem calm_checkpoint : Preserves Calm (checkpoint session) := by
  refine .bind preserves_stageFor fun _ => .ite (fun _ => .pure) fun _ => .get fun _ _ => ?_
  exact .bind calm_modifyStage fun _ => .pure

theorem calm_restore {commands textBytes : Nat} :
    Preserves Calm (restore session commands textBytes) := by
  refine .bind preserves_stageFor fun _ => .ite (fun _ => .pure) fun _ => .ite (fun _ => .pure) fun _ => ?_
  refine .get fun _ _ => .bind (calm_onlyIf calm_saveFirst) fun _ => .get fun _ _ => ?_
  refine .bind (calm_onlyIf calm_putFirst) fun _ => .bind calm_modifyStage fun _ => ?_
  exact .bind calm_dirtyRebuild fun _ => .pure

theorem calm_keepLastClear : Preserves Calm (keepLastClear session) := by
  refine .bind preserves_stageFor fun _ => .ite (fun _ => .pure) fun _ => .get fun _ _ => ?_
  refine .ite (fun _ => .pure) fun _ => .bind preserves_follow fun _ => .ite (fun _ => .pure) fun _ => ?_
  refine .bind (calm_onlyIf calm_saveFirst) fun _ => .bind calm_putFirst fun _ => ?_
  exact .bind calm_modifyStage fun _ => .bind calm_dirtyRebuild fun _ => .pure

theorem Calm.shut (h : Calm s) : Shut s :=
  h.stream

theorem preserves_repairRegions {P : State → Prop} (hp : ∀ s, P s → Shut s) :
    Preserves P (repairRegions board kind deadline cancel) :=
  .get fun _ _ => .bind preserves_readRects fun _ => preserves_transferRegions hp

theorem preserves_ownDamage {P : State → Prop} : Preserves P (ownDamage staged) :=
  .get fun _ _ => .ite (fun _ => preserves_readRects) fun _ => .pure

theorem preserves_oldDamage {P : State → Prop} : Preserves P (oldDamage kind) :=
  .get fun _ _ => .ite (fun _ => preserves_readRects) fun _ => .pure

theorem preserves_affectedRegions {P : State → Prop} : Preserves P (affectedRegions kind staged) := by
  refine .bind preserves_ownDamage fun dirty => ?_
  cases dirtyAddAll [] dirty
  case none => exact .pure
  case some => exact .bind preserves_oldDamage fun _ => .pure

theorem preserves_presentLayers {P : State → Prop} : Preserves P (presentLayers kind staged) := by
  refine .get fun _ _ => ?_
  cases kind <;> cases staged
  case overlay.false => exact .hang
  all_goals exact .pure

theorem calm_withPlane {f : Plane → Plane} (hf : ∀ plane, (f plane).active = plane.active) :
    Preserves Calm (modify fun s => s.withPlane kind (f (s.plane kind)) : Task Unit) := by
  refine .modify fun s h => ?_
  cases kind
  case base    => exact h.of_eq rfl rfl rfl
  case overlay => exact h.of_eq rfl (hf _) rfl

theorem calm_setRepair {regions : List Rect} : Preserves Calm (setRepair kind regions) :=
  .get fun _ _ => .bind calm_coarse.setRects fun _ =>
    calm_withPlane (f := fun plane => { plane with repairCount := regions.length }) fun _ => rfl

theorem calm_nextGeneration : Preserves Calm (nextGeneration kind) := by
  refine .modify fun s h => ?_
  dsimp only
  split
  case isFalse => exact h
  case isTrue  =>
    cases kind
    case base    => exact h.of_eq rfl rfl rfl
    case overlay => exact h.of_eq rfl rfl rfl

theorem calm_shadowApply : Preserves Calm (shadowApply board) := by
  refine .get fun _ _ => .bind preserves_readRects fun _ => .forM fun _ => ?_
  exact .bind preserves_renderSpan fun _ => calm_modify (fun _ => rfl) (fun _ => rfl) fun _ => rfl

-- Only an overlay that somebody has is given commands.
def Held (kind : PlaneKind) (s : State) : Prop :=
  Calm s ∧ (kind = .overlay → s.overlayPlane.active = true)

theorem held_coarse : Coarse (Held kind) :=
  fun _ _ h hs ho hc => ⟨h.left.of_eq hs ho hc, fun hk => ho.trans (h.right hk)⟩

theorem held_overlayFromStage : Preserves (Held .overlay) overlayFromStage := by
  refine .get fun _ _ => .bind preserves_follow fun _ => .bind preserves_follow fun _ => ?_
  refine .bind preserves_follow fun _ => .bind preserves_follow fun _ => ?_
  refine .bind preserves_follow fun _ => .bind held_coarse.setCommands fun _ => ?_
  refine .bind held_coarse.setText fun _ => .bind held_coarse.setRects fun _ => .modify ?_
  intro s h
  refine ⟨⟨h.left.stream, fun hn => ?_⟩, h.right⟩
  cases hn.symm.trans (h.right rfl)

theorem Held.of_findPlane (h : Calm s) (hf : s.findPlane session = some kind) : Held kind s := by
  refine ⟨h, fun hk => ?_⟩
  subst hk
  unfold State.findPlane at hf
  split_ifs at hf with _ _ ho
  · cases hf
  · exact ho.left

theorem held_clearRepair : Preserves (Held kind) (clearRepair kind) := by
  refine .modify fun s h => ?_
  cases kind
  case base    => exact held_coarse s _ h rfl rfl rfl
  case overlay => exact held_coarse s _ h rfl rfl rfl

theorem ensures_presentCommit (h : Held kind s) :
    Any (presentCommit board kind staged) (fun _ => Calm) s := by
  refine .seq (P := fun _ => Calm) ?_ fun _ s h => ?_
  · refine .ite (fun hk => ?_) fun _ => .ite (fun _ => calm_shadowApply s h.left) fun _ => h.left
    subst hk
    exact (held_overlayFromStage s h).mono fun _ _ => And.left
  refine .seq (calm_nextGeneration s h) fun _ s h => .ite (fun _ => ?_) fun _ => ?_
  · exact .seq (calm_stageReset s h) fun _ s h => calm_releaseIfIdle s h
  · exact calm_surfaceReset s h

theorem ensures_presentTransfer {progress : Bool} (h : Held kind s) :
    Any (presentTransfer board kind staged deadline cancel progress) (fun _ => Calm) s := by
  refine .seq (preserves_affectedRegions s h) fun affected s h => ?_
  cases affected
  case none => exact h.left
  case some =>
    refine .seq (preserves_presentLayers s h) fun _ s h => ?_
    refine .seq (preserves_transferRegions (fun _ h => h.left.shut) s h) fun _ s h => ?_
    refine .ite (fun _ => .seq (calm_onlyIf calm_setRepair s h.left) fun _ _ h => h) fun _ => ?_
    exact .seq (ensures_presentCommit h) fun _ _ h => h

theorem calm_present : Preserves Calm (present board session deadline cancel) := by
  refine .ite (fun _ => .pure) fun _ s h => .get ?_
  cases hf : s.findPlane session with
  | none      => exact h
  | some kind =>
    refine .ite (fun _ => h) fun _ => ?_
    refine .seq (preserves_terminalResult s (Held.of_findPlane h hf)) fun _ s h => ?_
    refine .ite (fun _ => h.left) fun _ => ?_
    refine .seq (preserves_repairRegions (fun _ h => h.left.shut) s h) fun _ s h => ?_
    refine .ite (fun _ => h.left) fun _ => ?_
    exact .seq (held_clearRepair s h) fun _ s h => ensures_presentTransfer h

theorem preserves_cleanupRegions {P : State → Prop} : Preserves P (cleanupRegions kind) :=
  .get fun _ _ => .bind preserves_readRects fun _ => .bind preserves_oldDamage fun _ => .pure

theorem calm_dropPlane : Preserves Calm (dropPlane kind) := by
  intro s h
  refine .seq (P := fun _ s => Calm s ∧ (kind = .overlay → s.overlay.commandCount = 0)) ?_ ?_
  · exact .ite (fun _ => ⟨⟨h.stream, fun _ => rfl⟩, fun _ => rfl⟩) fun hk => ⟨h, fun hn => absurd hn hk⟩
  intro _ s h
  cases kind
  case base    => exact h.left.of_eq rfl rfl rfl
  case overlay => exact ⟨h.left.stream, fun _ => h.right rfl⟩

theorem calm_dropSurface : Preserves Calm (dropSurface session) :=
  .get fun _ _ => calm_onlyIf calm_surfaceReset

theorem calm_close : Preserves Calm (close board session deadline) := by
  refine .get fun s _ => ?_
  cases s.findPlane session with
  | none      => exact .pure
  | some kind =>
    refine .bind preserves_terminalResult fun _ => .ite (fun _ => .pure) fun _ => ?_
    refine .bind (calm_onlyIf (.bind calm_stageReset fun _ => calm_releaseIfIdle)) fun _ => ?_
    refine .bind calm_dropSurface fun _ => .bind preserves_cleanupRegions fun _ => ?_
    refine .bind (preserves_transferRegions fun _ => Calm.shut) fun _ => .ite (fun _ => .pure) fun _ => ?_
    exact .bind calm_dropPlane fun _ => .bind calm_releaseIfIdle fun _ => .pure

theorem calm_retire : Preserves Calm (retire board session) := by
  refine .get fun s _ => .bind (.get fun _ _ => calm_onlyIf calm_stageReset) fun _ => ?_
  refine .bind calm_dropSurface fun _ => .bind ?_ fun _ => calm_releaseIfIdle
  cases s.findPlane session
  case none => exact .pure
  case some => exact calm_dropPlane

theorem calm_perform {op : Op} : Preserves Calm (op.perform board) := by
  cases op
  case «open»         => exact .map calm_open
  case begin          => exact .map calm_begin
  case clip           => exact .map calm_clip
  case clear          => exact .map calm_clear
  case fill | stroke  => exact .map calm_clippedCommand
  case text           => exact .map calm_text
  case blit           => exact .map calm_blit
  case mark           => exact .map calm_mark
  case surface        => exact .map calm_surface
  case present        => exact .map calm_present
  case abort          => exact .map calm_abort
  case checkpoint     => exact .map calm_checkpoint
  case restore        => exact .map calm_restore
  case keepLastClear  => exact .map calm_keepLastClear
  case close          => exact .map calm_close
  case retire         => exact .map calm_retire
  all_goals exact .map .call

end Operations

variable {es : List (Op × Option (Option Result))} {ok : Op → List Decision → State → World → Prop}
variable {pixels : Nat → Nat → UInt16} {w : World}

theorem Calm.run (run : Run handler (Op.perform board) none ok .zero (.boot pixels) es s w) :
    Calm s := by
  refine run.preserves (fun _ => calm_perform) ⟨rfl, fun _ => rfl⟩ ?_
  exact fun _ hb => by cases hb

-- The camera does not have the memory that was lent.
def Pool.Apart (pool : Pool) : Prop :=
  pool.activeGeneration ≠ 0 → pool.cameraReserved = false

theorem Pool.Apart.borrowed {pool : Pool} (h : pool.Apart) : pool.borrowed.Apart := by
  unfold Pool.borrowed
  split
  case h_1 => exact h
  case h_2 hb =>
    unfold Pool.borrow at hb
    split at hb
    case isTrue => cases hb
    case isFalse hn =>
      intro _
      exact Bool.eq_false_iff.mpr fun hc => hn (.inl hc)

theorem Pool.Apart.release {pool : Pool} {generation : UInt32} (h : pool.Apart) :
    (pool.release generation).Apart := by
  unfold Pool.release
  split
  case isTrue  => exact fun hn => absurd rfl hn
  case isFalse => exact h

theorem apart_handler {d : Decision} {c : Call} (h : w.pool.Apart) : (handler d c w).snd.pool.Apart := by
  cases c
  case borrow           => exact h.borrowed
  case release          => exact h.release
  case releaseCamera    => exact fun _ => rfl
  case releaseElsewhere => exact @Pool.Apart.release w.pool w.pool.elsewhere h
  case borrowElsewhere  =>
    show w.pool.borrowElsewhere.Apart
    unfold Pool.borrowElsewhere
    split
    case h_1 => exact h
    case h_2 => exact h.borrowed
  case reserveCamera    =>
    show w.pool.reserveCamera.Apart
    unfold Pool.reserveCamera
    split
    case isTrue     => exact h
    case isFalse hn => exact fun ha => absurd (.inr ha) hn
  case window           =>
    simp only [handler]
    split <;> exact h
  all_goals exact h

theorem Pool.Apart.run (run : Run handler (Op.perform board) none ok .zero (.boot pixels) es s w) :
    w.pool.Apart :=
  run.world_invariant (·.pool.Apart) (fun hn => absurd rfl hn) fun _ _ _ => apart_handler

end Display
