import HackyLens.Display.Theorems.Calm

-- No operation of the adapter, in any order, turns the stage's pointers to what is not the stage's.

namespace Display

open App (Result)
open Prog

def Pointer.Staged : Pointer → Prop
  | .null | .stage _ => True
  | _                => False

structure State.Rooted (s : State) : Prop where
  commands : s.stage.commands.Staged
  text : s.stage.text.Staged
  dirty : s.stage.dirty.Staged

abbrev Roots {α : Type} (p : Task α) : Prop :=
  Preserves State.Rooted p

variable {board : Board} {s : State} {session : Nat} {deadline : UInt64} {cancel : Nat}
variable {kind : PlaneKind} {α : Type}

theorem State.Rooted.zero : State.zero.Rooted :=
  ⟨trivial, trivial, trivial⟩

theorem State.Rooted.withPlane {plane : Plane} (h : s.Rooted) :
    (s.withPlane kind plane).Rooted := by
  cases kind <;> exact ⟨h.1, h.2, h.3⟩

namespace Roots

theorem onlyIf {b : Prop} [Decidable b] {p : Task Unit} (hp : b → Roots p) :
    Roots (onlyIf b p) :=
  Preserves.ite hp fun _ => .pure

-- What leaves the stage's pointers alone.
theorem modify {f : State → State} (hf : ∀ s, (f s).stage.commands = s.stage.commands ∧
    (f s).stage.text = s.stage.text ∧ (f s).stage.dirty = s.stage.dirty) : Roots (modify f) :=
  Preserves.modify fun s h => by
    obtain ⟨hc, ht, hd⟩ := hf s
    exact ⟨hc ▸ h.commands, ht ▸ h.text, hd ▸ h.dirty⟩

theorem setRects {pointer : Pointer} {rects : List Rect} : Roots (setRects pointer rects) := by
  refine .get fun s h => preserves_follow.bind fun _ => ?_
  cases pointer
  case null => exact .pure
  all_goals exact .set ⟨h.1, h.2, h.3⟩

theorem setCommands {pointer : Pointer} {commands : Nat → Command} :
    Roots (setCommands pointer commands) := by
  refine .get fun s h => preserves_follow.bind fun _ => ?_
  cases pointer
  case stage | overlay => exact .set ⟨h.1, h.2, h.3⟩
  all_goals exact .pure

theorem setText {pointer : Pointer} {text : Memory} : Roots (setText pointer text) := by
  refine .get fun s h => preserves_follow.bind fun _ => ?_
  cases pointer
  case stage | overlay => exact .set ⟨h.1, h.2, h.3⟩
  all_goals exact .pure

theorem modifyStage {f : Stage → Stage} (hf : ∀ stage, (f stage).commands = stage.commands ∧
    (f stage).text = stage.text ∧ (f stage).dirty = stage.dirty) : Roots (modifyStage f) :=
  modify fun s => hf s.stage

theorem workspaceAcquire : Roots workspaceAcquire := by
  refine .get fun s h => .ite (fun _ => .pure) fun _ => .bind .call fun g => ?_
  cases g
  case none => exact .pure
  case some => exact .bind (.set ⟨trivial, trivial, trivial⟩) fun _ => .pure

theorem workspaceReleaseIfIdle : Roots workspaceReleaseIfIdle :=
  .get fun _ _ => .ite (fun _ => .pure) fun _ =>
    .bind .call fun _ => .set ⟨trivial, trivial, trivial⟩

theorem overlayReset : Roots overlayReset :=
  modify fun _ => ⟨rfl, rfl, rfl⟩

theorem stageReset : Roots (stageReset board) :=
  modifyStage fun _ => ⟨rfl, rfl, rfl⟩

theorem surfaceReset : Roots surfaceReset :=
  modify fun _ => ⟨rfl, rfl, rfl⟩

theorem «open» {plane : Option PlaneKind} : Roots («open» session plane) := by
  refine .get fun s h => ?_
  cases plane
  case none => exact .pure
  case some kind =>
    refine .ite (fun _ => .pure) fun _ => .ite (fun _ => .pure) fun _ => ?_
    exact .bind (.set h.withPlane) fun _ => .pure

theorem setStream {active : Bool} : Roots (setStream active) :=
  modify fun _ => ⟨rfl, rfl, rfl⟩

theorem transportAbort : Roots transportAbort :=
  .get fun _ _ => .ite (fun _ => .bind .call fun _ => setStream) fun _ => .pure

theorem transportBegin {rect : Rect} : Roots (transportBegin board rect deadline) :=
  preserves_terminalResult.bind fun _ => .ite (fun _ => .pure) fun _ => .get fun _ _ =>
    .ite (fun _ => .pure) fun _ => .ite (fun _ => .pure) fun _ => .bind .call fun _ =>
      .ite (fun _ => preserves_transferFailure) fun _ => .bind .call fun _ =>
        .ite (fun _ => preserves_transferFailure) fun _ => setStream.bind fun _ => .pure

theorem transportWrite {pixels : List UInt16} : Roots (transportWrite pixels deadline cancel) :=
  preserves_terminalResult.bind fun _ => .ite (fun _ => transportAbort.bind fun _ => .pure) fun _ =>
    .get fun _ _ => .ite (fun _ => .pure) fun _ => .ite (fun _ => .pure) fun _ =>
      .bind .call fun _ => .ite (fun _ => transportAbort.bind fun _ => preserves_transferFailure)
        fun _ => preserves_terminalResult

theorem transportEnd : Roots (transportEnd deadline cancel) :=
  preserves_terminalResult.bind fun _ => .get fun _ _ => .ite (fun _ => .pure) fun _ =>
    .ite (fun _ => transportAbort.bind fun _ => .pure) fun _ => .bind .call fun _ =>
      setStream.bind fun _ => .ite (fun _ => preserves_transferFailure)
        fun _ => preserves_terminalResult

variable {base overlay : Option Layer} {progress : Bool}

theorem transferSpans {spans : List Span} :
    Roots (transferSpans board base overlay deadline cancel spans progress) := by
  induction spans generalizing progress with
  | nil => exact .pure
  | cons span spans ih =>
    refine preserves_terminalResult.bind fun _ => ?_
    refine .ite (fun _ => transportAbort.bind fun _ => .pure) fun _ => ?_
    refine preserves_renderSpan.bind fun _ => transportWrite.bind fun _ => ?_
    exact .ite (fun _ => transportAbort.bind fun _ => .pure) fun _ => ih

theorem transferRect {rect : Rect} :
    Roots (transferRect board rect base overlay deadline cancel progress) :=
  preserves_terminalResult.bind fun _ => .ite (fun _ => .pure) fun _ => transportBegin.bind fun _ =>
    .ite (fun _ => .pure) fun _ => transferSpans.bind fun _ => .ite (fun _ => .pure) fun _ =>
      transportEnd.bind fun _ => (onlyIf fun _ => transportAbort).bind fun _ => .pure

theorem transferRegions {regions : List Rect} :
    Roots (transferRegions board base overlay deadline cancel regions progress) := by
  induction regions generalizing progress with
  | nil => exact .pure
  | cons region regions ih => exact transferRect.bind fun _ => .ite (fun _ => .pure) fun _ => ih

theorem overlayFromStage : Roots overlayFromStage := by
  refine .get fun _ _ => preserves_follow.bind fun _ => preserves_follow.bind fun _ => ?_
  refine preserves_follow.bind fun _ => preserves_follow.bind fun _ => ?_
  refine preserves_follow.bind fun _ => setCommands.bind fun _ => setText.bind fun _ => ?_
  refine setRects.bind fun _ => ?_
  exact modify fun _ => ⟨rfl, rfl, rfl⟩

theorem shadowApply : Roots (shadowApply board) :=
  .get fun _ _ => preserves_readRects.bind fun _ => .forM fun _ =>
    preserves_renderSpan.bind fun _ => modify fun _ => ⟨rfl, rfl, rfl⟩

theorem begin : Roots (begin board session) :=
  .get fun _ _ => .ite (fun _ => .pure) fun _ => .ite (fun _ => .pure) fun _ =>
    .ite (fun _ => .pure) fun _ => workspaceAcquire.bind fun _ => .ite (fun _ => .pure) fun _ =>
      stageReset.bind fun _ =>
        (modifyStage (by exact fun _ => ⟨rfl, rfl, rfl⟩)).bind fun _ => .pure

theorem clip {rect : Option Rect} : Roots (clip board session rect) := by
  refine preserves_stageFor.bind fun _ => .ite (fun _ => .pure) fun _ => ?_
  have set {clip : Rect} : Roots do
      Display.modifyStage fun stage => { stage with clip }
      return Result.ok :=
    (modifyStage (by exact fun _ => ⟨rfl, rfl, rfl⟩)).bind fun _ => .pure
  cases rect
  case none => exact set
  case some => exact .ite (fun _ => .pure) fun _ => set

theorem appendCommand {command : Command} {text : List UInt8} {borrow : Option Borrow} :
    Roots (appendCommand session command text borrow) := by
  refine preserves_stageFor.bind fun _ => .ite (fun _ => .pure) fun _ => ?_
  refine .ite (fun _ => .pure) fun _ => .get fun _ _ => .ite (fun _ => .pure) fun _ => ?_
  refine .get fun _ _ => preserves_follow.bind fun _ => ?_
  split
  case h_1 => exact .pure
  case h_2 =>
    refine (onlyIf fun _ => preserves_follow.bind fun _ => setText).bind fun _ => ?_
    refine preserves_follow.bind fun _ => setCommands.bind fun _ => setRects.bind fun _ => ?_
    exact (modifyStage (by exact fun _ => ⟨rfl, rfl, rfl⟩)).bind fun _ => .pure

theorem clippedCommand {rect : Rect} {type : CommandType} {color : UInt16} {text : List UInt8} :
    Roots (clippedCommand session rect type color text) :=
  preserves_stageFor.bind fun _ => .ite (fun _ => .pure) fun _ => .ite (fun _ => .pure) fun _ =>
    .get fun _ _ => appendCommand

theorem clear {color : UInt16} : Roots (clear session color) :=
  preserves_stageFor.bind fun _ => .ite (fun _ => .pure) fun _ => .get fun _ _ => appendCommand

theorem text {bounds : Rect} {utf8 : Option (List UInt8)} {color : UInt16} :
    Roots (text session bounds utf8 color) := by
  cases utf8
  case none => exact .pure
  case some => exact .ite (fun _ => .pure) fun _ => clippedCommand

theorem blit {destination : Option Rect} {pixels : Option View} {rgb565 : Bool} :
    Roots (blit session destination pixels rgb565) := by
  cases destination <;> cases pixels
  case some.some =>
    refine .ite (fun _ => .pure) fun _ => preserves_stageFor.bind fun _ => ?_
    refine .ite (fun _ => .pure) fun _ => .get fun _ _ => .ite (fun _ => .pure) fun _ => ?_
    exact .ite (fun _ => .pure) fun _ => appendCommand
  all_goals exact .pure

theorem mark {rect : Option Rect} : Roots (mark board session rect) := by
  refine .get fun s h => .ite (fun _ => .pure) fun _ => .ite (fun _ => .pure) fun _ => ?_
  cases rect
  case none => exact .pure
  case some =>
    refine .ite (fun _ => .pure) fun _ => .ite (fun _ => preserves_follow.bind fun _ => ?_)
      fun _ => ?_
    · split
      case h_1 => exact .pure
      case h_2 =>
        refine setRects.bind fun _ => ?_
        exact (modifyStage (by exact fun _ => ⟨rfl, rfl, rfl⟩)).bind fun _ => .pure
    · split
      case h_1 => exact .pure
      case h_2 => exact .bind (.set ⟨h.1, h.2, h.3⟩) fun _ => .pure

theorem surface : Roots (surface session) := by
  refine .get fun s h => ?_
  split
  case h_1 | h_2 => exact .pure
  case h_3 =>
    refine .ite (fun _ => .pure) fun _ => .ite (fun _ => .pure) fun _ => ?_
    exact .bind (.set ⟨h.1, h.2, h.3⟩) fun _ => .pure

theorem repairRegions : Roots (repairRegions board kind deadline cancel) :=
  .get fun _ _ => preserves_readRects.bind fun _ => transferRegions

theorem clearRepair : Roots (clearRepair kind) :=
  Preserves.modify fun _ h => h.withPlane

theorem setRepair {regions : List Rect} : Roots (setRepair kind regions) :=
  .get fun _ _ => setRects.bind fun _ => Preserves.modify fun _ h => h.withPlane

variable {staged : Bool}

theorem commitLayer : Roots (commitLayer board kind staged) :=
  .ite (fun _ => overlayFromStage) fun _ => .ite (fun _ => shadowApply) fun _ => .pure

theorem nextGeneration : Roots (nextGeneration kind) := by
  refine Preserves.modify fun s h => ?_
  dsimp only
  split
  case isTrue  => exact h.withPlane
  case isFalse => exact h

theorem presentCommit : Roots (presentCommit board kind staged) :=
  commitLayer.bind fun _ => nextGeneration.bind fun _ =>
    .ite (fun _ => stageReset.bind fun _ => workspaceReleaseIfIdle) fun _ => surfaceReset

theorem presentTransfer :
    Roots (presentTransfer board kind staged deadline cancel progress) := by
  refine preserves_affectedRegions.bind fun affected => ?_
  cases affected
  case none => exact .pure
  case some =>
    refine preserves_presentLayers.bind fun _ => transferRegions.bind fun _ => ?_
    exact .ite (fun _ => (onlyIf fun _ => setRepair).bind fun _ => .pure) fun _ =>
      presentCommit.bind fun _ => .pure

theorem present : Roots (present board session deadline cancel) := by
  refine .ite (fun _ => .pure) fun _ => .get fun s _ => ?_
  split
  case h_1 => exact .pure
  case h_2 =>
    refine .ite (fun _ => .pure) fun _ => preserves_terminalResult.bind fun _ => ?_
    exact .ite (fun _ => .pure) fun _ => repairRegions.bind fun _ => .ite (fun _ => .pure) fun _ =>
      clearRepair.bind fun _ => presentTransfer

theorem abort : Roots (abort board session) :=
  .get fun _ _ => .ite (fun _ => .pure) fun _ =>
    .ite (fun _ => stageReset.bind fun _ => workspaceReleaseIfIdle.bind fun _ => .pure) fun _ =>
      .ite (fun _ => surfaceReset.bind fun _ => .pure) fun _ => .pure

theorem checkpoint : Roots (checkpoint session) :=
  preserves_stageFor.bind fun _ => .ite (fun _ => .pure) fun _ => .get fun _ _ =>
    (modifyStage (by exact fun _ => ⟨rfl, rfl, rfl⟩)).bind fun _ => .pure

theorem dirtyRebuild : Roots dirtyRebuild :=
  .get fun _ _ => .ite (fun _ => modifyStage fun _ => ⟨rfl, rfl, rfl⟩) fun _ =>
    preserves_follow.bind fun _ => setRects.bind fun _ => modifyStage fun _ => ⟨rfl, rfl, rfl⟩

theorem saveFirst : Roots saveFirst :=
  .get fun _ _ => preserves_follow.bind fun _ => modifyStage fun _ => ⟨rfl, rfl, rfl⟩

theorem putFirst {command : Command} : Roots (putFirst command) :=
  .get fun _ _ => preserves_follow.bind fun _ => setCommands

theorem restore {commands textBytes : Nat} : Roots (restore session commands textBytes) := by
  refine preserves_stageFor.bind fun _ => .ite (fun _ => .pure) fun _ => ?_
  refine .ite (fun _ => .pure) fun _ => .get fun _ _ => (onlyIf fun _ => saveFirst).bind fun _ => ?_
  refine .get fun _ _ => (onlyIf fun _ => putFirst).bind fun _ => ?_
  refine (modifyStage ?_).bind fun _ => dirtyRebuild.bind fun _ => .pure
  exact fun _ => ⟨rfl, rfl, rfl⟩

theorem keepLastClear : Roots (keepLastClear session) := by
  refine preserves_stageFor.bind fun _ => .ite (fun _ => .pure) fun _ => .get fun _ _ => ?_
  refine .ite (fun _ => .pure) fun _ => preserves_follow.bind fun _ => ?_
  refine .ite (fun _ => .pure) fun _ => (onlyIf fun _ => saveFirst).bind fun _ => ?_
  refine putFirst.bind fun _ => ?_
  refine (modifyStage ?_).bind fun _ => dirtyRebuild.bind fun _ => .pure
  exact fun _ => ⟨rfl, rfl, rfl⟩

theorem dropStage : Roots (dropStage board session) :=
  .get fun _ _ => onlyIf fun _ => stageReset

theorem dropSurface : Roots (dropSurface session) :=
  .get fun _ _ => onlyIf fun _ => surfaceReset

theorem dropPlane : Roots (dropPlane kind) :=
  (onlyIf fun _ => overlayReset).bind fun _ => Preserves.modify fun _ h => h.withPlane

theorem close : Roots (close board session deadline) := by
  refine .get fun s _ => ?_
  split
  case h_1 => exact .pure
  case h_2 =>
    refine preserves_terminalResult.bind fun _ => .ite (fun _ => .pure) fun _ => ?_
    refine (onlyIf fun _ => stageReset.bind fun _ => workspaceReleaseIfIdle).bind fun _ => ?_
    refine dropSurface.bind fun _ => preserves_cleanupRegions.bind fun _ => ?_
    refine transferRegions.bind fun _ => .ite (fun _ => .pure) fun _ => dropPlane.bind fun _ => ?_
    exact workspaceReleaseIfIdle.bind fun _ => .pure

theorem retire : Roots (retire board session) := by
  refine .get fun s _ => dropStage.bind fun _ => dropSurface.bind fun _ => ?_
  refine .bind ?_ fun _ => workspaceReleaseIfIdle
  cases s.findPlane session
  case none => exact .pure
  case some => exact dropPlane

theorem perform {op : Op} : Roots (op.perform board) := by
  cases op with
  | «open»           => exact «open».map
  | begin            => exact begin.map
  | clip             => exact clip.map
  | clear            => exact clear.map
  | fill             => exact clippedCommand.map
  | stroke           => exact clippedCommand.map
  | text             => exact text.map
  | blit             => exact blit.map
  | mark             => exact mark.map
  | surface          => exact surface.map
  | present          => exact present.map
  | abort            => exact abort.map
  | checkpoint       => exact checkpoint.map
  | restore          => exact restore.map
  | keepLastClear    => exact keepLastClear.map
  | close            => exact close.map
  | retire           => exact retire.map
  | reserveCamera    => exact Preserves.call.map
  | releaseCamera    => exact Preserves.call.map
  | borrowElsewhere  => exact Preserves.call.map
  | releaseElsewhere => exact Preserves.call.map

end Roots
end Display
