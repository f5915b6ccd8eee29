import HackyLens.Display.Adapter
import HackyLens.Display.Frame
import HackyLens.Display.Theorems.Workspace
import HackyLens.Lib.Wp

-- What the operations of a batch do to its frame.

namespace Display

open App (Result)
open Prog

def State.frame (s : State) : Frame where
  commands := (List.range s.stage.commandCount).map s.memory.stageCommands
  text     := s.memory.stageText.read 0 s.stage.textBytes
  dirty    := s.memory.stageDirty.take s.stage.dirtyCount

def State.committed (s : State) : Frame where
  commands := (List.range s.overlay.commandCount).map s.memory.overlayCommands
  text     := s.memory.overlayText.read 0 s.overlay.textBytes
  dirty    := s.memory.overlayDirty.take s.overlay.dirtyCount

-- The session's batch for the overlay is open.
structure Staging (session : Nat) (s : State) : Prop where
  real : session ≠ 0
  base : s.base.active = true → s.base.session ≠ session
  active : s.overlayPlane.active = true
  owner : s.overlayPlane.session = session
  kind : s.stage.kind = .batch
  stage : s.stage.session = session
  workspace : s.workspace ≠ 0
  bound : s.Bound

-- The state without the content of the batch.
def State.rest (s : State) : State :=
  { s with
    stage := { s.stage with
      borrow := .none
      commandCount := 0
      textBytes := 0
      dirtyCount := 0
      rollbackFirst := .zero
      rollbackFirstValid := false }
    memory := { s.memory with
      stageCommands := fun _ => .zero
      stageText := fun _ => 0
      stageDirty := [] } }

variable {E : Env Call Call.Reply World Decision} {s s' s'' : State} {w : World} {session : Nat}
variable {frame : Frame} {command : Command} {text : List UInt8}

theorem Staging.rest : Staging session s.rest ↔ Staging session s := by
  constructor <;> intro h
  all_goals
    have hb := h.bound
    exact ⟨h.1, h.2, h.3, h.4, h.5, h.6, h.7, ⟨hb.1, hb.2, hb.3, hb.4, hb.5, hb.6, hb.7, hb.8⟩⟩

theorem Staging.of_rest (h : Staging session s) (hr : s'.rest = s.rest) : Staging session s' := by
  rw [← Staging.rest, hr]
  exact Staging.rest.mpr h

theorem committed_of_rest (hr : s'.rest = s.rest) : s'.committed = s.committed := by
  show s'.rest.committed = s.rest.committed
  rw [hr]

section Execution

variable {Q : Result → State → World → Prop} {α : Type}

@[simp]
theorem wp_follow {a : α} {Q : α → State → World → Prop} :
    wp E (follow (some a)) Q = Q a :=
  rfl

@[simp]
theorem wp_onlyIf {b : Prop} [Decidable b] {p : Task Unit} {Q : Unit → State → World → Prop} :
    wp E (onlyIf b p) Q = if b then wp E p Q else Q () := by
  unfold onlyIf
  split <;> rfl

@[simp]
theorem wp_modifyStage {f : Stage → Stage} {Q : Unit → State → World → Prop} :
    wp E (modifyStage f) Q = fun s => Q () { s with stage := f s.stage } :=
  rfl

theorem Staging.holds (h : Staging session s) : s.holds s.workspace = true := by
  simp [State.holds, h.bound.workspaceBorrow, h.workspace]

theorem Staging.commandsAt (h : Staging session s) :
    s.commandsAt s.stage.commands = some s.memory.stageCommands := by
  simp [State.commandsAt, h.bound.stageCommands, h.holds]

theorem Staging.textAt (h : Staging session s) :
    s.textAt s.stage.text = some s.memory.stageText := by
  simp [State.textAt, h.bound.stageText, h.holds]

theorem Staging.rectsAt (h : Staging session s) :
    s.rectsAt s.stage.dirty = some s.memory.stageDirty := by
  simp [State.rectsAt, h.bound.stageDirty, h.holds]

variable {p : Pointer}

theorem Staging.wp_setCommands (h : Staging session s) {commands : Nat → Command}
    {Q : Unit → State → World → Prop} (hp : p = s.stage.commands)
    (hq : Q () { s with memory.stageCommands := commands } w) :
    wp E (setCommands p commands) Q s w := by
  rw [setCommands, wp_bind, wp_get]
  beta_reduce
  rw [hp, h.commandsAt, h.bound.stageCommands]
  exact hq

theorem Staging.wp_setText (h : Staging session s) {text : Memory} {Q : Unit → State → World → Prop}
    (hp : p = s.stage.text) (hq : Q () { s with memory.stageText := text } w) :
    wp E (setText p text) Q s w := by
  rw [setText, wp_bind, wp_get]
  beta_reduce
  rw [hp, h.textAt, h.bound.stageText]
  exact hq

theorem Staging.wp_setRects (h : Staging session s) {rects : List Rect}
    {Q : Unit → State → World → Prop} (hp : p = s.stage.dirty)
    (hq : Q () { s with memory.stageDirty := rects } w) : wp E (setRects p rects) Q s w := by
  rw [setRects, wp_bind, wp_get]
  beta_reduce
  rw [hp, h.rectsAt, h.bound.stageDirty]
  exact hq

theorem Staging.findPlane (h : Staging session s) : s.findPlane session = some .overlay := by
  unfold State.findPlane
  rw [if_neg h.real, if_neg fun hb => h.base hb.left hb.right, if_pos ⟨h.active, h.owner⟩]

theorem Staging.staged (h : Staging session s) : s.staged session = true := by
  simp [State.staged, h.kind, h.real, h.stage]

theorem Staging.wp_stageFor (h : Staging session s) : wp E (stageFor session) Q s w = Q .ok s w := by
  unfold stageFor
  rw [wp_bind, wp_get]
  beta_reduce
  rw [h.findPlane, h.staged]
  rfl

end Execution

theorem frame_length : s.frame.commands.length = s.stage.commandCount := by
  simp [State.frame]

theorem frame_text_length : s.frame.text.length = s.stage.textBytes :=
  Memory.read_length

-- As many regions are counted as there are.
def State.Counted (s : State) : Prop :=
  s.frame.dirty.length = s.stage.dirtyCount

-- What an operation that stores commands leaves of what was there before.
structure Above (s s' : State) (text : List UInt8) : Prop where
  rest : s'.rest = s.rest
  rollbackFirst : s'.stage.rollbackFirst = s.stage.rollbackFirst
  rollbackFirstValid : s'.stage.rollbackFirstValid = s.stage.rollbackFirstValid
  commandCount : s.stage.commandCount ≤ s'.stage.commandCount
  textBytes : s.stage.textBytes ≤ s'.stage.textBytes
  commands : ∀ i, i ≠ s.stage.commandCount → s'.memory.stageCommands i = s.memory.stageCommands i
  text : ∀ a, a < s.stage.textBytes ∨ text = [] → s'.memory.stageText a = s.memory.stageText a
  counted : s.Counted → s'.Counted

-- One more command has been stored, or it has been refused.
def Appended (command : Command) (text : List UInt8) (s : State) (result : Result) (s' : State) :
    Prop :=
  match s.frame.append command text with
  | none       => result = .limit ∧ s' = s
  | some frame => result = .ok ∧ s'.frame = frame ∧ Above s s' text

theorem Above.refl : Above s s text where
  rest               := rfl
  rollbackFirst      := rfl
  rollbackFirstValid := rfl
  commandCount       := le_rfl
  textBytes          := le_rfl
  commands _ _       := rfl
  text _ _           := rfl
  counted            := id

-- The text behind that of the batch.
def State.textMemory (s : State) (text : List UInt8) : Memory :=
  s.memory.stageText.overlay s.stage.textBytes text.length fun a => text.getD (a - s.stage.textBytes) 0

theorem textMemory_nil : s.textMemory [] = s.memory.stageText :=
  funext fun _ => Memory.overlay_apply_of_not_mem (by simp)

theorem read_textMemory :
    (s.textMemory text).read 0 (s.stage.textBytes + text.length) =
      s.memory.stageText.read 0 s.stage.textBytes ++ text := by
  rw [← Memory.read_append, Nat.zero_add]
  congr 1
  · exact Memory.read_overlay_disjoint (.inl (by simp))
  · rw [State.textMemory, Memory.read_overlay le_rfl le_rfl]
    refine Memory.read_eq rfl fun i hi => ?_
    simp [hi]

theorem Staging.wp_storeText (h : Staging session s) {Q : Unit → State → World → Prop}
    (hq : Q () { s with memory.stageText := s.textMemory text } w) :
    wp E (onlyIf (text ≠ []) do
      let old ← follow (s.textAt s.stage.text)
      setText s.stage.text
        (old.overlay s.stage.textBytes text.length fun a => text.getD (a - s.stage.textBytes) 0))
      Q s w := by
  rw [wp_onlyIf]
  split
  case isTrue     =>
    rw [wp_bind, h.textAt, wp_follow]
    exact h.wp_setText rfl hq
  case isFalse ht =>
    rw [not_not.mp ht, textMemory_nil] at hq
    exact hq

theorem append_eq (hr : command.rect.empty = false)
    (hl : ¬(s.stage.commandCount ≥ maxCommands ∨ text.length > maxTextBytes - s.stage.textBytes)) :
    s.frame.append command text = (dirtyAdd s.frame.dirty command.rect).map fun dirty =>
      ⟨s.frame.commands ++ [command.place s.stage.textBytes text], s.frame.text ++ text, dirty⟩ := by
  unfold Frame.append
  rw [if_neg (by simp [hr]), frame_length, frame_text_length, if_neg hl]

theorem append_eq_none (hr : command.rect.empty = false)
    (hl : s.stage.commandCount ≥ maxCommands ∨ text.length > maxTextBytes - s.stage.textBytes) :
    s.frame.append command text = none := by
  unfold Frame.append
  rw [if_neg (by simp [hr]), frame_length, frame_text_length, if_pos hl]

theorem Appended.refused (hf : s.frame.append command text = none) :
    Appended command text s .limit s := by
  rw [Appended, hf]
  exact ⟨rfl, rfl⟩

-- The state after a command has been stored.
def State.store (s : State) (command : Command) (text : List UInt8) (dirty : List Rect) : State :=
  { s with
    memory := { s.memory with
      stageText := s.textMemory text
      stageCommands := fun i =>
        if i = s.stage.commandCount then command.place s.stage.textBytes text
        else s.memory.stageCommands i
      stageDirty := dirty }
    stage := { s.stage with
      commandCount := s.stage.commandCount + 1
      textBytes := s.stage.textBytes + text.length
      dirtyCount := dirty.length } }

theorem store_frame {dirty : List Rect} : (s.store command text dirty).frame =
    ⟨s.frame.commands ++ [command.place s.stage.textBytes text], s.frame.text ++ text, dirty⟩ := by
  ext1
  · simp only [State.frame, State.store, List.range_succ, List.map_append, List.map_singleton,
      if_true]
    refine congrArg (· ++ _) (List.map_congr_left fun i hi => if_neg ?_)
    exact (List.mem_range.mp hi).ne
  · exact read_textMemory
  · exact List.take_length

theorem store_above {dirty : List Rect} : Above s (s.store command text dirty) text where
  rest               := rfl
  rollbackFirst      := rfl
  rollbackFirstValid := rfl
  commandCount       := Nat.le_succ _
  textBytes          := Nat.le_add_right _ _
  commands i hi      := if_neg hi
  text a ha          := by
    obtain ha | rfl := ha
    · exact if_neg fun hn => Nat.not_lt.mpr hn.left ha
    · exact congrFun textMemory_nil a
  counted _          := by
    rw [State.Counted, store_frame]
    rfl

theorem Appended.stored {dirty : List Rect} (hr : command.rect.empty = false)
    (hl : ¬(s.stage.commandCount ≥ maxCommands ∨ text.length > maxTextBytes - s.stage.textBytes))
    (hd : dirtyAdd s.frame.dirty command.rect = some dirty) :
    Appended command text s .ok (s.store command text dirty) := by
  rw [Appended, append_eq hr hl, hd]
  exact ⟨rfl, store_frame, store_above⟩

theorem wp_appendCommand (h : Staging session s) :
    wp E (appendCommand session command text none)
      (fun result s' w' => w' = w ∧ Appended command text s result s') s w := by
  rw [appendCommand, wp_bind, h.wp_stageFor, wp_ite, if_neg (by decide), wp_ite]
  split
  case isTrue hr => 
    have hf : s.frame.append command text = some s.frame := if_pos hr
    refine ⟨rfl, ?_⟩
    rw [Appended, hf]
    exact ⟨rfl, rfl, .refl⟩
  case isFalse hr =>
    have hr : command.rect.empty = false := Bool.eq_false_iff.mpr hr
    rw [wp_bind, wp_get]
    beta_reduce
    rw [wp_ite]
    split
    case isTrue hl =>
      have hl : s.stage.commandCount ≥ maxCommands ∨
          text.length > maxTextBytes - s.stage.textBytes := by simpa using hl
      exact ⟨rfl, .refused (append_eq_none hr hl)⟩
    case isFalse hl =>
      have hl : ¬(s.stage.commandCount ≥ maxCommands ∨
          text.length > maxTextBytes - s.stage.textBytes) := by simpa using hl
      rw [wp_bind, wp_get]
      beta_reduce
      rw [wp_bind, h.rectsAt, wp_follow]
      split
      case h_1 hd =>
        refine ⟨rfl, .refused ?_⟩
        rw [append_eq hr hl]
        exact Option.map_eq_none_iff.mpr hd
      case h_2 dirty hd =>
        show wp E (onlyIf _ _ >>= _) _ s w
        rw [wp_bind]
        refine h.wp_storeText ?_
        rw [wp_bind, h.commandsAt, wp_follow, wp_bind]
        refine Staging.wp_setCommands (by exact h.of_rest rfl) rfl ?_
        rw [wp_bind]
        refine Staging.wp_setRects (by exact h.of_rest rfl) rfl ?_
        rw [wp_bind, wp_modifyStage]
        exact ⟨rfl, .stored hr hl hd⟩

theorem wp_clippedCommand (h : Staging session s) {rect : Rect} {type : CommandType}
    {color : UInt16} (hv : rect.valid = true) :
    wp E (clippedCommand session rect type color text) (fun result s' w' => w' = w ∧
      Appended ⟨type, color, 0, 0, rect.intersection s.stage.clip⟩ text s result s') s w := by
  rw [clippedCommand, wp_bind, h.wp_stageFor, wp_ite, if_neg (by decide), wp_ite,
    if_neg (not_not.mpr hv), wp_bind, wp_get]
  exact wp_appendCommand h

theorem wp_clippedCommand_invalid {Q : Result → State → World → Prop} (h : Staging session s)
    {rect : Rect} {type : CommandType} {color : UInt16} (hv : ¬rect.valid = true)
    (hq : Q .invalidArgument s w) :
    wp E (clippedCommand session rect type color text) Q s w := by
  rw [clippedCommand, wp_bind, h.wp_stageFor, wp_ite, if_neg (by decide), wp_ite, if_pos hv]
  exact hq

theorem wp_clear (h : Staging session s) {color : UInt16} :
    wp E (clear session color) (fun result s' w' => w' = w ∧
      Appended ⟨.clear, color, 0, 0, s.stage.clip⟩ [] s result s') s w := by
  rw [clear, wp_bind, h.wp_stageFor, wp_ite, if_neg (by decide), wp_bind, wp_get]
  exact wp_appendCommand h

section Rollback

-- The frame can be restored from what is there.
structure Recoverable (frame : Frame) (s : State) : Prop where
  first : 0 < frame.commands.length →
    (if s.stage.rollbackFirstValid then s.stage.rollbackFirst else s.memory.stageCommands 0) =
      frame.commands.getD 0 .zero
  others : ∀ i, 0 < i → i < frame.commands.length →
    s.memory.stageCommands i = frame.commands.getD i .zero
  text : ∀ a < frame.text.length, s.memory.stageText a = frame.text.getD a 0

theorem frame_getD {i : Nat} (hi : i < s.stage.commandCount) :
    s.frame.commands.getD i .zero = s.memory.stageCommands i := by
  simp [State.frame, hi]

theorem frame_text_getD {a : Nat} (ha : a < s.stage.textBytes) :
    s.frame.text.getD a 0 = s.memory.stageText a := by
  simp [State.frame, Memory.read, ha]

theorem Recoverable.self (hv : s.stage.rollbackFirstValid = false) : Recoverable s.frame s where
  first hn := by
    rw [frame_length] at hn
    rw [frame_getD hn, if_neg (by simp [hv])]
  others i _ hi := (frame_getD (frame_length (s := s) ▸ hi)).symm
  text a ha := (frame_text_getD (frame_text_length (s := s) ▸ ha)).symm

-- What is stored above the frame, or in the place of a first command that was saved, does no harm.
theorem Recoverable.above (h : Recoverable frame s) (ha : Above s s' text)
    (hc : frame.commands.length ≤ s.stage.commandCount ∨ s.stage.commandCount = 0 ∧
      (s.stage.rollbackFirstValid = true ∨ frame.commands = []))
    (ht : frame.text.length ≤ s.stage.textBytes ∨ text = []) : Recoverable frame s' where
  first hn := by
    rw [ha.rollbackFirst, ha.rollbackFirstValid, ← h.first hn]
    split
    case isTrue     => rfl
    case isFalse hv =>
      refine ha.commands 0 fun hz => ?_
      obtain hc | ⟨-, hc | hc⟩ := hc
      · omega
      · exact hv hc
      · simp [hc] at hn
  others i hp hi := by
    rw [← h.others i hp hi]
    exact ha.commands i (by omega)
  text a hi := by
    rw [← h.text a hi]
    exact ha.text a (ht.imp_left hi.trans_le)

def State.checkpointed (s : State) : State :=
  { s with stage.rollbackFirstValid := false }

theorem Recoverable.checkpointed : Recoverable s.frame s.checkpointed :=
  Recoverable.self (s := s.checkpointed) rfl

theorem wp_checkpoint (h : Staging session s) {Q : Result × Option (Nat × Nat) → State → World → Prop}
    (hq : Q (.ok, some (s.frame.commands.length, s.frame.text.length)) s.checkpointed w) :
    wp E (checkpoint session) Q s w := by
  rw [frame_length, frame_text_length] at hq
  rw [checkpoint, wp_bind, h.wp_stageFor, wp_ite, if_neg (by decide), wp_bind, wp_get]
  beta_reduce
  rw [wp_bind, wp_modifyStage]
  exact hq

-- The state after the damage has been replaced.
def State.damaged (s : State) (dirty : List Rect) (count : Nat) : State :=
  { s with memory.stageDirty := dirty, stage.dirtyCount := count }

theorem damaged_above {dirty : List Rect} {count : Nat} (hc : count ≤ dirty.length) :
    Above s (s.damaged dirty count) [] where
  rest               := rfl
  rollbackFirst      := rfl
  rollbackFirstValid := rfl
  commandCount       := le_rfl
  textBytes          := le_rfl
  commands _ _       := rfl
  text _ _           := rfl
  counted _          := List.length_take_of_le hc

theorem wp_dirtyRebuild (h : Staging session s) :
    wp E dirtyRebuild (fun _ s' w' => w' = w ∧ Above s s' [] ∧ s'.Counted ∧
      s'.frame = { s.frame with dirty := dirtyAddAny [] (s.frame.commands.map (·.rect)) }) s w := by
  have hr : (List.range s.stage.commandCount).map (fun i => (s.memory.stageCommands i).rect) =
      s.frame.commands.map (·.rect) := by
    rw [State.frame, List.map_map]
    rfl
  rw [dirtyRebuild, wp_bind, wp_get]
  beta_reduce
  rw [wp_ite]
  split
  case isTrue hz =>
    rw [wp_modifyStage]
    refine ⟨rfl, damaged_above (Nat.zero_le s.memory.stageDirty.length), ?_, ?_⟩
    · exact List.length_take_of_le (Nat.zero_le _)
    ext1
    · rfl
    · rfl
    · rw [← hr, hz]
      exact List.take_zero (l := s.memory.stageDirty)
  case isFalse =>
    rw [wp_bind, h.commandsAt, wp_follow]
    show wp E (setRects _ _ >>= _) _ s w
    rw [wp_bind]
    refine h.wp_setRects rfl ?_
    rw [wp_modifyStage, hr]
    refine ⟨rfl, damaged_above le_rfl, List.length_take_of_le le_rfl, ?_⟩
    ext1
    · rfl
    · rfl
    · exact List.take_length

-- The state after the counts have been set.
def State.withCounts (s : State) (commands textBytes : Nat) (borrow : Borrow) : State :=
  { s with stage := { s.stage with commandCount := commands, textBytes, borrow } }

-- The first command has been saved.
def State.firstSaved (s : State) : State :=
  { s with
    stage.rollbackFirst := s.memory.stageCommands 0
    stage.rollbackFirstValid := true }

theorem Staging.wp_saveFirst (h : Staging session s) {Q : Unit → State → World → Prop} :
    wp E saveFirst Q s w = Q () s.firstSaved w := by
  rw [saveFirst, wp_bind, wp_get]
  beta_reduce
  rw [wp_bind, h.commandsAt, wp_follow, wp_modifyStage]
  rfl

theorem Recoverable.firstSaved : Recoverable s.frame s.firstSaved where
  first hn       := (frame_getD (frame_length (s := s) ▸ hn)).symm
  others _ _ hi  := (frame_getD (frame_length (s := s) ▸ hi)).symm
  text _ ha      := (frame_text_getD (frame_text_length (s := s) ▸ ha)).symm

-- Everything is dropped, but the first command is saved.
theorem wp_restore_zero (h : Staging session s) :
    wp E (restore session 0 0) (fun result s' w' => w' = w ∧ result = .ok ∧ s'.rest = s.rest ∧
      s'.frame = .empty ∧ s'.Counted ∧ Recoverable s.frame s' ∧
      (s'.stage.rollbackFirstValid = true ∨ s.frame.commands = [])) s w := by
  have rebuild {s₁ : State} (hs : s₁.rest = s.rest) (hr : Recoverable s.frame s₁)
      (hv : s₁.stage.rollbackFirstValid = true ∨ s.frame.commands = []) :
      wp E dirtyRebuild (fun _ s' w' => w' = w ∧ Result.ok = .ok ∧ s'.rest = s.rest ∧
        s'.frame = .empty ∧ s'.Counted ∧ Recoverable s.frame s' ∧
        (s'.stage.rollbackFirstValid = true ∨ s.frame.commands = [])) (s₁.withCounts 0 0 .none) w := by
    refine wp_mono (wp_dirtyRebuild (by exact h.of_rest hs)) ?_
    rintro - s' w' ⟨hw, ha, hc, hf⟩
    refine ⟨hw, rfl, ha.rest.trans hs, hf, hc, ?_, ha.rollbackFirstValid ▸ hv⟩
    have hr : Recoverable s.frame (s₁.withCounts 0 0 .none) := ⟨hr.first, hr.others, hr.text⟩
    exact hr.above ha (.inr ⟨rfl, hv⟩) (.inr rfl)
  rw [restore, wp_bind, h.wp_stageFor, wp_ite, if_neg (by decide), wp_ite, if_neg (by decide),
    wp_bind, wp_get]
  beta_reduce
  rw [wp_bind, wp_onlyIf]
  split
  case isTrue hc =>
    rw [h.wp_saveFirst, wp_bind, wp_get]
    beta_reduce
    rw [wp_bind, wp_onlyIf, if_neg (by simp), wp_bind, wp_modifyStage, wp_bind]
    exact rebuild rfl .firstSaved (.inl rfl)
  case isFalse hc =>
    have hz : s.stage.commandCount = 0 := by simpa using hc
    have hn : s.frame.commands = [] := List.length_eq_zero_iff.mp (frame_length.trans hz)
    rw [wp_bind, wp_get]
    beta_reduce
    rw [wp_bind, wp_onlyIf, if_neg (by simp), wp_bind, wp_modifyStage, wp_bind]
    refine rebuild rfl ?_ (.inr hn)
    exact {
      first hp      := by simp [hn] at hp
      others _ _ hi := by simp [hn] at hi
      text _ ha     := (frame_text_getD (frame_text_length (s := s) ▸ ha)).symm }

theorem withCounts_frame (borrow : Borrow)
    (hc : ∀ i < frame.commands.length, s.memory.stageCommands i = frame.commands.getD i .zero)
    (ht : ∀ a < frame.text.length, s.memory.stageText a = frame.text.getD a 0) :
    (s.withCounts frame.commands.length frame.text.length borrow).frame.commands = frame.commands ∧
      (s.withCounts frame.commands.length frame.text.length borrow).frame.text = frame.text := by
  constructor
  · refine List.ext_getElem (by simp [State.frame, State.withCounts]) fun i _ hi => ?_
    simpa [State.frame, State.withCounts, hi] using hc i hi
  · refine Memory.read_eq rfl fun a ha => ?_
    simpa [State.withCounts, ha] using ht a ha

theorem wp_restore (h : Staging session s) (hf : frame.Built) (hr : Recoverable frame s) :
    wp E (restore session frame.commands.length frame.text.length) (fun result s' w' => w' = w ∧
      result = .ok ∧ s'.rest = s.rest ∧ s'.frame = frame ∧ s'.Counted) s w := by
  cases hz : frame.commands.length with
  | zero   =>
    have hn : frame.commands = [] := List.length_eq_zero_iff.mp hz
    have he : frame = .empty := by
      have hd := hf.dirty
      rw [hn] at hd
      ext1
      · exact hn
      · exact hf.unused hn
      · exact (Option.some_inj.mp hd).symm
    rw [he]
    exact wp_mono (wp_restore_zero h) fun _ _ _ ⟨hw, hr, hs, hf, hc, _⟩ =>
      ⟨hw, hr, hs, hf, hc⟩
  | succ n =>
    rw [← hz]
    have hn : frame.commands.length ≠ 0 := hz ▸ Nat.succ_ne_zero n
    have rebuild {s₁ : State} {borrow : Borrow} (hs : s₁.rest = s.rest)
        (hc : ∀ i < frame.commands.length,
          s₁.memory.stageCommands i = frame.commands.getD i .zero)
        (ht : ∀ a < frame.text.length, s₁.memory.stageText a = frame.text.getD a 0) :
        wp E dirtyRebuild (fun _ s' w' => w' = w ∧ Result.ok = .ok ∧ s'.rest = s.rest ∧
          s'.frame = frame ∧ s'.Counted) (s₁.withCounts frame.commands.length frame.text.length borrow) w := by
      refine wp_mono (wp_dirtyRebuild (by exact h.of_rest hs)) ?_
      rintro - s' w' ⟨hw, ha, hc', hd⟩
      refine ⟨hw, rfl, ha.rest.trans hs, ?_, hc'⟩
      have hf' := withCounts_frame borrow hc ht
      rw [hd, hf'.left, dirtyAddAny_eq hf.dirty]
      ext1
      · exact hf'.left
      · exact hf'.right
      · rfl
    rw [restore, wp_bind, h.wp_stageFor, wp_ite, if_neg (by decide), wp_ite,
      if_neg (by have := hf.commands; have := hf.text; omega), wp_bind, wp_get]
    beta_reduce
    rw [wp_bind, wp_onlyIf, if_neg (by simp [hn]), wp_bind, wp_get]
    beta_reduce
    rw [wp_bind, wp_onlyIf]
    split
    case isTrue hv =>
      have hv : s.stage.rollbackFirstValid = true := hv.left
      rw [putFirst, wp_bind, wp_get]
      beta_reduce
      rw [wp_bind, h.commandsAt, wp_follow]
      refine h.wp_setCommands rfl ?_
      rw [wp_bind, wp_modifyStage, wp_bind]
      refine rebuild rfl (fun i hi => ?_) hr.text
      obtain rfl | hp := Nat.eq_zero_or_pos i
      · have hf := hr.first hi
        rwa [if_pos hv] at hf
      · exact (if_neg hp.ne').trans (hr.others i hp hi)
    case isFalse hv =>
      have hv : ¬s.stage.rollbackFirstValid = true := fun hv' => hv ⟨hv', hn⟩
      rw [wp_bind, wp_modifyStage, wp_bind]
      refine rebuild rfl (fun i hi => ?_) hr.text
      obtain rfl | hp := Nat.eq_zero_or_pos i
      · have hf := hr.first hi
        rwa [if_neg hv] at hf
      · exact hr.others i hp hi

end Rollback
end Display
