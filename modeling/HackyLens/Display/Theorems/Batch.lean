import HackyLens.Display.Theorems.Staging
import HackyLens.Display.Theorems.Rooted

-- What a drawing or a mark call can do to the batch that is open.

namespace Display

open App (Result)
open Prog

-- A command as it is handed to `append_command`.
structure Draft where
  command : Command
  text : List UInt8
  borrow : Option Borrow

-- What `k210_display_blit` checks of its arguments.
def blitValid (destination : Rect) (pixels : View) (rgb565 : Bool) : Bool :=
  rgb565 && destination.valid && destination.width * 2 ≤ 0xFFFFFFFF &&
    destination.width * 2 ≤ pixels.strideBytes && pixels.aligned && pixels.strideBytes % 2 != 1

-- The bytes that the pixels of a destination take.
def blitRequired (destination : Rect) (pixels : View) : Nat :=
  if destination.height = 0 then 0
  else (destination.height - 1) * pixels.strideBytes + destination.width * 2

def blitBorrow (clip destination : Rect) (pixels : View) : Borrow where
  data        := pixels.data
  sizeBytes   := pixels.sizeBytes
  strideBytes := pixels.strideBytes
  sourceX     := ((destination.intersection clip).x - destination.x).toNat
  sourceY     := ((destination.intersection clip).y - destination.y).toNat
  active      := true

-- The command of a valid call under a clip, and the session that makes it.
inductive Op.Drafts (clip : Rect) (plane : PlaneKind) : Op → Nat → Draft → Prop
  | clear {session color} :
    Drafts clip plane (.clear session color) session ⟨⟨.clear, color, 0, 0, clip⟩, [], none⟩
  | fill {session rect color} : rect.valid →
    Drafts clip plane (.fill session rect color) session
      ⟨⟨.fill, color, 0, 0, rect.intersection clip⟩, [], none⟩
  | stroke {session rect color} : rect.valid →
    Drafts clip plane (.stroke session rect color) session
      ⟨⟨.stroke, color, 0, 0, rect.intersection clip⟩, [], none⟩
  | text {session rect utf8 color} : rect.valid → utf8.length ≤ 0xFFFF →
    Drafts clip plane (.text session rect (some utf8) color) session
      ⟨⟨.text, color, 0, 0, rect.intersection clip⟩, utf8, none⟩
  | blit {session rect pixels} : blitValid rect pixels true → plane = .base →
    blitRequired rect pixels ≤ pixels.sizeBytes →
    Drafts clip plane (.blit session (some rect) (some pixels) true) session
      ⟨⟨.blit, 0, 0, 0, rect.intersection clip⟩, [], some (blitBorrow clip rect pixels)⟩

-- One of the limits of the batch, but not that of the regions, is exceeded.
def State.Full (s : State) (draft : Draft) : Prop :=
  s.stage.commandCount ≥ maxCommands ∨ draft.text.length > maxTextBytes - s.stage.textBytes ∨
    (draft.borrow.isSome ∧ s.stage.borrow.active)

-- The state after a command has been stored.
def State.append (s : State) (draft : Draft) (dirty : List Rect) : State :=
  { s.store draft.command draft.text dirty with
    stage := { (s.store draft.command draft.text dirty).stage with
      borrow := draft.borrow.getD s.stage.borrow } }

inductive Appends (s : State) (draft : Draft) : Result → State → Prop
  | nothing : draft.command.rect.empty = true → Appends s draft .ok s
  | full : draft.command.rect.empty = false → s.Full draft → Appends s draft .limit s
  | crowded : draft.command.rect.empty = false → ¬s.Full draft →
    dirtyAdd s.frame.dirty draft.command.rect = none → Appends s draft .limit s
  | stored {dirty} : draft.command.rect.empty = false → ¬s.Full draft →
    dirtyAdd s.frame.dirty draft.command.rect = some dirty →
    Appends s draft .ok (s.append draft dirty)

-- What `k210_display_clip` makes of its argument.
def clipRect (board : Board) : Option Rect → Rect
  | none      => screenRect board
  | some rect => rect.intersection (screenRect board)

inductive Drawn (board : Board) (s : State) : Op → Result → State → Prop
  | invalid {op result} : result ≠ .ok → result ≠ .limit → Drawn board s op result s
  | clip {session rect} : s.staged session →
    Drawn board s (.clip session rect) .ok { s with stage.clip := clipRect board rect }
  | draft {op plane session draft result s'} : op.Drafts s.stage.clip plane session draft →
    s.staged session → s.findPlane session = some plane → Appends s draft result s' →
    Drawn board s op result s'
  | mark {session rect dirty} : s.staged session →
    dirtyAdd s.frame.dirty (rect.intersection (screenRect board)) = some dirty →
    Drawn board s (.mark session (some rect)) .ok (s.damaged dirty dirty.length)
  | crowded {session rect} : s.staged session →
    dirtyAdd s.frame.dirty (rect.intersection (screenRect board)) = none →
    Drawn board s (.mark session (some rect)) .limit s
  | surface {session rect dirty} : ¬s.staged session →
    dirtyAdd s.surface.dirty (rect.intersection (screenRect board)) = some dirty →
    Drawn board s (.mark session (some rect)) .ok { s with surface := { s.surface with dirty } }
  | surfaceCrowded {session rect} : ¬s.staged session →
    dirtyAdd s.surface.dirty (rect.intersection (screenRect board)) = none →
    Drawn board s (.mark session (some rect)) .limit s

-- The drawing and the mark calls.
def Op.Draws : Op → Prop
  | .clip .. | .clear .. | .fill .. | .stroke .. | .text .. | .blit .. | .mark .. => True
  | _ => False

variable {E : Env Call Call.Reply World Decision} {board : Board} {s s' : State} {w w' : World}
variable {session : Nat} {draft : Draft} {result : Result} {op : Op} {α : Type}

variable {p : Pointer}

theorem Pointer.Staged.rectsAt {rects : List Rect} (h : p.Staged) (hr : s.rectsAt p = some rects) :
    rects = s.memory.stageDirty := by
  cases p
  case null  => cases hr
  case stage =>
    rw [State.rectsAt] at hr
    split at hr
    case isTrue  => exact (Option.some_inj.mp hr).symm
    case isFalse => cases hr
  all_goals exact h.elim

theorem Pointer.Staged.commandsAt {commands : Nat → Command} (h : p.Staged)
    (hr : s.commandsAt p = some commands) : commands = s.memory.stageCommands := by
  cases p
  case null  => cases hr
  case stage =>
    rw [State.commandsAt] at hr
    split at hr
    case isTrue  => exact (Option.some_inj.mp hr).symm
    case isFalse => cases hr
  all_goals exact h.elim

theorem Pointer.Staged.textAt {text : Memory} (h : p.Staged) (hr : s.textAt p = some text) :
    text = s.memory.stageText := by
  cases p
  case null  => cases hr
  case stage =>
    rw [State.textAt] at hr
    split at hr
    case isTrue  => exact (Option.some_inj.mp hr).symm
    case isFalse => cases hr
  all_goals exact h.elim

theorem wp_stageFor_ok {Q : Result → State → World → Prop} (hs : s.staged session = true)
    (hf : (s.findPlane session).isSome = true) : wp E (stageFor session) Q s w = Q .ok s w := by
  have hn : (s.findPlane session).isNone = false := by
    rw [← Option.not_isSome, hf]
    rfl
  rw [stageFor, wp_bind, wp_get]
  beta_reduce
  rw [hn, hs]
  rfl

-- Everything is done for the session whose batch is open, and nothing for another one.
theorem wp_stageFor_bind {f : Result → Task α} {Q : α → State → World → Prop}
    (ho : s.staged session = true → (s.findPlane session).isSome = true → wp E (f .ok) Q s w)
    (hr : ∀ result, result ≠ .ok → result ≠ .limit → wp E (f result) Q s w) :
    wp E (stageFor session >>= f) Q s w := by
  rw [wp_bind, stageFor, wp_bind, wp_get]
  beta_reduce
  rw [wp_ite]
  split
  case isTrue => exact hr .internal (by decide) (by decide)
  case isFalse hp =>
    rw [wp_ite]
    split
    case isTrue     => exact hr .invalidState (by decide) (by decide)
    case isFalse hs =>
      refine ho (not_not.mp hs) (Option.isSome_iff_ne_none.mpr fun hn => hp ?_)
      rw [hn]
      rfl

theorem State.append_frame {dirty : List Rect} : (s.append draft dirty).frame =
    ⟨s.frame.commands ++ [draft.command.place s.stage.textBytes draft.text],
      s.frame.text ++ draft.text, dirty⟩ :=
  store_frame

section Execution

variable (hE : ∀ w, E.hung w)
include hE

theorem wp_follow_bind {β : Type} {a : Option β} {f : β → Task α} {Q : α → State → World → Prop}
    (hf : ∀ b, a = some b → wp E (f b) Q s w) : wp E (follow a >>= f) Q s w := by
  rw [wp_bind]
  cases a
  case none   => exact hE w
  case some b => exact hf b rfl

variable {Q : Unit → State → World → Prop}

theorem Pointer.Staged.wp_setRects {rects : List Rect} (h : p.Staged)
    (hq : Q () { s with memory.stageDirty := rects } w) : wp E (setRects p rects) Q s w := by
  rw [setRects, wp_bind, wp_get]
  refine wp_follow_bind hE fun _ hb => ?_
  cases p
  case null  => cases hb
  case stage => exact hq
  all_goals exact h.elim

theorem Pointer.Staged.wp_setCommands {commands : Nat → Command} (h : p.Staged)
    (hq : Q () { s with memory.stageCommands := commands } w) :
    wp E (setCommands p commands) Q s w := by
  rw [setCommands, wp_bind, wp_get]
  refine wp_follow_bind hE fun _ hb => ?_
  cases p
  case null  => cases hb
  case stage => exact hq
  all_goals exact h.elim

theorem Pointer.Staged.wp_setText {text : Memory} (h : p.Staged)
    (hq : Q () { s with memory.stageText := text } w) : wp E (setText p text) Q s w := by
  rw [setText, wp_bind, wp_get]
  refine wp_follow_bind hE fun _ hb => ?_
  cases p
  case null  => cases hb
  case stage => exact hq
  all_goals exact h.elim

theorem State.Rooted.wp_storeText {text : List UInt8} (h : s.Rooted)
    (hq : Q () { s with memory.stageText := s.textMemory text } w) :
    wp E (onlyIf (text ≠ []) do
      let old ← follow (s.textAt s.stage.text)
      setText s.stage.text
        (old.overlay s.stage.textBytes text.length fun a => text.getD (a - s.stage.textBytes) 0))
      Q s w := by
  rw [wp_onlyIf]
  split
  case isTrue     =>
    refine wp_follow_bind hE fun old ho => ?_
    obtain rfl := h.text.textAt ho
    exact h.text.wp_setText hE hq
  case isFalse ht =>
    rw [not_not.mp ht, textMemory_nil] at hq
    exact hq

theorem wp_appendCommand_drawn (h : s.Rooted) (hs : s.staged session = true)
    (hf : (s.findPlane session).isSome = true) :
    wp E (appendCommand session draft.command draft.text draft.borrow)
      (fun result s' _ => Appends s draft result s') s w := by
  rw [appendCommand, wp_bind, wp_stageFor_ok hs hf, wp_ite, if_neg (by decide), wp_ite]
  split
  case isTrue hr  => exact .nothing hr
  case isFalse hr =>
    have hr : draft.command.rect.empty = false := Bool.eq_false_iff.mpr hr
    rw [wp_bind, wp_get]
    beta_reduce
    rw [wp_ite]
    split
    case isTrue hl  => exact .full hr hl
    case isFalse hl =>
      rw [wp_bind, wp_get]
      refine wp_follow_bind hE fun rects hd => ?_
      obtain rfl := h.dirty.rectsAt hd
      split
      case h_1 hd => exact .crowded hr hl hd
      case h_2 dirty hd =>
        show wp E (onlyIf _ _ >>= _) _ s w
        rw [wp_bind]
        refine h.wp_storeText hE ?_
        refine wp_follow_bind hE fun commands hc => ?_
        obtain rfl := h.commands.commandsAt hc
        rw [wp_bind]
        refine h.commands.wp_setCommands hE ?_
        rw [wp_bind]
        refine h.dirty.wp_setRects hE ?_
        exact .stored hr hl hd

omit hE in
theorem Drawn.invalidArgument : Drawn board s op .invalidArgument s :=
  .invalid (by decide) (by decide)

omit hE in
theorem Drawn.invalidState : Drawn board s op .invalidState s :=
  .invalid (by decide) (by decide)

omit hE in
theorem Drawn.featureUnavailable : Drawn board s op .featureUnavailable s :=
  .invalid (by decide) (by decide)

omit hE in
theorem Drawn.internal : Drawn board s op .internal s :=
  .invalid (by decide) (by decide)

omit hE in
theorem wp_clip_drawn {rect : Option Rect} :
    wp E (clip board session rect)
      (fun result s' _ => Drawn board s (.clip session rect) result s') s w := by
  refine wp_stageFor_bind (fun hs _ => ?_) fun result ho hl => ?_
  · rw [wp_ite, if_neg (by decide)]
    cases rect
    case none => exact .clip hs
    case some rect =>
      dsimp only
      rw [wp_ite]
      split
      case isTrue  => exact .invalidArgument
      case isFalse => exact .clip hs
  · rw [wp_ite, if_pos ho]
    exact .invalid ho hl

-- A draft that is made when the batch is the session's.
theorem wp_draft (h : s.Rooted) {plane : PlaneKind} (hs : s.staged session = true)
    (hf : s.findPlane session = some plane) (hd : op.Drafts s.stage.clip plane session draft) :
    wp E (appendCommand session draft.command draft.text draft.borrow)
      (fun result s' _ => Drawn board s op result s') s w :=
  wp_mono (wp_appendCommand_drawn hE h hs (hf ▸ rfl)) fun _ _ _ ha => .draft hd hs hf ha

theorem wp_clear_drawn (h : s.Rooted) {color : UInt16} :
    wp E (clear session color)
      (fun result s' _ => Drawn board s (.clear session color) result s') s w := by
  refine wp_stageFor_bind (fun hs hf => ?_) fun result ho hl => ?_
  · obtain ⟨plane, hf⟩ := Option.isSome_iff_exists.mp hf
    rw [wp_ite, if_neg (by decide), wp_bind, wp_get]
    exact wp_draft hE h hs hf .clear
  · rw [wp_ite, if_pos ho]
    exact .invalid ho hl

theorem wp_clippedCommand_drawn (h : s.Rooted) {rect : Rect} {type : CommandType}
    {color : UInt16} {text : List UInt8}
    (hd : ∀ plane, rect.valid = true → op.Drafts s.stage.clip plane session
      ⟨⟨type, color, 0, 0, rect.intersection s.stage.clip⟩, text, none⟩) :
    wp E (clippedCommand session rect type color text)
      (fun result s' _ => Drawn board s op result s') s w := by
  refine wp_stageFor_bind (fun hs hf => ?_) fun result ho hl => ?_
  · obtain ⟨plane, hf⟩ := Option.isSome_iff_exists.mp hf
    rw [wp_ite, if_neg (by decide), wp_ite]
    split
    case isTrue     => exact .invalidArgument
    case isFalse hv =>
      rw [wp_bind, wp_get]
      exact wp_draft hE h hs hf (hd plane (not_not.mp hv))
  · rw [wp_ite, if_pos ho]
    exact .invalid ho hl

theorem wp_text_drawn (h : s.Rooted) {bounds : Rect} {utf8 : Option (List UInt8)}
    {color : UInt16} : wp E (text session bounds utf8 color)
      (fun result s' _ => Drawn board s (.text session bounds utf8 color) result s') s w := by
  cases utf8
  case none => exact .invalidArgument
  case some utf8 =>
    rw [text, wp_ite]
    split
    case isTrue     => exact .invalidArgument
    case isFalse hu =>
      exact wp_clippedCommand_drawn hE h fun _ hv => .text hv (Nat.le_of_not_lt hu)

theorem wp_blit_drawn (h : s.Rooted) {destination : Option Rect} {pixels : Option View}
    {rgb565 : Bool} : wp E (blit session destination pixels rgb565)
      (fun result s' _ => Drawn board s (.blit session destination pixels rgb565) result s')
      s w := by
  cases destination <;> cases pixels
  case some.some destination pixels =>
    rw [blit, wp_ite]
    split
    case isTrue     => exact .invalidArgument
    case isFalse hv =>
      simp only [not_or, not_not] at hv
      obtain ⟨rfl, hv, hw, hb, ha, hm⟩ := hv
      refine wp_stageFor_bind (fun hs hf => ?_) fun result ho hl => ?_
      · obtain ⟨plane, hf⟩ := Option.isSome_iff_exists.mp hf
        rw [wp_ite, if_neg (by decide), wp_bind, wp_get]
        beta_reduce
        rw [wp_ite]
        split
        case isTrue     => exact .featureUnavailable
        case isFalse hp =>
          rw [wp_ite]
          change (if blitRequired destination pixels > pixels.sizeBytes then wp E _ _
            else wp E _ _) s w
          split
          case isTrue     => exact .invalidArgument
          case isFalse hr =>
            refine wp_draft hE h hs hf (.blit ?_ ?_ (Nat.le_of_not_lt hr))
            · simpa [blitValid, hv, ha, Nat.le_of_not_lt hw, Nat.le_of_not_lt hb] using hm
            · cases plane
              case base    => rfl
              case overlay => exact absurd hf hp
      · rw [wp_ite, if_pos ho]
        exact .invalid ho hl
  all_goals exact .invalidArgument

theorem wp_mark_drawn (h : s.Rooted) {rect : Option Rect} :
    wp E (mark board session rect)
      (fun result s' _ => Drawn board s (.mark session rect) result s') s w := by
  rw [mark, wp_bind, wp_get]
  beta_reduce
  rw [wp_ite]
  split
  case isTrue  => exact .internal
  case isFalse =>
    rw [wp_ite]
    split
    case isTrue  => exact .invalidState
    case isFalse =>
      cases rect
      case none => exact .invalidArgument
      case some rect =>
        dsimp only
        rw [wp_ite]
        split
        case isTrue  => exact .invalidArgument
        case isFalse =>
          rw [wp_ite]
          split
          case isTrue hs =>
            refine wp_follow_bind hE fun rects hr => ?_
            obtain rfl := h.dirty.rectsAt hr
            split
            case h_1 hd => exact .crowded hs hd
            case h_2 hd =>
              rw [wp_bind]
              exact h.dirty.wp_setRects hE (.mark hs hd)
          case isFalse hs =>
            split
            case h_1 hd => exact .surfaceCrowded hs hd
            case h_2 hd => exact .surface hs hd

theorem wp_perform_drawn (h : s.Rooted) (ho : op.Draws) : wp E (op.perform board)
    (fun result s' _ => ∃ r, result = some r ∧ Drawn board s op r s') s w := by
  have lift {p : Task Result} (hp : wp E p (fun result s' _ => Drawn board s op result s') s w) :
      wp E (some <$> p) (fun result s' _ => ∃ r, result = some r ∧ Drawn board s op r s') s w := by
    rw [wp_map]
    exact wp_mono hp fun r _ _ hd => ⟨r, rfl, hd⟩
  cases op
  case clip   => exact lift wp_clip_drawn
  case clear  => exact lift (wp_clear_drawn hE h)
  case fill   => exact lift (wp_clippedCommand_drawn hE h fun _ hv => .fill hv)
  case stroke => exact lift (wp_clippedCommand_drawn hE h fun _ hv => .stroke hv)
  case text   => exact lift (wp_text_drawn hE h)
  case blit   => exact lift (wp_blit_drawn hE h)
  case mark   => exact lift (wp_mark_drawn hE h)
  all_goals exact ho.elim

end Execution

-- The batch of a session has just been opened.
structure Opened (board : Board) (session : Nat) (s : State) : Prop where
  real : session ≠ 0
  session : s.stage.session = session
  kind : s.stage.kind = .batch
  clip : s.stage.clip = screenRect board
  commandCount : s.stage.commandCount = 0
  textBytes : s.stage.textBytes = 0
  dirtyCount : s.stage.dirtyCount = 0

theorem Opened.staged (h : Opened board session s) : s.staged session = true := by
  simp [State.staged, h.kind, h.real, h.session]

theorem ensures_begin : Ensures (fun _ => True) (begin board session)
    (fun result s' => result = .ok → Opened board session s') s := by
  refine .get <| .ite (fun _ => nofun) fun hf => .ite (fun _ => nofun) fun _ =>
    .ite (fun _ => nofun) fun _ => .seq .top fun acquired s₁ _ => .ite (fun _ => nofun) fun _ => ?_
  intro _
  refine ⟨?_, rfl, rfl, rfl, rfl, rfl, rfl⟩
  rintro rfl
  exact hf rfl

-- What a call of a run has done.
theorem Drawn.of_run {ds : List Decision} {r : Option Result} (h : s.Rooted) (ho : op.Draws)
    (hr : (op.perform board).run handler s ds w = .done (r, s') w') :
    ∃ result, r = some result ∧ Drawn board s op result s' := by
  let E : Env Call Call.Reply World Decision :=
    ⟨handler, fun _ => True, fun _ _ => True, fun _ => True⟩
  have hm : ((op.perform board).run handler s ds w).Meets E _ :=
    run_meets (fun _ _ => trivial) (wp_perform_drawn (fun _ => trivial) h ho)
  rw [hr] at hm
  exact hm

end Display
