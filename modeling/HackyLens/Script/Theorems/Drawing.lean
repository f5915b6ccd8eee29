import HackyLens.Display.Theorems.Present
import HackyLens.Script.Drawing

-- The requests of a script are transactions on its batch.

namespace Script

open App (Result)
open Display (Board Call Command Decision Drawing Frame Inv Recoverable World handler panel
  screenRect)
open Prog

-- The frame after several commands with their texts, if there is room for all of them.
def appendAll (frame : Frame) (commands : List (Command × List UInt8)) : Option Frame :=
  commands.foldlM (fun frame command => frame.append command.1 command.2) frame

namespace Request

variable (board : Board) (request : Request)

-- The commands of a request that draws.
def commands : List (Command × List UInt8) :=
  let a := request.arguments
  match request.operation with
  | .text  =>
    let rect := (textBounds board a request.data).intersection (screenRect board)
    [(⟨.fill, (a 3).toUInt16, 0, 0, rect⟩, []), (⟨.text, (a 2).toUInt16, 0, 0, rect⟩, request.data)]
  | .rect  =>
    let type := if a 5 ≠ 0 then .fill else .stroke
    [(⟨type, (a 4).toUInt16, 0, 0, (rectBounds a).intersection (screenRect board)⟩, [])]
  | _      => []

-- The batch after a request, if there is room for it.
def target (frame : Frame) : Option Frame :=
  match request.operation with
  | .clear       => some (.cleared board (request.arguments 0).toUInt16)
  | .present     => some frame
  | .text | .rect => appendAll frame (request.commands board)

-- The arguments are those of a drawing on the screen.
def Valid : Prop :=
  let a := request.arguments
  request.data.length ≤ dataMax ∧
    match request.operation with
    | .clear   => a 0 ≤ 0xFFFF
    | .text    => ¬misplaced board a ∧ (textBounds board a request.data).valid = true
    | .rect    =>
      ¬misplaced board a ∧ a 2 ≠ 0 ∧ a 3 ≠ 0 ∧ a 4 ≤ 0xFFFF ∧ (rectBounds a).valid = true
    | .present => True

end Request

-- The overlay is the script's.
structure Granted (t : State) : Prop where
  display : t.display = some .overlay
  claimant : t.service.claimants .overlay = gDisplay
  sound : t.service.quarantined .overlay = false
  owned : t.displayOwned = true
  run : t.displayRunId = t.runId

-- The script's batch is open, and no transaction is.
structure Ready (board : Board) (t : State) (w : World) : Prop where
  granted : Granted t
  drawing : Drawing board gDisplay t.adapter w
  closed : t.transaction.active = false

variable {board : Board} {request : Request} {t t' : State} {w w' : World}
variable {admits : Decision → Prop} {α : Type} {result : BindingResult}

section Capability

@[simp]
theorem wp_adapter {p : Display.Task α} {Q : α → State → World → Prop} :
    wp (panel admits) (adapter p) Q t w =
      wp (panel admits) p (fun a adapter => Q a { t with adapter }) t.adapter w := by
  rw [adapter, wp_zoom]

theorem wp_ask {c : Call} {Q : c.Reply → State → World → Prop}
    (hq : ∀ d, admits d → Q (handler d c w).fst t (handler d c w).snd) :
    wp (panel admits) (ask c) Q t w :=
  ⟨trivial, hq⟩

theorem Granted.providerFor (h : Granted t) : t.providerFor = .ok := by
  rw [State.providerFor, h.display]
  dsimp only
  rw [if_neg (not_not.mpr h.claimant), if_neg (by simp [h.sound])]

theorem wp_quarantineInternal {r : Result} {Q : Unit → State → World → Prop} (hr : r ≠ .internal)
    (hq : Q () t w) : wp (panel admits) (quarantineInternal r) Q t w := by
  rw [quarantineInternal, wp_modify]
  beta_reduce
  split
  case h_1 => exact hq
  case h_2 => rwa [if_neg fun hb => hr hb.left]

-- What the capability adds does not show as long as nothing is broken.
theorem wp_guarded (h : t.providerFor = .ok) {p : Display.Task α} {refusal : Result → α}
    {result : α → Result} {Q : α → State → World → Prop}
    (hp : wp (panel admits) p (fun a adapter w => result a ≠ .internal ∧ Q a { t with adapter } w)
      t.adapter w) :
    wp (panel admits) (guarded refusal result p) Q t w := by
  rw [guarded, wp_bind, wp_get]
  beta_reduce
  rw [wp_ite, if_neg (not_not.mpr h), wp_bind, wp_adapter]
  refine wp_mono hp ?_
  rintro a adapter w ⟨hn, hq⟩
  rw [wp_bind]
  exact wp_quarantineInternal hn hq

theorem Granted.wp_guarded (h : Granted t) {p : Display.Task α} {refusal : Result → α}
    {result : α → Result} {Q : α → State → World → Prop}
    (hp : wp (panel admits) p (fun a adapter w => result a ≠ .internal ∧ Q a { t with adapter } w)
      t.adapter w) :
    wp (panel admits) (guarded refusal result p) Q t w :=
  Script.wp_guarded h.providerFor hp

theorem Granted.wp_capability (h : Granted t) {p : Display.Task Result}
    {Q : Result → State → World → Prop}
    (hp : wp (panel admits) p (fun r adapter w => r ≠ .internal ∧ Q r { t with adapter } w)
      t.adapter w) :
    wp (panel admits) (capability p) Q t w :=
  h.wp_guarded hp

theorem Granted.withAdapter {s : Display.State} (h : Granted t) : Granted { t with adapter := s } :=
  ⟨h.1, h.2, h.3, h.4, h.5⟩

@[simp]
theorem wp_andThen {r : Result} {p : Task Result} {Q : Result → State → World → Prop} :
    wp (panel admits) (andThen r p) Q t w =
      if r = .ok then wp (panel admits) p Q t w else Q r t w := by
  unfold andThen
  split <;> rfl

end Capability

section Transaction

-- What was drawn in a transaction can be taken back.
structure Pending (request : Request) (t : State) (t' : State) (w : World) : Prop where
  inv : Inv t'.adapter w
  rest : t'.adapter.rest = t.adapter.rest
  recoverable : Recoverable t.adapter.frame t'.adapter
  others : t' = { t with
    adapter := t'.adapter
    transaction := ⟨request.ticket, t.runId, t.adapter.frame.commands.length,
      t.adapter.frame.text.length, true⟩ }

theorem Pending.granted (h : Pending request t t' w) (hg : Granted t) : Granted t' := by
  rw [h.others]
  exact ⟨hg.1, hg.2, hg.3, hg.4, hg.5⟩

theorem Pending.pool (h : Pending request t t' w) (hp : w'.pool = w.pool) :
    Pending request t t' w' :=
  { h with inv := h.inv.quiet ⟨rfl, rfl, rfl, rfl, rfl, rfl, rfl, hp⟩ }

theorem Pending.step {s : Display.State} (h : Pending request t t' w) (hi : Inv s w')
    (hr : s.rest = t'.adapter.rest) (hre : Recoverable t.adapter.frame s) :
    Pending request t { t' with adapter := s } w' where
  inv         := hi
  rest        := hr.trans h.rest
  recoverable := hre
  others      := by
    rw [h.others]

theorem wp_transactionBegin (h : Ready board t w) {Q : Unit → State → World → Prop}
    (hq : ∀ t', Pending request t t' w → t'.adapter = t.adapter.checkpointed → Q () t' w) :
    wp (panel admits) (transactionBegin request.ticket t.runId) Q t w := by
  have hd := h.drawing.checkpointed
  rw [transactionBegin, wp_bind]
  refine h.granted.wp_guarded (Display.wp_checkpoint h.drawing.staging ?_)
  refine ⟨(by decide : Result.ok ≠ .internal), ?_⟩
  rw [wp_modify]
  exact hq _ ⟨hd.inv, rfl, .checkpointed, rfl⟩ rfl

theorem wp_transactionFinish_closed {ticket runId : UInt32} {rollback : Bool}
    (h : t.transaction.active = false) {Q : Unit → State → World → Prop} (hq : Q () t w) :
    wp (panel admits) (transactionFinish ticket runId rollback) Q t w := by
  rw [transactionFinish, wp_bind, wp_get]
  beta_reduce
  rw [wp_ite, if_pos (by simp [h])]
  exact hq

theorem Pending.wp_transactionFinish {rollback : Bool} (h : Ready board t w)
    (hp : Pending request t t' w)
    (hd : rollback = false → Drawing board gDisplay t'.adapter w) :
    wp (panel admits) (transactionFinish request.ticket t.runId rollback)
      (fun _ t'' w'' => Ready board t'' w'' ∧ w'' = w ∧
        (rollback = true → t''.adapter.frame = t.adapter.frame) ∧
        (rollback = false → t''.adapter = t'.adapter)) t' w := by
  have ht : t'.transaction = ⟨request.ticket, t.runId, t.adapter.frame.commands.length,
      t.adapter.frame.text.length, true⟩ := by rw [hp.others]
  have hg := hp.granted h.granted
  rw [transactionFinish, wp_bind, wp_get]
  beta_reduce
  rw [wp_ite, ht, if_neg (by simp), wp_ite]
  split
  case isTrue hr =>
    rw [wp_bind]
    refine hg.wp_capability (wp_mono (h.drawing.wp_restore hp.rest hp.inv hp.recoverable) ?_)
    rintro result s w'' ⟨rfl, rfl, hd, hf, -⟩
    refine ⟨by decide, ?_⟩
    rw [transactionEnd, wp_modify]
    refine ⟨⟨⟨hg.1, hg.2, hg.3, hg.4, hg.5⟩, hd, rfl⟩, rfl, fun _ => hf, fun hn => ?_⟩
    cases hr.symm.trans hn
  case isFalse hr =>
    have hr := Bool.eq_false_iff.mpr hr
    rw [transactionEnd, wp_modify]
    refine ⟨⟨⟨hg.1, hg.2, hg.3, hg.4, hg.5⟩, hd hr, rfl⟩, rfl, fun hn => ?_, fun _ => rfl⟩
    cases hr.symm.trans hn

end Transaction

section Draw

theorem displayResult_ok {r : Result} : displayResult r = .ok ↔ r = .ok := by
  constructor
  · intro h
    by_contra hn
    unfold displayResult at h
    rw [if_neg hn] at h
    split_ifs at h
  · rintro rfl
    rfl

-- The batch has not become shorter.
def Grown (t t' : State) : Prop :=
  t.adapter.frame.commands.length ≤ t'.adapter.frame.commands.length ∧
    t.adapter.frame.text.length ≤ t'.adapter.frame.text.length

theorem Grown.of_eq (hf : t'.adapter.frame = t.adapter.frame) : Grown t t' := by
  rw [Grown, hf]
  exact ⟨le_rfl, le_rfl⟩

-- One command of a request is drawn, unless there is no room for it.
theorem wp_draw {t₁ : State} {rect : Display.Rect} {type : Display.CommandType} {color : UInt16}
    {text : List UInt8} (hg : Granted t) (hp : Pending request t t₁ w)
    (hd : Drawing board gDisplay t₁.adapter w) (hn : Grown t t₁) (hv : rect.valid = true) :
    wp (panel admits) (capability (Display.clippedCommand gDisplay rect type color text))
      (fun r t₂ w' => w' = w ∧ Pending request t t₂ w ∧ Drawing board gDisplay t₂.adapter w ∧
        Grown t t₂ ∧
        match t₁.adapter.frame.append
            ⟨type, color, 0, 0, rect.intersection (screenRect board)⟩ text with
        | none       => r = .limit
        | some frame => r = .ok ∧ t₂.adapter.frame = frame) t₁ w := by
  refine (hp.granted hg).wp_capability (wp_mono (hd.wp_clippedCommand hv) ?_)
  rintro r s w' ⟨rfl, hs, ha⟩
  have hlen := Display.frame_length (s := t₁.adapter)
  have htext := Display.frame_text_length (s := t₁.adapter)
  rw [Display.Appended] at ha
  revert ha
  cases t₁.adapter.frame.append ⟨type, color, 0, 0, rect.intersection (screenRect board)⟩ text with
  | none       =>
    rintro ⟨rfl, rfl⟩
    exact ⟨by decide, rfl, hp, hd, hn, rfl⟩
  | some frame =>
    rintro ⟨rfl, he, ha⟩
    refine ⟨by decide, rfl, hp.step hs.inv ha.rest ?_, hs, ?_, rfl, he⟩
    · exact hp.recoverable.above ha (.inl (hlen ▸ hn.left)) (.inl (htext ▸ hn.right))
    · refine ⟨hn.left.trans ?_, hn.right.trans ?_⟩
      · rw [hlen]
        exact ha.commandCount.trans_eq Display.frame_length.symm
      · rw [htext]
        exact ha.textBytes.trans_eq Display.frame_text_length.symm

-- What has become of a request that draws.
structure Drew (board : Board) (request : Request) (t : State) (w : World)
    (result : BindingResult) (t' : State) : Prop where
  pending : Pending request t t' w
  drawing : result = .ok → Drawing board gDisplay t'.adapter w
  target : result = .ok → request.target board t.adapter.frame = some t'.adapter.frame
  room : request.Valid board → request.target board t.adapter.frame ≠ none → result = .ok

-- What has become of a request that draws: it was turned down, or it has drawn.
def Served (board : Board) (request : Request) (t : State) (w : World) (result : BindingResult)
    (t' : State) (w' : World) : Prop :=
  w' = w ∧ (Drew board request t w result t' ∨
    t' = t ∧ result ≠ .ok ∧ ¬request.Valid board)

-- There was no room for what is to be drawn, or it was not valid.
theorem Drew.failed {r : Result} (hp : Pending request t t' w) (hr : r ≠ .ok)
    (ht : ¬request.Valid board ∨ request.target board t.adapter.frame = none) :
    Drew board request t w (displayResult r) t' where
  pending      := hp
  drawing ho   := absurd (displayResult_ok.mp ho) hr
  target ho    := absurd (displayResult_ok.mp ho) hr
  room hv hn   := (ht.elim (fun h => h hv) hn).elim

theorem Granted.foreign (h : Granted t) : ¬t.foreign t.runId := by
  simp [State.foreign, h.owned, h.run]

namespace Request

theorem wp_executeClear (h : Ready board t w) (hb : (screenRect board).empty = false)
    (ho : request.operation = .clear) :
    wp (panel admits) (executeClear request.ticket t.runId request.arguments)
      (Served board request t w) t w := by
  have ht : request.target board t.adapter.frame =
      some (.cleared board (request.arguments 0).toUInt16) := by
    simp only [target, ho]
  rw [executeClear, wp_bind, wp_get]
  beta_reduce
  rw [wp_ite]
  split
  case isTrue hn =>
    refine ⟨rfl, .inr ⟨rfl, (by decide : BindingResult.notActive ≠ .ok), fun hv => ?_⟩⟩
    rw [Valid, ho] at hv
    exact hn.elim h.granted.foreign fun hc => absurd hv.right (UInt32.not_le.mpr hc)
  case isFalse =>
    rw [wp_bind]
    refine wp_transactionBegin h fun t₁ hp ha => ?_
    have hd : Drawing board gDisplay t₁.adapter w := ha ▸ h.drawing.checkpointed
    have hf₁ : t₁.adapter.frame = t.adapter.frame := congrArg (·.frame) ha
    rw [wp_bind]
    refine (hp.granted h.granted).wp_capability (wp_mono hd.wp_restore_zero ?_)
    rintro result s w' ⟨rfl, rfl, hs⟩
    refine ⟨by decide, ?_⟩
    rw [wp_bind, wp_andThen, if_pos rfl]
    have hg : Granted { t₁ with adapter := s } := (hp.granted h.granted).withAdapter
    refine hg.wp_capability (wp_mono (hd.wp_clear hs hb) ?_)
    rintro result s' w' ⟨rfl, rfl, hd', hf, hr, hre⟩
    refine ⟨by decide, rfl, .inl ?_⟩
    exact {
      pending   := hp.step hd'.inv hr (hf₁ ▸ hre)
      drawing _ := hd'
      target _  := ht.trans (congrArg some hf.symm)
      room _ _  := rfl }

theorem target_text {frame : Frame} (ho : request.operation = .text) :
    request.target board frame =
      let a := request.arguments
      let rect := (textBounds board a request.data).intersection (screenRect board)
      (frame.append ⟨.fill, (a 3).toUInt16, 0, 0, rect⟩ []).bind fun frame =>
        frame.append ⟨.text, (a 2).toUInt16, 0, 0, rect⟩ request.data := by
  simp only [target, commands, ho, appendAll, List.foldlM_cons, List.foldlM_nil, bind_pure]
  rfl

theorem target_rect {frame : Frame} (ho : request.operation = .rect) :
    request.target board frame =
      let a := request.arguments
      frame.append ⟨if a 5 ≠ 0 then .fill else .stroke, (a 4).toUInt16, 0, 0,
        (rectBounds a).intersection (screenRect board)⟩ [] := by
  simp only [target, commands, ho, appendAll, List.foldlM_cons, List.foldlM_nil, bind_pure]

theorem wp_executeText (h : Ready board t w) (ho : request.operation = .text)
    (hl : request.data.length ≤ dataMax) :
    wp (panel admits)
      (executeText board request.ticket t.runId request.arguments request.data)
      (Served board request t w) t w := by
  have ht := @target_text board request t.adapter.frame ho
  rw [executeText, wp_bind, wp_get]
  beta_reduce
  rw [wp_ite, if_neg h.granted.foreign, wp_ite]
  split
  case isTrue hm =>
    refine ⟨rfl, .inr ⟨rfl, (by decide : BindingResult.invalidArgument ≠ .ok), fun hv => ?_⟩⟩
    rw [Valid, ho] at hv
    exact hv.right.left hm
  rw [wp_bind]
  refine wp_transactionBegin h fun t₁ hp ha => ?_
  have hd : Drawing board gDisplay t₁.adapter w := ha ▸ h.drawing.checkpointed
  have hf : t₁.adapter.frame = t.adapter.frame := congrArg (·.frame) ha
  rw [wp_bind]
  by_cases hv : (textBounds board request.arguments request.data).valid = true
  case neg =>
    refine (hp.granted h.granted).wp_capability ?_
    refine Display.wp_clippedCommand_invalid hd.staging hv ⟨by decide, ?_⟩
    rw [wp_bind, wp_andThen, if_neg (by decide)]
    refine ⟨rfl, .inl (.failed hp (by decide : Result.invalidArgument ≠ .ok) (.inl fun hr => hv ?_))⟩
    rw [Valid, ho] at hr
    exact hr.right.right
  case pos =>
    refine wp_mono (wp_draw h.granted hp hd (.of_eq hf) hv) ?_
    rintro r t₂ w' ⟨rfl, hp₂, hd₂, hn₂, hr⟩
    rw [hf] at hr
    rw [wp_bind, wp_andThen]
    split at hr
    case h_1 hx =>
      rw [hr, if_neg (by decide)]
      refine ⟨rfl, .inl (.failed hp₂ (by decide : Result.limit ≠ .ok) (.inr ?_))⟩
      rw [ht]
      exact congrArg (Option.bind · _) hx
    case h_2 frame hx =>
      rw [hr.left, if_pos rfl, text, Display.text,
        if_neg (by rw [dataMax] at hl; omega)]
      refine wp_mono (wp_draw h.granted hp₂ hd₂ hn₂ hv) ?_
      rintro r' t₃ w' ⟨rfl, hp₃, hd₃, -, hr'⟩
      rw [hr.right] at hr'
      have hx' := ht.trans (congrArg (Option.bind · _) hx)
      split at hr'
      case h_1 hy =>
        rw [hr']
        exact ⟨rfl, .inl (.failed hp₃ (by decide : Result.limit ≠ .ok) (.inr (hx'.trans hy)))⟩
      case h_2 frame' hy =>
        rw [hr'.left]
        refine ⟨rfl, .inl ?_⟩
        exact {
          pending   := hp₃
          drawing _ := hd₃
          target _  := hr'.right ▸ hx'.trans hy
          room _ _  := rfl }

theorem wp_executeRect (h : Ready board t w) (ho : request.operation = .rect) :
    wp (panel admits) (executeRect board request.ticket t.runId request.arguments)
      (Served board request t w) t w := by
  have ht := @target_rect board request t.adapter.frame ho
  rw [executeRect, wp_bind, wp_get]
  beta_reduce
  rw [wp_ite, if_neg h.granted.foreign, wp_ite]
  split
  case isTrue hm =>
    refine ⟨rfl, .inr ⟨rfl, (by decide : BindingResult.invalidArgument ≠ .ok), fun hv => ?_⟩⟩
    rw [Valid, ho] at hv
    obtain ⟨-, hp, hw, hh, hc, -⟩ := hv
    obtain hm | hm | hm | hm := hm
    · exact hp hm
    · exact hw hm
    · exact hh hm
    · exact absurd hc (UInt32.not_le.mpr hm)
  rw [wp_bind]
  refine wp_transactionBegin h fun t₁ hp ha => ?_
  have hd : Drawing board gDisplay t₁.adapter w := ha ▸ h.drawing.checkpointed
  have hf : t₁.adapter.frame = t.adapter.frame := congrArg (·.frame) ha
  have hc : (if request.arguments 5 ≠ 0 then fillRect else strokeRect)
      (rectBounds request.arguments) (request.arguments 4).toUInt16 =
      capability (Display.clippedCommand gDisplay (rectBounds request.arguments)
        (if request.arguments 5 ≠ 0 then .fill else .stroke) (request.arguments 4).toUInt16 []) := by
    split <;> rfl
  dsimp only
  rw [hc, wp_bind]
  by_cases hv : (rectBounds request.arguments).valid = true
  case neg =>
    refine (hp.granted h.granted).wp_capability ?_
    refine Display.wp_clippedCommand_invalid hd.staging hv ⟨by decide, ?_⟩
    refine ⟨rfl, .inl (.failed hp (by decide : Result.invalidArgument ≠ .ok) (.inl fun hr => hv ?_))⟩
    rw [Valid, ho] at hr
    exact hr.right.right.right.right.right
  case pos =>
    refine wp_mono (wp_draw h.granted hp hd (.of_eq hf) hv) ?_
    rintro r t₂ w' ⟨rfl, hp₂, hd₂, -, hr⟩
    rw [hf] at hr
    split at hr
    case h_1 hx =>
      rw [hr]
      exact ⟨rfl, .inl (.failed hp₂ (by decide : Result.limit ≠ .ok) (.inr (ht.trans hx)))⟩
    case h_2 frame hx =>
      rw [hr.left]
      refine ⟨rfl, .inl ?_⟩
      exact {
        pending   := hp₂
        drawing _ := hd₂
        target _  := hr.right ▸ ht.trans hx
        room _ _  := rfl }

end Request

end Draw

end Script
