import HackyLens.Display.Frame
import HackyLens.Display.Theorems.Staging

-- A transfer leaves no trace in the adapter's state, whatever becomes of it, and it succeeds unless
-- something goes wrong.

namespace Display

open App (Result)
open Prog

-- Some decisions may be ruled out.
def panel (admits : Decision → Prop) : Env Call Call.Reply World Decision :=
  { env with admits }

-- Nothing is cancelled or late, and the panel takes everything.
structure Decision.Easy (d : Decision) : Prop where
  probe : d.probe = false
  now : d.now = 0
  succeeds : d.succeeds = true

variable {board : Board} {s s' : State} {w w' : World} {deadline : UInt64} {cancel : Nat}
variable {admits : Decision → Prop} {α : Type}

-- Only the flag of the transport has changed, and the frame pool is as it was.
structure Streams (active : Bool) (s : State) (w : World) (s' : State) (w' : World) : Prop where
  state : s' = { s with pixelStreamActive := active }
  pool : w'.pool = w.pool

theorem Streams.trans {active active' : Bool} {s'' : State} {w'' : World}
    (h₁ : Streams active s w s' w') (h₂ : Streams active' s' w' s'' w'') :
    Streams active' s w s'' w'' := by
  refine ⟨?_, h₂.pool.trans h₁.pool⟩
  rw [h₂.state, h₁.state]

theorem Streams.refl (hs : s.pixelStreamActive = false) (hp : w'.pool = w.pool) :
    Streams false s w s w' := by
  refine ⟨?_, hp⟩
  rw [← hs]

theorem wp_panel {c : Call} {Q : c.Reply → State → World → Prop}
    (hq : ∀ d, admits d → Q (handler d c w).fst s (handler d c w).snd) :
    wp (panel admits) (ask c) Q s w :=
  ⟨trivial, hq⟩

theorem wp_cancelRequested {Q : Bool → State → World → Prop}
    (hq : ∀ cancelled, ((∀ d, admits d → d.Easy) → cancelled = false) → Q cancelled s w) :
    wp (panel admits) (cancelRequested cancel) Q s w := by
  unfold cancelRequested
  split
  case isTrue  => exact hq false fun _ => rfl
  case isFalse => exact wp_panel fun d hd => hq d.probe fun he => (he d hd).probe

theorem wp_terminalResult {Q : Result → State → World → Prop}
    (hq : ∀ result, result ≠ .internal → ((∀ d, admits d → d.Easy) → result = .ok) → Q result s w) :
    wp (panel admits) (terminalResult deadline cancel) Q s w := by
  rw [terminalResult, wp_bind]
  refine wp_cancelRequested fun cancelled hc => ?_
  rw [wp_ite]
  split
  case isTrue ht =>
    refine hq .cancelled (by decide) fun he => ?_
    rw [hc he] at ht
    cases ht
  rw [wp_ite]
  split
  case isTrue     => exact hq .ok (by decide) fun _ => rfl
  case isFalse hd =>
    rw [wp_bind]
    refine wp_panel fun d ha => ?_
    rw [wp_pure]
    refine hq _ (by split <;> decide) fun he => if_neg ?_
    simp only [handler, (he d ha).now]
    exact fun hl => hd (UInt64.le_zero_iff.mp hl)

theorem wp_transferFailure {Q : Result → State → World → Prop}
    (hq : ∀ result, result ≠ .internal → result ≠ .ok → Q result s w) :
    wp (panel admits) (transferFailure deadline) Q s w := by
  rw [transferFailure, wp_ite]
  split
  case isTrue  => exact hq .io (by decide) (by decide)
  case isFalse =>
    rw [wp_bind]
    refine wp_panel fun d _ => ?_
    rw [wp_pure]
    exact hq _ (by split <;> decide) (by split <;> decide)

theorem wp_transportAbort {Q : Unit → State → World → Prop}
    (hq : Q () { s with pixelStreamActive := false } w) : wp (panel admits) transportAbort Q s w := by
  rw [transportAbort, wp_bind, wp_get]
  beta_reduce
  rw [wp_ite]
  split
  case isTrue hs  =>
    rw [wp_bind]
    exact wp_panel fun d _ => hq
  case isFalse hs =>
    rw [← Bool.eq_false_iff.mpr hs] at hq
    exact hq

def State.streaming (s : State) (active : Bool) : State :=
  { s with pixelStreamActive := active }

theorem streaming_self (hs : s.pixelStreamActive = false) : s.streaming false = s := by
  rw [← hs]
  rfl

theorem streaming_true (hs : s.pixelStreamActive = true) : s.streaming true = s := by
  rw [← hs]
  rfl

-- The panel is ready for the pixels of a region.
def World.selected (w : World) (rect : Rect) : World :=
  { w with window := rect, cursor := 0 }

theorem screenRect_covers {rect : Rect} : (screenRect board).Covers rect ↔
    rect.empty = false ∧ 0 ≤ rect.x ∧ 0 ≤ rect.y ∧ rect.x + rect.width ≤ board.width ∧
      rect.y + rect.height ≤ board.height := by
  simp [Rect.Covers, screenRect]

theorem wp_transportBegin {rect : Rect} {Q : Result → State → World → Prop}
    (hs : s.pixelStreamActive = false) (ho : Q .ok (s.streaming true) (w.selected rect))
    (hn : ∀ result w', result ≠ .internal → result ≠ .ok → (w' = w ∨ w' = w.selected rect) →
      ((∀ d, admits d → d.Easy) → ¬(screenRect board).Covers rect) → Q result s w') :
    wp (panel admits) (transportBegin board rect deadline) Q s w := by
  rw [transportBegin, wp_bind]
  refine wp_terminalResult fun result hi hr => ?_
  rw [wp_ite]
  split
  case isTrue hf => exact hn _ _ hi hf (.inl rfl) fun he => absurd (hr he) hf
  rw [wp_bind, wp_get]
  beta_reduce
  rw [wp_ite, if_neg (by simp [hs]), wp_ite]
  split
  case isTrue hb =>
    refine hn .invalidArgument _ (by decide) (by decide) (.inl rfl) fun _ hc => ?_
    rw [screenRect_covers] at hc
    simp [hc.1] at hb
    omega
  rw [wp_bind]
  refine wp_panel fun d hd => ?_
  rw [wp_ite]
  split
  case isTrue hf =>
    have hf : d.succeeds = false := by simpa [handler] using hf
    refine wp_transferFailure fun result hi hr => hn result _ hi hr ?_ fun he => ?_
    · exact .inl (by simp [handler, hf])
    · cases hf.symm.trans (he d hd).succeeds
  case isFalse hf =>
    have hf : d.succeeds = true := by simpa [handler] using hf
    have hw : (handler d (.window rect) w).snd = w.selected rect := by
      simp [handler, hf, World.selected]
    rw [hw, wp_bind]
    refine wp_panel fun d hd => ?_
    rw [wp_ite]
    split
    case isTrue hf =>
      have hf : d.succeeds = false := by simpa [handler] using hf
      refine wp_transferFailure fun result hi hr => hn result _ hi hr (.inr rfl) fun he => ?_
      cases hf.symm.trans (he d hd).succeeds
    case isFalse =>
      rw [wp_bind]
      exact ho

theorem paint_nil : w.paint [] = w := by
  unfold World.paint
  congr
  funext x y
  exact if_neg fun h => by simp at h; omega

theorem paint_append {l l' : List UInt16} : (w.paint l).paint l' = w.paint (l ++ l') := by
  unfold World.paint
  simp only [List.length_append, Nat.add_assoc]
  congr
  funext x y
  generalize (y - w.window.y.toNat) * w.window.width + (x - w.window.x.toNat) = index
  split_ifs with h₁ h₂ h₃ h₄ h₅
  · have hi : index - w.cursor - l.length = index - (w.cursor + l.length) := by omega
    rw [List.getD_eq_getElem?_getD, List.getD_eq_getElem?_getD,
      List.getElem?_append_right (by omega), hi]
  · omega
  · rw [List.getD_eq_getElem?_getD, List.getD_eq_getElem?_getD,
      List.getElem?_append_left (by omega)]
  · omega
  · omega
  · rfl

theorem wp_transportWrite {pixels : List UInt16} {Q : Result → State → World → Prop}
    (hs : s.pixelStreamActive = true) (hp : pixels ≠ []) (ho : Q .ok s (w.paint pixels))
    (hn : ∀ result active n, result ≠ .internal → result ≠ .ok → ¬(∀ d, admits d → d.Easy) →
      Q result (s.streaming active) (w.paint (pixels.take n))) :
    wp (panel admits) (transportWrite pixels deadline cancel) Q s w := by
  rw [transportWrite, wp_bind]
  refine wp_terminalResult fun result hi hr => ?_
  rw [wp_ite]
  split
  case isTrue hf =>
    rw [wp_bind]
    refine wp_transportAbort ?_
    have hx := hn result false 0 hi hf fun he => hf (hr he)
    rwa [List.take_zero, paint_nil] at hx
  rw [wp_bind, wp_get]
  beta_reduce
  rw [wp_ite, if_neg (by simp [hs]), wp_ite, if_neg (by simp [hp]), wp_bind]
  refine wp_panel fun d hd => ?_
  rw [wp_ite]
  split
  case isTrue hf =>
    have hf : d.succeeds = false := by simpa [handler] using hf
    rw [wp_bind]
    refine wp_transportAbort (wp_transferFailure fun result hi hr => ?_)
    have hw : (handler d (.txWrite pixels) w).snd = w.paint (pixels.take d.sent) := by
      simp [handler, hf]
    rw [hw]
    exact hn result false d.sent hi hr fun he => by cases hf.symm.trans (he d hd).succeeds
  case isFalse hf =>
    have hf : d.succeeds = true := by simpa [handler] using hf
    have hw : (handler d (.txWrite pixels) w).snd = w.paint pixels := by simp [handler, hf]
    rw [hw]
    refine wp_terminalResult fun result hi hr => ?_
    by_cases ho' : result = .ok
    · exact ho' ▸ ho
    · have hx := hn result true pixels.length hi ho' fun he => ho' (hr he)
      rwa [List.take_length, streaming_true hs] at hx

theorem wp_transportEnd {Q : Result → State → World → Prop} (hs : s.pixelStreamActive = true)
    (hq : ∀ result, result ≠ .internal → ((∀ d, admits d → d.Easy) → result = .ok) →
      Q result (s.streaming false) w) :
    wp (panel admits) (transportEnd deadline cancel) Q s w := by
  rw [transportEnd, wp_bind]
  refine wp_terminalResult fun result hi hr => ?_
  rw [wp_bind, wp_get]
  beta_reduce
  rw [wp_ite, if_neg (by simp [hs]), wp_ite]
  split
  case isTrue =>
    rw [wp_bind]
    exact wp_transportAbort (hq result hi hr)
  case isFalse =>
    rw [wp_bind]
    refine wp_panel fun d hd => ?_
    rw [wp_bind]
    show wp _ (if _ then _ else _) Q (s.streaming false) w
    rw [wp_ite]
    split
    case isTrue hf  =>
      have hf : d.succeeds = false := by simpa [handler] using hf
      refine wp_transferFailure fun result hi _ => hq result hi fun he => ?_
      cases hf.symm.trans (he d hd).succeeds
    case isFalse hf => exact wp_terminalResult hq

section Regions

variable {base overlay : Option Layer} {layer : Layer} {span : Span} {pixels : Row}
variable {progress : Bool}

-- What a layer makes of the pixels below it.
def State.painted (s : State) (board : Board) (span : Span) (layer : Option Layer) (pixels : Row) :
    Row :=
  match layer with
  | none       => pixels
  | some layer =>
    match s.commandsAt layer.commands, s.textAt layer.text with
    | some commands, some text =>
      renderCommandsSpan board span ((List.range layer.commandCount).map commands) text
        layer.textBytes layer.borrow pixels
    | _, _                     => pixels

-- Both layers on top of the framebuffer.
def State.composed (s : State) (board : Board) (base overlay : Option Layer) (span : Span) : Row :=
  s.painted board span overlay (s.painted board span base (s.shadow span.y))

-- The pixels of several spans, in the order in which they are sent.
def State.stream (s : State) (board : Board) (base overlay : Option Layer) (spans : List Span) :
    List UInt16 :=
  spans.flatMap fun span => span.pixels (s.composed board base overlay span)

theorem wp_renderLayer {Q : Row → State → World → Prop} {layer : Option Layer}
    (hv : ∀ l ∈ layer, l.Valid s) (hq : Q (s.painted board span layer pixels) s w) :
    wp (panel admits) (renderLayer board span layer pixels) Q s w := by
  cases layer with
  | none       => exact hq
  | some layer =>
    rw [renderLayer, wp_ite]
    split
    case isTrue hz =>
      have hp : s.painted board span (some layer) pixels = pixels := by
        simp only [State.painted, hz]
        split <;> rfl
      rwa [hp] at hq
    case isFalse hn =>
      obtain ⟨hc, ht⟩ := hv layer rfl hn
      obtain ⟨commands, hc⟩ := Option.isSome_iff_exists.mp hc
      obtain ⟨text, ht⟩ := Option.isSome_iff_exists.mp ht
      rw [State.painted, hc, ht] at hq
      rw [wp_bind, wp_get]
      beta_reduce
      rw [hc, ht]
      exact hq

theorem wp_renderSpan {Q : Row → State → World → Prop} (hb : ∀ l ∈ base, l.Valid s)
    (ho : ∀ l ∈ overlay, l.Valid s) (hq : Q (s.composed board base overlay span) s w) :
    wp (panel admits) (renderSpan board span base overlay) Q s w := by
  rw [renderSpan, wp_bind, wp_get]
  beta_reduce
  rw [wp_bind]
  exact wp_renderLayer hb (wp_renderLayer ho hq)

theorem stream_ne_nil (hw : 0 < span.width) {row : Row} : span.pixels row ≠ [] := by
  simp [Span.pixels, hw.ne']

theorem wp_transferSpans {spans : List Span} {Q : Result × Bool → State → World → Prop}
    (hs : s.pixelStreamActive = true) (hb : ∀ l ∈ base, l.Valid s) (ho : ∀ l ∈ overlay, l.Valid s)
    (hw : ∀ span ∈ spans, 0 < span.width)
    (hok : ∀ progress', Q (.ok, progress') s (w.paint (s.stream board base overlay spans)))
    (hn : ∀ result progress' n, result ≠ .internal → result ≠ .ok → ¬(∀ d, admits d → d.Easy) →
      Q (result, progress') (s.streaming false)
        (w.paint ((s.stream board base overlay spans).take n))) :
    wp (panel admits) (transferSpans board base overlay deadline cancel spans progress) Q s w := by
  induction spans generalizing w progress with
  | nil =>
    have hx := hok progress
    rwa [State.stream, List.flatMap_nil, paint_nil] at hx
  | cons span spans ih =>
    have hc : s.stream board base overlay (span :: spans) =
        span.pixels (s.composed board base overlay span) ++ s.stream board base overlay spans :=
      List.flatMap_cons ..
    have abort {result progress' active} (n : Nat) (hi : result ≠ .internal) (hr : result ≠ .ok)
        (he : ¬(∀ d, admits d → d.Easy)) :
        wp (panel admits) (transportAbort >>= fun _ => pure (result, progress')) Q
          (s.streaming active) (w.paint ((s.stream board base overlay (span :: spans)).take n)) := by
      rw [wp_bind]
      exact wp_transportAbort (hn result progress' n hi hr he)
    rw [transferSpans, wp_bind]
    refine wp_terminalResult fun result hi hr => ?_
    rw [wp_ite]
    split
    case isTrue hf =>
      have hx := @abort result progress true 0 hi hf fun he => hf (hr he)
      rwa [List.take_zero, paint_nil, streaming_true hs] at hx
    rw [wp_bind]
    refine wp_renderSpan hb ho ?_
    rw [wp_bind]
    refine wp_transportWrite hs (stream_ne_nil (hw _ List.mem_cons_self)) ?_ ?_
    · rw [wp_ite, if_neg (by simp)]
      refine ih (fun sp h => hw sp (List.mem_cons_of_mem _ h)) (fun progress' => ?_) ?_
      · have hx := hok progress'
        rwa [hc, ← paint_append] at hx
      · intro result progress' n hi hr he
        have hx := hn result progress'
          ((span.pixels (s.composed board base overlay span)).length + n) hi hr he
        rwa [hc, List.take_length_add_append, ← paint_append] at hx
    · intro result active n hi hr he
      rw [wp_ite, if_pos hr]
      have hx := @abort result progress active
        (min n (span.pixels (s.composed board base overlay span)).length) hi hr he
      rwa [hc, List.take_append_of_le_length (Nat.min_le_right _ _), ← List.take_eq_take_min] at hx

theorem rowSpans_width {y fuel x remaining : Nat} {span : Span}
    (h : span ∈ rowSpans y fuel x remaining) : 0 < span.width := by
  induction fuel generalizing x remaining with
  | zero => cases h
  | succ fuel ih =>
    rw [rowSpans] at h
    split at h
    case isTrue => cases h
    case isFalse hr =>
      obtain rfl | h := List.mem_cons.mp h
      · dsimp only
        split
        · decide
        · exact Nat.pos_of_ne_zero hr
      · exact ih h

theorem rectSpans_width {rect : Rect} {span : Span} (h : span ∈ rectSpans rect) :
    0 < span.width := by
  obtain ⟨row, -, h⟩ := List.mem_flatMap.mp h
  exact rowSpans_width h

-- What a region shows in the order in which it is sent.
def State.region (s : State) (board : Board) (base overlay : Option Layer) (rect : Rect) :
    List UInt16 :=
  s.stream board base overlay (rectSpans rect)

theorem wp_transferRect {rect : Rect} {Q : Result × Bool → State → World → Prop}
    (hs : s.pixelStreamActive = false) (hb : ∀ l ∈ base, l.Valid s) (ho : ∀ l ∈ overlay, l.Valid s)
    (hok : ∀ progress', Q (.ok, progress') s
      ((w.selected rect).paint (s.region board base overlay rect)))
    (hn : ∀ result progress' w', result ≠ .internal → result ≠ .ok →
      ((∀ d, admits d → d.Easy) → ¬(screenRect board).Covers rect) →
      (w' = w ∨ ∃ n, w' = (w.selected rect).paint ((s.region board base overlay rect).take n)) →
      Q (result, progress') s w') :
    wp (panel admits) (transferRect board rect base overlay deadline cancel progress) Q s w := by
  rw [transferRect, wp_bind]
  refine wp_terminalResult fun result hi hr => ?_
  rw [wp_ite]
  split
  case isTrue hf => exact hn _ _ _ hi hf (fun he => absurd (hr he) hf) (.inl rfl)
  rw [wp_bind]
  refine wp_transportBegin hs ?_ ?_
  case refine_2 =>
    intro result w' hi hf hw he
    rw [wp_ite, if_pos hf]
    refine hn _ _ _ hi hf he (hw.imp_right fun hw => ⟨0, ?_⟩)
    rw [hw, List.take_zero, paint_nil]
  rw [wp_ite, if_neg (by simp), wp_bind]
  refine wp_transferSpans rfl hb ho (fun _ => rectSpans_width) (fun progress' => ?_) ?_
  case refine_2 =>
    intro result progress' n hi hf he
    rw [wp_ite, if_pos hf]
    have hx := hn result progress' _ hi hf (fun h => absurd h he) (.inr ⟨n, rfl⟩)
    rwa [← streaming_self hs] at hx
  rw [wp_ite, if_neg (by simp), wp_bind]
  refine wp_transportEnd rfl fun result hi hr => ?_
  rw [wp_bind, wp_onlyIf]
  have hself : (s.streaming true).streaming false = s := streaming_self hs
  split
  case isTrue hf =>
    refine wp_transportAbort ?_
    have hx := hn result progress' _ hi hf (fun he => absurd (hr he) hf)
      (.inr ⟨(s.region board base overlay rect).length, rfl⟩)
    rw [List.take_length, ← hself] at hx
    exact hx
  case isFalse hf =>
    have hx := hok progress'
    rw [not_not.mp hf]
    rw [← hself] at hx
    exact hx

theorem wp_transferRegions {regions : List Rect} {Q : Result × Bool → State → World → Prop}
    (hs : s.pixelStreamActive = false) (hb : ∀ l ∈ base, l.Valid s) (ho : ∀ l ∈ overlay, l.Valid s)
    (hq : ∀ result progress' w', result ≠ .internal → w'.pool = w.pool →
      ((∀ d, admits d → d.Easy) → (∀ r ∈ regions, (screenRect board).Covers r) → result = .ok) →
      Q (result, progress') s w') :
    wp (panel admits) (transferRegions board base overlay deadline cancel regions progress) Q s w := by
  induction regions generalizing w progress with
  | nil => exact hq .ok _ _ (by decide) rfl fun _ _ => rfl
  | cons region regions ih =>
    rw [transferRegions, wp_bind]
    refine wp_transferRect hs hb ho (fun progress' => ?_) ?_
    · rw [wp_ite, if_neg (by simp)]
      refine ih fun result progress'' w' hi hp he => hq _ _ _ hi hp fun h hr => ?_
      exact he h fun r hm => hr r (List.mem_cons_of_mem _ hm)
    · intro result progress' w' hi hf he hw
      rw [wp_ite, if_pos hf]
      refine hq _ _ _ hi ?_ fun h hr => absurd (hr region List.mem_cons_self) (he h)
      obtain rfl | ⟨n, rfl⟩ := hw <;> rfl

end Regions
end Display
