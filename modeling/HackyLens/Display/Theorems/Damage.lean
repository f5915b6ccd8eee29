import Mathlib.Data.List.GetD
import Mathlib.Data.List.Pairwise
import HackyLens.Display.Theorems.Batch
import HackyLens.Display.Theorems.Paint

-- The regions of a batch, whatever is drawn and marked.

namespace Display

open App (Result)
open Prog

def Apart (rects : List Rect) : Prop :=
  rects.Pairwise fun r₁ r₂ => r₁.overlaps r₂ = false

-- Rectangles that share a pixel are united, in any order, until none of them do.
inductive Merges : List Rect → List Rect → Prop
  | done {rects merged} : rects.Perm merged → Apart merged → Merges rects merged
  | merge {rects r₁ r₂ rest merged} : rects.Perm (r₁ :: r₂ :: rest) → r₁.overlaps r₂ = true →
    Merges (r₁.union r₂ :: rest) merged → Merges rects merged

section Merging

variable {rects merged merged' outers dirty : List Rect} {r r₁ r₂ rect : Rect} {fuel : Nat}

theorem Apart.eq_of_overlaps (h : Apart rects) (h₁ : r₁ ∈ rects) (h₂ : r₂ ∈ rects)
    (ho : r₁.overlaps r₂ = true) : r₁ = r₂ := by
  by_contra hn
  have : Std.Symm fun r₁ r₂ : Rect => r₁.overlaps r₂ = false :=
    ⟨fun _ _ h => Rect.overlaps_comm.trans h⟩
  have ha : r₁.overlaps r₂ = false := List.Pairwise.forall h h₁ h₂ hn
  rw [ha] at ho
  cases ho

theorem Merges.apart (h : Merges rects merged) : Apart merged := by
  induction h with
  | done _ ha      => exact ha
  | merge _ _ _ ih => exact ih

-- What is merged stays covered.
theorem Merges.spanned (h : Merges rects merged) (hn : ∀ r ∈ rects, r.empty = false) :
    ∀ r ∈ rects, Spanned merged r := by
  induction h with
  | done hp ha =>
    intro r hr
    exact ⟨r, hp.subset hr, .refl (hn r hr)⟩
  | @merge rects r₁ r₂ rest merged hp ho _ ih =>
    have h₁ : r₁.empty = false := hn r₁ (hp.symm.subset (by simp))
    have h₂ : r₂.empty = false := hn r₂ (hp.symm.subset (by simp))
    have ih := ih <| List.forall_mem_cons.mpr ⟨Rect.union_nonempty h₁, fun r hr =>
      hn r (hp.symm.subset (by simp [hr]))⟩
    obtain ⟨outer, hr, hc⟩ := ih _ List.mem_cons_self
    intro r hm
    obtain rfl | hm := List.mem_cons.mp (hp.subset hm)
    · exact ⟨outer, hr, hc.trans (Rect.union_covers_left h₁)⟩
    obtain rfl | hm := List.mem_cons.mp hm
    · exact ⟨outer, hr, hc.trans (Rect.union_covers_right h₂)⟩
    · exact ih r (List.mem_cons_of_mem _ hm)

-- Nothing is merged that does not have to be.
theorem Merges.least (h : Merges rects merged) (ha : Apart outers)
    (hs : ∀ r ∈ rects, Spanned outers r) : ∀ r ∈ merged, Spanned outers r := by
  induction h with
  | done hp _ => exact fun r hr => hs r (hp.symm.subset hr)
  | merge hp ho _ ih =>
    refine ih <| List.forall_mem_cons.mpr ⟨?_, fun r hr => hs r (hp.symm.subset (by simp [hr]))⟩
    obtain ⟨o₁, hm₁, hc₁⟩ := hs _ (hp.symm.subset List.mem_cons_self)
    obtain ⟨o₂, hm₂, hc₂⟩ := hs _ (hp.symm.subset (List.mem_cons_of_mem _ List.mem_cons_self))
    have hr : o₁.overlaps o₂ = true := by
      rw [Rect.overlaps_comm]
      refine hc₂.overlaps_of_overlaps ?_
      rw [Rect.overlaps_comm]
      exact hc₁.overlaps_of_overlaps ho
    obtain rfl := ha.eq_of_overlaps hm₁ hm₂ hr
    exact ⟨o₁, hm₁, hc₁.union hc₂⟩

theorem Rect.Covers.antisymm (h₁ : r₁.Covers r₂) (h₂ : r₂.Covers r₁) : r₁ = r₂ := by
  unfold Rect.Covers at h₁ h₂
  ext <;> omega

theorem Merges.nonempty (h : Merges rects merged) (hn : ∀ r ∈ rects, r.empty = false) :
    ∀ r ∈ merged, r.empty = false := by
  induction h with
  | done hp _ => exact fun r hr => hn r (hp.symm.subset hr)
  | merge hp _ _ ih =>
    refine ih <| List.forall_mem_cons.mpr ⟨?_, fun r hr => hn r (hp.symm.subset (by simp [hr]))⟩
    exact Rect.union_nonempty (hn _ (hp.symm.subset List.mem_cons_self))

theorem Merges.subset (h : Merges rects merged) (h' : Merges rects merged')
    (hn : ∀ r ∈ rects, r.empty = false) : merged ⊆ merged' := by
  intro r hr
  obtain ⟨outer, ho, hc⟩ := h.least h'.apart (h'.spanned hn) r hr
  obtain ⟨inner, hi, hd⟩ := h'.least h.apart (h.spanned hn) outer ho
  have hri : r = inner := h.apart.eq_of_overlaps hr hi (hd.trans hc).overlaps
  exact hc.antisymm (hri ▸ hd) ▸ ho

theorem Merges.nodup (h : Merges rects merged) (hn : ∀ r ∈ rects, r.empty = false) :
    merged.Nodup := by
  refine h.apart.imp_of_mem fun {r₁ r₂} h₁ _ ho he => ?_
  have hr := (Rect.Covers.refl (h.nonempty hn r₁ h₁)).overlaps
  rw [← he, hr] at ho
  cases ho

-- However rectangles are merged, the same ones remain.
theorem Merges.perm (h : Merges rects merged) (h' : Merges rects merged')
    (hn : ∀ r ∈ rects, r.empty = false) : merged.Perm merged' :=
  (List.perm_ext_iff_of_nodup (h.nodup hn) (h'.nodup hn)).mpr fun _ =>
    ⟨fun hr => h.subset h' hn hr, fun hr => h'.subset h hn hr⟩

theorem dirtyAbsorb_merges (ha : Apart dirty) (hf : dirty.length ≤ fuel) :
    Merges (rect :: dirty)
      ((dirtyAbsorb fuel rect dirty).fst :: (dirtyAbsorb fuel rect dirty).snd) := by
  induction fuel generalizing rect dirty with
  | zero =>
    obtain rfl := List.length_eq_zero_iff.mp (Nat.le_zero.mp hf)
    exact .done .rfl (List.pairwise_singleton ..)
  | succ fuel ih =>
    unfold dirtyAbsorb
    split
    case h_1 hi => exact .done .rfl (List.pairwise_cons.mpr ⟨List.findIdx?_eq_none_iff.mp hi, ha⟩)
    case h_2 index hi =>
      obtain ⟨hi, ho, -⟩ := List.findIdx?_eq_some_iff_getElem.mp hi
      have hp := dirtyRemove_perm hi
      have hd : dirty.getD index .zero = dirty[index] := List.getD_eq_getElem _ _ hi
      have hl : (dirtyRemove dirty index).length + 1 = dirty.length := hp.length_eq
      have ha := (hp.pairwise_iff fun h => Rect.overlaps_comm.trans h).mpr ha
      exact .merge (hp.symm.cons rect) (hd ▸ ho) (ih ha.tail (by omega))

-- There is no room exactly if too many rectangles remain.
theorem Damage.add_eq_none (h : Damage dirty) (hr : rect.empty = false) :
    dirtyAdd dirty rect = none ↔
      ∃ merged, Merges (rect :: dirty) merged ∧ maxDirtyRects < merged.length := by
  have hm : Merges (rect :: dirty) _ := dirtyAbsorb_merges h.apart le_rfl
  have hn : ∀ r ∈ rect :: dirty, r.empty = false := List.forall_mem_cons.mpr ⟨hr, h.nonempty⟩
  rw [dirtyAdd_eq hr]
  constructor
  · intro hd
    split at hd
    case isTrue hl => exact ⟨_, hm, Nat.lt_succ_of_le hl⟩
    case isFalse   => cases hd
  · rintro ⟨merged, hm', hl⟩
    rw [(hm'.perm hm hn).length_eq] at hl
    exact if_pos (Nat.le_of_lt_succ hl)

end Merging

-- The region that a call adds to the damage of the batch.
inductive Op.Adds (board : Board) (clip : Rect) : Op → Rect → Prop
  | draft {op plane session draft} : op.Drafts clip plane session draft →
    Adds board clip op draft.command.rect
  | mark {session rect} :
    Adds board clip (.mark session (some rect)) (rect.intersection (screenRect board))

variable {board : Board} {clip : Rect} {plane : PlaneKind} {op : Op} {session : Nat}
variable {draft : Draft} {s s' : State} {w : World} {result : Result}
variable {drawn es : List (Op × Option (Option Result))} {pixels : Nat → Nat → UInt16}

theorem Op.Drafts.covers (h : op.Drafts clip plane session draft)
    (hr : draft.command.rect.empty = false) : clip.Covers draft.command.rect := by
  cases h
  case clear => exact .refl hr
  all_goals exact Rect.covers_intersection hr

-- What holds of a batch after the calls that were made since it was opened.
structure Covered (board : Board) (session : Nat) (drawn : List (Op × Option (Option Result)))
    (s : State) : Prop where
  rooted : s.Rooted
  staged : s.staged session = true
  clip : s.stage.clip.empty = false → (screenRect board).Covers s.stage.clip
  counted : s.Counted
  damage : Damage s.frame.dirty
  inside : ∀ r ∈ s.frame.dirty, (screenRect board).Covers r
  commands : ∀ c ∈ s.frame.commands, Spanned s.frame.dirty c.rect
  marks : ∀ rect : Rect, (.mark session (some rect), some (some .ok)) ∈ drawn →
    (rect.intersection (screenRect board)).empty = false →
    Spanned s.frame.dirty (rect.intersection (screenRect board))

-- The session that makes a drawing or a mark call.
def Op.caller : Op → Option Nat
  | .clip session _ | .clear session _ | .fill session _ _ | .stroke session _ _ => some session
  | .text session _ _ _ | .blit session _ _ _ | .mark session _                  => some session
  | _                                                                            => none

theorem Op.Drafts.caller (h : op.Drafts clip plane session draft) :
    op.caller = some session := by
  cases h <;> rfl

theorem Drawn.refused (h : Drawn board s op result s') (ho : result ≠ .ok) : s' = s := by
  cases h with
  | draft _ _ _ ha =>
    cases ha with
    | nothing | full | crowded => rfl
    | stored                   => exact absurd rfl ho
  | invalid | crowded | surfaceCrowded => rfl
  | clip | mark | surface              => exact absurd rfl ho

-- A limit that is exceeded is that of the commands, of the text, of the borrowed views or of the
-- regions.
theorem Drawn.limited (h : Drawn board s op .limit s') (hc : op.caller = some session)
    (hs : s.staged session = true) :
    (∃ plane draft, op.Drafts s.stage.clip plane session draft ∧ s.Full draft) ∨
      ∃ rect, op.Adds board s.stage.clip rect ∧ rect.empty = false ∧
        dirtyAdd s.frame.dirty rect = none := by
  have nonempty {dirty : List Rect} {rect : Rect} (hd : dirtyAdd dirty rect = none) :
      rect.empty = false := by
    rw [dirtyAdd] at hd
    split at hd
    case isTrue     => cases hd
    case isFalse hr => exact Bool.eq_false_iff.mpr hr
  cases h with
  | invalid _ hl => exact absurd rfl hl
  | draft hd _ _ ha =>
    cases ha with
    | full _ hf =>
      obtain rfl := Option.some_inj.mp (hd.caller.symm.trans hc)
      exact .inl ⟨_, _, hd, hf⟩
    | crowded hr _ ha => exact .inr ⟨_, .draft hd, hr, ha⟩
  | crowded _ ha => exact .inr ⟨_, .mark, nonempty ha, ha⟩
  | surfaceCrowded hn =>
    cases hc
    exact absurd hs hn

theorem Opened.covered (h : Opened board session s) (hr : s.Rooted) :
    Covered board session [] s where
  rooted      := hr
  staged      := h.staged
  clip hn     := by
    rw [h.clip] at hn ⊢
    exact .refl hn
  counted     := by rw [State.Counted, State.frame, h.dirtyCount]; rfl
  damage      := by rw [State.frame, h.dirtyCount]; exact .nil
  inside r hr := by rw [State.frame, h.dirtyCount] at hr; cases hr
  commands    := by rw [State.frame, h.commandCount]; intros; contradiction
  marks _     := (by intros; contradiction)

namespace Covered

variable {entry : Op × Option (Option Result)}

theorem refused (h : Covered board session drawn s)
    (he : ∀ rect, entry ≠ (.mark session (some rect), some (some .ok))) :
    Covered board session (entry :: drawn) s := by
  refine { h with marks := fun rect hr => h.marks rect ?_ }
  exact (List.mem_cons.mp hr).resolve_left fun hr => he rect hr.symm

theorem store (h : Covered board session drawn s) {dirty : List Rect}
    (hd : op.Drafts s.stage.clip plane session draft) (hr : draft.command.rect.empty = false)
    (ha : dirtyAdd s.frame.dirty draft.command.rect = some dirty)
    (he : ∀ rect, entry ≠ (.mark session (some rect), some (some .ok))) :
    Covered board session (entry :: drawn) (s.append draft dirty) := by
  have hf := @State.append_frame s draft dirty
  have hs := h.damage.spanned_add ha
  have hc := hd.covers hr
  have hb : (screenRect board).Covers draft.command.rect := (h.clip hc.outer_nonempty).trans hc
  exact {
    rooted   := ⟨h.rooted.1, h.rooted.2, h.rooted.3⟩
    staged   := h.staged
    clip     := h.clip
    counted  := by rw [State.Counted, hf]; rfl
    damage   := by rw [hf]; exact h.damage.add ha
    inside   := by rw [hf]; exact h.damage.inside_add ha h.inside fun _ => hb
    commands := by
      rw [hf]
      intro c hm
      obtain hm | hm := List.mem_append.mp hm
      · exact hs.left _ (h.commands c hm)
      · rw [List.mem_singleton.mp hm, Command.place_rect]
        exact hs.right hr
    marks    := by
      rw [hf]
      exact fun rect hm hn => hs.left _ ((h.refused he).marks rect hm hn) }

theorem mark (h : Covered board session drawn s) {rect : Rect} {dirty : List Rect}
    (ha : dirtyAdd s.frame.dirty (rect.intersection (screenRect board)) = some dirty) :
    Covered board session ((.mark session (some rect), some (some .ok)) :: drawn)
      (s.damaged dirty dirty.length) := by
  have hf : (s.damaged dirty dirty.length).frame = { s.frame with dirty } := by
    ext1
    · rfl
    · rfl
    · exact List.take_length
  have hs := h.damage.spanned_add ha
  exact {
    rooted   := ⟨h.rooted.1, h.rooted.2, h.rooted.3⟩
    staged   := h.staged
    clip     := h.clip
    counted  := by rw [State.Counted, hf]; rfl
    damage   := by rw [hf]; exact h.damage.add ha
    inside   := by rw [hf]; exact h.damage.inside_add ha h.inside Rect.covers_intersection
    commands := by rw [hf]; exact fun c hc => hs.left _ (h.commands c hc)
    marks    := by
      rw [hf]
      intro rect' hm hn
      obtain he | hm := List.mem_cons.mp hm
      · cases he
        exact hs.right hn
      · exact hs.left _ (h.marks rect' hm hn) }

theorem staged_eq (h : Covered board session drawn s) {session' : Nat}
    (hs : s.staged session' = true) : session' = session := by
  have h₁ := (State.staged_iff.mp h.staged).right.right
  have h₂ := (State.staged_iff.mp hs).right.right
  exact h₂.symm.trans h₁

-- One call keeps it, whether it is accepted or refused.
theorem step (h : Covered board session drawn s) (hd : Drawn board s op result s') :
    Covered board session ((op, some (some result)) :: drawn) s' := by
  cases hd with
  | invalid ho _ => exact h.refused fun _ he => by cases he; exact ho rfl
  | @clip _ rect =>
    refine .refused ⟨⟨h.rooted.1, h.rooted.2, h.rooted.3⟩, h.staged, ?_, h.counted, h.damage,
      h.inside, h.commands, h.marks⟩ nofun
    intro hn
    cases rect
    case none => exact .refl hn
    case some => exact Rect.covers_intersection hn
  | draft hd hs _ ha =>
    have he : ∀ rect r,
        (op, some (some r)) ≠ (Op.mark session (some rect), some (some Result.ok)) := by
      cases hd <;> nofun
    obtain rfl := h.staged_eq hs
    cases ha with
    | nothing | full | crowded => exact h.refused fun rect => he rect _
    | stored hr _ ha           => exact h.store hd hr ha fun rect => he rect _
  | mark hs ha =>
    obtain rfl := h.staged_eq hs
    exact h.mark ha
  | crowded | surfaceCrowded => exact h.refused nofun
  | surface hs =>
    refine .refused ⟨⟨h.rooted.1, h.rooted.2, h.rooted.3⟩, h.staged, h.clip, h.counted, h.damage,
      h.inside, h.commands, h.marks⟩ ?_
    intro _ he
    cases he
    exact hs h.staged

end Covered

-- What a staged command can change on the screen is damaged.
theorem Covered.of_rendered (h : Covered board session drawn s) {command : Command} {span : Span}
    {text : Memory} {textBytes x : Nat} {borrow : Borrow} {row : Row}
    (hc : command ∈ s.frame.commands) (hx : x < board.width)
    (hr : renderCommandSpan board span text textBytes borrow row command x ≠ row x) :
    ∃ r ∈ s.frame.dirty, r.Has x span.y := by
  obtain ⟨outer, ho, hs⟩ := h.commands command hc
  have hb := (h.inside outer ho).trans hs
  have hp : command.paint board text textBytes borrow x span.y ≠ none := by
    intro hn
    refine hr ?_
    rw [renderCommandSpan_apply hx hs.left hb.2.1 hb.2.2.1, hn, Option.getD_none, ite_self]
  exact ⟨outer, ho, hs.has (Command.has_of_paint hp)⟩

theorem State.Rooted.of_run (r : Run handler (Op.perform board) none (fun _ _ _ _ => True) .zero
    (.boot pixels) es s w) : s.Rooted :=
  r.preserves (P := State.Rooted) (fun _ => Roots.perform) State.Rooted.zero fun _ hn => by cases hn

theorem ensures_perform_begin : Ensures (fun _ => True) ((Op.begin session).perform board)
    (fun r s' => r = some .ok → Opened board session s') s := by
  change Ensures _ (begin board session >>= fun r => pure (some r)) _ s
  refine ensures_begin.seq fun r s' h => ?_
  exact fun hr => h (Option.some_inj.mp hr)

theorem Covered.of_run (r : Run handler (Op.perform board) none (fun _ _ _ _ => True) .zero
      (.boot pixels) (drawn ++ (.begin session, some (some .ok)) :: es) s w)
    (hd : ∀ e ∈ drawn, e.fst.Draws) : Covered board session drawn s := by
  induction drawn generalizing s w with
  | nil =>
    have hr := State.Rooted.of_run r
    cases r with
    | done _ _ hb => exact Opened.covered (ensures_perform_begin.of_run hb rfl) hr
  | cons e drawn ih =>
    cases r with
    | done r _ ho =>
      have h := ih r fun e he => hd e (List.mem_cons_of_mem _ he)
      obtain ⟨result, rfl, hs⟩ := Drawn.of_run h.rooted (hd _ List.mem_cons_self) ho
      exact h.step hs
    | lost _ _ _ _ hn => cases hn

-- The damage of a batch after some calls: a few regions of the screen that share no pixel and that
-- cover what the staged commands and the marks can change. A call that is refused changes nothing,
-- and it is only refused for its region if too many would remain.
structure Bookkeeping (board : Board) (session : Nat) (drawn : List (Op × Option (Option Result)))
    (s : State) (w : World) : Prop where
  counted : s.stage.dirtyCount = s.frame.dirty.length
  damage : Damage s.frame.dirty
  inside : ∀ r ∈ s.frame.dirty, (screenRect board).Covers r
  commands : ∀ command ∈ s.frame.commands, ∀ span text textBytes borrow row x, x < board.width →
    renderCommandSpan board span text textBytes borrow row command x ≠ row x →
    ∃ r ∈ s.frame.dirty, r.Has x span.y
  marks : ∀ (rect : Rect) x y, (.mark session (some rect), some (some .ok)) ∈ drawn →
    rect.Has x y → (screenRect board).Has x y → ∃ r ∈ s.frame.dirty, r.Has x y
  refused : ∀ (op : Op) ds result s' w', op.Draws →
    (op.perform board).run handler s ds w = .done (result, s') w' → result ≠ some .ok → s' = s
  limited : ∀ (op : Op) ds s' w', op.Draws → op.caller = some session →
    (op.perform board).run handler s ds w = .done (some .limit, s') w' →
    (∃ plane draft, op.Drafts s.stage.clip plane session draft ∧ s.Full draft) ∨
      ∃ rect merged, op.Adds board s.stage.clip rect ∧ Merges (rect :: s.frame.dirty) merged ∧
        maxDirtyRects < merged.length

theorem damage_covers (r : Run handler (Op.perform board) none (fun _ _ _ _ => True) .zero
      (.boot pixels) (drawn ++ (.begin session, some (some .ok)) :: es) s w)
    (hd : ∀ e ∈ drawn, e.fst.Draws) : Bookkeeping board session drawn s w := by
  have h := Covered.of_run r hd
  refine ⟨h.counted.symm, h.damage, h.inside, fun _ hc _ _ _ _ _ _ => h.of_rendered hc, ?_, ?_, ?_⟩
  · intro rect x y hm hr hs
    have hi : (rect.intersection (screenRect board)).Has x y := Rect.has_intersection.mpr ⟨hr, hs⟩
    obtain ⟨outer, ho, hc⟩ := h.marks rect hm hi.nonempty
    exact ⟨outer, ho, hc.has hi⟩
  · intro op ds result s' w' ho hr hn
    obtain ⟨result, rfl, hs⟩ := Drawn.of_run h.rooted ho hr
    exact hs.refused fun he => hn (congrArg some he)
  · intro op ds s' w' ho hc hr
    obtain ⟨result, hl, hs⟩ := Drawn.of_run h.rooted ho hr
    obtain rfl := Option.some_inj.mp hl
    refine (hs.limited hc h.staged).imp_right ?_
    rintro ⟨rect, ha, hn, hd⟩
    obtain ⟨merged, hm, hl⟩ := (h.damage.add_eq_none hn).mp hd
    exact ⟨rect, merged, ha, hm, hl⟩

def fillReplies : List (Op × Option (Option Result)) :=
  [(.fill 1 ⟨0, 0, 1, 1⟩ 0xFFFF, some (some .ok)), (.begin 1, some (some .ok)),
    (.open 1 (some .overlay), some (some .ok))]

theorem damage_covers_fill : ∃ s w, s.frame.dirty = [⟨0, 0, 1, 1⟩] ∧
    Bookkeeping board320 1 [(.fill 1 ⟨0, 0, 1, 1⟩ 0xFFFF, some (some .ok))] s w := by
  have hx : ∃ es s w, Run handler (Op.perform board320) none (fun _ _ _ _ => True) .zero
      (.boot fun _ _ => 0) es s w ∧ es = fillReplies ∧ s.frame.dirty = [⟨0, 0, 1, 1⟩] :=
    exists_run (P := fun es (s : State) _ => es = fillReplies ∧ s.frame.dirty = [⟨0, 0, 1, 1⟩])
      [(.open 1 (some .overlay), []), (.begin 1, [obliging]), (.fill 1 ⟨0, 0, 1, 1⟩ 0xFFFF, [])]
      ⟨_, rfl, rfl, rfl⟩
  obtain ⟨es, s, w, r, rfl, hf⟩ := hx
  exact ⟨s, w, hf, damage_covers r fun e he => List.mem_singleton.mp he ▸ trivial⟩

end Display
