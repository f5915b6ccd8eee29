import HackyLens.Display.Theorems.Calm
import HackyLens.Script.Theorems.Requests

-- The requests of one run, from the moment in which the bridge is prepared for it.

namespace Script

open App (Result)
open Display (Board Calm Call Closed Decision Drawing Frame Inv Pool World board320 handler obliging
  panel screenRect)
open Prog

variable {board : Board} {request : Request} {t t' : State} {w w' : World} {runId : UInt32}
variable {admits : Decision → Prop} {result : BindingResult}

section Prepare

-- What the adapter is like whenever the bridge does not use it.
structure Unused (t : State) (w : World) : Prop where
  inv : Inv t.adapter w
  calm : Calm t.adapter
  apart : w.pool.Apart
  stranger : t.adapter.findPlane gDisplay = none
  display : t.display = none

-- The plane has been opened.
def opened (s : Display.State) : Display.State :=
  { s with overlayPlane := {
      s.overlayPlane with
      session := gDisplay
      repair := if s.workspace ≠ 0 then .overlayRepair s.workspace else .null
      repairCount := 0
      active := true } }

def State.opened (t : State) : State :=
  { t with
    adapter := Script.opened t.adapter
    display := some .overlay
    service.claimants := fun kind =>
      if kind = .overlay then gDisplay else t.service.claimants kind }

theorem opened_claimants : t.opened.service.claimants .overlay = gDisplay := by
  simp [State.opened]

theorem opened_providerFor (hs : t.service.quarantined .overlay = false) :
    t.opened.providerFor = .ok := by
  simp [State.providerFor, State.opened, hs]

theorem wp_open {Q : Result → State → World → Prop} (hd : t.display = none)
    (hn : ∀ result, result ≠ .ok → Q result t w)
    (ho : t.adapter.overlayPlane.active = false → t.service.quarantined .overlay = false →
      Q .ok t.opened w) : wp (panel admits) («open» .overlay) Q t w := by
  rw [«open», wp_bind, wp_get]
  beta_reduce
  rw [wp_ite]
  split
  case isTrue => exact hn .busy (by decide)
  rw [wp_ite]
  split
  case isTrue => exact hn .internal (by decide)
  case isFalse hq =>
    rw [wp_bind, wp_adapter, Display.open, wp_bind, wp_get]
    beta_reduce
    rw [wp_ite, if_neg (by decide), wp_ite]
    split
    case isTrue =>
      rw [wp_pure, wp_ite, if_pos (by decide), wp_bind, wp_modify]
      have hs : { t with display := none } = t := by rw [← hd]
      show Q .busy { t with display := none } w
      rw [hs]
      exact hn .busy (by decide)
    case isFalse ha =>
      rw [wp_bind, wp_set, wp_pure, wp_ite, if_neg (by decide), wp_bind, wp_modify]
      exact ho (Bool.eq_false_iff.mpr ha) (Bool.eq_false_iff.mpr hq)

theorem Unused.opened (h : Unused t w) (ha : t.adapter.overlayPlane.active = false) :
    Inv t.opened.adapter w := by
  have ho : wp (panel fun _ => True) (Display.open gDisplay (some .overlay))
      (fun result s w' => result = .ok → w' = w → s = t.opened.adapter → Inv t.opened.adapter w)
      t.adapter w := by
    refine wp_mono (wp_restrict (fun _ _ => trivial) (Display.safe_open h.inv)) ?_
    rintro result s w' hi - rfl rfl
    exact hi
  rw [Display.open, wp_bind, wp_get] at ho
  beta_reduce at ho
  rw [wp_ite, if_neg (by decide), wp_ite, if_neg (by simpa [Display.State.plane] using ha),
    wp_bind, wp_set, wp_pure] at ho
  exact ho rfl rfl rfl

theorem Unused.stranger_base (h : Unused t w) (hb : t.adapter.base.active = true) :
    t.adapter.base.session ≠ gDisplay := by
  intro he
  have hn := h.stranger
  rw [Display.State.findPlane, if_neg (by decide), if_pos ⟨hb, he⟩] at hn
  cases hn

-- The batch is opened for the script, unless there is none to be had.
theorem Unused.wp_begin (h : Unused t w) (ha : t.adapter.overlayPlane.active = false) :
    wp (panel admits) (Display.begin board gDisplay) (fun result s w' =>
      (result = .ok ∧ Drawing board gDisplay s w' ∧ s.frame = .empty) ∨
        result = .busy ∧ s = t.opened.adapter ∧ w' = w) t.opened.adapter w := by
  have hi := h.opened ha
  by_cases hk : t.adapter.stage.kind = .none
  case pos =>
    have hc : Closed gDisplay t.opened.adapter := ⟨by decide, h.stranger_base, rfl, rfl, hk⟩
    refine hc.wp_begin_first hi h.calm.stream rfl ?_ h.apart
    have hz := h.calm.unused ha
    have ho := h.inv.overlay hz
    show t.adapter.committed = .empty
    simp [Display.State.committed, hz, ho, Frame.empty, Memory.read]
  case neg =>
    have hf : t.opened.adapter.findPlane gDisplay = some .overlay := by
      unfold Display.State.findPlane
      rw [if_neg (by decide), if_neg fun hb => h.stranger_base hb.left hb.right, if_pos ⟨rfl, rfl⟩]
    have hs : ¬t.opened.adapter.surfaced gDisplay = true := by
      intro hs
      obtain ⟨hs, -, he⟩ := Display.State.surfaced_iff.mp hs
      have hb := h.inv.surface hs
      exact h.stranger_base hb.left (hb.right.trans he)
    rw [Display.begin, wp_bind, wp_get]
    beta_reduce
    have hb : t.opened.adapter.stage.kind ≠ .none := hk
    rw [wp_ite, hf, if_neg (by simp), wp_ite, if_neg hs, wp_ite, if_pos hb]
    exact .inr ⟨rfl, rfl, rfl⟩

-- What is left when the overlay was opened in vain.
theorem wp_giveUp (h : Inv t.adapter w) (hd : t.display = some .overlay)
    (hc : t.service.claimants .overlay = gDisplay) {Q : Unit → State → World → Prop}
    (hq : ∀ t' w', t'.transaction = t.transaction → Q () t' w') :
    wp (panel admits) (giveUp board .busy) Q t w := by
  rw [giveUp, wp_bind, wp_get]
  beta_reduce
  rw [wp_ite, if_pos ⟨by decide, by simp [hd]⟩, wp_bind, retire, wp_bind, wp_get]
  beta_reduce
  rw [hd]
  dsimp only
  rw [wp_ite, if_neg (not_not.mpr hc), wp_bind, closePlane, wp_ite, if_neg (by decide), wp_adapter]
  refine wp_mono (wp_restrict (fun _ _ => trivial) (Display.safe_close h)) fun result s w' hi => ?_
  rw [wp_bind, wp_adapter]
  refine wp_mono (wp_restrict (fun _ _ => trivial) (Display.safe_retire hi)) fun _ s w' _ => ?_
  exact hq _ _ rfl

-- After the bridge has been prepared, the script has an empty batch, or it is barred.
theorem Unused.wp_prepare (h : Unused t w) (board : Board) (runId : UInt32) :
    wp (panel admits) (prepare board runId) (fun _ t' w' =>
      t'.displayOwned = true ∧ Ready board t' w' ∧ t'.adapter.frame = .empty ∨ Barred t') t w := by
  rw [prepare, wp_bind, wp_modify]
  let t₁ : State := { t with runId, displayRunId := runId, transaction.active := false }
  have h₁ : Unused t₁ w := ⟨h.inv, h.calm, h.apart, h.stranger, h.display⟩
  show wp _ _ _ t₁ w
  rw [wp_bind]
  refine wp_open h₁.display (fun result hr => ?_) fun ha hs => ?_
  · rw [wp_bind, wp_andThen, if_neg hr, wp_bind, giveUp, wp_bind, wp_get]
    beta_reduce
    rw [wp_ite, if_neg fun hn => by simp [h.display] at hn]
    exact .inr ⟨by simp [hr], rfl⟩
  · rw [wp_bind, wp_andThen, if_pos rfl]
    refine wp_guarded (opened_providerFor hs) (wp_mono (h₁.wp_begin ha) ?_)
    rintro result s w' (⟨rfl, hd, hf⟩ | ⟨rfl, rfl, rfl⟩)
    · refine ⟨by decide, ?_⟩
      rw [wp_bind, giveUp, wp_bind, wp_get]
      beta_reduce
      rw [wp_ite, if_neg (by simp)]
      exact .inl ⟨rfl, ⟨⟨rfl, opened_claimants, hs, rfl, rfl⟩, hd, rfl⟩, hf⟩
    · refine ⟨by decide, ?_⟩
      rw [wp_bind]
      refine wp_giveUp (h₁.opened ha) rfl opened_claimants fun t' w' ht => ?_
      exact .inr ⟨rfl, congrArg Transaction.active ht⟩

end Prepare
-- Before a script runs, the bridge has no plane, and the adapter has only been used by others.
structure Start (board : Board) (t : State) (w : World) : Prop where
  reached : ∃ pixels es, Run handler (Display.Op.perform board) none
    (fun op _ s _ => op.Sensible s) .zero (.boot pixels) es t.adapter w
  stranger : t.adapter.findPlane gDisplay = none
  display : t.display = none

theorem Start.unused (h : Start board t w) : Unused t w := by
  obtain ⟨_, _, r⟩ := h.reached
  exact ⟨.run r, .run r, .run r, h.stranger, h.display⟩

-- What is true of the script's batch between the requests.
def Between (board : Board) (owned : Bool) (t : State) (w : World) : Prop :=
  if owned then Ready board t w else Barred t

variable {es : List (Request × Option BindingResult)} {t₀ t₁ : State} {w₀ w₁ : World}
variable {owned : Bool}

theorem meets_any {α : Type} {p : Task α} {Q : α → State → World → Prop} (ds : List Decision)
    (h : wp (panel fun _ => True) p Q t w) :
    (p.run handler t ds w).Meets (panel fun _ => True) fun a => Q a.fst a.snd :=
  run_meets (fun _ _ => trivial) h

theorem meets_always {α : Type} {p : Task α} {Q : α → State → World → Prop} {d : Decision} (n : Nat)
    (h : wp (panel (· = d)) p Q t w) :
    (p.run handler t (.replicate n d) w).Meets (panel (· = d)) fun a => Q a.fst a.snd :=
  run_meets (fun _ hd => List.eq_of_mem_replicate hd) h

theorem Start.prepared (h : Start board t₀ w₀) {ds : List Decision} {u : Unit}
    (hp : (prepare board runId).run handler t₀ ds w₀ = .done (u, t₁) w₁) :
    Between board t₁.displayOwned t₁ w₁ := by
  have hm := meets_any ds (h.unused.wp_prepare board runId)
  rw [hp] at hm
  unfold Between
  obtain ⟨ho, hr, -⟩ | hb := hm
  · rw [if_pos ho]
    exact hr
  · rw [hb.owned, if_neg Bool.false_ne_true]
    exact hb

-- A presented batch that has no commands needs a new workspace.
def Request.Careful (request : Request) (t : State) (w : World) : Prop :=
  request.operation = .present → Spared t w

instance {request : Request} {t : State} {w : World} : Decidable (request.Careful t w) :=
  inferInstanceAs (Decidable (_ → _))

-- One request, between two moments in which the batch is as it is to be.
theorem Between.wp_tick (h : Between board owned t w) (hs : request.Careful t w)
    (hb : (screenRect board).empty = false) :
    wp (panel admits) (request.tick board) (fun result t' w' =>
      Between board owned t' w' ∧ Transactional board request t result t' ∧
        (owned = true → (∀ d, admits d → d.Easy) → request.Possible board t → result = .ok)) t w := by
  unfold Between at *
  split at h
  case isTrue ho  =>
    simp only [if_pos ho]
    refine wp_mono (Script.wp_tick h hs hb) ?_
    rintro result t' w' ⟨hset, he⟩
    exact ⟨hset.ready, hset.toTransactional, fun _ => he⟩
  case isFalse ho =>
    simp only [if_neg ho]
    refine wp_mono h.wp_tick ?_
    rintro result t' w' ⟨hr, rfl⟩
    refine ⟨h, ⟨fun _ => rfl, fun hok => absurd hok hr, fun hok => absurd hok hr⟩, fun hn => ?_⟩
    exact absurd hn ho

theorem Between.run (hb : (screenRect board).empty = false)
    (run : Run handler (Request.tick board) none (fun request _ t w => request.Careful t w) t₁ w₁
      es t w) (h : Between board owned t₁ w₁) : Between board owned t w := by
  refine run.invariant (fun _ t w => Between board owned t w) h ?_
  intro es t w request ds hs h
  have hm := meets_any ds (h.wp_tick hs hb)
  cases hr : (request.tick board).run handler t ds w with
  | done a w =>
    rw [hr] at hm
    exact hm.left
  | cut w | hung w => exact fun _ hn => by cases hn

-- The requests of a run are transactions on the staged frame. One that can be met is met whatever
-- has become of the ones before it, as long as nothing else goes wrong.
theorem requests_transactional (hw : 0 < board.width) (hh : 0 < board.height)
    (start : Start board t₀ w₀) {ds₀ : List Decision} {u : Unit}
    (prepared : (prepare board runId).run handler t₀ ds₀ w₀ = .done (u, t₁) w₁)
    (run : Run handler (Request.tick board) none (fun request _ t w => request.Careful t w) t₁ w₁
      es t w) (hs : request.Careful t w) :
    (∀ ds,
      match (request.tick board).run handler t ds w with
      | .done (result, t') _ => Transactional board request t result t'
      | .cut _               => True
      | .hung _              => False) ∧
      ∀ d : Decision, d.Easy → t₁.displayOwned = true → request.Possible board t →
        ∃ n t' w', (request.tick board).run handler t (.replicate n d) w = .done (.ok, t') w' := by
  have hb : (screenRect board).empty = false := Display.Rect.empty_eq_false.mpr ⟨hw, hh⟩
  have h := (start.prepared prepared).run hb run
  constructor
  · intro ds
    have hm := meets_any ds (h.wp_tick hs hb)
    revert hm
    cases (request.tick board).run handler t ds w with
    | done a w => exact fun hm => hm.right.left
    | cut w    => exact fun _ => trivial
    | hung w   => exact id
  · intro d hd ho hp
    obtain ⟨n, hn⟩ := @Tree.exists_uncut _ _ _ _ _ handler (request.tick board t) w d
    have hm := meets_always (d := d) n (h.wp_tick hs hb)
    change ∀ w', (request.tick board).run handler t _ w ≠ _ at hn
    cases hr : (request.tick board).run handler t (.replicate n d) w with
    | cut w    => exact absurd hr (hn w)
    | hung w   =>
      rw [hr] at hm
      exact hm.elim
    | done a w =>
      obtain ⟨result, t'⟩ := a
      rw [hr] at hm
      have hok : result = .ok := hm.right.right ho (fun _ he => he ▸ hd) hp
      exact ⟨n, t', w, hok ▸ hr⟩

-- The bridge before its first run.
def State.idle (adapter : Display.State) : State where
  adapter
  service      := ⟨fun _ => 0, fun _ => false⟩
  runId        := 0
  display      := none
  displayRunId := 0
  displayOwned := false
  transaction  := ⟨0, 0, 0, 0, false⟩

-- One pixel is filled.
def Request.pixel : Request where
  ticket    := 1
  operation := .rect
  arguments := fun i => if i = 2 ∨ i = 3 ∨ i = 5 then 1 else 0
  data      := []

def Request.presentation : Request where
  ticket      := 2
  operation   := .present
  arguments _ := 0
  data        := []

theorem Request.pixel_possible (hf : t.adapter.frame = .empty) :
    pixel.Possible board320 t := by
  refine ⟨⟨Nat.zero_le _, ?_⟩, ?_⟩
  · exact (by decide : ¬misplaced board320 pixel.arguments ∧ pixel.arguments 2 ≠ 0 ∧
      pixel.arguments 3 ≠ 0 ∧ pixel.arguments 4 ≤ 0xFFFF ∧
      (rectBounds pixel.arguments).valid = true)
  · rw [hf]
    decide

theorem requests_transactional_pixel : ∃ t₁ w₁,
    (prepare board320 1).run handler (.idle .zero) [obliging] (.boot fun _ _ => 0) =
      .done ((), t₁) w₁ ∧
    ∃ es t w, Run handler (Request.tick board320) none (fun request _ t w => request.Careful t w)
        t₁ w₁ es t w ∧
      (es = [(.pixel, some .ok)] ∧ Request.presentation.Careful t w) ∧
      (∀ ds,
        match (Request.presentation.tick board320).run handler t ds w with
        | .done (result, t') _ => Transactional board320 .presentation t result t'
        | .cut _               => True
        | .hung _              => False) ∧
      ∀ d : Decision, d.Easy → t₁.displayOwned = true → Request.presentation.Possible board320 t →
        ∃ n t' w', (Request.presentation.tick board320).run handler t (.replicate n d) w =
          .done (.ok, t') w' := by
  obtain ⟨t₁, w₁, hp, es, t, w, r, he, hs⟩ : ∃ t₁ w₁,
      (prepare board320 1).run handler (.idle .zero) [obliging] (.boot fun _ _ => 0) =
        .done ((), t₁) w₁ ∧
      ∃ es t w, Run handler (Request.tick board320) none
          (fun request _ t w => request.Careful t w) t₁ w₁ es t w ∧
        es = [(.pixel, some .ok)] ∧ Request.presentation.Careful t w := by
    refine ⟨_, _, rfl, ?_⟩
    exact exists_run
      (P := fun es t w => es = [(Request.pixel, some BindingResult.ok)] ∧
        Request.presentation.Careful t w)
      [(.pixel, .replicate 3 obliging)] ⟨_, rfl, rfl, fun _ _ => by decide⟩
  refine ⟨t₁, w₁, hp, es, t, w, r, ⟨he, hs⟩, ?_⟩
  exact requests_transactional (by decide) (by decide) ⟨⟨_, _, .start⟩, rfl, rfl⟩ hp r hs

-- The pool after it has been borrowed and given back by others.
def worn (generation : UInt32) : World :=
  ⟨fun _ _ => 0, .zero, 0, ⟨generation, 0, false, 0⟩⟩

theorem worn_reached {n : Nat} (hn : n < 0xFFFFFFFF) :
    ∃ es, Run handler (Display.Op.perform board320) none (fun op _ s _ => op.Sensible s) .zero
      (.boot fun _ _ => 0) es .zero (worn (.ofNat n)) := by
  induction n with
  | zero      => exact ⟨_, .start⟩
  | succ n ih =>
    obtain ⟨es, r⟩ := ih (by omega)
    have hn : (UInt32.ofNat n).toNat = n :=
      UInt32.toNat_ofNat_of_lt' (by show n < 4294967296; omega)
    have hm : UInt32.ofNat n ≠ 0xFFFFFFFF := fun he => by
      have he := congrArg UInt32.toNat he
      rw [hn] at he
      simp at he
      omega
    have hz : UInt32.ofNat n + 1 ≠ 0 := fun he => by
      have he := congrArg UInt32.toNat he
      rw [UInt32.toNat_add, hn] at he
      simp at he
      omega
    have hx : (worn (.ofNat n)).pool.borrowElsewhere.releaseElsewhere =
        ⟨.ofNat n + 1, 0, false, 0⟩ := by
      simp [Pool.borrowElsewhere, Pool.borrowed, Pool.borrow, Pool.releaseElsewhere, Pool.release,
        worn, hm, hz]
    have hr : ((Display.Op.releaseElsewhere).perform board320).run handler .zero [obliging]
        { worn (.ofNat n) with pool := (worn (.ofNat n)).pool.borrowElsewhere } =
        .done (none, .zero) (worn (.ofNat (n + 1))) := by
      show Outcome.done _ { worn (.ofNat n) with
        pool := (worn (.ofNat n)).pool.borrowElsewhere.releaseElsewhere } = _
      rw [hx, UInt32.ofNat_add]
      rfl
    have hb : ((Display.Op.borrowElsewhere).perform board320).run handler .zero [obliging]
        (worn (.ofNat n)) = .done (none, .zero)
          { worn (.ofNat n) with pool := (worn (.ofNat n)).pool.borrowElsewhere } := rfl
    exact ⟨_, .done (.done r (by rintro _ ⟨⟩) hb) (by rintro _ ⟨⟩) hr⟩

-- The workspace that is given back when an empty batch is presented was the last one. From then on
-- nothing can be drawn.
theorem requests_spoiled : Start board320 (.idle .zero) (worn 0xFFFFFFFE) ∧ ∃ t₁ w₁,
    (prepare board320 1).run handler (.idle .zero) [obliging] (worn 0xFFFFFFFE) =
      .done ((), t₁) w₁ ∧ t₁.displayOwned = true ∧
    ∃ es t w, Run handler (Request.tick board320) none (fun _ _ _ _ => True) t₁ w₁ es t w ∧
      es = [(Request.presentation, some BindingResult.busy)] ∧ Request.pixel.Possible board320 t ∧ obliging.Easy ∧
      ∀ n t' w', (Request.pixel.tick board320).run handler t (.replicate n obliging) w ≠
        .done (.ok, t') w' := by
  refine ⟨⟨⟨_, worn_reached (n := 0xFFFFFFFE) (by decide)⟩, rfl, rfl⟩, _, _, rfl, rfl, ?_⟩
  refine exists_run (P := fun es t w => es = [(Request.presentation, some BindingResult.busy)] ∧
    Request.pixel.Possible board320 t ∧ obliging.Easy ∧
    ∀ n t' w', (Request.pixel.tick board320).run handler t (.replicate n obliging) w ≠
      .done (.ok, t') w') [(.presentation, .replicate 8 obliging)]
    ⟨_, rfl, rfl, ?_, ⟨rfl, rfl, rfl⟩, ?_⟩
  · exact Request.pixel_possible rfl
  rintro (_ | _ | _ | n) t' w' h
  · cases h
  · cases h
  · cases h
  · cases congrArg Outcome.result h

end Script
