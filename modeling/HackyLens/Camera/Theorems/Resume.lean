import HackyLens.Camera.Theorems.Leases

-- Which frames are delivered after the stream has been resumed.

namespace CameraStream

open FramePool (Pool Borrow cameraSlotCount)
open Prog

namespace World

-- The numbers of the frames may wrap around here.
def raise (w : World) (e : Event × UInt32) : World :=
  if w.state.dvp.irqActive then
    w.step (.event e.fst e.snd) (w.state.onEvent e.fst e.snd)
  else
    w

end World

def endless : Prog.Handler Access Access.Reply World Decision :=
  fun d a w =>
    let w := d.events.foldl World.raise w
    let (reply, s) := a.run d w.state
    (reply, w.step (.access a reply) s)

def Label.begins : Label → Bool
  | .event .frameStart _ => true
  | _                    => false

namespace Entry

-- A conversion into the slot, a start of a frame by which none is converted, and the end of a call
-- of `resume`, which does nothing while the stream is stopped.
def Converts (e : Entry) (i : Index) : Prop :=
  e.after.dvp.conversions = some i :: e.before.dvp.conversions

def Skips (e : Entry) : Prop :=
  e.label.begins ∧ e.after.dvp = e.before.dvp

def Resumes (e : Entry) : Prop :=
  e.label = .access .resume () ∨ e.label = .access .running false

end Entry

-- The latest conversion into the slot was begun by a frame that another one had been skipped for.
def Renewed (recent : List Entry) (i : Index) : Prop :=
  ∃ later e earlier, recent = later ++ e :: earlier ∧ e.Converts i ∧
    e.label.begins ∧ (∀ e' ∈ later, ¬e'.Converts i) ∧
    ∃ e' ∈ earlier, e'.Skips

-- What is delivered was taken after each of those steps.
def Renews (P : Entry → Prop) : List Entry → Prop
  | []       => True
  | e :: log =>
    (∀ f ∈ e.label.delivered, ∃ i, f.pixels = some i ∧
      ∀ recent r earlier, log = recent ++ r :: earlier → P r → Renewed recent i) ∧ Renews P log

def Busy (s : State) (i : Index) : Prop :=
  (s.slots i).state = .capturing ∨ (s.slots i).state = .ready

structure Kept (s : State) : Prop where
  capturing : ∀ i, (s.slots i).state = .capturing → s.captureSlot = some i
  reserved : s.running → s.pool.cameraReserved
  idle : s.running = false → ∀ i, (s.slots i).state = .free

-- What one step does to the frames.
structure Moves (e : Entry) : Prop where
  kept : Kept e.after
  busy : ∀ i, Busy e.after i → Busy e.before i ∧ ¬e.Converts i ∨
    e.Converts i ∧ e.label.begins ∧ e.before.running ∧
      e.before.syncPending = false
  sync : e.after.running → e.after.syncPending ∨ e.Skips ∨
    e.before.running ∧ e.before.syncPending = e.after.syncPending
  delivered : ∀ f ∈ e.label.delivered, ∃ i, f.pixels = some i ∧ Busy e.before i

-- What holds of those frames that are on their way, since some earlier step.
structure Since (s : State) (recent : List Entry) : Prop where
  renewed : ∀ i, Busy s i → Renewed recent i
  skipped : s.running → s.syncPending ∨ ∃ e ∈ recent, e.Skips

structure Watched (P : Entry → Prop) (w : World) : Prop where
  kept : Kept w.state
  renews : Renews P w.log
  since : ∀ recent r earlier, w.log = recent ++ r :: earlier → P r → Since w.state recent

variable {s s' : State} {i j : Index} {w : World} {log recent : List Entry} {label : Label}
variable {e : Entry} {P : Entry → Prop}

theorem Renewed.cons (h : Renewed recent i) (he : ¬e.Converts i) : Renewed (e :: recent) i := by
  obtain ⟨later, c, earlier, rfl, hc, hs, hl, hk⟩ := h
  exact ⟨e :: later, c, earlier, rfl, hc, hs, List.forall_mem_cons.mpr ⟨he, hl⟩, hk⟩

theorem Since.step (h : Since e.before recent) (m : Moves e) : Since e.after (e :: recent) := by
  constructor
  case renewed =>
    intro i hi
    rcases m.busy i hi with ⟨hb, hn⟩ | ⟨hc, hs, hr, hp⟩
    case inl => exact (h.renewed i hb).cons hn
    case inr =>
      have hk := (h.skipped hr).resolve_left (Bool.eq_false_iff.mp hp)
      exact ⟨[], e, recent, rfl, hc, hs, List.forall_mem_nil _, hk⟩
  case skipped =>
    intro hr
    rcases m.sync hr with hp | hk | ⟨hr, hp⟩
    · exact .inl hp
    · exact .inr ⟨e, List.mem_cons_self, hk⟩
    · rcases h.skipped hr with hb | ⟨e', he', hk⟩
      · exact .inl (hp ▸ hb)
      · exact .inr ⟨e', List.mem_cons_of_mem _ he', hk⟩

theorem Watched.step (h : Watched P w) (m : Moves ⟨label, w.state, s'⟩)
    (hp : P ⟨label, w.state, s'⟩ → Since s' []) : Watched P (w.step label s') := by
  refine ⟨m.kept, ⟨fun f hf => ?_, h.renews⟩, fun recent r earlier hlog hr => ?_⟩
  · obtain ⟨i, hi, hb⟩ := m.delivered f hf
    exact ⟨i, hi, fun recent r earlier hlog hr => (h.since recent r earlier hlog hr).renewed i hb⟩
  · cases recent with
    | nil =>
      cases hlog
      exact hp hr
    | cons e recent =>
      obtain ⟨he, hlog⟩ : _ ∧ w.log = recent ++ r :: earlier := List.cons.inj hlog
      exact he ▸ (h.since recent r earlier hlog hr).step m

section Steps

theorem not_converts (h : e.after.dvp = e.before.dvp) : ¬e.Converts i := by
  rw [Entry.Converts, h]
  exact List.cons_ne_self _ _ ∘ Eq.symm

-- A step that neither takes a frame nor begins one.
theorem Moves.keeps (h : Kept s') (hb : ∀ i, Busy s' i → Busy s i)
    (hd : s'.dvp.conversions = s.dvp.conversions)
    (hs : s'.running → s'.syncPending ∨ s.running ∧ s.syncPending = s'.syncPending)
    (hl : label.delivered = none) : Moves ⟨label, s, s'⟩ where
  kept := h
  busy i hi := .inl ⟨hb i hi, fun hc => List.cons_ne_self _ _ (hc.symm.trans hd)⟩
  sync hr := (hs hr).imp_right .inr
  delivered f hf := by cases hl.symm.trans hf

theorem onEvent_sync (event : Event) (status : UInt32) :
    (s.onEvent event status).dvp = s.dvp ∧
      ((s.onEvent event status).syncPending = s.syncPending ∨ event = .frameStart) ∨
    event = .frameStart ∧ s.syncPending = false ∧
      (s.onEvent event status).syncPending = s.syncPending := by
  cases event
  case frameFinish =>
    simp only [State.onEvent, State.onFrameFinish]
    split
    case h_2 => exact .inl ⟨rfl, .inl rfl⟩
    case h_1 =>
      split
      all_goals exact .inl ⟨rfl, .inl rfl⟩
  case frameStart =>
    simp only [State.onEvent, State.onFrameStart]
    split
    case isTrue => exact .inl ⟨rfl, .inl rfl⟩
    case isFalse =>
      split
      case isTrue => exact .inl ⟨rfl, .inr trivial⟩
      case isFalse hp =>
        split
        case h_1 => exact .inl ⟨rfl, .inl rfl⟩
        case h_2 => exact .inr ⟨trivial, Bool.not_eq_true _ ▸ hp, rfl⟩

theorem Kept.congr (h : Kept s) (a : Alike s s') : Kept s' := by
  obtain ⟨ha, hb, hc, _, _, _, hg⟩ := a
  refine ⟨?_, ?_, ?_⟩
  · rw [ha, hc]
    exact h.capturing
  · rw [hb, hg]
    exact h.reserved
  · rw [ha, hb]
    exact h.idle

theorem captured_kept (h : Kept s) (hc : s.captureSlot = some i)
    (hs : (s.slots i).state = .capturing) : Kept (captured s i) := by
  refine ⟨fun j hj => ?_, h.reserved, fun hr => ?_⟩
  · simp only [captured, setSlot_slots] at hj
    by_cases he : j = i
    case pos =>
      rw [if_pos he] at hj
      cases hj
    case neg =>
      rw [if_neg he] at hj
      cases hc.symm.trans (h.capturing j hj)
      exact absurd rfl he
  · cases (h.idle hr i).symm.trans hs

theorem converting_kept (h : Kept s) (hr : s.running) (hc : s.captureSlot = none) :
    Kept (converting s i) := by
  refine ⟨fun j hj => ?_, h.reserved, fun hn => ?_⟩
  · simp only [converting, setSlot_slots] at hj
    by_cases he : j = i
    case pos => rw [he]; rfl
    case neg =>
      rw [if_neg he] at hj
      cases hc.symm.trans (h.capturing j hj)
  · cases hr.symm.trans hn

theorem moves_event (event : Event) (status : UInt32) (h : Kept s) :
    Moves ⟨.event event status, s, s.onEvent event status⟩ := by
  have hsync := @onEvent_sync s event status
  rcases onEvent_cases (s := s) event status with a | ⟨i, rfl, hc, hs, a⟩ | ⟨i, hr, hc, _, a⟩
  case inl =>
    refine ⟨h.congr a, fun i hi => .inl ⟨?_, not_converts a.dvp⟩, fun hr => ?_, (by intros; contradiction)⟩
    · simp only [Busy, a.slots] at hi
      exact hi
    · rcases hsync with ⟨_, hp | rfl⟩ | ⟨_, _, hp⟩
      · exact .inr <| .inr ⟨a.running ▸ hr, hp.symm⟩
      · exact .inr <| .inl ⟨rfl, a.dvp⟩
      · exact .inr <| .inr ⟨a.running ▸ hr, hp.symm⟩
  case inr.inl =>
    refine ⟨(captured_kept h hc hs).congr a, fun j hj => .inl ⟨?_, not_converts a.dvp⟩,
      fun hr => .inr <| .inr ⟨?_, ?_⟩, (by intros; contradiction)⟩
    · simp only [Busy, a.slots, captured, setSlot_slots] at hj
      by_cases he : j = i
      case pos => exact .inl (he ▸ hs)
      case neg =>
        rw [if_neg he] at hj
        exact hj
    · exact (show (captured s i).running = s.running from rfl) ▸ a.running ▸ hr
    · rcases hsync with ⟨_, hp | hn⟩ | ⟨hn, _⟩
      · exact hp.symm
      · cases hn
      · cases hn
  case inr.inr =>
    have hp : s.pool.cameraSlot i = some i := if_pos (h.reserved hr)
    have hd : (s.onEvent event status).dvp.conversions = some i :: s.dvp.conversions := by
      rw [a.dvp]
      exact congrArg (· :: s.dvp.conversions) hp
    obtain ⟨rfl, hn, hp⟩ := hsync.resolve_left fun hn =>
      List.cons_ne_self _ _ (hd.symm.trans (congrArg Dvp.conversions hn.left))
    refine ⟨(converting_kept h hr hc).congr a, fun j hj => ?_, fun _ => .inr <| .inr ⟨hr, hp.symm⟩,
      (by intros; contradiction)⟩
    by_cases he : j = i
    case pos =>
      subst he
      exact .inr ⟨hd, rfl, hr, hn⟩
    case neg =>
      simp only [Busy, a.slots, converting, setSlot_slots, if_neg he] at hj
      refine .inl ⟨hj, fun hc => he ?_⟩
      exact (Option.some_inj.mp (List.cons.inj (hd.symm.trans hc)).left).symm

theorem moves_same (h : Kept s) (hl : label.delivered = none) : Moves ⟨label, s, s⟩ :=
  .keeps h (fun _ hi => hi) rfl (fun hr => .inr ⟨hr, rfl⟩) hl

theorem moves_stop : Moves ⟨.access .stop (), s, s.stop⟩ := by
  refine .keeps ⟨nofun, nofun, fun _ _ => rfl⟩ ?_ stop_eq.right.right.left nofun rfl
  rintro i (hi | hi) <;> cases hi

theorem moves_start (status : UInt32) (irqStarts : Bool) (h : Kept s) :
    Moves ⟨.access .start (s.start status irqStarts).fst, s, (s.start status irqStarts).snd⟩ := by
  by_cases hp : s.pool.cameraReserved ∨ s.pool.workspaceActiveGeneration ≠ 0
  case pos =>
    have he : s.pool.cameraReserve = (false, s.pool) := if_pos hp
    rw [State.start, he]
    exact moves_same h rfl
  case neg =>
    have he : s.pool.cameraReserve = (true, { s.pool with cameraReserved := true }) := if_neg hp
    rw [State.start, he]
    cases irqStarts
    all_goals
      refine .keeps ⟨(by intros; contradiction), ?_, fun _ _ => rfl⟩ ?_ rfl ?_ rfl
    case true.refine_1  => exact fun _ => rfl
    case false.refine_1 => intros; contradiction
    case true.refine_3  => exact fun _ => .inl rfl
    case false.refine_3 => intros; contradiction
    all_goals rintro i (hi | hi) <;> cases hi

theorem moves_pause (h : Kept s) : Moves ⟨.access .pause (), s, s.pause⟩ :=
  .keeps (h.congr ⟨rfl, rfl, rfl, rfl, rfl, rfl, rfl⟩) (fun _ hi => hi) rfl
    (fun hr => .inr ⟨hr, rfl⟩) rfl

theorem freeReady_state {keep : Option Index} (hi : ((s.freeReady keep).slots i).state ≠ .free) :
    (s.freeReady keep).slots i = s.slots i ∧ (some i ≠ keep → (s.slots i).state ≠ .ready) := by
  rw [freeReady_slots] at hi ⊢
  split at hi
  case isTrue     => exact absurd rfl hi
  case isFalse hn => exact ⟨if_neg hn, fun hk hr => hn ⟨hk, hr⟩⟩

theorem Busy.not_free (h : Busy s i) : (s.slots i).state ≠ .free := by
  rcases h with h | h <;> rw [h] <;> exact nofun

theorem freeReady_kept (keep : Option Index) (h : Kept s) : Kept (s.freeReady keep) := by
  refine ⟨fun i hi => ?_, h.reserved, fun hr i => ?_⟩
  · have he := (@freeReady_state s i keep (by rw [hi]; exact nofun)).left
    exact h.capturing i (he ▸ hi)
  · by_contra hn
    have he := (freeReady_state hn).left
    exact hn (he ▸ h.idle hr i)

theorem freeReady_busy (keep : Option Index) (h : Busy (s.freeReady keep) i) : Busy s i := by
  have he := (freeReady_state h.not_free).left
  rw [Busy, he] at h
  exact h

theorem moves_resume (h : Kept s) : Moves ⟨.access .resume (), s, s.resume⟩ := by
  rw [State.resume]
  split
  case isFalse => exact moves_same h rfl
  case isTrue  =>
    refine .keeps ?_ (fun i hi => freeReady_busy none hi) rfl (fun _ => .inl rfl) rfl
    exact (freeReady_kept none h).congr ⟨rfl, rfl, rfl, rfl, rfl, rfl, rfl⟩

theorem leased_of_ne (hj : j ≠ i) : (leased s i).slots j = (s.freeReady (some i)).slots j :=
  setSlot_slots.trans (if_neg hj)

theorem moves_acquireLatest (h : Kept s) :
    Moves ⟨.access .acquireLatest s.acquireLatest.fst, s, s.acquireLatest.snd⟩ := by
  rcases acquireLatest_cases (s := s) with he | ⟨i, hi, _, hf, a⟩
  case inl =>
    rw [he]
    exact moves_same h rfl
  case inr =>
    have hr := (newestReady_spec hi).left
    have hrun : s.running := Bool.of_not_eq_false fun hn => by cases (h.idle hn i).symm.trans hr
    have hp : s.pool.cameraSlot i = some i := if_pos (h.reserved hrun)
    -- The slot that is handed out, and the other one.
    have busy (j : Index) (hj : Busy (leased s i) j) : Busy s j := by
      by_cases he : j = i
      case pos =>
        rw [Busy, he, leased_slot] at hj
        rcases hj with hj | hj <;> cases hj
      case neg =>
        rw [Busy, leased_of_ne he] at hj
        exact freeReady_busy (some i) hj
    have kept : Kept (leased s i) := by
      refine ⟨fun j hj => ?_, h.reserved, fun hn => absurd hrun (Bool.eq_false_iff.mp hn)⟩
      have hb := busy j (.inl hj)
      by_cases he : j = i
      case pos =>
        rw [he, leased_slot] at hj
        cases hj
      case neg =>
        rw [leased_of_ne he] at hj
        exact (freeReady_kept (some i) h).capturing j hj
    refine ⟨kept.congr a, fun j hj => .inl ⟨busy j ?_, not_converts a.dvp⟩,
      fun _ => .inr <| .inr ⟨hrun, ?_⟩, fun f hd => ⟨i, ?_, .inr hr⟩⟩
    · rw [Busy, a.slots] at hj
      exact hj
    · rw [State.acquireLatest]
      split
      case h_1 => rfl
      case h_2 => split <;> rfl
    · rw [hf, hp] at hd
      cases hd
      rfl

theorem moves_release (leaseId : UInt32) (h : Kept s) :
    Moves ⟨.access (.release leaseId) (), s, s.release leaseId⟩ := by
  rcases release_cases (s := s) leaseId with ⟨he, _⟩ | ⟨i, hs, _, he⟩
  case inl =>
    rw [he]
    exact moves_same h rfl
  case inr =>
    have busy (j : Index) (hj : Busy (s.setSlot i ⟨.free, (s.slots i).sequence, 0⟩) j) :
        Busy s j := by
      rw [Busy, setSlot_slots] at hj
      split at hj
      case isTrue  => rcases hj with hj | hj <;> cases hj
      case isFalse => exact hj
    rw [he]
    refine .keeps ⟨fun j hj => ?_, h.reserved, fun hn => ?_⟩ busy rfl (fun hr => .inr ⟨hr, rfl⟩) rfl
    · rw [setSlot_slots] at hj
      split at hj
      case isTrue  => cases hj
      case isFalse => exact h.capturing j hj
    · cases (h.idle hn i).symm.trans hs

theorem pool_borrow_reserved (pool : Pool) (minimumSize : UInt32) :
    (pool.borrow minimumSize).snd.cameraReserved = pool.cameraReserved := by
  rw [FramePool.Pool.borrow]
  split <;> rfl

theorem pool_release_reserved (pool : Pool) (b : Borrow) :
    (pool.release b).snd.cameraReserved = pool.cameraReserved := by
  rw [FramePool.Pool.release]
  split <;> rfl

-- Others take memory from the pool.
theorem moves_pool {pool : Pool} (h : Kept s) (hp : pool.cameraReserved = s.pool.cameraReserved)
    (hl : label.delivered = none) : Moves ⟨label, s, { s with pool }⟩ :=
  .keeps ⟨h.capturing, fun hr => hp ▸ h.reserved hr, h.idle⟩ (fun _ hi => hi) rfl
    (fun hr => .inr ⟨hr, rfl⟩) hl

theorem moves_access (a : Access) (d : Decision) (h : Kept s) :
    Moves ⟨.access a (a.run d s).fst, s, (a.run d s).snd⟩ := by
  cases a
  case running       => exact moves_same h rfl
  case stop          => exact moves_stop
  case start         => exact moves_start d.status d.irqStarts h
  case pause         => exact moves_pause h
  case resume        => exact moves_resume h
  case acquireLatest => exact moves_acquireLatest h
  case release id    => exact moves_release id h
  case borrow n      => exact moves_pool h (pool_borrow_reserved _ n) rfl
  case giveBack b    => exact moves_pool h (pool_release_reserved _ b) rfl

end Steps

-- No frame is being taken when the stream is resumed.
def Quiet (e : Entry) : Prop :=
  e.Resumes ∧ e.before.captureSlot = none

theorem since_resume (h : Kept s) (hc : s.captureSlot = none) : Since s.resume [] := by
  have idle (i : Index) : ¬Busy s.resume i := by
    intro hi
    by_cases hr : s.running
    case pos =>
      rw [State.resume, if_pos hr] at hi
      have hb : Busy (s.freeReady none) i := hi
      obtain ⟨he, hn⟩ := freeReady_state hb.not_free
      rcases freeReady_busy none hb with hs | hs
      · cases hc.symm.trans (h.capturing i hs)
      · exact hn nofun hs
    case neg =>
      rw [State.resume, if_neg hr] at hi
      exact hi.not_free (h.idle (Bool.not_eq_true _ ▸ hr) i)
  refine ⟨fun i hi => absurd hi (idle i), fun hr => .inl ?_⟩
  rw [State.resume] at hr ⊢
  split
  case isTrue => rfl
  case isFalse hn =>
    rw [if_neg hn] at hr
    exact absurd hr hn

theorem since_idle (h : Kept s) (hr : s.running = false) : Since s [] :=
  ⟨fun i hi => absurd (h.idle hr i) hi.not_free, fun hn => absurd hn (Bool.eq_false_iff.mp hr)⟩

theorem Watched.raise (es : List (Event × UInt32)) (h : Watched Quiet w) :
    Watched Quiet (es.foldl World.raise w) := by
  induction es generalizing w with
  | nil          => exact h
  | cons e es ih =>
    refine ih ?_
    rw [World.raise]
    split
    case isFalse => exact h
    case isTrue  =>
      refine h.step (moves_event e.fst e.snd h.kept) ?_
      rintro ⟨hr | hr, _⟩ <;> cases hr

theorem Watched.endless {a : Access} {d : Decision} (h : Watched Quiet w) :
    Watched Quiet (CameraStream.endless d a w).snd := by
  have h := h.raise d.events
  refine h.step (moves_access a d h.kept) ?_
  rintro ⟨hr, hc⟩
  cases a
  case resume  => exact since_resume h.kept hc
  case running =>
    refine since_idle h.kept ?_
    rcases hr with hr | hr
    · cases hr
    · exact Label.access.inj hr |>.right |> eq_of_heq
  all_goals rcases hr with hr | hr <;> cases hr

theorem Watched.zero : Watched Quiet ⟨.zero, []⟩ := by
  refine ⟨⟨nofun, nofun, fun _ _ => rfl⟩, trivial, fun recent r earlier hlog => ?_⟩
  cases recent <;> cases hlog

-- Wherever the frames begin and end, and however far the last call has got.
theorem resumed_frames_are_new {es : List (Op × Option Unit)} {u : Unit} {op : Op}
    {ds : List Decision}
    (r : Run endless Op.run none (fun _ _ _ _ => True) () ⟨.zero, []⟩ es u w) :
    Renews Quiet (op.run.run endless u ds w).world.log := by
  have h := r.world_invariant (Watched Quiet) .zero fun _ _ _ h => h.endless
  have h' : Watched Quiet (op.run.run endless u ds w).world :=
    Prog.Tree.run_keeps (h := endless) (Watched Quiet) (fun _ _ _ h => h.endless) h
  exact h'.renews

-- The stream is resumed between two frames.
theorem resumed_frames_are_new_between :
    ∃ es u w, Run endless Op.run none (fun _ _ _ _ => True) () ⟨.zero, []⟩ es u w ∧
      (∃ r ∈ w.log, Quiet r) ∧ (∃ e ∈ w.log, e.label.delivered.isSome) ∧
      Renews Quiet ((Op.release 1).run.run endless u [⟨[], 0, true⟩, ⟨[], 0, true⟩]
        w).world.log := by
  obtain ⟨es, u, w, hr, hq, hd⟩ :
      ∃ es u w, Run endless Op.run none (fun _ _ _ _ => True) () ⟨.zero, []⟩ es u w ∧
        (∃ r ∈ w.log, Quiet r) ∧ ∃ e ∈ w.log, e.label.delivered.isSome := exists_run
    (P := fun _ (_ : Unit) (w : World) =>
      (∃ r ∈ w.log, Quiet r) ∧ ∃ e ∈ w.log, e.label.delivered.isSome)
    [(.start true, [⟨[], 0, true⟩, ⟨[], 0, true⟩]),
      (.resume, [⟨[], 0, true⟩, ⟨[], 0, true⟩]),
      (.acquireLatest false, [⟨[(.frameStart, 0), (.frameStart, 0), (.frameFinish, 0)], 0, true⟩,
        ⟨[], 0, true⟩])]
    ⟨_, rfl, ⟨_, .tail _ <| .tail _ <| .tail _ <| .tail _ <| .tail _ <| .head _, .inl rfl, rfl⟩,
      _, .head _, rfl⟩
  exact ⟨es, u, w, hr, hq, hd, resumed_frames_are_new hr⟩

-- A frame that is still being taken when the stream is resumed is delivered afterwards.
theorem resumed_frame_is_old :
    ¬∀ es u w, Run endless Op.run none (fun _ _ _ _ => True) () ⟨.zero, []⟩ es u w →
      Renews Entry.Resumes w.log := by
  intro h
  obtain ⟨es, u, w, hr, e, a, b, r, log, hlog, hd, hp, hn⟩ :
      ∃ es u w, Run endless Op.run none (fun _ _ _ _ => True) () ⟨.zero, []⟩ es u w ∧
        ∃ e a b r log, w.log = e :: a :: b :: r :: log ∧ e.label.delivered.isSome ∧ r.Resumes ∧
          ∀ c ∈ [a, b], c.label.begins = false := exists_run
    (P := fun _ (_ : Unit) (w : World) =>
      ∃ e a b r log, w.log = e :: a :: b :: r :: log ∧ e.label.delivered.isSome ∧ r.Resumes ∧
        ∀ c ∈ [a, b], c.label.begins = false)
    [(.start true, [⟨[], 0, true⟩, ⟨[], 0, true⟩]),
      (.pause, [⟨[(.frameStart, 0), (.frameStart, 0)], 0, true⟩, ⟨[], 0, true⟩]),
      (.resume, [⟨[], 0, true⟩, ⟨[], 0, true⟩]),
      (.acquireLatest false, [⟨[(.frameFinish, 0)], 0, true⟩, ⟨[], 0, true⟩])]
    ⟨_, rfl, _, _, _, _, _, rfl, rfl, .inl rfl, by simp [Label.begins]⟩
  have hrenews := h es u w hr
  rw [hlog] at hrenews
  obtain ⟨f, hf⟩ := Option.isSome_iff_exists.mp hd
  obtain ⟨i, _, hi⟩ := hrenews.left f hf
  obtain ⟨later, c, earlier, hrecent, _, hc, _⟩ := hi [a, b] r log rfl hp
  have hmem : c ∈ [a, b] := by
    rw [hrecent]
    exact List.mem_append_right _ List.mem_cons_self
  cases (hn c hmem).symm.trans hc

end CameraStream
