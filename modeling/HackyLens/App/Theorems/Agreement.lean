import HackyLens.App.Theorems.Switch

-- The switch and the runtime agree about the app that runs, so that opening an app is not refused.

namespace App

open Prog

variable {fuel depth : Nat} {s s' : Switch} {w w' : Log} {x r : Result} {reason : StopReason}

-- The app or the world itself answers that it is busy.
def Busy : Sigma Call.Answer → Prop
  | ⟨.prepare _, result, _⟩         => result = .busy
  | ⟨.deadlineAfter _ _, result, _⟩ => result = .busy
  | ⟨.nowUs, result, _⟩             => result = .busy
  | ⟨.next _ _, .done result⟩       => result = .busy
  | ⟨.retire _ _, result⟩           => result = Result.busy
  | ⟨.cleanup _, result⟩            => result = Result.busy
  | _                               => False

def Clear (w : Log) : Prop :=
  ∀ e ∈ w, ¬Busy e

theorem Clear.of_suffix (h : Clear w') (hw : w <:+ w') : Clear w :=
  fun e he => h e (hw.subset he)

theorem callbackResult_busy (h : r ≠ .busy) : callbackResult r ≠ .busy := by
  rw [callbackResult]
  split
  · decide
  · exact h

theorem firstFailure_busy {results : List Result} (h : ∀ r ∈ results, r ≠ .busy) :
    firstFailure results ≠ .busy := by
  induction results with
  | nil => decide
  | cons r results ih =>
    rw [List.forall_mem_cons] at h
    rw [firstFailure]
    split
    · exact ih h.right
    · exact callbackResult_busy h.left

theorem orFailure_busy {first : Result} {results : List Result} (hf : first ≠ .busy)
    (h : ∀ r ∈ results, r ≠ .busy) : orFailure first results ≠ .busy := by
  rw [orFailure]
  split
  · exact firstFailure_busy h
  · exact hf

-- A callback's result is in the log.
theorem Inside.result_busy {k : Callback} (hi : Inside s.runtime)
    (ho : s.opening → s.transitionActive) (hd : Does (runCallback fuel depth k) s w x s' w')
    (hc : Clear w') : x ≠ .busy := by
  obtain ⟨last, w₁, -, -, rfl⟩ := hi.callback ho (fun _ _ _ => True) trivial (fun _ _ _ => trivial) hd
  exact hc _ (List.mem_cons_self ..)

theorem retained_busy (hf : s.runtime.firstError ≠ .busy) (hr : r ≠ .busy) :
    (s.retained r).runtime.firstError ≠ .busy := by
  rw [retained_eq]
  exact orFailure_busy hf (by simpa using hr)

theorem teardown_busy (h : Does (teardown (runCallback fuel depth) reason) s w x s' w')
    (ha : s.runtime.Alive) (ho : s.opening → s.transitionActive)
    (hf : s.runtime.firstError ≠ .busy) (hc : Clear w') : x ≠ .busy := by
  obtain ⟨answer, s₁, w₁, results, cleanup, hs, -, rfl, rfl, -⟩ := does_teardown h ha
  have hw₁ : Clear w₁ := fun e he => hc e (by simp [he])
  have hr : ∀ r ∈ results.map Prod.snd ++ [cleanup], r ≠ .busy := by
    simp only [List.mem_append, List.mem_map, List.mem_singleton]
    rintro _ (⟨r, hr, rfl⟩ | rfl)
    · exact hc ⟨.retire r.fst s₁.runtime.teardownDeadline, r.snd⟩ (by simp [hr])
    · exact hc _ (List.mem_cons_self ..)
  have hd {w₂ : Log} (hw : (⟨.deadlineAfter .teardown s.runtime.teardownBudgetUs, answer⟩ ::
      w : Log) <:+ w₂) (hc : Clear w₂) : (s.torn reason answer).runtime.firstError ≠ .busy := by
    obtain ⟨_, _, ht⟩ := @torn_eq s reason answer
    have ha : answer.1 ≠ .busy := hc _ (hw.subset (List.mem_cons_self ..))
    rw [ht]
    refine orFailure_busy hf fun r hr => ?_
    obtain rfl := List.mem_singleton.mp hr
    rw [deadlineResult]
    split
    · decide
    · exact ha
  refine orFailure_busy ?_ hr
  obtain ⟨-, r, s₂, hs, rfl⟩ | ⟨-, rfl, rfl⟩ := hs
  · have hi : Inside (s.halted reason answer).runtime := ha.halted
    have h₂ := hi.aside ho hs
    refine retained_busy ?_ (hi.result_busy ho hs hw₁)
    show s₂.runtime.firstError ≠ _
    rw [h₂.runtime]
    exact hd (does_suffix hs) hw₁
  · exact hd (List.suffix_refl _) hw₁

theorem terminateRunning_busy
    (h : Does (terminateRunning (runCallback fuel depth) reason) s w x s' w')
    (ha : s.runtime.Alive) (hr : s.runtime.state = .running) (ho : s.opening → s.transitionActive)
    (hf : s.runtime.firstError ≠ .busy) (hc : Clear w') : x ≠ .busy := by
  obtain ⟨r, s₁, w₁, he, ht⟩ := does_terminateRunning h ha hr
  have hn : ({ s with runtime := s.runtime.nextSequence }.onStage .running).runtime.Alive :=
    ⟨ha.1, ha.2, ha.3, ha.4, ha.5, ha.6, ha.7, ha.8, ha.9, ha.10⟩
  have h₁ := hn.aside ho he
  refine teardown_busy ht (h₁.alive hn).retained (h₁.beside.flags ho) (retained_busy ?_ ?_) hc
  · show s₁.left.runtime.firstError ≠ _
    rw [h₁.runtime]
    exact hf
  · exact hn.inside.result_busy ho he (hc.of_suffix (does_suffix ht))

theorem stop_busy (hp : s.runtime.AtRest) (ho : s.opening → s.transitionActive)
    (h : Does (stop (runCallback fuel depth) reason) s w x s' w') (hc : Clear w') : x ≠ .busy := by
  obtain hi | hg := hp
  · obtain ⟨-, -, rfl | rfl⟩ := does_stop_idle h hi <;> decide
  · refine terminateRunning_busy (does_stop h hg.toAlive hg.running) hg.toAlive hg.running ho ?_ hc
    rw [hg.firstError]
    decide

theorem dispatchEvent_busy {kind timestampUs data} (hp : s.runtime.AtRest)
    (ho : s.opening → s.transitionActive)
    (h : Does (dispatchEvent (runCallback fuel depth) kind timestampUs data) s w x s' w')
    (hc : Clear w') : x ≠ .busy := by
  simp [App.dispatchEvent] at h
  obtain ⟨s₁, w₁, he, u, hs⟩ := h
  obtain ⟨_, _, hw⟩ := does_sync hs
  obtain rfl : w' = w₁ := hw
  obtain hi | hg := hp.nextSequence
  · exact (does_runtimeEvent_idle he hi.not_running).right.left
  obtain ⟨-, hx, -⟩ | ⟨r, s₂, w₂, hc', hd⟩ := does_runtimeEvent he hg.toAlive hg.running
  · exact hx
  -- The event callback returned, and the instance may have been ended after it.
  have hn := Runtime.Running.staged (s := { s with runtime := s.runtime.nextSequence }) hg
  have ha := hn.aside ho hc'
  have hb : Beside s s₂.left := ⟨ha.transitionActive, ha.opening, ha.surface⟩
  have hw : w₂ <:+ w' := by
    cases hd
    case failed ht   => exact does_suffix ht
    case closed ht   => exact does_suffix ht
    case running     => exact List.suffix_refl _
  have hr := hn.inside.result_busy ho hc' (hc.of_suffix hw)
  cases hd
  case failed => exact callbackResult_busy hr
  case closed hr' _ ht =>
    have hst : s₂.left.runtime.state = .running := ha.state.trans hg.running
    refine terminateRunning_busy ht (ha.alive hn) hst (hb.flags ho) ?_ hc
    rw [ha.runtime]
    show s.runtime.nextSequence.firstError ≠ _
    rw [hg.firstError]
    decide
  case running => decide

theorem launch_busy {descriptor : Option Descriptor} (hi : s.runtime.Idle)
    (ho : s.opening → s.transitionActive)
    (h : Does (launch (runCallback fuel depth) descriptor) s w x s' w') (hc : Clear w') :
    x ≠ .busy := by
  obtain ⟨-, hx, -⟩ | ⟨d, answer, rfl, hl⟩ := does_launch h hi
  · exact hx
  obtain ⟨ha, hs, _, hf⟩ := @adopted_alive s d answer.2 hi
  have hf' : (s.adopted d answer.2).runtime.firstError ≠ .busy := by
    rw [hf]
    decide
  have hn : { s.adopted d answer.2 with
      runtime := { (s.adopted d answer.2).runtime with startEntered := true } }.runtime.Alive :=
    ⟨ha.1, ha.2, ha.3, ha.4, ha.5, ha.6, ha.7, ha.8, ha.9, ha.10⟩
  cases hl
  case unprepared hr ht =>
    have ha₁ : answer.1 ≠ .busy := hc _ ((does_suffix ht).subset (List.mem_cons_self ..))
    exact teardown_busy ht ha.retained ho (retained_busy hf' ha₁) hc
  case failed r s₁ w₁ hp hc' hr' ht =>
    have h₁ := hn.aside ho hc'
    have ho₁ := h₁.beside.flags ho
    have hr := hn.inside.result_busy ho hc' (hc.of_suffix (does_suffix ht))
    refine teardown_busy ht (h₁.alive hn).retained ho₁ (retained_busy ?_ hr) hc
    rw [h₁.runtime]
    exact hf'
  case started => decide

theorem closeActive_busy (h : Settled s w)
    (hd : Does (closeActive (runCallback fuel depth) reason) s w x s' w') (hc : Clear w') :
    x ≠ .busy := by
  simp [App.closeActive, returns_ite] at hd
  split at hd
  case isTrue =>
    obtain ⟨rfl, rfl, rfl⟩ := hd
    decide
  case isFalse =>
    obtain ⟨s₁, hs, rfl⟩ := hd
    exact stop_busy h.atRest h.flags hs hc

theorem launchActive_busy {d : Descriptor} (hi : s.runtime.Idle)
    (ho : s.opening → s.transitionActive)
    (h : Does (launchActive (runCallback fuel depth) d) s w x s' w') (hc : Clear w') :
    x ≠ .busy := by
  simp only [App.launchActive, returns_bind, returns_ite] at h
  obtain ⟨r, s₁, w₁, hl, h⟩ := h
  split at h
  case isTrue hr =>
    obtain ⟨rfl, rfl, rfl⟩ := returns_pure.mp h
    exact launch_busy hi ho hl hc
  case isFalse =>
    obtain ⟨a, s₂, w₂, ha, h⟩ := h
    obtain ⟨rfl, rfl⟩ := does_ask.mp ha
    have first (hw : (⟨.nowUs, a⟩ :: w₁ : Log) <:+ w') : (firstTick d a).1 ≠ .busy := by
      have ha : a.1 ≠ .busy := hc _ (hw.subset (List.mem_cons_self ..))
      rw [firstTick]
      split_ifs
      · exact ha
      · exact (by decide : Result.ok ≠ Result.busy)
      · exact (by decide : Result.limit ≠ Result.busy)
    split at h
    case isTrue =>
      obtain ⟨_, s₃, w₃, hm, h⟩ := h
      obtain ⟨rfl, rfl⟩ := returns_modify.mp hm
      obtain ⟨rfl, rfl, rfl⟩ := returns_pure.mp h
      exact first (List.suffix_refl _)
    case isFalse =>
      obtain ⟨_, s₃, w₃, hs, h⟩ := h
      obtain ⟨rfl, rfl, rfl⟩ := returns_pure.mp h
      exact first (does_suffix hs)

theorem switchInput_busy {input consumed} {x : Result × Bool} (h : Settled s w)
    (hd : Does (switchInput (runCallback fuel depth) input consumed) s w x s' w')
    (hc : Clear w') : x.1 ≠ .busy := by
  unfold switchInput at hd
  split at hd
  case h_2 =>
    obtain ⟨rfl, rfl, rfl⟩ := returns_pure.mp hd
    exact (by decide : Result.invalidArgument ≠ Result.busy)
  case h_1 event =>
    simp [returns_ite] at hd
    split at hd
    case isTrue =>
      obtain ⟨rfl, rfl, rfl⟩ := hd
      exact (by decide : Result.ok ≠ Result.busy)
    case isFalse =>
      split at hd
      case isTrue =>
        obtain ⟨rfl, rfl, rfl⟩ := hd
        exact (by decide : Result.ok ≠ Result.busy)
      case isFalse =>
        obtain ⟨r, rfl, he⟩ := hd
        exact dispatchEvent_busy h.atRest h.flags he hc

theorem openPending_busy (h : Settled s w)
    (hd : Does (openPending (runCallback fuel depth)) s w x s' w') (hc : Clear w') :
    x ≠ .busy := by
  simp only [openPending, returns_bind, returns_get] at hd
  obtain ⟨t, _, _, ⟨ht, rfl, rfl⟩, hd⟩ := hd
  subst ht
  split at hd
  case h_1 reason _ =>
    simp only [returns_bind] at hd
    obtain ⟨_, s₁, w₁, hm, r, s₂, w₂, ha, hd⟩ := hd
    obtain ⟨rfl, rfl⟩ := returns_modify.mp hm
    have h₁ : Settled { t with pendingClose := none } w₁ := h.of_flags rfl rfl rfl h.flags
    obtain ⟨rfl, rfl, rfl⟩ := returns_pure.mp hd
    split
    · decide
    · exact closeActive_busy h₁ ha hc
  case h_2 =>
    split at hd
    case h_1 =>
      simp only [returns_bind] at hd
      obtain ⟨_, s₁, w₁, hm, r, s₂, w₂, ha, hd⟩ := hd
      obtain ⟨rfl, rfl⟩ := returns_modify.mp hm
      have h₁ : Settled { t with pendingInput := none } w₁ := h.of_flags rfl rfl rfl h.flags
      obtain ⟨rfl, rfl, rfl⟩ := returns_pure.mp hd
      exact switchInput_busy h₁ ha hc
    case h_2 =>
      obtain ⟨rfl, rfl, rfl⟩ := returns_pure.mp hd
      decide

-- Closing the app on which both sides agree ends the instance.
theorem closeActive_idle (h : Settled s w) (ha : s.active = s.runtime.app)
    (hd : Does (closeActive (runCallback fuel depth) reason) s w x s' w') : s'.runtime.Idle := by
  simp [App.closeActive, returns_ite] at hd
  split at hd
  case isTrue hn =>
    obtain ⟨rfl, rfl, rfl⟩ := hd
    exact h.idle ha hn
  case isFalse =>
    obtain ⟨s₁, hs, rfl⟩ := hd
    exact (true_law.stop h.atRest h.flags trivial hs).right.right

theorem switchOpen_busy {descriptor} (h : Settled s w) (ht : s.transitionActive = false)
    (ha : s.active = s.runtime.app)
    (hd : Does (switchOpen (runCallback fuel depth) descriptor) s w x s' w') (hc : Clear w') :
    x ≠ .busy := by
  cases descriptor with
  | none =>
    obtain ⟨rfl, rfl, rfl⟩ := returns_pure.mp hd
    decide
  | some d =>
    simp [App.switchOpen, returns_ite, ht] at hd
    obtain ⟨r, s₁, w₁, hcl, hd⟩ := hd
    have hs : Settled { s with transitionActive := true } w := h.of_flags rfl rfl rfl fun _ => rfl
    have hi := closeActive_idle hs ha hcl
    obtain ⟨h₁, hb₁, ha₁⟩ := hs.closeActive hcl
    split at hd
    case isFalse =>
      obtain ⟨rfl, rfl, rfl⟩ := hd
      exact closeActive_busy hs hcl hc
    case isTrue =>
      obtain ⟨r', s₂, w₂, hl, u, s₃, w₃, hy, hd⟩ := hd
      obtain ⟨h₃, _⟩ := h₁.opened hb₁.transitionActive ha₁ hl hy
      obtain ⟨-, -, rfl⟩ := does_sync hy
      split at hd
      case isFalse hr =>
        obtain ⟨rfl, rfl, rfl⟩ := hd
        exact launchActive_busy (s := { s₁ with
          opening := true, pendingClose := none, pendingInput := none, active := some d })
          hi (fun _ => hb₁.transitionActive) hl hc
      case isTrue hr =>
        rw [if_pos hr] at h₃
        exact openPending_busy h₃ hd hc

section Runs

variable {ops : Ops} {teardownBudgetUs : UInt64} {es : List (SwitchCall × Option Result)}
variable {ok : SwitchCall → List ((c : Call) → c.Answer) → Switch → Log → Prop}

-- As long as no callback makes the switch forget its app, the active app is the one that runs. Then
-- an app can be opened, unless an app or the world answers that it is busy.
theorem agreement (run : Run world (switchCalls fuel depth) none ok
      (Switch.init ops teardownBudgetUs) [] es s w) (hf : ¬Forgotten w) :
    (∀ d, s.active = some d ↔ s.runtime.state = .running ∧ s.runtime.descriptor = some d) ∧
      (Clear w → ∀ descriptor, (.openApp descriptor, some .busy) ∉ es) := by
  let Inv (es : List (SwitchCall × Option Result)) (s : Switch) (w : Log) : Prop :=
    Settled s w ∧ s.transitionActive = false ∧
      (¬Forgotten w → Clear w → ∀ descriptor, (.openApp descriptor, some .busy) ∉ es)
  obtain ⟨h, _, hb⟩ : Inv es s w := by
    refine Run.returns Inv ?start ?step run
    case start => exact ⟨.init, rfl, fun _ _ _ => nofun⟩
    case step =>
      rintro es s w call x s' w' ⟨h, ht, hi⟩ hd
      obtain ⟨h', hb⟩ := h.call hd
      refine ⟨h', hb.transitionActive.trans ht, fun hf hc descriptor he => ?_⟩
      have hf' : ¬Forgotten w := fun hf' => hf (hf'.mono (does_suffix hd))
      obtain he | he := List.mem_cons.mp he
      · obtain ⟨rfl, hx⟩ := Prod.mk.inj he
        obtain rfl := Option.some.inj hx
        exact switchOpen_busy h ht (h.active.resolve_left hf') hd hc rfl
      · exact hi hf' (hc.of_suffix (does_suffix hd)) descriptor he
  refine ⟨fun d => ?_, hb hf⟩
  rw [h.active.resolve_left hf, Runtime.app]
  split
  case isTrue hr  => simp [hr]
  case isFalse hr => simp [hr]

theorem Forgotten.act (h : Forgotten w) : ∃ callback last action,
    ⟨.next callback last, .act action⟩ ∈ w := by
  obtain ⟨later, new, callback, last, action, earlier, rfl, -⟩ := h
  exact ⟨callback, last, action, by simp⟩

theorem agreement_sample : ∃ es s w,
    Run world (switchCalls 2 1) none (fun _ _ _ _ => True)
      (Switch.init ⟨true, true, true, true, true⟩ 1000) [] es s w ∧ s.active = some .sample ∧
    (∀ d, s.active = some d ↔ s.runtime.state = .running ∧ s.runtime.descriptor = some d) ∧
      (Clear w → ∀ descriptor, (.openApp descriptor, some .busy) ∉ es) :=
  have ⟨es, s, w, r, ha, _, _, hw⟩ := exists_run
    (P := fun _ s (w : Log) => s.active = some .sample ∧ ∃ (answer : Result × UInt64)
      (answer' : Result × Bool), w =
        [⟨.nowUs, answer⟩, ⟨.next .start none, .done .ok⟩, ⟨.prepare .sample, answer'⟩])
    [(.openApp (some .sample), .replicate 3 (obliging (.done .ok)))] ⟨_, rfl, rfl, _, _, rfl⟩
  have hf : ¬Forgotten w := fun hf => by
    obtain ⟨callback, last, action, hm⟩ := hf.act
    simp [hw] at hm
  ⟨es, s, w, r, ha, agreement r hf⟩

-- A start callback that posts a media event, which the runtime refuses, and an app that is opened
-- after it.
def forgetting : List (SwitchCall × List ((c : Call) → c.Answer)) := [
  (.openApp (some .sample), [obliging (.done .ok), obliging (.act (.media mediaInserted 0 0))] ++
    .replicate 2 (obliging (.done .ok))),
  (.openApp (some .sample), [])
]

theorem disagreement : ∃ es s w,
    Run world (switchCalls 2 1) none (fun _ _ _ _ => True)
      (Switch.init ⟨true, true, true, true, true⟩ 1000) [] es s w ∧
    es.map Prod.snd = [some .busy, some .ok] ∧ s.active = none ∧ s.runtime.state = .running ∧
    validateDescriptor (some .sample) = .ok ∧ ¬s.runtime.Exhausted ∧
    ∀ e ∈ es, e.1 = .openApp (some .sample) :=
  have ⟨es, s, w, r, hx⟩ := exists_run (P := fun es s _ =>
    es.map Prod.snd = [some .busy, some .ok] ∧ s.active = none ∧ s.runtime.state = .running ∧
    validateDescriptor (some .sample) = .ok ∧ ¬s.runtime.Exhausted ∧
    ∀ e ∈ es, e.1 = .openApp (some .sample)) forgetting
    ⟨_, rfl, by decide, rfl, rfl, by decide, by simp [Runtime.Exhausted]; decide, by simp⟩
  ⟨es, s, w, r, hx⟩

end Runs
end App
