import HackyLens.App.Lifecycle
import HackyLens.App.Theorems.Actions

-- How the functions of the runtime are made up of callbacks and calls, from the states in which they
-- are called from outside.

namespace App

open Prog

variable {app : Callback → Task Result} {s s' : Switch} {w w' : Log} {x : Result}

-- There is no instance.
structure Runtime.Idle (runtime : Runtime) : Prop where
  state : runtime.state = .inactive ∨ runtime.state = .faulted
  descriptor : runtime.descriptor = none
  callbackActive : runtime.callbackActive = false
  callbackRuntime : runtime.callbackRuntime = false
  startEntered : runtime.startEntered = false
  stopCalled : runtime.stopCalled = false
  teardownStarted : runtime.teardownStarted = false
  generation_ne : runtime.contextGeneration ≠ 0
  retired : runtime.retired = true → runtime.state = .faulted

-- There is an instance that has not been torn down, and that is not in a callback.
structure Runtime.Alive (runtime : Runtime) : Prop where
  state : runtime.state = .starting ∨ runtime.state = .running
  descriptor : runtime.descriptor ≠ none
  callbackActive : runtime.callbackActive = false
  callbackRuntime : runtime.callbackRuntime = false
  live : runtime.live = true
  contextValid : runtime.contextValid = true
  generation : runtime.context.generation = runtime.contextGeneration
  generation_ne : runtime.contextGeneration ≠ 0
  stopCalled : runtime.stopCalled = false
  teardownStarted : runtime.teardownStarted = false

-- An instance whose start succeeded, and that is still to go on.
structure Runtime.Running (runtime : Runtime) : Prop extends runtime.Alive where
  running : runtime.state = .running
  startEntered : runtime.startEntered = true
  firstError : runtime.firstError = .ok
  closeRequested : runtime.closeRequested = false

namespace Switch

def entered (s : Switch) : Switch :=
  { s with runtime := { s.runtime with callbackActive := true, callbackRuntime := true } }

def left (s : Switch) : Switch :=
  { s with runtime := { s.runtime with callbackActive := false, callbackRuntime := false } }

def retained (s : Switch) (result : Result) : Switch :=
  { s with runtime := s.runtime.retainError result }

end Switch

theorem Runtime.Alive.inside (h : s.runtime.Alive) : Inside s.entered.runtime where
  callbackActive := rfl
  callbackRuntime := rfl
  live := h.live
  contextValid := h.contextValid
  generation := h.generation
  generation_ne := h.generation_ne
  not_inactive := by
    obtain hs | hs := h.state <;> simp [Switch.entered, hs]
  not_faulted := by
    obtain hs | hs := h.state <;> simp [Switch.entered, hs]

-- The first failure if there may have been one before.
def orFailure (first : Result) (results : List Result) : Result :=
  if first = .ok then firstFailure results else first

section Failures

variable {first result : Result} {results results' : List Result} {runtime : Runtime}

theorem orFailure_ok : orFailure .ok results = firstFailure results :=
  if_pos rfl

theorem orFailure_nil : orFailure first [] = first := by
  simp only [orFailure, firstFailure]
  split_ifs with h
  · exact h.symm
  · rfl

theorem orFailure_cons : orFailure (orFailure first [result]) results =
    orFailure first (result :: results) := by
  simp only [orFailure, firstFailure]
  split_ifs <;> simp_all

theorem orFailure_append : orFailure (orFailure first results) results' =
    orFailure first (results ++ results') := by
  induction results generalizing first with
  | nil =>
    simp only [orFailure, firstFailure, List.nil_append]
    split_ifs <;> simp_all
  | cons result results ih => rw [List.cons_append, ← orFailure_cons, ih, orFailure_cons]

theorem firstFailure_append : firstFailure (results ++ results') =
    orFailure (firstFailure results) results' := by
  rw [← orFailure_ok, ← orFailure_append, orFailure_ok]

theorem retainError_eq : runtime.retainError result =
    { runtime with firstError := orFailure runtime.firstError [result] } := by
  simp only [Runtime.retainError, orFailure, firstFailure]
  cases runtime
  split_ifs <;> simp_all

theorem callbackResult_idem : callbackResult (callbackResult result) = callbackResult result := by
  simp only [callbackResult]
  split_ifs with h h'
  · cases h'
  · rfl
  · rfl

theorem retainError_callbackResult :
    runtime.retainError (callbackResult result) = runtime.retainError result := by
  simp only [Runtime.retainError, callbackResult_idem]

end Failures

theorem does_enterCallback (h : Does enterCallback s w x s' w')
    (hc : s.runtime.callbackActive = false) (hr : s.runtime.callbackRuntime = false) :
    x = .ok ∧ s' = s.entered ∧ w' = w := by
  simpa [enterCallback, Switch.entered, hc, hr] using h

theorem does_finishCallback {result : Result} (h : Does (finishCallback result) s w x s' w') :
    x = callbackResult result ∧ s' = s.left ∧ w' = w := by
  simpa [finishCallback, Switch.left] using h

theorem does_retainError {result : Result} {u : Unit}
    (h : Does (retainError result) s w u s' w') : s' = s.retained result ∧ w' = w :=
  does_modifyRuntime.mp h

section Teardown

-- The runtime after its sessions have been retired with some results.
def Runtime.retireAll (runtime : Runtime) (results : List (Session × Result)) : Runtime :=
  results.foldl (fun runtime r => (runtime.release r.fst).retainError r.snd) runtime

theorem retireAll_eq {runtime : Runtime} {results : List (Session × Result)} :
    ∃ lights display externalLink, runtime.retireAll results =
      { runtime with
        lights := lights
        display := display
        externalLink := externalLink
        firstError := orFailure runtime.firstError (results.map Prod.snd) } := by
  induction results generalizing runtime with
  | nil =>
    rw [List.map_nil, orFailure_nil]
    exact ⟨runtime.lights, runtime.display, runtime.externalLink, rfl⟩
  | cons r results ih =>
    obtain ⟨l, d, e, h⟩ := @ih ((runtime.release r.fst).retainError r.snd)
    refine ⟨l, d, e, h.trans ?_⟩
    rw [List.map_cons, ← orFailure_cons, retainError_eq]
    rcases r with ⟨_ | _ | _, _⟩ <;> rfl

theorem does_retire {session : Session} {u : Unit} (h : Does (retire session) s w u s' w') :
    ∃ result,
      s' = { s with runtime := s.runtime.retireAll [(session, result)] } ∧
      w' = ⟨.retire session s.runtime.teardownDeadline, result⟩ :: w := by
  simp only [retire, returns_bind, returns_get] at h
  obtain ⟨_, _, _, ⟨rfl, rfl, rfl⟩, r, s₁, w₁, ha, _, s₂, w₂, hm, h⟩ := h
  obtain ⟨rfl, rfl⟩ := does_ask.mp ha
  obtain ⟨rfl, rfl⟩ := does_modifyRuntime.mp hm
  obtain ⟨rfl, rfl⟩ := does_modifyRuntime.mp h
  exact ⟨r, rfl, rfl⟩

-- The calls for the sessions all have the same deadline.
theorem does_retireAll {l : List Session} {u : Unit} (h : Does (l.forM retire) s w u s' w') :
    ∃ results, results.map Prod.fst = l ∧
      s' = { s with runtime := s.runtime.retireAll results } ∧
      w' = (results.map fun r => ⟨.retire r.fst s.runtime.teardownDeadline, r.snd⟩).reverse ++ w := by
  induction l generalizing s w with
  | nil =>
    obtain ⟨rfl, rfl, rfl⟩ := returns_pure.mp h
    exact ⟨[], rfl, rfl, rfl⟩
  | cons session l ih =>
    change Does (retire session >>= fun _ => l.forM retire) s w u s' w' at h
    rw [Does, returns_bind] at h
    obtain ⟨_, s₁, w₁, hr, h⟩ := h
    obtain ⟨r, rfl, rfl⟩ := does_retire hr
    obtain ⟨results, rfl, rfl, rfl⟩ := ih h
    refine ⟨(session, r) :: results, rfl, rfl, ?_⟩
    obtain ⟨l, d, e, hd⟩ := @retireAll_eq s.runtime [(session, r)]
    simp [hd]

-- The stop callback is called if start was entered.
theorem does_callStop {u : Unit} (h : Does (callStop app) s w u s' w')
    (hc : s.runtime.callbackActive = false) (hr : s.runtime.callbackRuntime = false)
    (hs : s.runtime.stopCalled = false) :
    s.runtime.startEntered = true ∧
      (∃ r s₁, Does (app .stop) { s with runtime := s.runtime.beginStop }.entered w r s₁ w' ∧
        s' = s₁.left.retained r) ∨
    s.runtime.startEntered = false ∧ s' = s ∧ w' = w := by
  simp only [callStop, returns_bind, returns_get, returns_ite] at h
  obtain ⟨t, _, _, ⟨ht, rfl, rfl⟩, h⟩ := h
  subst ht
  rw [hs, Bool.not_false, Bool.and_true] at h
  split at h
  case isFalse he =>
    obtain ⟨-, rfl, rfl⟩ := returns_pure.mp h
    exact .inr ⟨Bool.eq_false_iff.mpr he, rfl, rfl⟩
  case isTrue he =>
    obtain ⟨_, _, _, hm, r₁, s₁, w₁, hn, h⟩ := h
    obtain ⟨rfl, rfl⟩ := does_modifyRuntime.mp hm
    obtain ⟨rfl, rfl, rfl⟩ := does_enterCallback hn hc hr
    obtain ⟨r, s₁, w₁, ha, r', s₂, w₂, hf, h⟩ := h
    obtain ⟨rfl, rfl, rfl⟩ := does_finishCallback hf
    obtain ⟨rfl, rfl⟩ := does_retainError h
    refine .inl ⟨he, r, s₁, ha, ?_⟩
    simp only [Switch.retained, retainError_callbackResult]

-- The state and the calls when the deadline of a teardown is known.
def Switch.torn (s : Switch) (reason : StopReason) (answer : Result × Deadline) : Switch :=
  { s with runtime := (s.runtime.beginTeardown reason).setTeardownDeadline answer }

theorem setTeardownDeadline_eq {runtime : Runtime} {answer : Result × Deadline} :
    runtime.setTeardownDeadline answer =
      { runtime with
        teardownDeadline := deadlineOf answer
        firstError := orFailure runtime.firstError [deadlineResult answer] } := by
  change (if deadlineResult answer = .ok then _ else _) = _
  rw [deadlineOf]
  split
  case isTrue hr  => rw [hr, show orFailure _ [Result.ok] = _ from orFailure_nil]
  case isFalse hr => exact retainError_eq

theorem beginTeardown_eq {runtime : Runtime} {reason : StopReason} :
    ∃ activeEpoch retired, runtime.beginTeardown reason =
      { runtime with
        activeEpoch := activeEpoch
        retired := retired
        teardownStarted := true
        stopReason := reason.normalized
        teardownDeadline := deadlineImmediate
        teardownDeadlineValid := true } := by
  rw [Runtime.beginTeardown]
  split
  · exact ⟨runtime.activeEpoch + 1, runtime.retired, rfl⟩
  · exact ⟨runtime.activeEpoch, true, rfl⟩

theorem torn_eq {reason : StopReason} {answer : Result × Deadline} :
    ∃ activeEpoch retired, (s.torn reason answer).runtime =
      { s.runtime with
        activeEpoch := activeEpoch
        retired := retired
        teardownStarted := true
        stopReason := reason.normalized
        teardownDeadline := deadlineOf answer
        teardownDeadlineValid := true
        firstError := orFailure s.runtime.firstError [deadlineResult answer] } := by
  obtain ⟨activeEpoch, retired, hb⟩ := @beginTeardown_eq s.runtime reason
  refine ⟨activeEpoch, retired, ?_⟩
  rw [Switch.torn, setTeardownDeadline_eq, hb]

-- A teardown: the deadline, the stop callback, the sessions and the cleanup.
theorem does_teardown {reason : StopReason} (h : Does (teardown app reason) s w x s' w')
    (ha : s.runtime.Alive) : ∃ (answer : Result × Deadline) (s₁ : Switch) (w₁ : Log)
        (results : List (Session × Result)) (cleanup : Result),
      (s.runtime.startEntered = true ∧
        (∃ r s₂, Does (app .stop)
            { s.torn reason answer with
              runtime := (s.torn reason answer).runtime.beginStop }.entered
            (⟨.deadlineAfter .teardown s.runtime.teardownBudgetUs, answer⟩ :: w) r s₂ w₁ ∧
          s₁ = s₂.left.retained r) ∨
        s.runtime.startEntered = false ∧ s₁ = s.torn reason answer ∧
          w₁ = ⟨.deadlineAfter .teardown s.runtime.teardownBudgetUs, answer⟩ :: w) ∧
      results.map Prod.fst = sessions ∧
      w' = ⟨.cleanup s₁.runtime.teardownDeadline, cleanup⟩ ::
        ((results.map fun r => ⟨.retire r.fst s₁.runtime.teardownDeadline, r.snd⟩).reverse ++ w₁) ∧
      x = orFailure s₁.runtime.firstError (results.map Prod.snd ++ [cleanup]) ∧
      ∃ runtime : Runtime, runtime.contextGeneration = s₁.runtime.contextGeneration ∧
        runtime.activeEpoch = s₁.runtime.activeEpoch ∧
        s' = { s₁ with runtime := runtime.invalidateInstance } := by
  simp only [teardown, returns_bind, returns_get, returns_ite] at h
  obtain ⟨t, _, _, ⟨ht, rfl, rfl⟩, h⟩ := h
  subst ht
  rw [if_neg (by simp [ha.descriptor]), if_neg (by simp [ha.callbackActive, ha.teardownStarted])] at h
  obtain ⟨_, _, _, hm, answer, s₁, w₁, hd, h⟩ := h
  obtain ⟨rfl, rfl⟩ := does_modifyRuntime.mp hm
  obtain ⟨rfl, rfl⟩ := does_ask.mp hd
  obtain ⟨_, s₂, w₂, hm, _, s₃, w₃, hs, _, s₄, w₄, hr, h⟩ := h
  obtain ⟨rfl, rfl⟩ := does_modifyRuntime.mp hm
  obtain ⟨e, r, ht⟩ := @torn_eq t reason answer
  obtain ⟨results, hl, rfl, rfl⟩ := does_retireAll hr
  have hs := does_callStop (s := t.torn reason answer) hs (by rw [ht, ha.callbackActive])
    (by rw [ht, ha.callbackRuntime]) (by rw [ht, ha.stopCalled])
  obtain ⟨l, d, x, hr⟩ := @retireAll_eq s₃.runtime results
  obtain ⟨_, s₅, w₅, hm, h⟩ := h
  obtain ⟨rfl, rfl⟩ := does_modifyRuntime.mp hm
  obtain ⟨_, s₆, w₆, ⟨rfl, rfl, rfl⟩, cleanup, s₇, w₇, hc, h⟩ := h
  obtain ⟨rfl, rfl⟩ := does_ask.mp hc
  obtain ⟨_, s₈, w₈, hm, h⟩ := h
  obtain ⟨rfl, rfl⟩ := does_retainError hm
  obtain ⟨_, s₉, w₉, ⟨rfl, rfl, rfl⟩, _, s₁₀, w₁₀, hm, h⟩ := h
  obtain ⟨rfl, rfl⟩ := does_modifyRuntime.mp hm
  obtain ⟨rfl, rfl, rfl⟩ := returns_pure.mp h
  refine ⟨answer, s₃, w₃, results, cleanup, ?_, hl, ?_, ?_, _, ?_, ?_, rfl⟩
  · rw [show (t.torn reason answer).runtime.startEntered = t.runtime.startEntered by rw [ht]] at hs
    exact hs
  · rw [hr]
  · simp only [Switch.retained, retainError_eq, hr, orFailure_append]
  · simp only [Switch.retained, retainError_eq, hr]
  · simp only [Switch.retained, retainError_eq, hr]

end Teardown

section Calls

def Switch.onStage (s : Switch) (stage : Stage) : Switch :=
  { s with runtime := { s.runtime with stage := stage } }

theorem does_terminateRunning {reason : StopReason}
    (h : Does (terminateRunning app reason) s w x s' w') (ha : s.runtime.Alive)
    (hr : s.runtime.state = .running) : ∃ r s₁ w₁,
      Does (app (.event (s.runtime.nextSequence.closeEvent reason.normalized)))
        ({ s with runtime := s.runtime.nextSequence }.onStage .running).entered w r s₁ w₁ ∧
      Does (teardown app reason.normalized) (s₁.left.retained r) w₁ x s' w' := by
  simp only [terminateRunning, returns_bind, returns_get, returns_ite] at h
  obtain ⟨t, _, _, ⟨ht, rfl, rfl⟩, h⟩ := h
  subst ht
  rw [if_neg (by simp [hr, ha.descriptor, ha.callbackActive, ha.teardownStarted])] at h
  obtain ⟨_, _, _, hm, _, s₂, w₂, hm', r, s₃, w₃, hn, h⟩ := h
  obtain ⟨rfl, rfl⟩ := does_modifyRuntime.mp hm
  obtain ⟨rfl, rfl⟩ := does_modifyRuntime.mp hm'
  obtain ⟨rfl, rfl, rfl⟩ := does_enterCallback hn ha.callbackActive ha.callbackRuntime
  rw [if_pos rfl] at h
  obtain ⟨r', s₂, w₂, he, r, s₁, w₁, hf, _, s₃, w₃, hm, h⟩ := h
  obtain ⟨rfl, rfl, rfl⟩ := does_finishCallback hf
  obtain ⟨rfl, rfl⟩ := does_retainError hm
  refine ⟨r', s₂, _, he, ?_⟩
  rwa [Switch.retained, retainError_callbackResult] at h

-- Stopping does nothing without an instance.
theorem does_stop_idle {reason : StopReason} (h : Does (stop app reason) s w x s' w')
    (hi : s.runtime.Idle) : s' = s ∧ w' = w ∧ (x = .ok ∨ x = .invalidState) := by
  simp only [stop, returns_bind, returns_get, returns_ite] at h
  obtain ⟨t, _, _, ⟨ht, rfl, rfl⟩, h⟩ := h
  subst ht
  rw [if_neg (by simp [hi.callbackActive, hi.teardownStarted])] at h
  obtain hs | hs := hi.state
  · rw [if_pos hs] at h
    obtain ⟨rfl, rfl, rfl⟩ := returns_pure.mp h
    exact ⟨rfl, rfl, .inl rfl⟩
  · rw [if_neg (by simp [hs]), if_pos (.inl (by simp [hs]))] at h
    obtain ⟨rfl, rfl, rfl⟩ := returns_pure.mp h
    exact ⟨rfl, rfl, .inr rfl⟩

theorem does_stop {reason : StopReason} (h : Does (stop app reason) s w x s' w')
    (ha : s.runtime.Alive) (hr : s.runtime.state = .running) :
    Does (terminateRunning app reason) s w x s' w' := by
  simp only [stop, returns_bind, returns_get, returns_ite] at h
  obtain ⟨t, _, _, ⟨ht, rfl, rfl⟩, h⟩ := h
  subst ht
  rwa [if_neg (by simp [ha.callbackActive, ha.teardownStarted]), if_neg (by simp [hr]),
    if_neg (by simp [hr, ha.descriptor])] at h

-- What is done after an event or render callback with result `r`.
inductive Dispatched (app : Callback → Task Result) (r : Result) (s : Switch) (w : Log) :
    Result → Switch → Log → Prop
  | failed {y t v} : callbackResult r ≠ .ok →
    Does (terminateRunning app .callbackFailed) (s.left.retained r) w y t v →
    Dispatched app r s w (callbackResult r) t v
  | closed {y t v} : callbackResult r = .ok → s.runtime.closeRequested = true →
    Does (terminateRunning app .completed) s.left w y t v → Dispatched app r s w y t v
  | running : callbackResult r = .ok → s.runtime.closeRequested = false →
    Dispatched app r s w .ok s.left w

theorem does_dispatchResult {r : Result} (h : Does (dispatchResult app r) s w x s' w') :
    Dispatched app r s w x s' w' := by
  simp only [dispatchResult, returns_bind, returns_get, returns_ite] at h
  obtain ⟨r', s₁, w₁, hf, h⟩ := h
  obtain ⟨rfl, rfl, rfl⟩ := does_finishCallback hf
  split at h
  case isTrue hr =>
    obtain ⟨_, s₁, w₁, hm, y, s₂, w₂, ht, h⟩ := h
    obtain ⟨rfl, rfl⟩ := does_retainError hm
    obtain ⟨rfl, rfl, rfl⟩ := returns_pure.mp h
    rw [Switch.retained, retainError_callbackResult] at ht
    exact .failed hr ht
  case isFalse hr =>
    obtain ⟨t, _, _, ⟨ht, rfl, rfl⟩, h⟩ := h
    subst ht
    split at h
    case isTrue hc  => exact .closed (not_not.mp hr) hc h
    case isFalse hc =>
      obtain ⟨rfl, rfl, rfl⟩ := returns_pure.mp h
      exact .running (not_not.mp hr) (Bool.eq_false_iff.mpr hc)

theorem does_runtimeEvent {event : Event} (h : Does (runtimeEvent app event) s w x s' w')
    (ha : s.runtime.Alive) (hr : s.runtime.state = .running) :
    x ≠ .ok ∧ x ≠ .busy ∧ s' = s ∧ w' = w ∨ ∃ r s₁ w₁,
      Does (app (.event event)) (s.onStage .running).entered w r s₁ w₁ ∧
      Dispatched app r s₁ w₁ x s' w' := by
  simp only [runtimeEvent, returns_bind, returns_get, returns_ite] at h
  obtain ⟨t, _, _, ⟨ht, rfl, rfl⟩, h⟩ := h
  subst ht
  split at h
  case isTrue =>
    obtain ⟨rfl, rfl, rfl⟩ := returns_pure.mp h
    exact .inl ⟨by decide, by decide, rfl, rfl⟩
  case isFalse =>
    rw [if_neg (by simp [hr, ha.callbackActive])] at h
    obtain ⟨_, _, _, hm, _, s₂, w₂, hn, r, s₃, w₃, he, h⟩ := h
    obtain ⟨rfl, rfl⟩ := does_modifyRuntime.mp hm
    obtain ⟨-, rfl, rfl⟩ := does_enterCallback hn ha.callbackActive ha.callbackRuntime
    exact .inr ⟨r, s₃, w₃, he, does_dispatchResult h⟩

theorem does_runtimeRender (h : Does (runtimeRender app) s w x s' w')
    (ha : s.runtime.Alive) (hr : s.runtime.state = .running) :
    x ≠ .ok ∧ s' = s ∧ w' = w ∨ ∃ r s₁ w₁,
      Does (app .render) (s.onStage .running).entered w r s₁ w₁ ∧
      Dispatched app r s₁ w₁ x s' w' := by
  simp only [runtimeRender, returns_bind, returns_get, returns_ite] at h
  obtain ⟨t, _, _, ⟨ht, rfl, rfl⟩, h⟩ := h
  subst ht
  rw [if_neg (by simp [hr, ha.callbackActive])] at h
  split at h
  case isTrue =>
    obtain ⟨rfl, rfl, rfl⟩ := returns_pure.mp h
    exact .inl ⟨by decide, rfl, rfl⟩
  case isFalse =>
    obtain ⟨_, _, _, hm, _, s₂, w₂, hn, r, s₃, w₃, he, h⟩ := h
    obtain ⟨rfl, rfl⟩ := does_modifyRuntime.mp hm
    obtain ⟨-, rfl, rfl⟩ := does_enterCallback hn ha.callbackActive ha.callbackRuntime
    exact .inr ⟨r, s₃, w₃, he, does_dispatchResult h⟩

-- Without a running instance, events and render passes are refused.
theorem does_runtimeEvent_idle {event : Event} (h : Does (runtimeEvent app event) s w x s' w')
    (hr : s.runtime.state ≠ .running) : x ≠ .ok ∧ x ≠ .busy ∧ s' = s ∧ w' = w := by
  simp [runtimeEvent, returns_ite, hr] at h
  split at h <;> obtain ⟨rfl, rfl, rfl⟩ := h
  · exact ⟨by decide, by decide, rfl, rfl⟩
  · exact ⟨by decide, by decide, rfl, rfl⟩

theorem does_runtimeRender_idle (h : Does (runtimeRender app) s w x s' w')
    (hr : s.runtime.state ≠ .running) : x ≠ .ok ∧ s' = s ∧ w' = w := by
  simp [runtimeRender, hr] at h
  obtain ⟨rfl, rfl, rfl⟩ := h
  exact ⟨by decide, rfl, rfl⟩

-- A new instance when its scope has been prepared.
def Switch.adopted (s : Switch) (descriptor : Descriptor) (display : Bool) : Switch :=
  { s with runtime := (s.runtime.adopt descriptor).prepared display }

inductive Launched (app : Callback → Task Result) (answer : Result × Bool) (s : Switch) (w : Log) :
    Result → Switch → Log → Prop
  | unprepared {y t v} : callbackResult answer.1 ≠ .ok →
    Does (teardown app .forced) (s.retained answer.1) w y t v → Launched app answer s w y t v
  | failed {r s₁ w₁ y t v} : callbackResult answer.1 = .ok →
    Does (app .start)
      { s with runtime := { s.runtime with startEntered := true } }.entered w r s₁ w₁ →
    callbackResult r ≠ .ok → Does (teardown app .startFailed) (s₁.left.retained r) w₁ y t v →
    Launched app answer s w y t v
  | started {r s₁ w₁} : callbackResult answer.1 = .ok →
    Does (app .start)
      { s with runtime := { s.runtime with startEntered := true } }.entered w r s₁ w₁ →
    callbackResult r = .ok →
    Launched app answer s w .ok { s₁.left with runtime := s₁.left.runtime.started } w₁

theorem adopted_alive (descriptor : Descriptor) (display : Bool) (hi : s.runtime.Idle) :
    (s.adopted descriptor display).runtime.Alive ∧
      (s.adopted descriptor display).runtime.state = .starting ∧
      (s.adopted descriptor display).runtime.startEntered = false ∧
      (s.adopted descriptor display).runtime.firstError = .ok := by
  have ha : (s.runtime.adopt descriptor).Alive :=
    ⟨.inl rfl, nofun, hi.callbackActive, hi.callbackRuntime, rfl, rfl, rfl, hi.generation_ne,
      hi.stopCalled, hi.teardownStarted⟩
  rw [Switch.adopted, Runtime.prepared]
  split
  case isTrue  =>
    exact ⟨⟨ha.1, ha.2, ha.3, ha.4, ha.5, ha.6, ha.7, ha.8, ha.9, ha.10⟩, rfl, hi.startEntered, rfl⟩
  case isFalse => exact ⟨ha, rfl, hi.startEntered, rfl⟩

theorem validateDescriptor_cases (descriptor : Option Descriptor) :
    validateDescriptor descriptor = .ok ∨ validateDescriptor descriptor = .invalidArgument := by
  simp only [validateDescriptor]
  repeat' split
  all_goals simp

theorem does_launch {descriptor : Option Descriptor}
    (h : Does (launch app descriptor) s w x s' w') (hi : s.runtime.Idle) :
    x ≠ .ok ∧ x ≠ .busy ∧ s' = s ∧ w' = w ∨ ∃ d answer, descriptor = some d ∧
      Launched app answer (s.adopted d answer.2) (⟨.prepare d, answer⟩ :: w) x s' w' := by
  simp only [launch, returns_bind, returns_get, returns_ite] at h
  obtain ⟨t, _, _, ⟨ht, rfl, rfl⟩, h⟩ := h
  subst ht
  split at h
  case isTrue =>
    obtain ⟨rfl, rfl, rfl⟩ := returns_pure.mp h
    exact .inl ⟨by decide, by decide, rfl, rfl⟩
  case isFalse hn =>
    have hs : t.runtime.state = .inactive := hi.state.resolve_right fun hs => hn (by simp [hs])
    rw [if_neg (by simp [hs, hi.callbackActive])] at h
    split at h
    case isTrue hv =>
      obtain ⟨rfl, rfl, rfl⟩ := returns_pure.mp h
      refine .inl ⟨hv, ?_, rfl, rfl⟩
      rw [(validateDescriptor_cases descriptor).resolve_left hv]
      decide
    case isFalse =>
      cases descriptor with
      | none =>
        obtain ⟨rfl, rfl, rfl⟩ := returns_pure.mp h
        exact .inl ⟨by decide, by decide, rfl, rfl⟩
      | some d =>
        simp only [returns_bind, returns_ite] at h
        obtain ⟨_, _, _, hm, answer, s₂, w₂, hp, _, s₃, w₃, hm', h⟩ := h
        obtain ⟨rfl, rfl⟩ := does_modifyRuntime.mp hm
        obtain ⟨rfl, rfl⟩ := does_ask.mp hp
        obtain ⟨rfl, rfl⟩ := does_modifyRuntime.mp hm'
        refine .inr ⟨d, answer, rfl, ?_⟩
        split at h
        case isTrue hr =>
          obtain ⟨_, s₁, w₁, hm, h⟩ := h
          obtain ⟨rfl, rfl⟩ := does_retainError hm
          rw [Switch.retained, retainError_callbackResult] at h
          exact .unprepared hr h
        case isFalse hr =>
          obtain ⟨_, _, _, hm, r, s₂, w₂, hn, h⟩ := h
          obtain ⟨rfl, rfl⟩ := does_modifyRuntime.mp hm
          have ha := (adopted_alive d answer.2 hi).left
          obtain ⟨rfl, rfl, rfl⟩ := does_enterCallback hn ha.callbackActive ha.callbackRuntime
          rw [if_neg (not_not.mpr rfl)] at h
          obtain ⟨r, s₁, w₁, hs, r', s₂, w₂, hf, h⟩ := h
          obtain ⟨rfl, rfl, rfl⟩ := does_finishCallback hf
          split at h
          case isTrue hr' =>
            obtain ⟨_, s₂, w₂, hm, h⟩ := h
            obtain ⟨rfl, rfl⟩ := does_retainError hm
            rw [Switch.retained, retainError_callbackResult] at h
            exact .failed (not_not.mp hr) hs hr' h
          case isFalse hr' =>
            obtain ⟨_, s₂, w₂, hm, h⟩ := h
            obtain ⟨rfl, rfl⟩ := does_modifyRuntime.mp hm
            obtain ⟨rfl, rfl, rfl⟩ := returns_pure.mp h
            exact .started (not_not.mp hr) hs (not_not.mp hr')

end Calls
end App
