import HackyLens.App.Theorems.Instance

-- What callbacks leave behind when they are entered from the runtime, and where a teardown ends.

namespace App

open Prog

variable {fuel depth : Nat} {s s' : Switch} {w w' : Log} {x r : Result} {k : Callback}

-- The switch's part of a step that may end an instance.
structure Beside (s s' : Switch) : Prop where
  transitionActive : s'.transitionActive = s.transitionActive
  opening : s'.opening = s.opening
  surface : s'.surface.valid → s.surface.valid

namespace Beside

theorem refl : Beside s s :=
  ⟨rfl, rfl, id⟩

theorem trans {s₁ : Switch} (h : Beside s s₁) (h' : Beside s₁ s') : Beside s s' where
  transitionActive := h'.transitionActive.trans h.transitionActive
  opening := h'.opening.trans h.opening
  surface := h.surface ∘ h'.surface

-- The flags of a switch on its way between callbacks.
theorem flags (h : Beside s s') (ho : s.opening → s.transitionActive) :
    s'.opening → s'.transitionActive := by
  rw [h.transitionActive, h.opening]
  exact ho

end Beside

theorem Aside.beside (h : Aside s s') : Beside s s' :=
  ⟨h.transitionActive, h.opening, h.surface⟩

theorem Aside.alive (h : Aside s s') (ha : s.runtime.Alive) : s'.runtime.Alive := by
  constructor <;> rw [h.runtime]
  · exact ha.state
  · exact ha.descriptor
  · exact ha.callbackActive
  · exact ha.callbackRuntime
  · exact ha.live
  · exact ha.contextValid
  · exact ha.generation
  · exact ha.generation_ne
  · exact ha.stopCalled
  · exact ha.teardownStarted

-- Only the first error of the runtime is changed when an error is retained.
theorem retained_eq : s.retained r =
    { s with runtime := { s.runtime with firstError := orFailure s.runtime.firstError [r] } } := by
  rw [Switch.retained, retainError_eq]

theorem Runtime.Alive.retained (ha : s.runtime.Alive) : (s.retained r).runtime.Alive := by
  rw [retained_eq]
  exact ⟨ha.1, ha.2, ha.3, ha.4, ha.5, ha.6, ha.7, ha.8, ha.9, ha.10⟩

theorem Inside.aside (hi : Inside s.runtime) (ho : s.opening → s.transitionActive)
    (h : Does (runCallback fuel depth k) s w x s' w') : Aside s s' := by
  obtain ⟨_, _, ha, _⟩ := hi.callback ho (fun _ _ _ => True) trivial (fun _ _ _ => trivial) h
  exact ha

theorem Aside.left (h : Aside s.entered s') (hc : s.runtime.callbackActive = false)
    (hr : s.runtime.callbackRuntime = false) : Aside s s'.left where
  runtime := by
    have hl := congrArg
      (fun r : Runtime => { r with callbackActive := false, callbackRuntime := false }) h.runtime
    simp only [Switch.entered] at hl
    rw [Switch.left, hl]
    simp only [hc, hr]
  sequence := h.sequence
  transitionActive := h.transitionActive
  opening := h.opening
  surface := h.surface

theorem Runtime.Alive.aside (ha : s.runtime.Alive) (ho : s.opening → s.transitionActive)
    (h : Does (runCallback fuel depth k) s.entered w x s' w') : Aside s s'.left :=
  (ha.inside.aside ho h).left ha.callbackActive ha.callbackRuntime

theorem counter_lt {n : UInt32} (h : n ≠ counterMax) : n < n + 1 := by
  have hn : n.toNat ≠ 0xFFFFFFFF := fun hn => h (UInt32.toNat_inj.mp hn)
  have hl := n.toNat_lt
  rw [UInt32.lt_iff_toNat_lt, UInt32.toNat_add]
  simp only [UInt32.toNat_one]
  omega

-- A generation that is used up is not followed by another one.
theorem invalidateInstance_cases {runtime : Runtime} :
    runtime.invalidateInstance.state = .faulted ∧
      runtime.invalidateInstance.contextGeneration = runtime.contextGeneration ∨
    runtime.invalidateInstance.state = .inactive ∧
      runtime.invalidateInstance.contextGeneration = runtime.contextGeneration + 1 ∧
      runtime.contextGeneration ≠ counterMax ∧ runtime.invalidateInstance.retired = false := by
  cases he : runtime.contextGeneration == counterMax || runtime.activeEpoch == counterMax
  case true  => simp [Runtime.invalidateInstance, he]
  case false =>
    simp only [Bool.or_eq_false_iff, beq_eq_false_iff_ne] at he
    simp [Runtime.invalidateInstance, he.left, he.right]

-- A runtime for which at most the present generation is left.
def Runtime.Exhausted (runtime : Runtime) : Prop :=
  runtime.contextGeneration = counterMax ∨ runtime.activeEpoch = counterMax

theorem Runtime.Exhausted.invalidateInstance {runtime : Runtime} (h : runtime.Exhausted) :
    runtime.invalidateInstance.Exhausted ∧ runtime.invalidateInstance.state = .faulted := by
  have he : runtime.contextGeneration = counterMax ∨ runtime.activeEpoch = counterMax := h
  simp [Runtime.Exhausted, Runtime.invalidateInstance, he]

theorem invalidateInstance_idle {runtime : Runtime} (hg : runtime.contextGeneration ≠ 0) :
    runtime.invalidateInstance.Idle := by
  have hc := @invalidateInstance_cases runtime
  refine ⟨?_, rfl, rfl, rfl, rfl, rfl, rfl, ?_, ?_⟩
  · exact hc.symm.imp And.left And.left
  · obtain ⟨-, hn⟩ | ⟨-, hn, hm, -⟩ := hc
    · rwa [hn]
    · intro h
      rw [hn] at h
      have hl := counter_lt hm
      rw [h] at hl
      exact absurd hl (by simp)
  · intro hr
    obtain ⟨hs, -⟩ | ⟨-, -, -, hn⟩ := hc
    · exact hs
    · rw [hn] at hr
      cases hr

theorem init_idle {ops : Ops} {teardownBudgetUs : UInt64} :
    (Runtime.init ops teardownBudgetUs).Idle :=
  ⟨.inl rfl, rfl, rfl, rfl, rfl, rfl, rfl, show (1 : UInt32) ≠ 0 by decide, nofun⟩

section Teardown

variable {reason : StopReason}

theorem torn_beside {answer : Result × Deadline} : Beside s (s.torn reason answer) :=
  ⟨rfl, rfl, id⟩

theorem torn_generation {answer : Result × Deadline} :
    (s.torn reason answer).runtime.contextGeneration = s.runtime.contextGeneration := by
  obtain ⟨_, _, ht⟩ := @torn_eq s reason answer
  rw [ht]

-- The epoch does not go beyond its maximum.
theorem torn_epoch {answer : Result × Deadline} (h : s.runtime.activeEpoch = counterMax) :
    (s.torn reason answer).runtime.activeEpoch = counterMax := by
  rw [Switch.torn, setTeardownDeadline_eq]
  show (s.runtime.beginTeardown reason).activeEpoch = _
  simp [Runtime.beginTeardown, h]

-- The state in which the stop callback is entered.
def Switch.halted (s : Switch) (reason : StopReason) (answer : Result × Deadline) : Switch :=
  { s.torn reason answer with runtime := (s.torn reason answer).runtime.beginStop }.entered

theorem Runtime.Alive.halted (ha : s.runtime.Alive) {answer : Result × Deadline} :
    Inside (s.halted reason answer).runtime := by
  obtain ⟨_, _, ht⟩ := @torn_eq s reason answer
  rw [Switch.halted, ht]
  exact ⟨rfl, rfl, ha.live, ha.contextValid, ha.generation, ha.generation_ne, nofun, nofun⟩

-- A teardown leaves no instance.
theorem teardown_idle (h : Does (teardown (runCallback fuel depth) reason) s w x s' w')
    (ha : s.runtime.Alive) (ho : s.opening → s.transitionActive) :
    s'.runtime.Idle ∧ Beside s s' := by
  obtain ⟨answer, s₁, w₁, results, cleanup, hs, -, -, -, runtime, hg, -, rfl⟩ := does_teardown h ha
  suffices hb : Beside s s₁ ∧ s₁.runtime.contextGeneration = s.runtime.contextGeneration by
    refine ⟨invalidateInstance_idle ?_, hb.left.trans ⟨rfl, rfl, id⟩⟩
    rw [hg, hb.right]
    exact ha.generation_ne
  obtain ⟨-, r, s₂, hs, rfl⟩ | ⟨-, rfl, -⟩ := hs
  · have h₂ := (@Runtime.Alive.halted _ reason ha answer).aside ho hs
    refine ⟨⟨h₂.transitionActive, h₂.opening, h₂.surface⟩, ?_⟩
    rw [retained_eq]
    exact h₂.contextGeneration.trans torn_generation
  · exact ⟨torn_beside, torn_generation⟩

-- A teardown after an error has that error as its result.
theorem teardown_result (h : Does (teardown (runCallback fuel depth) reason) s w x s' w')
    (ha : s.runtime.Alive) (ho : s.opening → s.transitionActive)
    (he : s.runtime.firstError ≠ .ok) : x = s.runtime.firstError := by
  obtain ⟨answer, s₁, w₁, results, cleanup, hs, -, -, rfl, -⟩ := does_teardown h ha
  obtain ⟨_, _, ht⟩ := @torn_eq s reason answer
  have hf : (s.torn reason answer).runtime.firstError = s.runtime.firstError := by
    rw [ht]
    exact if_neg he
  suffices h₁ : s₁.runtime.firstError = s.runtime.firstError by
    rw [h₁]
    exact if_neg he
  obtain ⟨-, r, s₂, hs, rfl⟩ | ⟨-, rfl, -⟩ := hs
  · have h₂ := (@Runtime.Alive.halted _ reason ha answer).aside ho hs
    have hf₂ : s₂.runtime.firstError = s.runtime.firstError := by
      rw [h₂.runtime]
      exact hf
    rw [retained_eq]
    show orFailure s₂.runtime.firstError [r] = _
    rw [hf₂]
    exact if_neg he
  · exact hf

theorem terminateRunning_idle
    (h : Does (terminateRunning (runCallback fuel depth) reason) s w x s' w')
    (ha : s.runtime.Alive) (hr : s.runtime.state = .running)
    (ho : s.opening → s.transitionActive) : s'.runtime.Idle ∧ Beside s s' := by
  obtain ⟨r, s₁, w₁, he, ht⟩ := does_terminateRunning h ha hr
  have hn : ({ s with runtime := s.runtime.nextSequence }.onStage .running).runtime.Alive :=
    ⟨ha.1, ha.2, ha.3, ha.4, ha.5, ha.6, ha.7, ha.8, ha.9, ha.10⟩
  have h₁ := hn.aside ho he
  obtain ⟨hi, hb⟩ := teardown_idle ht (h₁.alive hn).retained (h₁.beside.flags ho)
  have hb₁ : Beside s (s₁.left.retained r) := ⟨h₁.transitionActive, h₁.opening, h₁.surface⟩
  exact ⟨hi, hb₁.trans hb⟩

end Teardown

-- A launch that does not fail leaves a running instance.
theorem launched_phase {answer : Result × Bool}
    (hl : Launched (runCallback fuel depth) answer s w x s' w') (ha : s.runtime.Alive)
    (hf : s.runtime.firstError = .ok) (ho : s.opening → s.transitionActive) :
    Beside s s' ∧ (x ≠ .ok ∧ s'.runtime.Idle ∨
      x = .ok ∧ s'.runtime.Running ∧ s'.runtime.descriptor = s.runtime.descriptor) := by
  have hn : { s with runtime := { s.runtime with startEntered := true } }.runtime.Alive :=
    ⟨ha.1, ha.2, ha.3, ha.4, ha.5, ha.6, ha.7, ha.8, ha.9, ha.10⟩
  have hne {t : Switch} {r : Result} (ht : t.runtime.firstError = .ok) (hr : callbackResult r ≠ .ok) :
      (t.retained r).runtime.firstError ≠ .ok := by
    rw [retained_eq]
    show orFailure t.runtime.firstError [r] ≠ _
    rw [ht, orFailure_ok, firstFailure, if_neg hr]
    exact hr
  cases hl
  case unprepared hr ht =>
    obtain ⟨hi, hb⟩ := teardown_idle ht ha.retained ho
    have hb₁ : Beside s (s.retained answer.1) := ⟨rfl, rfl, id⟩
    refine ⟨hb₁.trans hb, .inl ⟨?_, hi⟩⟩
    rw [teardown_result ht ha.retained ho (hne hf hr)]
    exact hne hf hr
  case failed r s₁ w₁ hr hc hr' ht =>
    have h₁ := hn.aside ho hc
    have hb₁ : Beside s (s₁.left.retained r) := ⟨h₁.transitionActive, h₁.opening, h₁.surface⟩
    have hf₁ : s₁.left.runtime.firstError = .ok := by
      rw [h₁.runtime]
      exact hf
    obtain ⟨hi, hb⟩ := teardown_idle ht (h₁.alive hn).retained (hb₁.flags ho)
    refine ⟨hb₁.trans hb, .inl ⟨?_, hi⟩⟩
    rw [teardown_result ht (h₁.alive hn).retained (hb₁.flags ho) (hne hf₁ hr')]
    exact hne hf₁ hr'
  case started r s₁ hr hr' hc =>
    have h₁ := hn.aside ho hc
    have h₂ := h₁.alive hn
    refine ⟨⟨h₁.transitionActive, h₁.opening, h₁.surface⟩, .inr ⟨rfl, ?_, h₁.descriptor⟩⟩
    refine ⟨⟨.inr rfl, h₂.2, h₂.3, h₂.4, h₂.5, h₂.6, h₂.7, h₂.8, h₂.9, h₂.10⟩, rfl, ?_, ?_, rfl⟩
    · show s₁.left.runtime.startEntered = true
      rw [h₁.runtime]
    · show s₁.left.runtime.firstError = .ok
      rw [h₁.runtime]
      exact hf

end App
