import HackyLens.App.Theorems.Ending

-- A rule for what holds along everything that the runtime does, callbacks included.

namespace App

open Prog

variable {fuel depth : Nat} {s s' : Switch} {w w' : Log} {x r : Result}
variable {J : Switch → Log → Prop}

-- The calls of a teardown.
def Call.Final : Call → Prop
  | deadlineAfter purpose _ => purpose = .teardown
  | retire _ _ | cleanup _  => True
  | _                       => False

-- What is to be shown of `J`. The runtime's other functions change no more of its state than a
-- teardown does. The render callback is left out, as it is the only one that can be followed by more
-- than a teardown within the same pass.
structure Law (fuel depth : Nat) (J : Switch → Log → Prop) : Prop where
  call : ∀ {s w} e, e.fst.Final → J s w → J s (e :: w)
  runtime : ∀ {s w} (runtime : Runtime), runtime.contextGeneration = s.runtime.contextGeneration →
    (s.runtime.activeEpoch = counterMax → runtime.activeEpoch = counterMax) →
    runtime.state = s.runtime.state ∨ runtime.state = .stopping → J s w →
    J { s with runtime := runtime } w
  invalidated : ∀ {s w} (runtime : Runtime), runtime.contextGeneration = s.runtime.contextGeneration →
    runtime.activeEpoch = s.runtime.activeEpoch → J s w →
    J { s with runtime := runtime.invalidateInstance } w
  started : ∀ {s w}, s.runtime.state = .starting → J s w →
    J { s with runtime := s.runtime.started } w
  beside : ∀ {s s' w}, s'.runtime = s.runtime → Beside s s' → J s w → J s' w
  callback : ∀ {s w} k {x s' w'}, k ≠ .render → (k = .stop → s.runtime.state = .stopping) →
    Inside s.runtime → (s.opening → s.transitionActive) → J s w →
    Does (runCallback fuel depth k) s w x s' w' → J s' w'

-- Between the calls of the runtime, there is no instance, or one that runs.
def Runtime.AtRest (runtime : Runtime) : Prop :=
  runtime.Idle ∨ runtime.Running

theorem Runtime.AtRest.idle {runtime : Runtime} (h : runtime.AtRest) (hs : runtime.state ≠ .running) :
    runtime.Idle :=
  h.resolve_right fun hr => hs hr.running

theorem Runtime.AtRest.nextSequence {runtime : Runtime} (h : runtime.AtRest) :
    runtime.nextSequence.AtRest :=
  h.imp (fun h => ⟨h.1, h.2, h.3, h.4, h.5, h.6, h.7, h.8, h.9⟩) fun h =>
    ⟨⟨h.1.1, h.1.2, h.1.3, h.1.4, h.1.5, h.1.6, h.1.7, h.1.8, h.1.9, h.1.10⟩, h.2, h.3, h.4, h.5⟩

theorem Runtime.Running.staged (h : s.runtime.Running) : (s.onStage .running).runtime.Alive :=
  ⟨h.1.1, h.1.2, h.1.3, h.1.4, h.1.5, h.1.6, h.1.7, h.1.8, h.1.9, h.1.10⟩

-- Once an event or render callback has returned and no more is asked for, the instance still runs.
theorem Runtime.Running.goes {k : Callback} (hr : s.runtime.Running)
    (ho : s.opening → s.transitionActive)
    (h : Does (runCallback fuel depth k) (s.onStage .running).entered w x s' w')
    (hc : s'.runtime.closeRequested = false) :
    s'.left.runtime.Running ∧ Beside s s'.left ∧
      s'.runtime.descriptor = s.runtime.descriptor := by
  have hn := hr.staged
  have ha := hn.aside ho h
  refine ⟨⟨ha.alive hn, ha.state.trans hr.running, ?_, ?_, hc⟩,
    ⟨ha.transitionActive, ha.opening, ha.surface⟩, ha.descriptor⟩
  · rw [ha.runtime]
    exact hr.startEntered
  · rw [ha.runtime]
    exact hr.firstError

theorem does_sync {u : Unit} (h : Does syncRuntimeState s w u s' w') :
    s'.runtime = s.runtime ∧ Beside s s' ∧ w' = w := by
  simp [syncRuntimeState] at h
  obtain ⟨rfl, rfl⟩ := h
  split
  case isTrue  => exact ⟨rfl, ⟨rfl, rfl, (by intros; contradiction)⟩, rfl⟩
  case isFalse => exact ⟨rfl, .refl, rfl⟩

-- A second instance is not launched.
theorem launch_running {app : Callback → Task Result} {descriptor : Option Descriptor}
    (h : Does (launch app descriptor) s w x s' w') (hr : s.runtime.state = .running) :
    x ≠ .ok ∧ s' = s ∧ w' = w := by
  simp [launch, returns_ite, hr] at h
  split at h <;> obtain ⟨rfl, rfl, rfl⟩ := h
  · exact ⟨by decide, rfl, rfl⟩
  · exact ⟨by decide, rfl, rfl⟩

theorem launch_faulted {app : Callback → Task Result} {descriptor : Option Descriptor}
    (h : Does (launch app descriptor) s w x s' w') (hf : s.runtime.state = .faulted) :
    x = .invalidState ∧ s' = s ∧ w' = w := by
  simpa [launch, hf] using h

namespace Law

theorem calls {new : Log} (hJ : Law fuel depth J) (hn : ∀ e ∈ new, e.fst.Final) (hj : J s w) :
    J s (new ++ w) := by
  induction new with
  | nil => exact hj
  | cons e new ih =>
    rw [List.forall_mem_cons] at hn
    exact hJ.call e hn.left (ih hn.right)

theorem entered (hJ : Law fuel depth J) (hj : J s w) : J s.entered w :=
  hJ.runtime { s.runtime with callbackActive := true, callbackRuntime := true } rfl id (.inl rfl) hj

theorem left (hJ : Law fuel depth J) (hj : J s w) : J s.left w :=
  hJ.runtime { s.runtime with callbackActive := false, callbackRuntime := false } rfl id (.inl rfl) hj

theorem retained (hJ : Law fuel depth J) (hj : J s w) : J (s.retained r) w := by
  rw [retained_eq]
  exact hJ.runtime { s.runtime with firstError := _ } rfl id (.inl rfl) hj

variable {reason : StopReason}

theorem torn {answer : Result × Deadline} (hJ : Law fuel depth J) (hj : J s w) :
    J (s.torn reason answer) w := by
  refine hJ.runtime ((s.runtime.beginTeardown reason).setTeardownDeadline answer) torn_generation
    torn_epoch (.inl ?_) hj
  obtain ⟨_, _, ht⟩ := @torn_eq s reason answer
  exact (congrArg Runtime.state ht).trans rfl

theorem halted {answer : Result × Deadline} (hJ : Law fuel depth J) (hj : J s w) :
    J (s.halted reason answer) w :=
  hJ.entered (hJ.runtime (s.torn reason answer).runtime.beginStop rfl id (.inr rfl) (hJ.torn hj))

theorem teardown (hJ : Law fuel depth J)
    (h : Does (teardown (runCallback fuel depth) reason) s w x s' w') (ha : s.runtime.Alive)
    (ho : s.opening → s.transitionActive) (hj : J s w) : J s' w' := by
  obtain ⟨answer, s₁, w₁, results, cleanup, hs, -, rfl, -, runtime, hg, he, rfl⟩ := does_teardown h ha
  refine hJ.invalidated runtime hg he (hJ.call _ trivial (hJ.calls ?_ ?_))
  · simp only [List.mem_reverse, List.mem_map]
    rintro _ ⟨_, -, rfl⟩
    trivial
  have hd := hJ.call ⟨.deadlineAfter .teardown s.runtime.teardownBudgetUs, answer⟩ rfl hj
  obtain ⟨-, r, s₂, hs, rfl⟩ | ⟨-, rfl, rfl⟩ := hs
  · have hi : Inside (s.halted reason answer).runtime := ha.halted
    exact hJ.retained (hJ.left (hJ.callback .stop nofun (fun _ => rfl) hi ho (hJ.halted hd) hs))
  · exact hJ.torn hd

theorem terminateRunning (hJ : Law fuel depth J)
    (h : Does (terminateRunning (runCallback fuel depth) reason) s w x s' w')
    (ha : s.runtime.Alive) (hr : s.runtime.state = .running)
    (ho : s.opening → s.transitionActive) (hj : J s w) : J s' w' := by
  obtain ⟨r, s₁, w₁, he, ht⟩ := does_terminateRunning h ha hr
  have hn : ({ s with runtime := s.runtime.nextSequence }.onStage .running).runtime.Alive :=
    ⟨ha.1, ha.2, ha.3, ha.4, ha.5, ha.6, ha.7, ha.8, ha.9, ha.10⟩
  have hj₁ : J ({ s with runtime := s.runtime.nextSequence }.onStage .running) w :=
    hJ.runtime (s := s) { s.runtime.nextSequence with stage := .running } rfl id (.inl rfl) hj
  have h₁ := hn.aside ho he
  refine hJ.teardown ht (h₁.alive hn).retained (h₁.beside.flags ho) (hJ.retained (hJ.left ?_))
  exact hJ.callback (.event (s.runtime.nextSequence.closeEvent reason.normalized)) (by simp)
    (by simp) hn.inside ho (hJ.entered hj₁) he

-- After an event or render callback, the instance goes on, or it is torn down.
theorem dispatched {k : Callback} {t : Switch} {v : Log} (hJ : Law fuel depth J)
    (hr : s.runtime.Running) (ho : s.opening → s.transitionActive)
    (hc : Does (runCallback fuel depth k) (s.onStage .running).entered w r s' w')
    (hd : Dispatched (runCallback fuel depth) r s' w' x t v)
    (hj : callbackResult r ≠ .ok ∨ s'.runtime.closeRequested = true → J s' w') :
    (callbackResult r = .ok ∧ s'.runtime.closeRequested = false ∧ x = .ok ∧ t = s'.left ∧ v = w') ∨
      J t v ∧ t.runtime.Idle ∧ Beside s t := by
  have hn := hr.staged
  have ha := hn.aside ho hc
  have hb : Beside s s'.left := ⟨ha.transitionActive, ha.opening, ha.surface⟩
  have hs : s'.left.runtime.state = .running := ha.state.trans hr.running
  cases hd
  case failed y hr' ht =>
    have hs' : (s'.left.retained r).runtime.state = .running := by
      rw [retained_eq]
      exact hs
    have hb₁ : Beside s (s'.left.retained r) := ⟨ha.transitionActive, ha.opening, ha.surface⟩
    obtain ⟨hi, hb'⟩ := terminateRunning_idle ht (ha.alive hn).retained hs' (hb.flags ho)
    refine .inr ⟨?_, hi, hb₁.trans hb'⟩
    exact hJ.terminateRunning ht (ha.alive hn).retained hs' (hb.flags ho)
      (hJ.retained (hJ.left (hj (.inl hr'))))
  case closed hr' hc' ht =>
    obtain ⟨hi, hb'⟩ := terminateRunning_idle ht (ha.alive hn) hs (hb.flags ho)
    refine .inr ⟨?_, hi, hb.trans hb'⟩
    exact hJ.terminateRunning ht (ha.alive hn) hs (hb.flags ho) (hJ.left (hj (.inr hc')))
  case running hr' hc' => exact .inl ⟨hr', hc', rfl, rfl, rfl⟩

theorem launched {answer : Result × Bool} (hJ : Law fuel depth J)
    (hl : Launched (runCallback fuel depth) answer s w x s' w') (ha : s.runtime.Alive)
    (hs : s.runtime.state = .starting) (ho : s.opening → s.transitionActive) (hj : J s w) :
    J s' w' := by
  have hn : { s with runtime := { s.runtime with startEntered := true } }.runtime.Alive :=
    ⟨ha.1, ha.2, ha.3, ha.4, ha.5, ha.6, ha.7, ha.8, ha.9, ha.10⟩
  have hj' : J { s with runtime := { s.runtime with startEntered := true } } w :=
    hJ.runtime { s.runtime with startEntered := true } rfl id (.inl rfl) hj
  cases hl
  case unprepared hr ht => exact hJ.teardown ht ha.retained ho (hJ.retained hj)
  case failed r s₁ w₁ hr hc hr' ht =>
    have h₁ := hn.aside ho hc
    have hj₁ := hJ.callback .start (by simp) (by simp) hn.inside ho (hJ.entered hj') hc
    exact hJ.teardown ht (h₁.alive hn).retained (h₁.beside.flags ho) (hJ.retained (hJ.left hj₁))
  case started r s₁ hr hr' hc =>
    have hj₁ := hJ.callback .start (by simp) (by simp) hn.inside ho (hJ.entered hj') hc
    exact hJ.started ((hn.aside ho hc).state.trans hs) (hJ.left hj₁)

theorem launch {descriptor : Option Descriptor} (hJ : Law fuel depth J) (hp : s.runtime.AtRest)
    (ho : s.opening → s.transitionActive) (hj : ∀ d answer, s.runtime.state = .inactive →
      J (s.adopted d answer.2) (⟨.prepare d, answer⟩ :: w))
    (h : Does (launch (runCallback fuel depth) descriptor) s w x s' w') :
    x ≠ .ok ∧ s' = s ∧ w' = w ∨ J s' w' ∧ Beside s s' ∧ (x ≠ .ok ∧ s'.runtime.Idle ∨
      x = .ok ∧ s'.runtime.Running ∧ s'.runtime.descriptor = descriptor) := by
  obtain hi | hr := hp
  · obtain hs | hs := hi.state
    · obtain ⟨hx, -, rfl, rfl⟩ | ⟨d, answer, rfl, hl⟩ := does_launch h hi
      · exact .inl ⟨hx, rfl, rfl⟩
      · obtain ⟨ha, hs', _, hf⟩ := @adopted_alive s d answer.2 hi
        have hb : Beside s (s.adopted d answer.2) := ⟨rfl, rfl, id⟩
        obtain ⟨hb', hx⟩ := launched_phase hl ha hf ho
        refine .inr ⟨hJ.launched hl ha hs' ho (hj d answer hs), hb.trans hb', ?_⟩
        refine hx.imp_right fun ⟨hx, hr, hd⟩ => ⟨hx, hr, hd.trans ?_⟩
        rw [Switch.adopted, Runtime.prepared]
        split <;> rfl
    · obtain ⟨rfl, rfl, rfl⟩ := launch_faulted h hs
      exact .inl ⟨by decide, rfl, rfl⟩
  · exact .inl (launch_running h hr.running)

theorem stop (hJ : Law fuel depth J) (hp : s.runtime.AtRest) (ho : s.opening → s.transitionActive)
    (hj : J s w) (h : Does (stop (runCallback fuel depth) reason) s w x s' w') :
    J s' w' ∧ Beside s s' ∧ s'.runtime.Idle := by
  obtain hi | hr := hp
  · obtain ⟨rfl, rfl, -⟩ := does_stop_idle h hi
    exact ⟨hj, .refl, hi⟩
  · have ht := does_stop h hr.toAlive hr.running
    obtain ⟨hi, hb⟩ := terminateRunning_idle ht hr.toAlive hr.running ho
    exact ⟨hJ.terminateRunning ht hr.toAlive hr.running ho hj, hb, hi⟩

theorem dispatchEvent {kind timestampUs data} (hJ : Law fuel depth J) (hp : s.runtime.AtRest)
    (ho : s.opening → s.transitionActive) (hj : J s w)
    (h : Does (dispatchEvent (runCallback fuel depth) kind timestampUs data) s w x s' w') :
    J s' w' ∧ Beside s s' ∧ s'.runtime.AtRest := by
  simp [App.dispatchEvent] at h
  obtain ⟨s₁, w₁, he, u, hs⟩ := h
  obtain ⟨hr', hb, rfl⟩ := does_sync hs
  have hn : J { s with runtime := s.runtime.nextSequence } w :=
    hJ.runtime s.runtime.nextSequence rfl id (.inl rfl) hj
  suffices h₁ : J s₁ w' ∧ Beside s s₁ ∧ s₁.runtime.AtRest from
    ⟨hJ.beside hr' hb h₁.left, h₁.right.left.trans hb, by rw [hr']; exact h₁.right.right⟩
  obtain hi | hr := hp.nextSequence
  · obtain ⟨-, -, rfl, rfl⟩ := does_runtimeEvent_idle he (by
      obtain hs | hs := hi.state
      · exact (by simp [hs] : s.runtime.nextSequence.state ≠ .running)
      · exact (by simp [hs] : s.runtime.nextSequence.state ≠ .running))
    exact ⟨hn, ⟨rfl, rfl, id⟩, .inl hi⟩
  · obtain ⟨-, -, rfl, rfl⟩ | ⟨r, s₂, w₂, hc, hd⟩ := does_runtimeEvent he hr.toAlive hr.running
    · exact ⟨hn, ⟨rfl, rfl, id⟩, .inr hr⟩
    · have hn' : J ({ s with runtime := s.runtime.nextSequence }.onStage .running) w :=
        hJ.runtime (s := s) { s.runtime.nextSequence with stage := .running } rfl id (.inl rfl) hj
      have ha := Runtime.Running.staged (s := { s with runtime := s.runtime.nextSequence }) hr
      have hj₂ := hJ.callback _ (by simp) (by simp) ha.inside ho (hJ.entered hn') hc
      obtain ⟨-, hq, -, rfl, rfl⟩ | ⟨hj, hi, hb⟩ :=
        hJ.dispatched (s := { s with runtime := s.runtime.nextSequence }) hr ho hc hd fun _ => hj₂
      · obtain ⟨hr', hb, _⟩ :=
          Runtime.Running.goes (s := { s with runtime := s.runtime.nextSequence }) hr ho hc hq
        exact ⟨hJ.left hj₂, ⟨hb.transitionActive, hb.opening, hb.surface⟩, .inr hr'⟩
      · exact ⟨hj, ⟨hb.transitionActive, hb.opening, hb.surface⟩, .inl hi⟩

-- A render pass of the runtime. What holds before the callback need not hold after it if the instance
-- goes on.
theorem runtimeRender (hJ : Law fuel depth J) (hp : s.runtime.AtRest)
    (ho : s.opening → s.transitionActive)
    (h : Does (runtimeRender (runCallback fuel depth)) s w x s' w')
    (hj : ∀ r s₁ w₁, s.runtime.Running →
      Does (runCallback fuel depth .render) (s.onStage .running).entered w r s₁ w₁ →
      callbackResult r ≠ .ok ∨ s₁.runtime.closeRequested = true → J s₁ w₁) :
    x ≠ .ok ∧ s' = s ∧ w' = w ∨ J s' w' ∧ Beside s s' ∧ s'.runtime.Idle ∨
      Beside s s' ∧ s'.runtime.Running ∧ s'.runtime.descriptor = s.runtime.descriptor ∧
        ∃ r s₁, s' = s₁.left ∧ s.runtime.Running ∧
          Does (runCallback fuel depth .render) (s.onStage .running).entered w r s₁ w' := by
  obtain hi | hr := hp
  · refine .inl (does_runtimeRender_idle h ?_)
    obtain hs | hs := hi.state <;> simp [hs]
  · obtain hx | ⟨r, s₁, w₁, hc, hd⟩ := does_runtimeRender h hr.toAlive hr.running
    · exact .inl hx
    · obtain ⟨-, hq, rfl, rfl, rfl⟩ | ⟨hj, hi, hb⟩ := hJ.dispatched hr ho hc hd (hj r s₁ w₁ hr hc)
      · obtain ⟨hr', hb, hd⟩ := hr.goes ho hc hq
        exact .inr (.inr ⟨hb, hr', hd, r, s₁, rfl, hr, hc⟩)
      · exact .inr (.inl ⟨hj, hb, hi⟩)

-- What also holds along the render callback, and when an instance is adopted, holds along all calls.
theorem runtimeCall {call : RuntimeCall} (hJ : Law fuel depth J)
    (ha : ∀ {s w} d answer, s.runtime.state = .inactive → J s w →
      J (s.adopted d answer.2) (⟨.prepare d, answer⟩ :: w))
    (hr : ∀ {s w x s' w'}, Inside s.runtime → (s.opening → s.transitionActive) → J s w →
      Does (runCallback fuel depth .render) s w x s' w' → J s' w')
    (hp : s.runtime.AtRest) (ho : s.opening → s.transitionActive) (hj : J s w)
    (h : Does (runtimeCalls fuel depth call) s w x s' w') :
    J s' w' ∧ Beside s s' ∧ s'.runtime.AtRest := by
  cases call
  case event posted =>
    cases posted
    case input  => exact hJ.dispatchEvent hp ho hj h
    case media  => exact hJ.dispatchEvent hp ho hj h
    case timer  => exact hJ.dispatchEvent hp ho hj h
    case wakeup => exact hJ.dispatchEvent hp ho hj h
  case launch descriptor =>
    obtain ⟨-, rfl, rfl⟩ | ⟨hj, hb, hx⟩ :=
      hJ.launch hp ho (fun d answer hs => ha d answer hs hj) h
    · exact ⟨hj, .refl, hp⟩
    · exact ⟨hj, hb, hx.imp And.right fun hx => hx.right.left⟩
  case stop reason =>
    obtain ⟨hj, hb, hi⟩ := hJ.stop hp ho hj h
    exact ⟨hj, hb, .inl hi⟩
  case render =>
    have hc {r s₁ w₁} (hg : s.runtime.Running)
        (hc : Does (runCallback fuel depth .render) (s.onStage .running).entered w r s₁ w₁) :
        J s₁ w₁ := by
      refine hr hg.staged.inside ho (hJ.entered ?_) hc
      exact hJ.runtime { s.runtime with stage := .running } rfl id (.inl rfl) hj
    obtain ⟨-, rfl, rfl⟩ | ⟨hj, hb, hi⟩ | ⟨hb, hg', -, r, s₁, rfl, hg, h₁⟩ :=
      hJ.runtimeRender hp ho h fun r s₁ w₁ hg h₁ _ => hc hg h₁
    · exact ⟨hj, .refl, hp⟩
    · exact ⟨hj, hb, .inl hi⟩
    · exact ⟨hJ.left (hc hg h₁), hb, .inr hg'⟩
  case validate token =>
    simp [runtimeCalls] at h
    obtain ⟨-, rfl, rfl⟩ := h
    exact ⟨hj, .refl, hp⟩

end Law
end App
