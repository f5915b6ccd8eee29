import HackyLens.App.Theorems.Law

-- The lifecycle law holds for all instances in all runs of the runtime.

namespace App

open Prog

variable {fuel depth : Nat} {s s' : Switch} {w w' : Log} {x r : Result} {k : Callback}
variable {base : List Milestone} {life : Life}

section Milestones

theorem milestones_append : milestones (w' ++ w) = milestones w ++ milestones w' := by
  simp only [milestones, List.reverse_append, List.flatMap_append]

theorem milestones_cons {e : Sigma Call.Answer} :
    milestones (e :: w) = milestones w ++ milestone e := by
  simp only [milestones, List.reverse_cons, List.flatMap_append, List.flatMap_singleton]

theorem milestones_quiet (h : ∀ e ∈ w, e.fst.Quiet) : milestones w = [] := by
  refine List.flatMap_eq_nil_iff.mpr fun e he => ?_
  obtain ⟨c, a⟩ := e
  have hq := h _ (List.mem_reverse.mp he)
  cases c
  case deadlineAfter purpose _ =>
    cases purpose
    case teardown => cases hq
    case render   => rfl
  all_goals first | rfl | exact hq.elim

-- Whatever an app does in a callback, the callback is entered once and returns once.
theorem Inside.called (hi : Inside s.runtime) (ho : s.opening → s.transitionActive)
    (h : Does (runCallback fuel depth k) s w x s' w') :
    milestones w' = milestones w ++ App.called k x := by
  have hc := hi.callback ho
    (fun last _ w₁ => milestones w₁ = milestones w ++ if last.isSome then [.entered k] else [])
    (by simp) ?_ h
  · obtain ⟨last, w₁, -, hm, rfl⟩ := hc
    rw [milestones_cons, hm]
    cases last
    case none   => simp [milestone, App.called]
    case some _ => simp [milestone, App.called]
  · intro last s₁ w₁ action new reply s₂ _ hm hd
    rw [milestones_append, milestones_quiet hd.quiet, milestones_cons, hm]
    cases last
    case none   => simp [milestone]
    case some _ => simp [milestone]

theorem milestones_retired {deadline : Deadline} {results : List (Session × Result)} :
    milestones (results.map fun r => ⟨.retire r.fst deadline, r.snd⟩).reverse =
      results.map fun r => .retired r.fst deadline r.snd := by
  rw [milestones, List.reverse_reverse, List.flatMap_map]
  exact List.map_eq_flatMap.symm

end Milestones

section Ends

variable {reason : StopReason} {close : Option (Event × Result)}

-- A teardown completes the instance, whatever led to it.
theorem teardown_ends (h : Does (teardown (runCallback fuel depth) reason) s w x s' w')
    (ha : s.runtime.Alive) (ho : s.opening → s.transitionActive)
    (hm : milestones w = base ++ life.trace ++ close.toList.flatMap fun c => called (.event c.1) c.2)
    (hf : s.runtime.firstError = firstFailure (life.results ++ close.toList.map Prod.snd))
    (hs : life.start.isSome ↔ s.runtime.startEntered) :
    ∃ i : Instance, i.life = life ∧ i.close = close ∧ milestones w' = base ++ i.trace ∧
      (i.stop.isSome ↔ life.start.isSome) ∧ i.retires.map Prod.fst = sessions ∧ x = i.result := by
  obtain ⟨answer, s₁, w₁, retires, cleanup, hc, hr, rfl, rfl, -⟩ := does_teardown h ha
  obtain ⟨_, _, ht⟩ := @torn_eq s reason answer
  -- What is left to show is what the stop callback adds.
  suffices h₁ : ∃ stop : Option Result, (stop.isSome ↔ life.start.isSome) ∧
      milestones w₁ = milestones w ++ .deadline answer :: stop.toList.flatMap (called .stop) ∧
      s₁.runtime.teardownDeadline = deadlineOf answer ∧
      s₁.runtime.firstError =
        orFailure s.runtime.firstError (deadlineResult answer :: stop.toList) by
    obtain ⟨stop, hs₁, hm₁, hd, hf₁⟩ := h₁
    refine ⟨⟨life, close, answer, stop, retires, cleanup⟩, rfl, rfl, ?_, hs₁, hr, ?_⟩
    · rw [milestones_cons, milestones_append, milestones_retired, hm₁, hm, hd]
      simp [Instance.trace, milestone]
    · rw [hf₁, hf, orFailure_append, ← firstFailure_append]
      simp [Instance.result]
  obtain ⟨he, r, s₂, hc, rfl⟩ | ⟨he, rfl, rfl⟩ := hc
  · have hi : Inside (s.halted reason answer).runtime := ha.halted
    have h₂ := hi.aside ho hc
    refine ⟨some r, by simp [hs, he], ?_, ?_, ?_⟩
    · rw [hi.called ho hc, milestones_cons]
      simp [milestone]
    · rw [retained_eq]
      show s₂.runtime.teardownDeadline = _
      rw [h₂.runtime, Switch.halted, ht]
      rfl
    · rw [retained_eq]
      show orFailure s₂.runtime.firstError _ = _
      rw [h₂.runtime, Switch.halted, ht]
      exact orFailure_append
  · refine ⟨none, by simp [hs, he], ?_, ?_, ?_⟩
    · rw [milestones_cons]
      rfl
    · rw [ht]
    · rw [ht]
      rfl

-- When a running instance is ended, it gets the close event first.
theorem terminateRunning_ends
    (h : Does (terminateRunning (runCallback fuel depth) reason) s w x s' w')
    (ha : s.runtime.Alive) (hr : s.runtime.state = .running) (he : s.runtime.startEntered = true)
    (ho : s.opening → s.transitionActive) (hm : milestones w = base ++ life.trace)
    (hf : s.runtime.firstError = firstFailure life.results) (hl : life.Lawful)
    (hs : life.Started) (hq : ∀ e ∈ life.events, e.sequence ≤ s.runtime.eventSequence) :
    ∃ i : Instance, i.life = life ∧ i.Lawful ∧ milestones w' = base ++ i.trace ∧ x = i.result := by
  obtain ⟨r, s₁, w₁, hc, ht⟩ := does_terminateRunning h ha hr
  have hn : ({ s with runtime := s.runtime.nextSequence }.onStage .running).runtime.Alive :=
    ⟨ha.1, ha.2, ha.3, ha.4, ha.5, ha.6, ha.7, ha.8, ha.9, ha.10⟩
  have h₁ := hn.aside ho hc
  have hsome : life.start.isSome := by
    obtain ⟨result, hr, -⟩ := hs
    exact Option.isSome_of_mem hr
  have hm₁ : milestones w₁ = base ++ life.trace ++
      (some (s.runtime.nextSequence.closeEvent reason.normalized, r)).toList.flatMap
        fun c => called (.event c.1) c.2 := by
    rw [hn.inside.called ho hc, hm]
    simp
  have hf₁ : (s₁.left.retained r).runtime.firstError = firstFailure (life.results ++
      (some (s.runtime.nextSequence.closeEvent reason.normalized, r)).toList.map Prod.snd) := by
    rw [retained_eq]
    show orFailure s₁.left.runtime.firstError _ = _
    rw [h₁.runtime, firstFailure_append]
    exact congrArg (orFailure · [r]) hf
  have hs₁ : life.start.isSome ↔ (s₁.left.retained r).runtime.startEntered := by
    rw [retained_eq]
    show _ ↔ s₁.left.runtime.startEntered = true
    rw [h₁.runtime]
    exact iff_of_true hsome he
  obtain ⟨i, hlife, hclose, hm', hstop, hret, hx⟩ :=
    teardown_ends ht (h₁.alive hn).retained (h₁.beside.flags ho) hm₁ hf₁ hs₁
  refine ⟨i, hlife, ⟨hlife ▸ hl, ?_, ?_, ?_, hlife ▸ hstop, hret⟩, hm', hx⟩
  · simp [hclose, hlife, hs]
  · rw [hclose]
    rintro _ ⟨⟩
    rfl
  · rw [hclose, hlife]
    refine List.pairwise_append.mpr ⟨hl.sequence, List.pairwise_singleton .., ?_⟩
    intro e he c hc
    obtain rfl := List.mem_singleton.mp hc
    exact Nat.lt_succ_of_le (hq e he)

end Ends
section Turns

variable {runtime : Runtime}

def Life.turn (life : Life) (callback : Callback) (result : Result) : Life :=
  { life with turns := life.turns ++ [(callback, result)] }

theorem Life.turn_trace : (life.turn k r).trace = life.trace ++ called k r := by
  simp [trace, turn]

theorem Life.turn_results : (life.turn k r).results = life.results ++ [r] := by
  simp [results, turn]

theorem Life.mem_turn_events {e : Event} (h : e ∈ (life.turn k r).events) :
    e ∈ life.events ∨ k = .event e := by
  simp only [events, turn, List.filterMap_append, List.mem_append] at h
  refine h.imp_right fun h => ?_
  cases k <;> simp_all

theorem Life.Lawful.turn (hl : life.Lawful) (hs : life.Started) (hk : k.Ordinary)
    (hq : ∀ e, k = .event e → ∀ e' ∈ life.events, e'.sequence < e.sequence) :
    (life.turn k r).Lawful where
  start := hl.start
  turns _ := hs
  ordinary t ht := by
    obtain ht | ht := List.mem_append.mp ht
    · exact hl.ordinary t ht
    · rw [List.mem_singleton.mp ht]
      exact hk
  sequence := by
    simp only [events, Life.turn, List.filterMap_append]
    refine List.pairwise_append.mpr ⟨hl.sequence, ?_, ?_⟩
    · cases k <;> simp
    · intro e he e' he'
      refine hq e' ?_ e he
      cases k <;> simp_all

theorem firstFailure_singleton : firstFailure [r] = callbackResult r := by
  simp only [firstFailure]
  split
  case isTrue hr  => exact hr.symm
  case isFalse hr => rfl

theorem orFailure_ne {results : List Result} (h : r ≠ .ok) : orFailure r results = r :=
  if_neg h

end Turns

-- An instance that runs, and its life so far.
structure Life.Goes (life : Life) (runtime : Runtime) : Prop where
  lawful : life.Lawful
  started : life.Started
  results : firstFailure life.results = .ok
  sequence : ∀ e ∈ life.events, e.sequence ≤ runtime.eventSequence
  running : runtime.Running

-- What there is to tell between the calls of the runtime: the instances that have ended, and the one
-- that runs.
structure Told (past : List Instance) (live : Option Life) (s : Switch) (w : Log) : Prop where
  lawful : ∀ i ∈ past, i.Lawful
  goes : ∀ life ∈ live, life.Goes s.runtime
  idle : live = none → s.runtime.Idle
  flags : s.opening → s.transitionActive
  trace : milestones w = past.flatMap Instance.trace ++ live.toList.flatMap Life.trace

-- What a call with result `x` has to tell.
def Tells (past : List Instance) (x : Result) (s : Switch) (w : Log) : Prop :=
  ∃ (ended : Option Instance) (live : Option Life),
    (∀ i ∈ ended, x = i.result) ∧ Told (past ++ ended.toList) live s w

section Steps

variable {past : List Instance} {live : Option Life}

theorem Told.tells (h : Told past live s w) : Tells past x s w :=
  ⟨none, live, by simp, by simpa using h⟩

-- What is told does not depend on the active app, and on the surface.
theorem Told.of_runtime (h : Told past live s w) (hr : s'.runtime = s.runtime)
    (hb : Beside s s') : Told past live s' w where
  lawful := h.lawful
  goes := by
    rw [hr]
    exact h.goes
  idle := by
    rw [hr]
    exact h.idle
  flags := hb.flags h.flags
  trace := h.trace

theorem Tells.of_runtime (h : Tells past x s w) (hr : s'.runtime = s.runtime)
    (hb : Beside s s') : Tells past x s' w := by
  obtain ⟨ended, live, hx, ht⟩ := h
  exact ⟨ended, live, hx, ht.of_runtime hr hb⟩

-- An instance has ended, whichever way.
theorem Tells.ended {i : Instance} (hp : ∀ i ∈ past, i.Lawful) (hi : i.Lawful) (hx : x = i.result)
    (hm : milestones w = past.flatMap Instance.trace ++ i.trace) (hs : s.runtime.Idle)
    (ho : s.opening → s.transitionActive) : Tells past x s w := by
  refine ⟨some i, none, by simp [hx], ?_, nofun, fun _ => hs, ho, by simp [hm]⟩
  intro j hj
  obtain hj | hj := List.mem_append.mp hj
  · exact hp j hj
  · obtain rfl := List.mem_singleton.mp hj
    exact hi

-- An event or a render pass of an instance that runs.
theorem Told.dispatched {t : Switch} {v : Log} (h : Told past (some life) s w) (hk : k.Ordinary)
    (hq : ∀ e, k = .event e → e.sequence ≤ s.runtime.eventSequence ∧
      ∀ e' ∈ life.events, e'.sequence < e.sequence)
    (hc : Does (runCallback fuel depth k) (s.onStage .running).entered w r s' w')
    (hd : Dispatched (runCallback fuel depth) r s' w' x t v) : Tells past x t v := by
  have hg := h.goes life rfl
  have hr := hg.running
  have hn := hr.staged
  have ha := hn.aside h.flags hc
  have ho := ha.beside.flags h.flags
  have hs : s'.left.runtime.state = .running := ha.state.trans hr.running
  have he : s'.left.runtime.startEntered = true := by
    rw [ha.runtime]
    exact hr.startEntered
  have hf : s'.left.runtime.firstError = .ok := by
    rw [ha.runtime]
    exact hr.firstError
  have hm : milestones w' = past.flatMap Instance.trace ++ (life.turn k r).trace := by
    rw [hn.inside.called h.flags hc, h.trace, Life.turn_trace]
    simp
  have hl : (life.turn k r).Lawful :=
    hg.lawful.turn hg.started hk fun e h => (hq e h).right
  have hres : firstFailure (life.turn k r).results = callbackResult r := by
    rw [Life.turn_results, firstFailure_append, hg.results, orFailure_ok, firstFailure_singleton]
  have hseq : ∀ e ∈ (life.turn k r).events, e.sequence ≤ s'.left.runtime.eventSequence := by
    intro e he
    refine Nat.le_trans ?_ ha.sequence
    obtain he | he := Life.mem_turn_events he
    · exact hg.sequence e he
    · exact (hq e he).left
  cases hd
  case failed y hr ht =>
    have hf' : (s'.left.retained r).runtime.firstError = firstFailure (life.turn k r).results := by
      rw [retained_eq, hres]
      show orFailure s'.left.runtime.firstError [r] = _
      rw [hf, orFailure_ok, firstFailure_singleton]
    have hs' : (s'.left.retained r).runtime.state = .running := by
      rw [retained_eq]
      exact hs
    have he' : (s'.left.retained r).runtime.startEntered = true := by
      rw [retained_eq]
      exact he
    have hq' : ∀ e ∈ (life.turn k r).events,
        e.sequence ≤ (s'.left.retained r).runtime.eventSequence := by
      rw [retained_eq]
      exact hseq
    obtain ⟨i, hlife, hi, hm', _⟩ :=
      terminateRunning_ends ht (ha.alive hn).retained hs' he' ho hm hf' hl hg.started hq'
    obtain ⟨hidle, hb⟩ := terminateRunning_idle ht (ha.alive hn).retained hs' ho
    refine .ended h.lawful hi ?_ hm' hidle (hb.flags ho)
    rw [Instance.result, hlife, List.append_assoc, firstFailure_append, hres, orFailure_ne hr]
  case closed hr _ ht =>
    obtain ⟨i, hlife, hi, hm', hx⟩ := terminateRunning_ends ht (ha.alive hn) hs he ho hm
      (hf.trans (hres.trans hr).symm) hl hg.started hseq
    obtain ⟨hidle, hb⟩ := terminateRunning_idle ht (ha.alive hn) hs ho
    exact .ended h.lawful hi hx hm' hidle (hb.flags ho)
  case running hr hc =>
    have hg' : (life.turn k r).Goes s'.left.runtime :=
      ⟨hl, hg.started, hres.trans hr, hseq, ha.alive hn, hs, he, hf, hc⟩
    have ht : Told past (some (life.turn k r)) s'.left w' :=
      ⟨h.lawful, by simpa using hg', nofun, ho, by simp [hm]⟩
    exact ht.tells

theorem Told.dispatchEvent {kind timestampUs data} (h : Told past live s w)
    (hk : kind ≠ Event.runtimeClose)
    (hd : Does (dispatchEvent (runCallback fuel depth) kind timestampUs data) s w x s' w') :
    Tells past x s' w' := by
  simp [App.dispatchEvent] at hd
  obtain ⟨s₁, w₁, he, u, hs⟩ := hd
  obtain ⟨hr, hb, rfl⟩ := does_sync hs
  refine Tells.of_runtime ?_ hr hb
  cases live with
  | none =>
    have hi := h.idle rfl
    have hn : Told past none { s with runtime := s.runtime.nextSequence } w :=
      ⟨h.lawful, by simp, fun _ => ⟨hi.1, hi.2, hi.3, hi.4, hi.5, hi.6, hi.7, hi.8, hi.9⟩, h.flags,
        h.trace⟩
    obtain ⟨-, -, rfl, rfl⟩ := does_runtimeEvent_idle he (by
      obtain hs | hs := hi.state <;> simp [Runtime.nextSequence, hs])
    exact hn.tells
  | some life =>
    have hg := h.goes life rfl
    have hr := hg.running
    have hn : Told past (some life) { s with runtime := s.runtime.nextSequence } w := by
      refine ⟨h.lawful, ?_, (by intros; contradiction), h.flags, h.trace⟩
      simp only [Option.mem_some_iff, forall_eq']
      exact ⟨hg.lawful, hg.started, hg.results, fun e he => Nat.le_succ_of_le (hg.sequence e he),
        ⟨⟨hr.1.1, hr.1.2, hr.1.3, hr.1.4, hr.1.5, hr.1.6, hr.1.7, hr.1.8, hr.1.9, hr.1.10⟩,
          hr.2, hr.3, hr.4, hr.5⟩⟩
    have hr' := (hn.goes life rfl).running
    obtain ⟨-, -, rfl, rfl⟩ | ⟨r, s₂, w₂, hc, hd⟩ := does_runtimeEvent he hr'.toAlive hr'.running
    · exact hn.tells
    · refine hn.dispatched ?_ ?_ hc hd
      · exact hk
      · rintro _ ⟨⟩
        exact ⟨Nat.le_refl _, fun e he => Nat.lt_succ_of_le (hg.sequence e he)⟩

theorem Told.runtimeRender (h : Told past live s w)
    (hd : Does (runtimeRender (runCallback fuel depth)) s w x s' w') : Tells past x s' w' := by
  cases live with
  | none =>
    obtain ⟨-, rfl, rfl⟩ := does_runtimeRender_idle hd (by
      obtain hs | hs := (h.idle rfl).state <;> simp [hs])
    exact h.tells
  | some life =>
    have hr := (h.goes life rfl).running
    obtain ⟨-, rfl, rfl⟩ | ⟨r, s₂, w₂, hc, hd⟩ := does_runtimeRender hd hr.toAlive hr.running
    · exact h.tells
    · have hk : Callback.render.Ordinary := trivial
      exact h.dispatched hk (by simp) hc hd

theorem Told.stop {reason : StopReason} (h : Told past live s w)
    (hd : Does (stop (runCallback fuel depth) reason) s w x s' w') : Tells past x s' w' := by
  cases live with
  | none =>
    obtain ⟨rfl, rfl, -⟩ := does_stop_idle hd (h.idle rfl)
    exact h.tells
  | some life =>
    have hg := h.goes life rfl
    have hr := hg.running
    have ht := does_stop hd hr.toAlive hr.running
    have hm : milestones w = past.flatMap Instance.trace ++ life.trace := by
      simpa using h.trace
    obtain ⟨i, hlife, hi, hm', hx⟩ := terminateRunning_ends ht hr.toAlive hr.running hr.startEntered
      h.flags hm (hr.firstError.trans hg.results.symm) hg.lawful hg.started hg.sequence
    obtain ⟨hidle, hb⟩ := terminateRunning_idle ht hr.toAlive hr.running h.flags
    exact .ended h.lawful hi hx hm' hidle (hb.flags h.flags)

-- An instance whose launch fails does not get the close event.
theorem teardown_unstarted (d : Descriptor) (prepare : Result) (start : Option Result)
    {reason : StopReason} (h : Does (teardown (runCallback fuel depth) reason) s w x s' w')
    (ha : s.runtime.Alive) (ho : s.opening → s.transitionActive) (hp : ∀ i ∈ past, i.Lawful)
    (hm : milestones w = past.flatMap Instance.trace ++ (⟨d, prepare, start, []⟩ : Life).trace)
    (hf : s.runtime.firstError = firstFailure (prepare :: start.toList))
    (hs : start.isSome ↔ s.runtime.startEntered) (hr : start.isSome ↔ callbackResult prepare = .ok)
    (hn : ∀ result ∈ start, callbackResult result ≠ .ok) : Tells past x s' w' := by
  have hl : (⟨d, prepare, start, []⟩ : Life).Lawful := ⟨hr, by simp, by simp, .nil⟩
  have hm₁ : milestones w = past.flatMap Instance.trace ++ (⟨d, prepare, start, []⟩ : Life).trace ++
      (none : Option (Event × Result)).toList.flatMap fun c => called (.event c.1) c.2 := by
    simpa using hm
  have hf₁ : s.runtime.firstError = firstFailure ((⟨d, prepare, start, []⟩ : Life).results ++
      (none : Option (Event × Result)).toList.map Prod.snd) := by
    simpa [Life.results] using hf
  obtain ⟨i, hlife, hclose, hm', hstop, hret, hx⟩ := teardown_ends h ha ho hm₁ hf₁ hs
  obtain ⟨hidle, hb⟩ := teardown_idle h ha ho
  have hi : i.Lawful := by
    refine ⟨hlife ▸ hl, ?_, by simp [hclose], ?_, hlife ▸ hstop, hret⟩
    · rw [hlife, hclose]
      refine iff_of_false (by simp) ?_
      rintro ⟨result, hr, ho⟩
      exact hn result hr ho
    · rw [hlife, hclose]
      exact .nil
  exact .ended hp hi hx hm' hidle (hb.flags ho)

theorem Told.launch {descriptor : Option Descriptor} (h : Told past live s w)
    (hd : Does (launch (runCallback fuel depth) descriptor) s w x s' w') : Tells past x s' w' := by
  cases live with
  | some life =>
    obtain ⟨-, rfl, rfl⟩ := launch_running hd (h.goes life rfl).running.running
    exact h.tells
  | none =>
    obtain ⟨-, -, rfl, rfl⟩ | ⟨d, answer, rfl, hl⟩ := does_launch hd (h.idle rfl)
    · exact h.tells
    obtain ⟨ha, hs, he, hf⟩ := adopted_alive d answer.2 (h.idle rfl)
    generalize ht : s.adopted d answer.2 = t at *
    have ho : t.opening → t.transitionActive := by
      rw [← ht]
      exact h.flags
    have hm : milestones (⟨.prepare d, answer⟩ :: w) =
        past.flatMap Instance.trace ++ [.prepared d answer.1] := by
      rw [milestones_cons, h.trace]
      simp [milestone]
    have hn : { t with runtime := { t.runtime with startEntered := true } }.runtime.Alive :=
      ⟨ha.1, ha.2, ha.3, ha.4, ha.5, ha.6, ha.7, ha.8, ha.9, ha.10⟩
    cases hl
    case unprepared hr ht =>
      refine teardown_unstarted d answer.1 none ht ha.retained ho h.lawful
        (by simpa [Life.trace] using hm) ?_ ?_ (by simp [hr]) (by simp)
      · rw [retained_eq, hf]
        exact orFailure_ok
      · rw [retained_eq]
        simp [he]
    case failed r s₁ w₁ hr hc hr' ht =>
      have h₁ := hn.aside ho hc
      refine teardown_unstarted d answer.1 (some r) ht (h₁.alive hn).retained
        (h₁.beside.flags ho) h.lawful ?_ ?_ ?_ (by simp [hr]) (by simpa using hr')
      · rw [hn.inside.called ho hc, hm]
        simp [Life.trace]
      · rw [retained_eq]
        show orFailure s₁.left.runtime.firstError [r] = _
        rw [h₁.runtime]
        show orFailure t.runtime.firstError [r] = _
        rw [hf, orFailure_ok]
        simp [firstFailure, hr]
      · rw [retained_eq]
        show _ ↔ s₁.left.runtime.startEntered = true
        rw [h₁.runtime]
        exact iff_of_true rfl rfl
    case started r s₁ hr hr' hc =>
      have h₁ := hn.aside ho hc
      have h₂ := h₁.alive hn
      have hl : (⟨d, answer.1, some r, []⟩ : Life).Goes s₁.left.runtime.started := by
        refine ⟨⟨by simp [hr], by simp, by simp, .nil⟩, ⟨r, rfl, hr'⟩, ?_, (by intros; contradiction), ⟨⟨.inr rfl, h₂.2,
          h₂.3, h₂.4, h₂.5, h₂.6, h₂.7, h₂.8, h₂.9, h₂.10⟩, rfl, ?_, ?_, rfl⟩⟩
        · simp [Life.results, firstFailure, hr, hr']
        · show s₁.left.runtime.startEntered = true
          rw [h₁.runtime]
        · show s₁.left.runtime.firstError = .ok
          rw [h₁.runtime]
          exact hf
      have ht : Told past (some ⟨d, answer.1, some r, []⟩)
          { s₁.left with runtime := s₁.left.runtime.started } w' := by
        refine ⟨h.lawful, by simpa using hl, (by intros; contradiction), h₁.beside.flags ho, ?_⟩
        rw [hn.inside.called ho hc, hm]
        simp [Life.trace]
      exact ht.tells

end Steps
section Runs

variable {ops : Ops} {teardownBudgetUs : UInt64} {es : List (RuntimeCall × Option Result)}
variable {ok : RuntimeCall → List ((c : Call) → c.Answer) → Switch → Log → Prop}

theorem Told.dispatch {past : List Instance} {live : Option Life} {posted : Posted}
    (h : Told past live s w) (hd : Does (dispatch (runCallback fuel depth) posted) s w x s' w') :
    Tells past x s' w' := by
  cases posted
  case input event                       => exact h.dispatchEvent (by decide) hd
  case media kind generation timestampUs => exact h.dispatchEvent (by decide) hd
  case timer scheduledUs nowUs           => exact h.dispatchEvent (by decide) hd
  case wakeup token timestampUs          => exact h.dispatchEvent (by decide) hd

theorem Told.call {past : List Instance} {live : Option Life} {call : RuntimeCall}
    (h : Told past live s w) (hd : Does (runtimeCalls fuel depth call) s w x s' w') :
    Tells past x s' w' := by
  cases call
  case launch descriptor => exact h.launch hd
  case event posted      => exact h.dispatch hd
  case render            => exact h.runtimeRender hd
  case stop reason       => exact h.stop hd
  case validate token    =>
    simp [runtimeCalls] at hd
    obtain ⟨-, rfl, rfl⟩ := hd
    exact h.tells

-- The story of the calls goes with the log: each instance's trace is there as a whole, one after the
-- other, and only the last one can be incomplete.
theorem lifecycle (run : Run world (runtimeCalls fuel depth) none ok
      (Switch.init ops teardownBudgetUs) [] es s w) :
    ∃ (story : List Chapter) (live : Option Life),
      story.map (fun c => (c.call, some c.result)) = es ∧
      (∀ c ∈ story, ∀ i ∈ c.ended, i.Lawful ∧ c.result = i.result) ∧
      (∀ life ∈ live, life.Lawful ∧ life.Started) ∧
      (live.isSome ↔ s.runtime.state = .running) ∧
      milestones w = (story.reverse.filterMap Chapter.ended).flatMap Instance.trace ++
        live.toList.flatMap Life.trace := by
  let Inv (es : List (RuntimeCall × Option Result)) (s : Switch) (w : Log) : Prop :=
    ∃ (story : List Chapter) (live : Option Life),
      story.map (fun c => (c.call, some c.result)) = es ∧
      (∀ c ∈ story, ∀ i ∈ c.ended, c.result = i.result) ∧
      Told (story.reverse.filterMap Chapter.ended) live s w
  obtain ⟨story, live, hes, hx, ht⟩ : Inv es s w := by
    refine Run.returns Inv ?start ?step run
    case start =>
      exact ⟨[], none, rfl, by simp, by simp, by simp, fun _ => init_idle, nofun, rfl⟩
    case step =>
      rintro es s w call x s' w' ⟨story, live, rfl, hx, ht⟩ hd
      obtain ⟨ended, live', hx', ht'⟩ := ht.call hd
      refine ⟨⟨call, x, ended⟩ :: story, live', rfl, ?_, ?_⟩
      · rintro c hc i hi
        obtain rfl | hc := List.mem_cons.mp hc
        · exact hx' i hi
        · exact hx c hc i hi
      · have he : [(⟨call, x, ended⟩ : Chapter)].filterMap Chapter.ended = ended.toList := by
          cases ended <;> rfl
        rw [List.reverse_cons, List.filterMap_append, he]
        exact ht'
  refine ⟨story, live, hes, ?_, ?_, ?_, ht.trace⟩
  · intro c hc i hi
    refine ⟨ht.lawful i (List.mem_filterMap.mpr ⟨c, ?_, hi⟩), hx c hc i hi⟩
    exact List.mem_reverse.mpr hc
  · exact fun life hl => ⟨(ht.goes life hl).lawful, (ht.goes life hl).started⟩
  · cases live with
    | none =>
      refine iff_of_false (by simp) ?_
      obtain hs | hs := (ht.idle rfl).state <;> simp [hs]
    | some life => exact iff_of_true rfl (ht.goes life rfl).running.running

theorem lifecycle_sample : ∃ es s w,
    Run world (runtimeCalls 2 1) none (fun _ _ _ _ => True)
      (Switch.init ⟨true, true, true, true, true⟩ 1000) [] es s w ∧
    es.map Prod.snd = [some .ok, some .ok] ∧ ∃ (story : List Chapter) (live : Option Life),
      story.map (fun c => (c.call, some c.result)) = es ∧
      (∀ c ∈ story, ∀ i ∈ c.ended, i.Lawful ∧ c.result = i.result) ∧
      (∀ life ∈ live, life.Lawful ∧ life.Started) ∧
      (live.isSome ↔ s.runtime.state = .running) ∧
      milestones w = (story.reverse.filterMap Chapter.ended).flatMap Instance.trace ++
        live.toList.flatMap Life.trace := by
  obtain ⟨es, s, w, r, hx⟩ : ∃ es s w, Run world (runtimeCalls 2 1) none (fun _ _ _ _ => True)
      (Switch.init ⟨true, true, true, true, true⟩ 1000) [] es s w ∧
      es.map Prod.snd = [some .ok, some .ok] := by
    exact exists_run
      (P := fun (es : List (RuntimeCall × Option Result)) _ _ =>
        es.map Prod.snd = [some .ok, some .ok])
      [(.launch (some .sample), .replicate 2 (obliging (.done .ok))),
        (.stop .completed, .replicate 10 (obliging (.done .ok)))] (by decide)
  exact ⟨es, s, w, r, hx, lifecycle r⟩

end Runs
end App
