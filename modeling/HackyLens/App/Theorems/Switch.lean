import HackyLens.App.Theorems.Drawing
import HackyLens.App.Lifecycle

-- The switch and the runtime between the calls from outside.

namespace App

open Prog

variable {fuel depth : Nat} {s s' : Switch} {w w' : Log} {x : Result}

-- The state of the runtime in a callback that does not belong to the end of an instance.
def Callback.state : Callback → Option State
  | .start   => some .starting
  | .render  => some .running
  | .event e => if e.kind = Event.runtimeClose then none else some .running
  | .stop    => none

-- In such a callback, an action made the switch forget the active app. The calls `new` are the ones
-- that the action made.
def Forgotten (w : Log) : Prop :=
  ∃ later new callback last action earlier,
    w = later ++ (new ++ ⟨.next callback last, .act action⟩ :: earlier) ∧
    (∀ e ∈ new, e.fst.Quiet) ∧ ∃ state ∈ callback.state, Forgets state action new

theorem Forgotten.mono (h : Forgotten w) (hw : w <:+ w') : Forgotten w' := by
  obtain ⟨later, new', callback, last, action, earlier, rfl, hn, hf⟩ := h
  obtain ⟨new, rfl⟩ := hw
  exact ⟨new ++ later, new', callback, last, action, earlier, by simp, hn, hf⟩

theorem Forgotten.append {new : Log} (h : Forgotten w) : Forgotten (new ++ w) :=
  h.mono (List.suffix_append ..)

theorem Forgotten.cons {e : Sigma Call.Answer} (h : Forgotten w) : Forgotten (e :: w) :=
  h.mono (List.suffix_cons ..)

theorem true_law : Law fuel depth fun _ _ => True :=
  ⟨fun _ _ _ => trivial, fun _ _ _ _ _ => trivial, fun _ _ _ _ => trivial, fun _ _ => trivial,
    fun _ _ _ => trivial, fun _ _ _ _ _ _ _ _ _ _ => trivial⟩

-- The active app stays the same in a callback, unless it is forgotten.
theorem Inside.active {k : Callback} (hi : Inside s.runtime)
    (ho : s.opening → s.transitionActive) (hk : k.state = some s.runtime.state)
    (hs : s.runtime.state = .starting → s.opening ∧ s.transitionActive)
    (h : Does (runCallback fuel depth k) s w x s' w') : s'.active = s.active ∨ Forgotten w' := by
  have hc := hi.callback ho (fun _ s₁ w₁ => s₁.active = s.active ∨ Forgotten w₁) (.inl rfl) ?_ h
  · obtain ⟨last, w₁, -, ha, rfl⟩ := hc
    exact ha.imp_right Forgotten.cons
  · intro last s₁ w₁ action new reply s₂ haside ha hd
    obtain ha | hf := ha
    · have hs₁ : s₁.runtime.state = .starting → s₁.opening ∧ s₁.transitionActive := by
        rw [haside.state, haside.opening, haside.transitionActive]
        exact hs
      refine (hd.active hs₁).imp (·.trans ha) fun hf => ?_
      rw [haside.state] at hf
      exact ⟨[], new, k, last, action, w₁, rfl, hd.quiet, _, hk, hf⟩
    · exact .inr hf.cons.append

-- An instance that still runs after a callback is still the active app, unless it is forgotten.
theorem Runtime.Running.active {k : Callback} {r : Result} {t : Switch} {v : Log}
    (hg : s.runtime.Running) (ho : s.opening → s.transitionActive) (hk : k.state = some .running)
    (hc : Does (runCallback fuel depth k) (s.onStage .running).entered w r s' w')
    (hd : Dispatched (runCallback fuel depth) r s' w' x t v) (ht : t.runtime.state = .running) :
    t.active = s.active ∧ t.runtime.descriptor = s.runtime.descriptor ∨ Forgotten v := by
  have hr : (s.onStage .running).entered.runtime.state = .running := hg.running
  have ha := hg.staged.inside.active ho (hk.trans (congrArg some hr.symm))
    (fun hs => absurd (hr.symm.trans hs) nofun) hc
  obtain ⟨-, -, -, rfl, rfl⟩ | ⟨-, hi, -⟩ := true_law.dispatched hg ho hc hd fun _ => trivial
  · exact ha.imp_left fun ha => ⟨ha, (hg.staged.inside.aside ho hc).descriptor⟩
  · obtain hs | hs := hi.state
    · exact absurd (ht.symm.trans hs) nofun
    · exact absurd (ht.symm.trans hs) nofun

theorem Runtime.Idle.not_running {runtime : Runtime} (h : runtime.Idle) : runtime.state ≠ .running := by
  obtain hs | hs := h.state <;> simp [hs]

-- A launch within `hk_app_switch_open` does not change the active app, unless it is forgotten.
theorem launch_active {descriptor : Option Descriptor} (hi : s.runtime.Idle)
    (ho : s.opening ∧ s.transitionActive)
    (h : Does (launch (runCallback fuel depth) descriptor) s w x s' w')
    (hr : s'.runtime.state = .running) : s'.active = s.active ∨ Forgotten w' := by
  obtain ⟨-, -, rfl, rfl⟩ | ⟨d, answer, rfl, hl⟩ := does_launch h hi
  · exact absurd hr hi.not_running
  obtain ⟨ha, hs, _, hf⟩ := @adopted_alive s d answer.2 hi
  have hn : { s.adopted d answer.2 with
      runtime := { (s.adopted d answer.2).runtime with startEntered := true } }.runtime.Alive :=
    ⟨ha.1, ha.2, ha.3, ha.4, ha.5, ha.6, ha.7, ha.8, ha.9, ha.10⟩
  cases hl
  case unprepared ht =>
    exact absurd hr (teardown_idle ht ha.retained fun _ => ho.right).left.not_running
  case failed r s₁ w₁ hp hc hr' ht =>
    have h₁ := hn.aside (fun _ => ho.right) hc
    exact absurd hr (teardown_idle ht (h₁.alive hn).retained
      (h₁.beside.flags fun _ => ho.right)).left.not_running
  case started r s₁ hp hr' hc =>
    have h' := hn.inside.active (k := .start) (fun _ => ho.right) (congrArg some hs.symm)
      (fun _ => ho) hc
    exact h'

-- The descriptor of the instance that runs.
def Runtime.app (runtime : Runtime) : Option Descriptor :=
  if runtime.state = .running then runtime.descriptor else none

-- What holds between the calls of the switch's functions.
structure Settled (s : Switch) (w : Log) : Prop where
  atRest : s.runtime.AtRest
  flags : s.opening → s.transitionActive
  invalid : s.surface.valid = false
  clean : Clean s w
  active : Forgotten w ∨ s.active = s.runtime.app

namespace Settled

theorem app_idle {runtime : Runtime} (h : runtime.Idle) : runtime.app = none := by
  rw [Runtime.app, if_neg]
  obtain hs | hs := h.state <;> simp [hs]

theorem app_running {runtime : Runtime} (h : runtime.Running) : runtime.app = runtime.descriptor :=
  if_pos h.running

-- The switch's other fields can be changed freely.
theorem of_flags (h : Settled s w) (hr : s'.runtime = s.runtime) (ha : s'.active = s.active)
    (hv : s'.surface = s.surface) (hf : s'.opening → s'.transitionActive) : Settled s' w where
  atRest := by rw [hr]; exact h.atRest
  flags := hf
  invalid := by rw [hv]; exact h.invalid
  clean := ⟨by rw [hv]; exact h.clean.surface, h.clean.drawn, h.clean.quieted⟩
  active := by rw [hr, ha]; exact h.active

theorem closeActive {reason : StopReason} (h : Settled s w)
    (hd : Does (closeActive (runCallback fuel depth) reason) s w x s' w') :
    Settled s' w' ∧ Beside s s' ∧ s'.active = none := by
  simp [App.closeActive, returns_ite] at hd
  split at hd
  case isTrue ha =>
    obtain ⟨rfl, rfl, rfl⟩ := hd
    exact ⟨h, .refl, ha⟩
  case isFalse =>
    obtain ⟨s₁, hs, rfl⟩ := hd
    obtain ⟨hc, hb, hi⟩ := clean_law.stop h.atRest h.flags h.clean hs
    have hb' : Beside s₁ { s₁ with
        active := none, nextTickUs := 0, pendingInput := none
        surface := s₁.surface.privateInvalidate } := ⟨rfl, rfl, (by rintro ⟨⟩)⟩
    exact ⟨⟨.inl hi, hb.flags h.flags, rfl, ⟨(by rintro ⟨⟩), hc.drawn, hc.quieted⟩,
      .inr (app_idle hi).symm⟩, hb.trans hb', rfl⟩

theorem sync_active {u : Unit} (h : Does syncRuntimeState s w u s' w') :
    s'.active = if s.runtime.state = .running then s.active else none := by
  simp [syncRuntimeState] at h
  obtain ⟨rfl, -⟩ := h
  split
  case isTrue hs  => rw [if_neg hs.right]
  case isFalse hs =>
    split
    case isTrue     => rfl
    case isFalse hr => simpa [hr] using hs

-- After an event, the switch knows whether the app still runs.
theorem dispatchEvent {kind timestampUs data} (h : Settled s w) (hk : kind ≠ Event.runtimeClose)
    (hd : Does (dispatchEvent (runCallback fuel depth) kind timestampUs data) s w x s' w') :
    Settled s' w' ∧ Beside s s' := by
  obtain ⟨hc, hb, hr⟩ := clean_law.dispatchEvent h.atRest h.flags h.clean hd
  have hv : s'.surface.valid = false := by
    rw [← Bool.not_eq_true]
    exact fun hv => by simpa [h.invalid] using hb.surface hv
  refine ⟨⟨hr, hb.flags h.flags, hv, hc, ?_⟩, hb⟩
  obtain hf | ha := h.active
  · exact .inl (hf.mono (does_suffix hd))
  simp [App.dispatchEvent] at hd
  obtain ⟨s₁, w₁, he, u, hs⟩ := hd
  obtain ⟨hs₁, _, hw⟩ := does_sync hs
  obtain rfl : w' = w₁ := hw
  rw [sync_active hs, Runtime.app, hs₁]
  split
  case isFalse => exact .inr rfl
  case isTrue hr₁ =>
    obtain hi | hg := h.atRest.nextSequence
    · have hn : s.runtime.nextSequence.state ≠ .running := by
        obtain hs | hs := hi.state <;> simp [hs]
      obtain ⟨-, -, rfl, -⟩ := does_runtimeEvent_idle he hn
      exact absurd hr₁ hn
    · rw [app_running (h.atRest.resolve_left fun hi => by
        obtain hs | hs := hi.state <;> simpa [Runtime.nextSequence, hs] using hg.running)] at ha
      obtain ⟨-, -, rfl, rfl⟩ | ⟨r, s₂, w₂, hc, hd⟩ := does_runtimeEvent he hg.toAlive hg.running
      · exact .inr ha
      · have hk' : (Callback.event ⟨Event.size, Event.version, kind, 0,
            s.runtime.nextSequence.eventSequence, timestampUs, data⟩).state = some .running :=
          if_neg hk
        refine (Runtime.Running.active (s := { s with runtime := s.runtime.nextSequence }) hg
          h.flags hk' hc hd hr₁).symm.imp_right fun hs => ?_
        exact hs.left.trans (ha.trans hs.right.symm)

theorem switchInput {input consumed} {x : Result × Bool} (h : Settled s w)
    (hd : Does (switchInput (runCallback fuel depth) input consumed) s w x s' w') :
    Settled s' w' ∧ Beside s s' := by
  unfold App.switchInput at hd
  split at hd
  case h_2 =>
    obtain ⟨rfl, rfl, rfl⟩ := returns_pure.mp hd
    exact ⟨h, .refl⟩
  case h_1 event =>
    simp [returns_ite] at hd
    split at hd
    case isTrue =>
      obtain ⟨rfl, rfl, rfl⟩ := hd
      exact ⟨h, .refl⟩
    case isFalse =>
      split at hd
      case isTrue =>
        obtain ⟨rfl, rfl, rfl⟩ := hd
        exact ⟨h.of_flags rfl rfl rfl h.flags, ⟨rfl, rfl, id⟩⟩
      case isFalse =>
        obtain ⟨_, -, he⟩ := hd
        exact h.dispatchEvent (by decide) he

theorem switchMedia {kind generation timestampUs} (h : Settled s w)
    (hd : Does (switchMedia (runCallback fuel depth) kind generation timestampUs) s w x s' w') :
    Settled s' w' ∧ Beside s s' := by
  simp [App.switchMedia, returns_ite] at hd
  split at hd
  case isTrue =>
    obtain ⟨rfl, rfl, rfl⟩ := hd
    exact ⟨h, .refl⟩
  case isFalse =>
    split at hd
    case isTrue =>
      obtain ⟨rfl, rfl, rfl⟩ := hd
      exact ⟨h, .refl⟩
    case isFalse => exact h.dispatchEvent (by decide) hd

theorem switchWakeup {token timestampUs} (h : Settled s w)
    (hd : Does (switchWakeup (runCallback fuel depth) token timestampUs) s w x s' w') :
    Settled s' w' ∧ Beside s s' := by
  simp [App.switchWakeup, returns_ite] at hd
  split at hd
  case isFalse =>
    obtain ⟨rfl, rfl, rfl⟩ := hd
    exact ⟨h, .refl⟩
  case isTrue => exact h.dispatchEvent (by decide) hd

theorem switchClose {reason} (h : Settled s w)
    (hd : Does (switchClose (runCallback fuel depth) reason) s w x s' w') :
    Settled s' w' ∧ Beside s s' := by
  simp [App.switchClose, returns_ite] at hd
  split at hd
  case isTrue =>
    split at hd <;> obtain ⟨rfl, rfl, rfl⟩ := hd
    · exact ⟨h.of_flags rfl rfl rfl h.flags, ⟨rfl, rfl, id⟩⟩
    · exact ⟨h, .refl⟩
  case isFalse ht =>
    obtain ⟨s₁, hc, rfl⟩ := hd
    have hs : Settled { s with transitionActive := true } w :=
      h.of_flags rfl rfl rfl fun _ => rfl
    obtain ⟨h₁, hb, _⟩ := hs.closeActive hc
    have ho : s₁.opening = s.opening := hb.opening
    refine ⟨h₁.of_flags rfl rfl rfl fun hs => absurd (h.flags (ho ▸ hs)) ht, ⟨?_, ho, hb.surface⟩⟩
    exact (Bool.not_eq_true _ ▸ ht).symm

theorem failure {reason result} (h : Settled s w)
    (hd : Does (failure (runCallback fuel depth) reason result) s w x s' w') :
    Settled s' w' ∧ Beside s s' := by
  simp only [App.failure, returns_bind] at hd
  obtain ⟨r, s₁, w₁, hc, hd⟩ := hd
  obtain ⟨rfl, rfl, rfl⟩ := returns_pure.mp hd
  exact h.switchClose hc

-- Launching the app that is already the active one. If none was running, it is the one that runs.
theorem launchActive {d : Descriptor} (hp : s.runtime.AtRest) (ho : s.opening ∧ s.transitionActive)
    (hc : Clean s w) (hv : s.surface.valid = false) (hi : Forgotten w ∨ s.runtime.Idle)
    (h : Does (launchActive (runCallback fuel depth) d) s w x s' w') :
    Clean s' w' ∧ Beside s s' ∧ s'.runtime.AtRest ∧
      (Forgotten w' ∨ x ≠ .ok ∧ s'.runtime.Idle ∨
        x = .ok ∧ s'.active = s.active ∧ s'.runtime.Running ∧ s'.runtime.descriptor = some d) := by
  have hoT : s.opening → s.transitionActive := fun _ => ho.right
  have adopted (d : Descriptor) (answer : Result × Bool) (_ : s.runtime.state = .inactive) :
      Clean (s.adopted d answer.2) (⟨.prepare d, answer⟩ :: w) := by
    refine ⟨fun hv' => absurd (hv.symm.trans hv') nofun, ?_, ?_⟩
    · exact hc.drawn.cons fun _ _ _ _ hw => absurd hw (hc.quieted _ _ _ _)
    · rintro _ _ _ _ ⟨⟩
  simp only [App.launchActive, returns_bind, returns_ite] at h
  obtain ⟨r, s₁, w₁, hl, h⟩ := h
  have h₁ := clean_law.launch hp hoT adopted hl
  have hf₁ (hf : Forgotten w) : Forgotten w₁ := hf.mono (does_suffix hl)
  split at h
  case isTrue hr =>
    obtain ⟨rfl, rfl, rfl⟩ := returns_pure.mp h
    obtain ⟨-, rfl, rfl⟩ | ⟨hc, hb, ⟨-, hi'⟩ | ⟨hr', -⟩⟩ := h₁
    · exact ⟨hc, .refl, hp, hi.imp_right fun hi => .inl ⟨hr, hi⟩⟩
    · exact ⟨hc, hb, .inl hi', .inr (.inl ⟨hr, hi'⟩)⟩
    · exact absurd hr' hr
  case isFalse hr =>
    obtain ⟨hx, -⟩ | ⟨hc₁, hb, ⟨hx, -⟩ | ⟨-, hg, hd⟩⟩ := h₁
    · exact absurd hx hr
    · exact absurd hx hr
    obtain ⟨a, s₂, w₂, ha, h⟩ := h
    obtain ⟨rfl, rfl⟩ := does_ask.mp ha
    have hq : ∀ e ∈ [(⟨.nowUs, a⟩ : Sigma Call.Answer)], e.fst.Quiet := Call.Quiet.alone trivial
    have hc₂ : Clean s₂ (⟨.nowUs, a⟩ :: w₁) := hc₁.quiet hq
    have hoT₂ := hb.flags hoT
    split at h
    case isTrue hx =>
      obtain ⟨_, s₃, w₃, hm, h⟩ := h
      obtain ⟨rfl, rfl⟩ := returns_modify.mp hm
      obtain ⟨rfl, rfl, rfl⟩ := returns_pure.mp h
      refine ⟨⟨hc₂.surface, hc₂.drawn, hc₂.quieted⟩, ⟨hb.1, hb.2, hb.3⟩, .inr hg, ?_⟩
      obtain hf | hi := hi
      · exact .inl (hf₁ hf).cons
      · obtain ha | hf := launch_active hi ho hl hg.running
        · exact .inr (.inr ⟨hx, ha, hg, hd⟩)
        · exact .inl hf.cons
    case isFalse hx =>
      obtain ⟨_, s₃, w₃, hs, h⟩ := h
      obtain ⟨rfl, rfl, rfl⟩ := returns_pure.mp h
      obtain ⟨hc₃, hb₃, hi₃⟩ := clean_law.stop (.inr hg) hoT₂ hc₂ hs
      exact ⟨hc₃, hb.trans hb₃, .inl hi₃, .inr (.inl ⟨hx, hi₃⟩)⟩

theorem idle (h : Settled s w) (ha : s.active = s.runtime.app) (hn : s.active = none) :
    s.runtime.Idle := by
  refine h.atRest.resolve_right fun hr => hr.descriptor ?_
  rw [← app_running hr, ← ha, hn]

theorem openPending (h : Settled s w)
    (hd : Does (openPending (runCallback fuel depth)) s w x s' w') :
    Settled s' w' ∧ Beside s s' := by
  simp only [App.openPending, returns_bind, returns_get] at hd
  obtain ⟨t, _, _, ⟨ht, rfl, rfl⟩, hd⟩ := hd
  subst ht
  split at hd
  case h_1 reason _ =>
    simp only [returns_bind] at hd
    obtain ⟨_, s₁, w₁, hm, r, s₂, w₂, hc, hd⟩ := hd
    obtain ⟨rfl, rfl⟩ := returns_modify.mp hm
    have h₁ : Settled { t with pendingClose := none } w₁ := h.of_flags rfl rfl rfl h.flags
    obtain ⟨h₂, hb, _⟩ := h₁.closeActive hc
    obtain ⟨rfl, rfl, rfl⟩ := returns_pure.mp hd
    exact ⟨h₂, ⟨hb.1, hb.2, hb.3⟩⟩
  case h_2 =>
    split at hd
    case h_1 =>
      simp only [returns_bind] at hd
      obtain ⟨_, s₁, w₁, hm, r, s₂, w₂, hc, hd⟩ := hd
      obtain ⟨rfl, rfl⟩ := returns_modify.mp hm
      have h₁ : Settled { t with pendingInput := none } w₁ := h.of_flags rfl rfl rfl h.flags
      obtain ⟨h₂, hb⟩ := h₁.switchInput hc
      obtain ⟨rfl, rfl, rfl⟩ := returns_pure.mp hd
      exact ⟨h₂, ⟨hb.1, hb.2, hb.3⟩⟩
    case h_2 =>
      obtain ⟨rfl, rfl, rfl⟩ := returns_pure.mp hd
      exact ⟨h, .refl⟩

-- The end of a launch within `hk_app_switch_open`, when the active app was closed before.
theorem opened {d : Descriptor} {r : Result} {s₂ : Switch} {w₂ : Log} {u : Unit} (h : Settled s w)
    (ht : s.transitionActive = true) (ha : s.active = none)
    (hl : Does (App.launchActive (runCallback fuel depth) d)
      { s with opening := true, pendingClose := none, pendingInput := none, active := some d } w
      r s₂ w₂)
    (hy : Does syncRuntimeState { s₂ with opening := false, transitionActive := false } w₂ u s' w') :
    (if r = .ok then Settled s' w' else Settled { s' with active := none } w') ∧
      s'.transitionActive = false ∧ s'.opening = false ∧ s'.surface.valid = false := by
  have hi : Forgotten w ∨ s.runtime.Idle := h.active.imp_right fun hac => h.idle hac ha
  obtain ⟨hc₂, hb₂, hp₂, hx⟩ := launchActive (s := { s with
    opening := true, pendingClose := none, pendingInput := none, active := some d })
    h.atRest ⟨rfl, ht⟩ ⟨h.clean.1, h.clean.2, h.clean.3⟩ h.invalid hi hl
  obtain ⟨hr₃, hb₃, rfl⟩ := does_sync hy
  have ha₃ := sync_active hy
  have hv₃ : s'.surface.valid = false := by
    rw [← Bool.not_eq_true]
    exact fun hv => by simpa [h.invalid] using hb₂.surface (hb₃.surface hv)
  have hp₃ : s'.runtime.AtRest := by
    rw [hr₃]
    exact hp₂
  have hc₃ : Clean s' w' := ⟨fun hv => absurd (hv₃.symm.trans hv) nofun, hc₂.2, hc₂.3⟩
  have ho₃ : s'.opening = false := hb₃.opening
  refine ⟨?_, hb₃.transitionActive, ho₃, hv₃⟩
  split
  case isTrue hr =>
    refine ⟨hp₃, by simp [ho₃], hv₃, hc₃, hx.imp_right fun hx => ?_⟩
    obtain ⟨hx, -⟩ | ⟨-, ha, hg, hd⟩ := hx
    · exact absurd hr hx
    · rw [ha₃, hr₃]
      show (if s₂.runtime.state = .running then s₂.active else none) = s₂.runtime.app
      rw [if_pos hg.running, app_running hg, ha, hd]
  case isFalse hr =>
    refine ⟨hp₃, by simp [ho₃], hv₃, ⟨hc₃.1, hc₃.2, hc₃.3⟩, hx.imp_right fun hx => ?_⟩
    obtain ⟨-, hi⟩ | ⟨hx, -⟩ := hx
    · exact (hr₃ ▸ app_idle hi).symm
    · exact absurd hx hr

theorem switchOpen {descriptor} (h : Settled s w)
    (hd : Does (switchOpen (runCallback fuel depth) descriptor) s w x s' w') :
    Settled s' w' ∧ Beside s s' := by
  cases descriptor with
  | none =>
    obtain ⟨rfl, rfl, rfl⟩ := returns_pure.mp hd
    exact ⟨h, .refl⟩
  | some d =>
    simp [App.switchOpen, returns_ite] at hd
    split at hd
    case isTrue =>
      obtain ⟨rfl, rfl, rfl⟩ := hd
      exact ⟨h, .refl⟩
    case isFalse ht =>
      have hf : s.transitionActive = false := Bool.not_eq_true _ ▸ ht
      have ho : s.opening = false := by
        simpa [hf] using h.flags
      obtain ⟨r, s₁, w₁, hc, hd⟩ := hd
      have hs : Settled { s with transitionActive := true } w :=
        h.of_flags rfl rfl rfl fun _ => rfl
      obtain ⟨h₁, hb₁, ha₁⟩ := hs.closeActive hc
      have ho₁ : s₁.opening = false := hb₁.opening.trans ho
      split at hd
      case isFalse =>
        obtain ⟨rfl, rfl, rfl⟩ := hd
        refine ⟨h₁.of_flags rfl rfl rfl (by simp [ho₁]), ⟨hf.symm, hb₁.opening, hb₁.surface⟩⟩
      case isTrue =>
        obtain ⟨r', s₂, w₂, hl, u, s₃, w₃, hy, hd⟩ := hd
        obtain ⟨h₃, ht₃, ho₃, hv₃⟩ := h₁.opened hb₁.transitionActive ha₁ hl hy
        have hb : Beside s s₃ :=
          ⟨ht₃.trans hf.symm, ho₃.trans ho.symm, fun hv => absurd (hv₃.symm.trans hv) (by rintro ⟨⟩)⟩
        split at hd
        case isFalse hr =>
          obtain ⟨rfl, rfl, rfl⟩ := hd
          rw [if_neg hr] at h₃
          exact ⟨h₃, ⟨hb.1, hb.2, hb.3⟩⟩
        case isTrue hr =>
          rw [if_pos hr] at h₃
          obtain ⟨h', hb'⟩ := h₃.openPending hd
          exact ⟨h', hb.trans hb'⟩

theorem quiet {new : Log} (h : Settled s w) (hn : ∀ e ∈ new, e.fst.Quiet) :
    Settled s (new ++ w) :=
  ⟨h.atRest, h.flags, h.invalid, h.clean.quiet hn, h.active.imp_left Forgotten.append⟩

theorem nowUs {answer : Result × UInt64} (h : Settled s w) : Settled s (⟨.nowUs, answer⟩ :: w) :=
  h.quiet (@Call.Quiet.alone .nowUs _ trivial)

theorem finishTick {startedUs} (h : Settled s w)
    (hd : Does (finishTick (runCallback fuel depth) startedUs) s w x s' w') :
    Settled s' w' ∧ Beside s s' := by
  simp only [App.finishTick, returns_bind, returns_ite] at hd
  obtain ⟨a, s₁, w₁, ha, hd⟩ := hd
  obtain ⟨rfl, rfl⟩ := does_ask.mp ha
  split at hd
  case isTrue => exact h.nowUs.failure hd
  case isFalse =>
    obtain ⟨_, s₂, w₂, ha, hd⟩ := hd
    obtain ⟨-, rfl, rfl⟩ := does_activeApp ha
    split at hd
    case isTrue  => exact h.nowUs.failure hd
    case isFalse =>
      split at hd
      case isTrue  => exact h.nowUs.failure hd
      case isFalse =>
        obtain ⟨_, s₃, w₃, hm, hd⟩ := hd
        obtain ⟨rfl, rfl⟩ := returns_modify.mp hm
        obtain ⟨rfl, rfl, rfl⟩ := returns_pure.mp hd
        exact ⟨h.nowUs.of_flags rfl rfl rfl h.flags, ⟨rfl, rfl, id⟩⟩

theorem pollTick {nowUs} (h : Settled s w)
    (hd : Does (pollTick (runCallback fuel depth) nowUs) s w x s' w') :
    Settled s' w' ∧ Beside s s' := by
  simp only [App.pollTick, returns_bind, returns_get, returns_ite] at hd
  obtain ⟨t, _, _, ⟨ht, rfl, rfl⟩, hd⟩ := hd
  subst ht
  split at hd
  case isTrue =>
    obtain ⟨rfl, rfl, rfl⟩ := returns_pure.mp hd
    exact ⟨h, .refl⟩
  case isFalse =>
    obtain ⟨a, s₁, w₁, ha, hd⟩ := hd
    obtain ⟨rfl, rfl⟩ := does_ask.mp ha
    split at hd
    case isTrue => exact h.nowUs.failure hd
    case isFalse =>
      obtain ⟨_, s₂, w₂, ⟨rfl, rfl, rfl⟩, r, s₃, w₃, he, _, _, _, ⟨rfl, rfl, rfl⟩, hd⟩ := hd
      obtain ⟨h₃, hb⟩ := h.nowUs.dispatchEvent (by decide) he
      split at hd
      case isTrue =>
        obtain ⟨rfl, rfl, rfl⟩ := returns_pure.mp hd
        exact ⟨h₃, hb⟩
      case isFalse =>
        obtain ⟨h', hb'⟩ := h₃.finishTick hd
        exact ⟨h', hb.trans hb'⟩

end Settled

-- What holds within a render pass, when the surface may be valid.
structure Sound (s : Switch) (w : Log) : Prop where
  atRest : s.runtime.AtRest
  flags : s.opening → s.transitionActive
  drawn : Drawn w
  quieted : Quieted w
  active : Forgotten w ∨ s.active = s.runtime.app

theorem Settled.sound (h : Settled s w) : Sound s w :=
  ⟨h.atRest, h.flags, h.clean.drawn, h.clean.quieted, h.active⟩

namespace Sound

theorem settled (h : Sound s w) (hv : s.surface.valid = false) : Settled s w :=
  ⟨h.atRest, h.flags, hv, ⟨fun hv' => absurd (hv.symm.trans hv') nofun, h.drawn, h.quieted⟩,
    h.active⟩

theorem quiet {new : Log} (h : Sound s w) (hn : ∀ e ∈ new, e.fst.Quiet) : Sound s (new ++ w) := by
  obtain ⟨hd, hq⟩ := h.drawn.append h.quieted fun e he => (hn e he).quieted
  exact ⟨h.atRest, h.flags, hd, hq, h.active.imp_left Forgotten.append⟩

theorem of_surface (h : Sound s w) {surface : Surface} : Sound { s with surface := surface } w :=
  ⟨h.atRest, h.flags, h.drawn, h.quieted, h.active⟩

theorem abandon {u : Unit} (h : Sound s w) (hd : Does abandon s w u s' w') :
    Settled s' w' ∧ Beside s s' := by
  obtain ⟨r, rfl, rfl⟩ := does_abandon hd
  have hq : ∀ e ∈ [(⟨.renderAbort, r⟩ : Sigma Call.Answer)], e.fst.Quiet := Call.Quiet.alone trivial
  exact ⟨(h.quiet hq).of_surface.settled rfl, ⟨rfl, rfl, nofun⟩⟩

theorem giveUp {reason result} (h : Sound s w)
    (hd : Does (do App.abandon; failure (runCallback fuel depth) reason result) s w x s' w') :
    Settled s' w' ∧ Beside s s' := by
  rw [Does, returns_bind] at hd
  obtain ⟨u, s₁, w₁, ha, hd⟩ := hd
  obtain ⟨h₁, hb⟩ := h.abandon ha
  obtain ⟨h', hb'⟩ := h₁.failure hd
  exact ⟨h', hb.trans hb'⟩

-- What follows on the end of a transaction.
theorem ended {result : Result} (h : Sound s w)
    (hd : ∃ u s₁ w₁, Does (modifySurface .privateInvalidate) s w u s₁ w₁ ∧
      if result ≠ .ok then
        ∃ r s₂ w₂, Does (ask .renderAbort) s₁ w₁ r s₂ w₂ ∧
          Does (callbackFailure (runCallback fuel depth) result) s₂ w₂ x s' w'
      else
        Does (return .ok) s₁ w₁ x s' w') : Settled s' w' ∧ Beside s s' := by
  obtain ⟨_, s₁, w₁, hm, hd⟩ := hd
  obtain ⟨rfl, rfl⟩ := does_modifySurface.mp hm
  have h₁ : Settled { s with surface := s.surface.privateInvalidate } w₁ :=
    h.of_surface.settled rfl
  split at hd
  case isFalse =>
    obtain ⟨rfl, rfl, rfl⟩ := returns_pure.mp hd
    exact ⟨h₁, ⟨rfl, rfl, nofun⟩⟩
  case isTrue =>
    obtain ⟨r, s₂, w₂, ha, hd⟩ := hd
    obtain ⟨rfl, rfl⟩ := does_ask.mp ha
    have hq : ∀ e ∈ [(⟨.renderAbort, r⟩ : Sigma Call.Answer)], e.fst.Quiet := Call.Quiet.alone trivial
    obtain ⟨h', hb⟩ := (h₁.quiet hq).failure hd
    exact ⟨h', ⟨hb.1, hb.2, fun hv => absurd (hb.3 hv) nofun⟩⟩

theorem finishRender {deadline startedUs} (h : Sound s w)
    (hd : Does (finishRender (runCallback fuel depth) deadline startedUs) s w x s' w') :
    Settled s' w' ∧ Beside s s' := by
  simp only [App.finishRender, returns_bind, returns_ite] at hd
  obtain ⟨a, s₁, w₁, ha, _, s₂, w₂, hp, hd⟩ := hd
  obtain ⟨rfl, rfl⟩ := does_ask.mp ha
  obtain ⟨-, rfl, rfl⟩ := does_activeApp hp
  have hq : ∀ e ∈ [(⟨.nowUs, a⟩ : Sigma Call.Answer)], e.fst.Quiet := Call.Quiet.alone trivial
  have h₁ := h.quiet hq
  split at hd
  case isTrue  => exact h₁.giveUp (returns_bind.mpr hd)
  case isFalse =>
    simp only [returns_get] at hd
    obtain ⟨t, _, _, ⟨ht, rfl, rfl⟩, hd⟩ := hd
    subst ht
    -- The transaction is ended by one of two calls, which are both quiet.
    split at hd
    case isTrue =>
      obtain ⟨r, s₃, w₃, ha, hd⟩ := hd
      obtain ⟨rfl, rfl⟩ := does_ask.mp ha
      have hq : ∀ e ∈ [(⟨.renderPresent deadline, r⟩ : Sigma Call.Answer)], e.fst.Quiet :=
        Call.Quiet.alone trivial
      exact (h₁.quiet hq).ended hd
    case isFalse =>
      obtain ⟨r, s₃, w₃, ha, hd⟩ := hd
      obtain ⟨rfl, rfl⟩ := does_ask.mp ha
      have hq : ∀ e ∈ [(⟨.renderAbort, r⟩ : Sigma Call.Answer)], e.fst.Quiet :=
        Call.Quiet.alone trivial
      exact (h₁.quiet hq).ended hd

theorem of_runtime {runtime : Runtime} (h : Sound s w) (hp : runtime.AtRest)
    (ha : runtime.app = s.runtime.app) : Sound { s with runtime := runtime } w :=
  ⟨hp, h.flags, h.drawn, h.quieted, h.active.imp_right (·.trans ha.symm)⟩

theorem renderCommitted (h : Sound s w) :
    Sound { s with runtime := s.runtime.renderCommitted } w := by
  refine h.of_runtime (h.atRest.imp (fun h => ?_) fun h => ?_) rfl
  · exact ⟨h.1, h.2, h.3, h.4, h.5, h.6, h.7, h.8, h.9⟩
  · exact ⟨⟨h.1.1, h.1.2, h.1.3, h.1.4, h.1.5, h.1.6, h.1.7, h.1.8, h.1.9, h.1.10⟩, h.2, h.3, h.4,
      h.5⟩

-- The render callback, after which the switch looks whether the instance goes on.
theorem rendered {u : Unit} {s₁ : Switch} {w₁ : Log} (h : Sound s w)
    (hd : Does (runtimeRender (runCallback fuel depth)) s w x s₁ w₁)
    (hs : Does syncRuntimeState s₁ w₁ u s' w') : Sound s' w' ∧ Beside s s' := by
  obtain ⟨hr, hb, rfl⟩ := does_sync hs
  have ha := Settled.sync_active hs
  have painting (hg : s.runtime.Running) : Painting .render none (s.onStage .running).entered w :=
    ⟨fun hk => absurd rfl hk, h.drawn, h.quieted.awaits, fun _ hc =>
      absurd (hg.closeRequested.symm.trans hc) nofun⟩
  have hx := clean_law.runtimeRender h.atRest h.flags hd fun r s₂ w₂ hg hc hq => by
    obtain ⟨_, hd, hqu, _, hs⟩ := hg.staged.inside.painting h.flags (painting hg) hc
    exact ⟨fun _ => hs rfl hq, hd, hqu⟩
  obtain ⟨-, rfl, rfl⟩ | ⟨hc, hb₁, hi⟩ | ⟨hb₁, hg₁, hde, r, s₂, rfl, hg, hc⟩ := hx
  · refine ⟨⟨hr ▸ h.atRest, hb.flags h.flags, h.drawn, h.quieted, h.active.imp_right fun he => ?_⟩,
      hb⟩
    rw [ha, hr, he, Runtime.app]
    split <;> rfl
  · refine ⟨⟨.inl (hr ▸ hi), (hb₁.trans hb).flags h.flags, hc.drawn, hc.quieted, .inr ?_⟩,
      hb₁.trans hb⟩
    rw [ha, hr, Settled.app_idle hi, if_neg hi.not_running]
  · obtain ⟨_, hdr, hqu, _⟩ := hg.staged.inside.painting h.flags (painting hg) hc
    have hst : (s.onStage .running).entered.runtime.state = .running := hg.running
    have hac := hg.staged.inside.active (k := .render) h.flags (congrArg some hst.symm)
      (fun hs => absurd (hst.symm.trans hs) nofun) hc
    refine ⟨⟨.inr (hr ▸ hg₁), (hb₁.trans hb).flags h.flags, hdr, hqu, ?_⟩, hb₁.trans hb⟩
    obtain hf | he := h.active
    · exact .inl (hf.mono (does_suffix hc))
    · refine hac.symm.imp_right fun hac => ?_
      rw [ha, hr, if_pos hg₁.running, Settled.app_running hg₁, hde]
      rw [Settled.app_running hg] at he
      exact hac.trans he

theorem renderPass (h : Sound s w) (hv : s.surface.validate = .ok)
    (hd : Does (renderPass (runCallback fuel depth)) s w x s' w') :
    Settled s' w' ∧ Beside s s' := by
  simp [App.renderPass, returns_ite] at hd
  obtain ⟨r, s₁, w₁, hl, hd⟩ := hd
  obtain ⟨new₁, hw₁, ha₁, -, hr₁, -⟩ := invalidateAll_within hv hl
  have hb₁ : Beside s s₁ := hw₁.kept.beside
  have h₁ : Sound s₁ w₁ := by
    have hq := h.quiet hw₁.quiet
    rw [← hw₁.log] at hq
    refine ⟨hr₁ ▸ h.atRest, hb₁.flags h.flags, hq.drawn, hq.quieted, ?_⟩
    rw [ha₁, hr₁]
    exact hq.active
  split at hd
  case isFalse =>
    obtain ⟨h', hb⟩ := h₁.giveUp (returns_bind.mpr hd)
    exact ⟨h', hb₁.trans hb⟩
  case isTrue =>
    obtain ⟨r', deadline, startedUs, s₂, w₂, ht, hd⟩ := hd
    obtain ⟨new₂, hw₂, rfl, -⟩ := renderTimes_within ht
    have h₂ : Sound s₂ w₂ := by
      rw [hw₂.log]
      exact h₁.quiet hw₂.quiet
    split at hd
    case isFalse =>
      obtain ⟨h', hb⟩ := h₂.giveUp (returns_bind.mpr hd)
      exact ⟨h', hb₁.trans hb⟩
    case isTrue =>
      obtain ⟨r'', s₃, w₃, hp, u, s₄, w₄, hy, hd⟩ := hd
      obtain ⟨h₄, hb₄⟩ := h₂.renderCommitted.rendered hp hy
      have hb₂ : Beside s s₄ := hb₁.trans ⟨hb₄.1, hb₄.2, hb₄.3⟩
      split at hd
      case isTrue =>
        obtain ⟨-, u', hb⟩ := hd
        obtain ⟨h', hb'⟩ := h₄.abandon hb
        exact ⟨h', hb₂.trans hb'⟩
      case isFalse =>
        obtain ⟨h', hb'⟩ := h₄.finishRender hd
        exact ⟨h', hb₂.trans hb'⟩

end Sound

namespace Settled

theorem pollRender (h : Settled s w) (hd : Does (pollRender (runCallback fuel depth)) s w x s' w') :
    Settled s' w' ∧ Beside s s' := by
  have hg : s.runtime.contextGeneration ≠ 0 := h.atRest.elim (·.generation_ne) (·.generation_ne)
  simp [App.pollRender, returns_ite] at hd
  split at hd
  case isFalse =>
    obtain ⟨rfl, rfl, rfl⟩ := hd
    exact ⟨h, .refl⟩
  case isTrue =>
    obtain ⟨r, s₁, w₁, hb, hd⟩ := hd
    obtain ⟨new, rfl, hq, hs₁, hv, he, -⟩ := does_renderBegin hg hb
    have hk (hr : r ≠ .ok) : s₁ = s := by
      rw [hs₁, he hr]
    split at hd
    case isTrue hr =>
      obtain ⟨rfl, rfl, rfl⟩ := hd
      obtain rfl := hk (hr ▸ by decide)
      exact ⟨h.quiet hq, .refl⟩
    case isFalse =>
      split at hd
      case isTrue hr =>
        obtain ⟨rfl, rfl, rfl⟩ := hd
        obtain rfl := hk (hr ▸ by decide)
        exact ⟨(h.quiet hq).sound.renderCommitted.settled h.invalid, ⟨rfl, rfl, id⟩⟩
      case isFalse =>
        split at hd
        case isTrue hr =>
          have h₁ : Sound s₁ (new ++ w) := by
            rw [hs₁]
            exact (h.quiet hq).sound.of_surface
          obtain ⟨h', hb'⟩ := h₁.renderPass (hv hr) hd
          refine ⟨h', ⟨hb'.transitionActive.trans ?_, hb'.opening.trans ?_, fun hv => ?_⟩⟩
          · rw [hs₁]
          · rw [hs₁]
          · exact absurd (h'.invalid.symm.trans hv) (by rintro ⟨⟩)
        case isFalse hr =>
          obtain rfl := hk hr
          exact (h.quiet hq).failure hd

theorem switchPoll {nowUs} (h : Settled s w)
    (hd : Does (switchPoll (runCallback fuel depth) nowUs) s w x s' w') :
    Settled s' w' ∧ Beside s s' := by
  simp [App.switchPoll, returns_ite] at hd
  split at hd
  case isTrue =>
    obtain ⟨rfl, rfl, rfl⟩ := hd
    exact ⟨h, .refl⟩
  case isFalse =>
    obtain ⟨r, s₁, w₁, ht, hd⟩ := hd
    obtain ⟨h₁, hb⟩ := h.pollTick ht
    split at hd
    case isTrue =>
      obtain ⟨rfl, rfl, rfl⟩ := hd
      exact ⟨h₁, hb⟩
    case isFalse =>
      obtain ⟨h', hb'⟩ := h₁.pollRender hd
      exact ⟨h', hb.trans hb'⟩

theorem call {call : SwitchCall} (h : Settled s w)
    (hd : Does (switchCalls fuel depth call) s w x s' w') : Settled s' w' ∧ Beside s s' := by
  cases call
  case openApp descriptor                => exact h.switchOpen hd
  case close reason                      => exact h.switchClose hd
  case input event consumed              =>
    obtain ⟨_, -, hd⟩ := returns_map.mp hd
    exact h.switchInput hd
  case media kind generation timestampUs => exact h.switchMedia hd
  case wakeup token timestampUs          => exact h.switchWakeup hd
  case poll nowUs                        => exact h.switchPoll hd

end Settled
section Runs

variable {ops : Ops} {teardownBudgetUs : UInt64} {es : List (SwitchCall × Option Result)}
variable {ok : SwitchCall → List ((c : Call) → c.Answer) → Switch → Log → Prop}

theorem Settled.init : Settled (Switch.init ops teardownBudgetUs) [] := by
  refine ⟨.inl init_idle, nofun, rfl, ⟨nofun, ⟨by simp⟩, ?_⟩, .inr rfl⟩
  rintro _ _ _ _ ⟨⟩

theorem settled (run : Run world (switchCalls fuel depth) none ok
    (Switch.init ops teardownBudgetUs) [] es s w) :
    Settled s w ∧ s.transitionActive = false ∧ s.opening = false := by
  refine Run.returns (fun _ s w => Settled s w ∧ s.transitionActive = false ∧ s.opening = false)
    ?start ?step run
  case start => exact ⟨.init, rfl, rfl⟩
  case step  =>
    rintro es s w call x s' w' ⟨h, ht, ho⟩ hd
    obtain ⟨h', hb⟩ := h.call hd
    exact ⟨h', hb.transitionActive.trans ht, hb.opening.trans ho⟩

-- The surface can be drawn on in the render callback only, as long as no render callback of the
-- instance fails or requests to close.
theorem drawing_refused (run : Run world (switchCalls fuel depth) none ok
      (Switch.init ops teardownBudgetUs) [] es s w) :
    ∀ later e callback last drawing earlier,
      w = later ++ e :: ⟨.next callback last, .act (.draw drawing)⟩ :: earlier →
      callback ≠ .render → ¬Spoiled earlier →
      ∃ result next, result ≠ Result.ok ∧ e = ⟨.next callback (some (.result result)), next⟩ :=
  (settled run).left.clean.drawn.refused

theorem prepare_not_spoiled {d : Descriptor} {answer : Result × Bool} :
    ¬Spoiled [⟨.prepare d, answer⟩] := by
  rintro ⟨later, e, earlier, hw, hs, -⟩
  obtain ⟨rfl, hw⟩ | ⟨later, rfl, hw⟩ := List.cons_eq_append_iff.mp hw
  · obtain ⟨rfl, rfl⟩ := List.cons.inj hw
    exact hs
  · simp at hw

theorem drawing_refused_start : ∃ es s w,
    Run world (switchCalls 2 1) none (fun _ _ _ _ => True)
      (Switch.init ⟨true, true, true, true, true⟩ 1000) [] es s w ∧
    ∃ later e last drawing earlier,
      w = later ++ e :: ⟨.next .start last, .act (.draw drawing)⟩ :: earlier ∧
      ∃ result next, result ≠ Result.ok ∧ e = ⟨.next .start (some (.result result)), next⟩ :=
  have ⟨es, s, w, r, later, e, last, drawing, _, _, hw⟩ := exists_run
    (P := fun _ _ (w : Log) => ∃ (later : Log) (e : Sigma Call.Answer) (last : Option Reply)
      (drawing : Draw) (d : Descriptor) (answer : Result × Bool), w = later ++ e ::
        ⟨.next .start last, .act (.draw drawing)⟩ :: [⟨.prepare d, answer⟩])
    [(.openApp (some .sample), [obliging (.done .ok), obliging (.act (.draw (.clear 0)))] ++
      .replicate 2 (obliging (.done .ok)))]
    ⟨_, rfl, [_], _, _, _, _, _, rfl⟩
  ⟨es, s, w, r, later, e, last, drawing, _, hw,
    drawing_refused r later e .start last drawing _ hw nofun prepare_not_spoiled⟩

-- A render callback that fails, whose close event draws.
def spoiling : List (SwitchCall × List ((c : Call) → c.Answer)) := [
  (.openApp (some .sample), .replicate 3 (obliging (.done .ok))),
  (.poll 0, .replicate 4 (obliging (.done .ok)) ++
    [obliging (.done .internal), obliging (.act (.draw (.clear 0)))] ++
    .replicate 20 (obliging (.done .ok)))
]

-- The last call of a log is one to the display, which a drawing call in a close event made.
def passed : Log → Bool
  | ⟨.surface _, result⟩ :: ⟨.next (.event event) _, .act (.draw _)⟩ :: _ =>
    event.kind == Event.runtimeClose && result == Result.ok
  | _ => false

theorem passed_cons (h : passed w = true) : ∃ drawing event last drawing' earlier,
    event.kind = Event.runtimeClose ∧ w = ⟨.surface drawing, Result.ok⟩ ::
      ⟨.next (.event event) last, .act (.draw drawing')⟩ :: earlier := by
  unfold passed at h
  split at h
  case h_1 drawing result event last drawing' earlier =>
    simp only [Bool.and_eq_true, beq_iff_eq] at h
    obtain ⟨hk, rfl⟩ := h
    exact ⟨drawing, event, last, drawing', earlier, hk, rfl⟩
  case h_2 => cases h

theorem close_event_draws : ∃ es s w,
    Run world (switchCalls 2 1) none (fun _ _ _ _ => True)
      (Switch.init ⟨true, true, true, true, true⟩ 1000) [] es s w ∧
    ∃ later drawing event last drawing' earlier, event.kind = Event.runtimeClose ∧
      w = later ++ ⟨.surface drawing, Result.ok⟩ ::
        ⟨.next (.event event) last, .act (.draw drawing')⟩ :: earlier :=
  have ⟨es, s, w, r, hp⟩ := exists_run (P := fun _ _ (w : Log) => passed (w.drop 11) = true)
    spoiling (by decide +kernel)
  have ⟨drawing, event, last, drawing', earlier, hk, hw⟩ := passed_cons hp
  ⟨es, s, w, r, w.take 11, drawing, event, last, drawing', earlier, hk, by
    rw [← hw, List.take_append_drop]⟩

end Runs
end App
