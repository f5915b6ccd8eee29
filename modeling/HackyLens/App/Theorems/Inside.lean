import HackyLens.Lib.Returns
import HackyLens.App.Callback

-- What an app can do from within a callback. No other callback is entered there, so that the runtime
-- refuses whatever would, and the rest is bookkeeping.

namespace App

open Prog

variable {α : Type} {app : Callback → Task Result} {s s' : Switch} {w w' : Log}

abbrev Does (p : Task α) (s : Switch) (w : Log) (a : α) (s' : Switch) (w' : Log) : Prop :=
  Prog.Returns world p s w a s' w'

-- Calls are only added to the log.
theorem does_suffix {p : Task α} {a : α} (h : Does p s w a s' w') : w <:+ w' :=
  h.world_keeps (w <:+ ·) (fun _ _ _ hw => hw.trans (List.suffix_cons ..)) (List.suffix_refl _)

theorem does_ask {c : Call} {r : c.Answer} :
    Does (ask c) s w r s' w' ↔ s' = s ∧ w' = ⟨c, r⟩ :: w := by
  rw [Does, ask, Prog.returns_call]
  constructor
  · rintro ⟨d, rfl, rfl, rfl⟩
    exact ⟨rfl, rfl⟩
  · rintro ⟨rfl, rfl⟩
    obtain ⟨d, hd⟩ : ∃ d : (c : Call) → c.Answer, d c = r :=
      have default : (c : Call) → c.Answer := fun c => by
        cases c <;> first | exact (0 : Int) | exact ((0 : Int), false) | exact ((0 : Int), 0) |
          exact ((0 : Int), ⟨0, 0, 0, 0⟩) | exact .done 0
      ⟨Function.update default c r, Function.update_self ..⟩
    exact ⟨d, hd.symm, rfl, by rw [← hd]; rfl⟩

@[simp]
theorem does_modifyRuntime {f : Runtime → Runtime} {u : Unit} :
    Does (modifyRuntime f) s w u s' w' ↔ s' = { s with runtime := f s.runtime } ∧ w' = w :=
  Prog.returns_modify

@[simp]
theorem does_modifySurface {f : Surface → Surface} {u : Unit} :
    Does (modifySurface f) s w u s' w' ↔ s' = { s with surface := f s.surface } ∧ w' = w :=
  Prog.returns_modify

-- A callback has been entered, and it has not returned.
structure Inside (runtime : Runtime) : Prop where
  callbackActive : runtime.callbackActive = true
  callbackRuntime : runtime.callbackRuntime = true
  live : runtime.live = true
  contextValid : runtime.contextValid = true
  generation : runtime.context.generation = runtime.contextGeneration
  generation_ne : runtime.contextGeneration ≠ 0
  not_inactive : runtime.state ≠ .inactive
  not_faulted : runtime.state ≠ .faulted

-- What the actions of an app leave alone: all but some bookkeeping, and a request to close.
structure Aside (s s' : Switch) : Prop where
  runtime : s'.runtime =
    { s.runtime with
      lights := s'.runtime.lights
      display := s'.runtime.display
      externalLink := s'.runtime.externalLink
      invalidations := s'.runtime.invalidations
      eventSequence := s'.runtime.eventSequence
      closeRequested := s'.runtime.closeRequested
      fullInvalidation := s'.runtime.fullInvalidation }
  sequence : s.runtime.eventSequence ≤ s'.runtime.eventSequence
  transitionActive : s'.transitionActive = s.transitionActive
  opening : s'.opening = s.opening
  surface : s'.surface.valid → s.surface.valid

namespace Aside

theorem refl : Aside s s :=
  ⟨rfl, Nat.le_refl _, rfl, rfl, id⟩

theorem trans {s₁ : Switch} (h : Aside s s₁) (h' : Aside s₁ s') : Aside s s' where
  runtime := h'.runtime.trans (by rw [h.runtime])
  sequence := Nat.le_trans h.sequence h'.sequence
  transitionActive := h'.transitionActive.trans h.transitionActive
  opening := h'.opening.trans h.opening
  surface := h.surface ∘ h'.surface

theorem state (h : Aside s s') : s'.runtime.state = s.runtime.state := by
  rw [h.runtime]

theorem descriptor (h : Aside s s') : s'.runtime.descriptor = s.runtime.descriptor := by
  rw [h.runtime]

theorem contextGeneration (h : Aside s s') :
    s'.runtime.contextGeneration = s.runtime.contextGeneration := by
  rw [h.runtime]

theorem validateWakeupToken (h : Aside s s') (token : Token) :
    s'.runtime.validateWakeupToken token = s.runtime.validateWakeupToken token := by
  rw [h.runtime]
  rfl

theorem inside (h : Aside s s') (hi : Inside s.runtime) : Inside s'.runtime := by
  constructor <;> rw [h.runtime]
  · exact hi.callbackActive
  · exact hi.callbackRuntime
  · exact hi.live
  · exact hi.contextValid
  · exact hi.generation
  · exact hi.generation_ne
  · exact hi.not_inactive
  · exact hi.not_faulted

end Aside

-- Nothing but bookkeeping.
structure Kept (s s' : Switch) : Prop extends Aside s s' where
  closeRequested : s'.runtime.closeRequested = s.runtime.closeRequested

namespace Kept

theorem of_runtime (hr : s'.runtime = s.runtime) (ht : s'.transitionActive = s.transitionActive)
    (ho : s'.opening = s.opening) (hv : s'.surface.valid → s.surface.valid) : Kept s s' :=
  ⟨⟨by rw [hr], Nat.le_of_eq (by rw [hr]), ht, ho, hv⟩, by rw [hr]⟩

theorem refl : Kept s s :=
  ⟨.refl, rfl⟩

theorem trans {s₁ : Switch} (h : Kept s s₁) (h' : Kept s₁ s') : Kept s s' :=
  ⟨h.toAside.trans h'.toAside, h'.closeRequested.trans h.closeRequested⟩

-- What is left alone of the runtime does not depend on the switch's flags.
theorem transfer {t t' : Switch} (h : Kept s s') (hr : t.runtime = s.runtime)
    (hr' : t'.runtime = s'.runtime) (ht : t'.transitionActive = t.transitionActive)
    (ho : t'.opening = t.opening) (hv : t'.surface.valid → t.surface.valid) : Kept t t' := by
  refine ⟨⟨?_, ?_, ht, ho, hv⟩, ?_⟩ <;> rw [hr, hr']
  · exact h.runtime
  · exact h.sequence
  · exact h.closeRequested

end Kept

-- The calls that can be made within a callback, besides the ones of the callback itself.
def Call.Quiet : Call → Prop
  | nowUs | «open» _ _ | displayBegin | renderPresent _ | renderAbort | surface _ => True
  | deadlineAfter purpose _ => purpose = .render
  | _ => False

theorem Call.Quiet.alone {c : Call} {answer : c.Answer} (h : c.Quiet) :
    ∀ e ∈ [(⟨c, answer⟩ : Sigma Call.Answer)], e.fst.Quiet :=
  List.forall_mem_singleton.mpr h

-- The answers for which a poll closes the active app.
def Fails : Sigma Call.Answer → Prop
  | ⟨.nowUs, result, _⟩                    => result ≠ .ok
  | ⟨.displayBegin, result, info⟩          =>
    if result = .ok then
      info.structSize < DisplayInfo.size ∨ info.structVersion ≠ DisplayInfo.version
    else
      result ≠ .busy ∧ result ≠ .capabilityAbsent
  | ⟨.surface (.invalidate _), result⟩     => result ≠ Result.ok
  | ⟨.deadlineAfter .render _, result, deadline⟩ => result ≠ .ok ∨ deadline = timeMax
  | _                                      => False

variable {x : Result}

theorem Inside.runtimeEvent (hi : Inside s.runtime) {event : Event}
    (h : Does (runtimeEvent app event) s w x s' w') : x ≠ .ok ∧ s' = s ∧ w' = w := by
  simp [App.runtimeEvent, returns_ite, hi.callbackActive] at h
  split at h <;> obtain ⟨rfl, rfl, rfl⟩ := h
  · exact ⟨by decide, rfl, rfl⟩
  · exact ⟨by decide, rfl, rfl⟩
theorem Inside.launch (hi : Inside s.runtime) {descriptor : Option Descriptor}
    (h : Does (launch app descriptor) s w x s' w') : x ≠ .ok ∧ s' = s ∧ w' = w := by
  simp [App.launch, returns_ite, hi.callbackActive] at h
  split at h <;> obtain ⟨rfl, rfl, rfl⟩ := h
  · exact ⟨by decide, rfl, rfl⟩
  · exact ⟨by decide, rfl, rfl⟩

theorem Inside.runtimeRender (hi : Inside s.runtime)
    (h : Does (runtimeRender app) s w x s' w') : x ≠ .ok ∧ s' = s ∧ w' = w := by
  simp [App.runtimeRender, hi.callbackActive] at h
  obtain ⟨rfl, rfl, rfl⟩ := h
  exact ⟨by decide, rfl, rfl⟩

theorem Inside.stop (hi : Inside s.runtime) {reason : StopReason} (h : Does (stop app reason) s w x s' w') :
    x = .invalidState ∧ s' = s ∧ w' = w := by
  simpa [App.stop, hi.callbackActive] using h
-- Within a callback, closing forgets the active app without stopping it.
theorem Inside.closeActive (hi : Inside s.runtime) {reason : StopReason}
    (h : Does (closeActive app reason) s w x s' w') :
    w' = w ∧ Kept s s' ∧ (s'.active = s.active ∧ x = .ok ∨ s'.active = none ∧ x ≠ .ok) := by
  simp [App.closeActive, returns_ite] at h
  split at h
  case isTrue =>
    obtain ⟨rfl, rfl, rfl⟩ := h
    exact ⟨rfl, .refl, .inl ⟨rfl, rfl⟩⟩
  case isFalse =>
    obtain ⟨s₁, hs, rfl⟩ := h
    obtain ⟨rfl, rfl, rfl⟩ := hi.stop hs
    exact ⟨rfl, .of_runtime rfl rfl rfl nofun, .inr ⟨rfl, by decide⟩⟩

theorem sync_kept {u : Unit} (h : Does syncRuntimeState s w u s' w') :
    w' = w ∧ Kept s s' ∧ (s'.active = s.active ∨ s.runtime.state ≠ .running) := by
  simp [syncRuntimeState] at h
  obtain ⟨rfl, rfl⟩ := h
  split
  case isTrue hs => exact ⟨rfl, .of_runtime rfl rfl rfl nofun, .inr hs.right⟩
  case isFalse   => exact ⟨rfl, .refl, .inl rfl⟩

theorem Inside.dispatchEvent (hi : Inside s.runtime) {kind timestampUs data}
    (h : Does (dispatchEvent app kind timestampUs data) s w x s' w') :
    x ≠ .ok ∧ w' = w ∧ Kept s s' ∧ (s'.active = s.active ∨ s.runtime.state ≠ .running) := by
  simp [App.dispatchEvent] at h
  obtain ⟨s₁, w₁, he, u, hs⟩ := h
  have hk : Kept s { s with runtime := s.runtime.nextSequence } :=
    ⟨⟨rfl, Nat.le_succ _, rfl, rfl, id⟩, rfl⟩
  obtain ⟨hx, rfl, rfl⟩ := (hk.inside hi).runtimeEvent he
  obtain ⟨rfl, hk', ha⟩ := sync_kept hs
  exact ⟨hx, rfl, hk.trans hk', ha⟩

theorem Inside.switchInput (hi : Inside s.runtime) {event consumed} {x : Result × Bool}
    (h : Does (switchInput app event consumed) s w x s' w') :
    w' = w ∧ Kept s s' ∧ (s'.active = s.active ∨ s.runtime.state ≠ .running ∧ ¬s.opening) := by
  unfold App.switchInput at h
  split at h
  case h_2 =>
    obtain ⟨rfl, rfl, rfl⟩ := returns_pure.mp h
    exact ⟨rfl, .refl, .inl rfl⟩
  case h_1 event =>
    simp [returns_ite] at h
    split at h
    case isTrue =>
      obtain ⟨rfl, rfl, rfl⟩ := h
      exact ⟨rfl, .refl, .inl rfl⟩
    case isFalse =>
      split at h
      case isTrue =>
        obtain ⟨rfl, rfl, rfl⟩ := h
        exact ⟨rfl, .of_runtime rfl rfl rfl id, .inl rfl⟩
      case isFalse ho =>
        obtain ⟨_, -, hd⟩ := h
        obtain ⟨-, rfl, hk, ha⟩ := hi.dispatchEvent hd
        exact ⟨rfl, hk, ha.imp_right fun hs => ⟨hs, ho⟩⟩

theorem Inside.switchMedia (hi : Inside s.runtime) {kind generation timestampUs}
    (h : Does (switchMedia app kind generation timestampUs) s w x s' w') :
    w' = w ∧ Kept s s' ∧ (s'.active = s.active ∨
      s.runtime.state ≠ .running ∧ mediaInserted ≤ kind ∧ kind ≤ mediaError) := by
  simp [App.switchMedia, returns_ite] at h
  split at h
  case isTrue =>
    obtain ⟨rfl, rfl, rfl⟩ := h
    exact ⟨rfl, .refl, .inl rfl⟩
  case isFalse hk =>
    split at h
    case isTrue =>
      obtain ⟨rfl, rfl, rfl⟩ := h
      exact ⟨rfl, .refl, .inl rfl⟩
    case isFalse =>
      obtain ⟨-, rfl, hk', ha⟩ := hi.dispatchEvent h
      simp only [not_or, UInt32.not_lt] at hk
      exact ⟨rfl, hk', ha.imp_right fun hs => ⟨hs, hk⟩⟩

theorem validateWakeupToken_running {token : Token} {runtime : Runtime}
    (h : runtime.validateWakeupToken token = .ok) : runtime.state = .running ∧
      token.contextGeneration = runtime.contextGeneration := by
  unfold Runtime.validateWakeupToken at h
  split at h
  case isTrue => cases h
  case isFalse hn => simp_all

theorem Inside.switchWakeup (hi : Inside s.runtime) {token timestampUs}
    (h : Does (switchWakeup app token timestampUs) s w x s' w') :
    w' = w ∧ Kept s s' ∧ s'.active = s.active := by
  simp [App.switchWakeup, returns_ite] at h
  split at h
  case isFalse =>
    obtain ⟨rfl, rfl, rfl⟩ := h
    exact ⟨rfl, .refl, rfl⟩
  case isTrue hv =>
    obtain ⟨-, rfl, hk, ha⟩ := hi.dispatchEvent h
    have hr := (validateWakeupToken_running hv).left
    exact ⟨rfl, hk, ha.resolve_right (absurd hr)⟩

theorem Inside.switchClose (hi : Inside s.runtime) {reason}
    (h : Does (switchClose app reason) s w x s' w') :
    w' = w ∧ Kept s s' ∧ (s'.active = s.active ∨ ¬s.transitionActive) := by
  simp [App.switchClose, returns_ite] at h
  split at h
  case isTrue =>
    split at h <;> obtain ⟨rfl, rfl, rfl⟩ := h
    · exact ⟨rfl, .of_runtime rfl rfl rfl id, .inl rfl⟩
    · exact ⟨rfl, .refl, .inl rfl⟩
  case isFalse ht =>
    obtain ⟨s₁, hc, rfl⟩ := h
    obtain ⟨rfl, hk, -⟩ := Inside.closeActive (s := { s with transitionActive := true }) hi hc
    refine ⟨rfl, hk.transfer rfl rfl ?_ hk.opening hk.surface, .inr ht⟩
    exact (Bool.not_eq_true _ ▸ ht).symm

theorem Inside.switchOpen (hi : Inside s.runtime) (ho : s.opening → s.transitionActive) {descriptor}
    (h : Does (switchOpen app descriptor) s w x s' w') :
    w' = w ∧ Kept s s' ∧ (s'.active = s.active ∨ ¬s.transitionActive ∧ descriptor.isSome) := by
  cases descriptor with
  | none =>
    obtain ⟨rfl, rfl, rfl⟩ := returns_pure.mp h
    exact ⟨rfl, .refl, .inl rfl⟩
  | some descriptor =>
    simp [App.switchOpen, returns_ite] at h
    split at h
    case isTrue =>
      obtain ⟨rfl, rfl, rfl⟩ := h
      exact ⟨rfl, .refl, .inl rfl⟩
    case isFalse ht =>
      have hf : s.transitionActive = false := Bool.not_eq_true _ ▸ ht
      have hof : s.opening = false := by
        simpa [hf] using ho
      obtain ⟨r, s₁, w₁, hc, h⟩ := h
      obtain ⟨rfl, hk₁, ha⟩ := Inside.closeActive (s := { s with transitionActive := true }) hi hc
      split at h
      case isFalse hr =>
        obtain ⟨rfl, rfl, rfl⟩ := h
        exact ⟨rfl, hk₁.transfer rfl rfl hf.symm hk₁.opening hk₁.surface, .inr ⟨ht, rfl⟩⟩
      case isTrue hr =>
        obtain ⟨r', s₂, w₂, hl, u, s₃, w₃, hs, h⟩ := h
        simp only [launchActive, returns_bind, returns_ite] at hl
        obtain ⟨r'', s₄, w₄, hl, h'⟩ := hl
        have hi₁ : Inside s₁.runtime := hk₁.inside hi
        obtain ⟨hr'', rfl, rfl⟩ := Inside.launch (s := { s₁ with
          opening := true, pendingClose := none, pendingInput := none, active := some descriptor })
          hi₁ hl
        rw [if_pos hr'', returns_pure] at h'
        obtain ⟨rfl, rfl, rfl⟩ := h'
        obtain ⟨rfl, hk₂, -⟩ := sync_kept hs
        rw [if_neg hr''] at h
        obtain ⟨rfl, rfl, rfl⟩ := h
        have hk : Kept s s₃ := by
          refine .trans ?_ hk₂
          exact hk₁.transfer rfl rfl hf.symm hof.symm hk₁.surface
        refine ⟨rfl, ?_, .inr ⟨ht, rfl⟩⟩
        exact hk.transfer rfl rfl hk.transitionActive hk.opening hk.surface

-- Calls that an action makes while it leaves the rest alone.
structure Within (s : Switch) (w : Log) (new : Log) (s' : Switch) (w' : Log) : Prop where
  log : w' = new ++ w
  quiet : ∀ e ∈ new, e.fst.Quiet
  kept : Kept s s'

theorem Within.of_kept (h : Kept s s') : Within s w [] s' w :=
  ⟨rfl, List.forall_mem_nil _, h⟩

theorem Within.of_call {c : Call} {r : c.Answer} (hq : c.Quiet) (h : Kept s s') :
    Within s w [⟨c, r⟩] s' (⟨c, r⟩ :: w) :=
  ⟨rfl, by simpa using hq, h⟩

theorem Within.trans {s₁ : Switch} {w₁ new new' : Log} (h : Within s w new s₁ w₁)
    (h' : Within s₁ w₁ new' s' w') : Within s w (new' ++ new) s' w' where
  log := by rw [h'.log, h.log, List.append_assoc]
  quiet e he := by
    exact (List.mem_append.mp he).elim (h'.quiet e) (h.quiet e)
  kept := h.kept.trans h'.kept

theorem does_activeApp {descriptor : Descriptor} (h : Does activeApp s w descriptor s' w') :
    s.active = some descriptor ∧ s' = s ∧ w' = w := by
  simp only [activeApp, returns_bind, returns_get] at h
  obtain ⟨_, _, _, ⟨rfl, rfl, rfl⟩, h⟩ := h
  split at h
  case h_1 ha =>
    obtain ⟨rfl, rfl, rfl⟩ := returns_pure.mp h
    exact ⟨ha, rfl, rfl⟩
  case h_2    => exact absurd h returns_hang

theorem Inside.failure (hi : Inside s.runtime) {reason result}
    (h : Does (failure app reason result) s w x s' w') :
    w' = w ∧ Kept s s' ∧ (s'.active = s.active ∨ ¬s.transitionActive) := by
  simp only [App.failure, returns_bind] at h
  obtain ⟨r, s₁, w₁, hc, h⟩ := h
  obtain ⟨rfl, rfl, rfl⟩ := returns_pure.mp h
  exact hi.switchClose hc

-- Closing after a failure does not hide the failure.
theorem failure_ne_ok {reason result} (hr : result ≠ .ok)
    (h : Does (failure app reason result) s w x s' w') : x ≠ .ok := by
  simp only [App.failure, returns_bind] at h
  obtain ⟨r, s₁, w₁, hc, h⟩ := h
  obtain ⟨rfl, rfl, rfl⟩ := returns_pure.mp h
  rwa [if_pos hr]

-- How a poll within a callback can forget the active app.
def PollForgets (s : Switch) (new : Log) : Prop :=
  ¬s.transitionActive ∧ (∃ e ∈ new, Fails e) ∨
    s.runtime.state ≠ .running ∧ ∃ nowUs, ⟨.nowUs, .ok, nowUs⟩ ∈ new

theorem Inside.pollTick (hi : Inside s.runtime) {nowUs} (h : Does (pollTick app nowUs) s w x s' w') :
    ∃ new, Within s w new s' w' ∧ (s'.active = s.active ∨ PollForgets s new) ∧
      (x = .ok → s' = s ∧ new = []) := by
  simp [App.pollTick, returns_ite] at h
  split at h
  case isTrue =>
    obtain ⟨rfl, rfl, rfl⟩ := h
    exact ⟨[], .of_kept .refl, .inl rfl, fun _ => ⟨rfl, rfl⟩⟩
  case isFalse =>
    obtain ⟨r, t, s₁, w₁, hn, h⟩ := h
    obtain ⟨rfl, rfl⟩ := does_ask.mp hn
    split at h
    case isFalse hr =>
      obtain ⟨rfl, hk, ha⟩ := hi.failure h
      refine ⟨_, (Within.of_call (c := .nowUs) trivial .refl).trans (.of_kept hk), ?_, fun hx => ?_⟩
      · exact ha.imp_right fun ht => .inl ⟨ht, _, List.mem_singleton.mpr rfl, hr⟩
      · exact absurd hx (failure_ne_ok hr h)
    case isTrue hr =>
      obtain ⟨r', s₁, w₁, hd, h⟩ := h
      obtain ⟨hr', rfl, hk, ha⟩ := hi.dispatchEvent hd
      simp [hr'] at h
      obtain ⟨rfl, rfl, rfl⟩ := h
      subst hr
      refine ⟨_, (Within.of_call (c := .nowUs) trivial .refl).trans (.of_kept hk), ?_, (absurd · hr')⟩
      exact ha.imp_right fun hs => .inr ⟨hs, t, List.mem_singleton.mpr rfl⟩

-- The surface can be drawn on.
theorem invalidateAll_within (hv : s.surface.validate = .ok) {regions}
    (h : Does (invalidateAll regions) s w x s' w') :
    ∃ new, Within s w new s' w' ∧ s'.active = s.active ∧ s'.surface.validate = .ok ∧
      s'.runtime = s.runtime ∧ (x ≠ .ok → ∃ e ∈ new, Fails e) := by
  induction regions generalizing s w with
  | nil =>
    obtain ⟨rfl, rfl, rfl⟩ := returns_pure.mp h
    exact ⟨[], .of_kept .refl, rfl, hv, rfl, absurd rfl⟩
  | cons region regions ih =>
    simp only [App.invalidateAll, Surface.invalidate, returns_bind, returns_get] at h
    obtain ⟨r, s₁, w₁, ⟨_, _, _, ⟨rfl, rfl, rfl⟩, hs⟩, h⟩ := h
    rw [if_neg (not_not.mpr hv), returns_bind] at hs
    obtain ⟨r', s₂, w₂, ha, hs⟩ := hs
    obtain ⟨rfl, rfl⟩ := does_ask.mp ha
    have hq {t t' v} (hk : Kept t t') : Within t v [⟨.surface (.invalidate region), r'⟩] t' _ :=
      .of_call (c := .surface (.invalidate region)) trivial hk
    rw [returns_ite] at hs
    split at hs
    case isTrue hr =>
      simp at hs
      obtain ⟨rfl, rfl, rfl⟩ := hs
      rw [if_neg (not_not.mpr hr)] at h
      have hk : Kept s₂ { s₂ with surface := { s₂.surface with invalidated := true } } :=
        .of_runtime rfl rfl rfl id
      obtain ⟨new, hw, ha, hv', hr', hf⟩ := ih (s := { s₂ with
        surface := { s₂.surface with invalidated := true } }) hv h
      refine ⟨_, (hq hk).trans hw, ha, hv', hr', fun hx => ?_⟩
      obtain ⟨e, he, hf⟩ := hf hx
      exact ⟨e, List.mem_append_left _ he, hf⟩
    case isFalse hr =>
      obtain ⟨rfl, rfl, rfl⟩ := returns_pure.mp hs
      rw [if_pos hr] at h
      obtain ⟨rfl, rfl, rfl⟩ := returns_pure.mp h
      exact ⟨_, hq .refl, rfl, hv, rfl, fun hx => ⟨_, List.mem_singleton.mpr rfl, hx⟩⟩

theorem renderTimes_within {x : Result × Deadline × UInt64} (h : Does renderTimes s w x s' w') :
    ∃ new, Within s w new s' w' ∧ s' = s ∧ (x.1 ≠ .ok → ∃ e ∈ new, Fails e) := by
  simp only [renderTimes, returns_bind] at h
  obtain ⟨descriptor, s₁, w₁, ha, ⟨r, deadline⟩, s₂, w₂, hd, h⟩ := h
  obtain ⟨-, rfl, rfl⟩ := does_activeApp ha
  obtain ⟨rfl, rfl⟩ := does_ask.mp hd
  have hq := Within.of_call (s := s₂) (w := w₁)
    (c := .deadlineAfter .render descriptor.limits.renderBudgetUs.toUInt64) (r := (r, deadline))
    rfl .refl
  simp only [returns_ite, returns_bind] at h
  split at h
  case isTrue hr =>
    obtain ⟨rfl, rfl, rfl⟩ := returns_pure.mp h
    exact ⟨_, hq, rfl, fun _ => ⟨_, List.mem_singleton.mpr rfl, .inl hr⟩⟩
  case isFalse =>
    split at h
    case isTrue hr =>
      obtain ⟨rfl, rfl, rfl⟩ := returns_pure.mp h
      exact ⟨_, hq, rfl, fun _ => ⟨_, List.mem_singleton.mpr rfl, .inr hr⟩⟩
    case isFalse =>
      obtain ⟨⟨r', t⟩, s₁, w₂, hn, h⟩ := h
      obtain ⟨rfl, rfl⟩ := does_ask.mp hn
      obtain ⟨rfl, rfl, rfl⟩ := returns_pure.mp h
      refine ⟨_, hq.trans (.of_call (c := .nowUs) trivial .refl), rfl, fun hx => ?_⟩
      exact ⟨_, List.mem_append_left _ (List.mem_singleton.mpr rfl), hx⟩

theorem does_abandon {u : Unit} (h : Does abandon s w u s' w') : ∃ r,
    s' = { s with surface := s.surface.privateInvalidate } ∧ w' = ⟨.renderAbort, r⟩ :: w := by
  simp only [abandon, returns_bind] at h
  obtain ⟨r, s₁, w₁, ha, h⟩ := h
  obtain ⟨rfl, rfl⟩ := does_ask.mp ha
  obtain ⟨rfl, rfl⟩ := does_modifySurface.mp h
  exact ⟨r, rfl, rfl⟩

theorem abandon_within {u : Unit} (h : Does abandon s w u s' w') :
    ∃ new, Within s w new s' w' ∧ s'.active = s.active ∧ s'.runtime = s.runtime ∧
      s'.surface.valid = false := by
  obtain ⟨r, rfl, rfl⟩ := does_abandon h
  exact ⟨_, .of_call (c := .renderAbort) trivial (.of_runtime rfl rfl rfl nofun), rfl, rfl, rfl⟩


theorem Surface.privateInit_cases {surface : Surface} {contextGeneration info} :
    let r := surface.privateInit contextGeneration info
    r.1 = .ok ∧ r.2.validate = .ok ∨ r.1 = .invalidArgument ∧ r.2 = surface ∧
      (contextGeneration = 0 ∨ info.structSize < DisplayInfo.size ∨
        info.structVersion ≠ DisplayInfo.version) := by
  simp only [Surface.privateInit]
  split
  case isTrue h  => exact .inr ⟨rfl, rfl, h⟩
  case isFalse h =>
    simp only [not_or] at h
    exact .inl ⟨rfl, by simp [Surface.validate, h.left]⟩

-- A transaction that does not begin leaves the surface alone.
theorem does_renderBegin (hg : s.runtime.contextGeneration ≠ 0)
    (h : Does renderBegin s w x s' w') :
    ∃ new, w' = new ++ w ∧ (∀ e ∈ new, e.fst.Quiet) ∧ s' = { s with surface := s'.surface } ∧
      (x = .ok → s'.surface.validate = .ok) ∧ (x ≠ .ok → s'.surface = s.surface) ∧
      (x ≠ .ok → x ≠ .busy → x ≠ .capabilityAbsent → ∃ e ∈ new, Fails e) := by
  simp only [renderBegin, returns_bind, returns_get, returns_ite] at h
  obtain ⟨_, _, _, ⟨rfl, rfl, rfl⟩, h⟩ := h
  split at h
  case isTrue =>
    obtain ⟨rfl, rfl, rfl⟩ := returns_pure.mp h
    exact ⟨[], rfl, List.forall_mem_nil _, rfl, (by intros; contradiction), fun _ => rfl, fun _ _ => absurd rfl⟩
  case isFalse =>
    obtain ⟨⟨r, info⟩, s₁, w₁, ha, h⟩ := h
    obtain ⟨rfl, rfl⟩ := does_ask.mp ha
    have hq (e) (he : e ∈ [(⟨.displayBegin, r, info⟩ : Sigma Call.Answer)]) : e.fst.Quiet := by
      rw [List.mem_singleton.mp he]
      trivial
    split at h
    case isTrue hr =>
      obtain ⟨rfl, rfl, rfl⟩ := returns_pure.mp h
      refine ⟨_, rfl, hq, rfl, (absurd · hr), fun _ => rfl, fun _ hb hc => ?_⟩
      refine ⟨_, List.mem_singleton.mpr rfl, ?_⟩
      rw [Fails, if_neg hr]
      exact ⟨hb, hc⟩
    case isFalse hr =>
      obtain ⟨_, s₂, w₂, ⟨rfl, rfl, rfl⟩, h⟩ := h
      obtain ⟨u, s₃, w₃, hm, h⟩ := h
      obtain ⟨rfl, rfl⟩ := does_modifySurface.mp hm
      have hc := @Surface.privateInit_cases s₂.surface s₂.runtime.contextGeneration info
      generalize s₂.surface.privateInit s₂.runtime.contextGeneration info = p at *
      obtain ⟨r', surface⟩ := p
      obtain ⟨hr', hv⟩ | ⟨hr', hs, hi⟩ := hc
      · simp only at hr'
        rw [if_neg (not_not.mpr hr')] at h
        obtain ⟨rfl, rfl, rfl⟩ := returns_pure.mp h
        exact ⟨_, rfl, hq, rfl, fun _ => hv, (absurd hr' ·), fun hx => absurd hr' hx⟩
      · simp only at hr' hs
        subst hr'
        rw [if_pos (show Result.invalidArgument ≠ .ok by decide)] at h
        obtain ⟨r'', s₃, w₃, ha, h⟩ := h
        obtain ⟨rfl, rfl⟩ := does_ask.mp ha
        obtain ⟨rfl, rfl, rfl⟩ := returns_pure.mp h
        refine ⟨[⟨.renderAbort, r''⟩, ⟨.displayBegin, r, info⟩], rfl, ?_, rfl, ?_, ?_, ?_⟩
        · intro e he
          rw [List.mem_cons] at he
          obtain rfl | he := he
          · trivial
          · exact hq e he
        · intros; contradiction
        · exact fun _ => hs
        · intro _ _ _
          refine ⟨_, List.mem_cons_of_mem _ (List.mem_singleton.mpr rfl), ?_⟩
          rw [Fails, if_pos (not_not.mp hr)]
          exact hi.resolve_left hg

-- What is done about a render pass that fails.
theorem Inside.giveUp (hi : Inside s.runtime) {reason result}
    (h : Does (do abandon; App.failure app reason result) s w x s' w') :
    ∃ new, Within s w new s' w' ∧ s'.surface.valid = false ∧
      (s'.active = s.active ∨ ¬s.transitionActive) := by
  rw [Does, returns_bind] at h
  obtain ⟨u, s₁, w₁, ha, h⟩ := h
  obtain ⟨r, rfl, rfl⟩ := does_abandon ha
  have hk : Kept s { s with surface := s.surface.privateInvalidate } :=
    .of_runtime rfl rfl rfl nofun
  obtain ⟨rfl, hk', ha⟩ := Inside.failure (s := { s with surface := s.surface.privateInvalidate })
    hi h
  refine ⟨_, .of_call (c := .renderAbort) trivial (hk.trans hk'), ?_, ha⟩
  exact Bool.eq_false_iff.mpr (nofun ∘ hk'.surface)

-- A render pass within a callback is given up.
theorem Inside.renderPass (hi : Inside s.runtime) (hs : s.runtime.state = .running)
    (hv : s.surface.validate = .ok) (h : Does (renderPass app) s w x s' w') :
    ∃ new, Within s w new s' w' ∧ s'.surface.valid = false ∧
      (s'.active = s.active ∨ ¬s.transitionActive ∧ ∃ e ∈ new, Fails e) := by
  simp [App.renderPass, returns_ite] at h
  obtain ⟨r, s₁, w₁, hl, h⟩ := h
  obtain ⟨new₁, hw₁, ha₁, hv₁, hr₁, hf₁⟩ := invalidateAll_within hv hl
  have hi₁ := hw₁.kept.inside hi
  split at h
  case isFalse hr =>
    obtain ⟨new₂, hw₂, hv₂, ha₂⟩ := Inside.giveUp hi₁ (returns_bind.mpr h)
    refine ⟨_, hw₁.trans hw₂, hv₂, ?_⟩
    rw [hw₁.kept.transitionActive, ha₁] at ha₂
    obtain ⟨e, he, hf⟩ := hf₁ hr
    exact ha₂.imp_right fun ht => ⟨ht, e, List.mem_append_right _ he, hf⟩
  case isTrue =>
    obtain ⟨r', deadline, startedUs, s₂, w₂, ht, h⟩ := h
    obtain ⟨new₂, hw₂, rfl, hf₂⟩ := renderTimes_within ht
    split at h
    case isFalse hr =>
      obtain ⟨new₃, hw₃, hv₃, ha₃⟩ := Inside.giveUp hi₁ (returns_bind.mpr h)
      refine ⟨_, (hw₁.trans hw₂).trans hw₃, hv₃, ?_⟩
      rw [hw₁.kept.transitionActive, ha₁] at ha₃
      obtain ⟨e, he, hf⟩ := hf₂ hr
      exact ha₃.imp_right fun ht =>
        ⟨ht, e, List.mem_append_right _ (List.mem_append_left _ he), hf⟩
    case isTrue =>
      obtain ⟨r'', s₃, w₃, hp, u, s₄, w₄, hy, h⟩ := h
      have hk : Kept s₂ { s₂ with runtime := s₂.runtime.renderCommitted } :=
        ⟨⟨rfl, Nat.le_refl _, rfl, rfl, id⟩, rfl⟩
      obtain ⟨hr'', rfl, rfl⟩ := Inside.runtimeRender (hk.inside hi₁) hp
      obtain ⟨rfl, hk', ha⟩ := sync_kept hy
      simp [hr''] at h
      obtain ⟨rfl, u', hb⟩ := h
      obtain ⟨new₃, hw₃, ha₃, -, hv₃⟩ := abandon_within hb
      refine ⟨_, (hw₁.trans hw₂).trans ((Within.of_kept (hk.trans hk')).trans hw₃), hv₃, .inl ?_⟩
      rw [ha₃, ← ha₁]
      refine ha.resolve_right (absurd ?_)
      show s₂.runtime.state = _
      rw [hr₁, hs]

theorem Inside.pollRender (hi : Inside s.runtime) (h : Does (pollRender app) s w x s' w') :
    ∃ new, Within s w new s' w' ∧
      (s'.active = s.active ∨ ¬s.transitionActive ∧ ∃ e ∈ new, Fails e) := by
  simp [App.pollRender, returns_ite] at h
  split at h
  case isFalse =>
    obtain ⟨rfl, rfl, rfl⟩ := h
    exact ⟨[], .of_kept .refl, .inl rfl⟩
  case isTrue hp =>
    have hs : s.runtime.state = .running := by
      simp [Runtime.renderPending] at hp
      exact hp.left
    obtain ⟨r, s₁, w₁, hd, h⟩ := h
    obtain ⟨new, rfl, hq, hs₁, hv, he, hf⟩ := does_renderBegin hi.generation_ne hd
    have hr₁ : s₁.runtime = s.runtime := by rw [hs₁]
    have hk (hr : r ≠ .ok) : s₁ = s := by
      rw [hs₁, he hr]
    split at h
    case isTrue hr =>
      obtain ⟨rfl, rfl, rfl⟩ := h
      obtain rfl := hk (hr ▸ by decide)
      exact ⟨_, ⟨rfl, hq, .refl⟩, .inl rfl⟩
    case isFalse hb =>
      split at h
      case isTrue hr =>
        obtain ⟨rfl, rfl, rfl⟩ := h
        obtain rfl := hk (hr ▸ by decide)
        exact ⟨_, ⟨rfl, hq, ⟨⟨rfl, Nat.le_refl _, rfl, rfl, id⟩, rfl⟩⟩, .inl rfl⟩
      case isFalse hc =>
        split at h
        case isTrue hr =>
          have hp' : Does (App.renderPass app) s₁ (new ++ w) x s' w' := h
          obtain ⟨new', hw, hv', ha⟩ := Inside.renderPass (s := s₁) (hr₁ ▸ hi) (hr₁ ▸ hs) (hv hr) hp'
          have hk' : Kept s s' :=
            hw.kept.transfer hr₁.symm rfl (hw.kept.transitionActive.trans (by rw [hs₁]))
              (hw.kept.opening.trans (by rw [hs₁])) (by simp [hv'])
          have hw' : Within s w (new' ++ new) s' w' := by
            refine ⟨by rw [hw.log, List.append_assoc], ?_, hk'⟩
            intro e he
            exact (List.mem_append.mp he).elim (hw.quiet e) (hq e)
          refine ⟨_, hw', ?_⟩
          rw [hs₁] at ha
          exact ha.imp_right fun ⟨ht, e, he, hf⟩ => ⟨ht, e, List.mem_append_left _ he, hf⟩
        case isFalse hr =>
          obtain rfl := hk hr
          obtain ⟨rfl, hk, ha⟩ := hi.failure h
          obtain ⟨e, he, hf⟩ := hf hr hb hc
          exact ⟨_, ⟨rfl, hq, hk⟩, ha.imp_right fun ht => ⟨ht, e, he, hf⟩⟩

theorem Inside.switchPoll (hi : Inside s.runtime) {nowUs}
    (h : Does (switchPoll app nowUs) s w x s' w') :
    ∃ new, Within s w new s' w' ∧ (s'.active = s.active ∨ PollForgets s new) := by
  simp [App.switchPoll, returns_ite] at h
  split at h
  case isTrue =>
    obtain ⟨rfl, rfl, rfl⟩ := h
    exact ⟨[], .of_kept .refl, .inl rfl⟩
  case isFalse =>
    obtain ⟨r, s₁, w₁, ht, h⟩ := h
    obtain ⟨new, hw, ha, he⟩ := hi.pollTick ht
    split at h
    case isTrue =>
      obtain ⟨rfl, rfl, rfl⟩ := h
      exact ⟨new, hw, ha⟩
    case isFalse hr =>
      simp only [not_or, not_not] at hr
      obtain ⟨rfl, rfl⟩ := he hr.left
      obtain ⟨new', hw', ha'⟩ := Inside.pollRender hi h
      obtain rfl : w₁ = w := hw.log
      exact ⟨new', hw', ha'.imp_right .inl⟩

end App
