import HackyLens.App.Theorems.Inside

-- What an action of an app does, and from it what a whole callback does.

namespace App

open Prog

variable {app : Callback → Task Result} {s s' : Switch} {w w' : Log} {x : Result}

-- How an action can make the switch forget the active app: by closing it when it is running, and by
-- an event that is refused when it is starting.
def Forgets (state : State) (action : Action) (new : Log) : Prop :=
  match state, action with
  | .running, .openApp descriptor => descriptor.isSome
  | .running, .close _            => True
  | .running, .poll _             => ∃ e ∈ new, Fails e
  | .starting, .media kind _ _    => mediaInserted ≤ kind ∧ kind ≤ mediaError
  | .starting, .poll _            => ∃ nowUs, ⟨.nowUs, .ok, nowUs⟩ ∈ new
  | .stopping, _                  => True
  | _, _                          => False

-- What an action in a callback has done, if it made the calls `new`.
structure Did (s : Switch) (action : Action) (new : Log) (reply : Reply) (s' : Switch) : Prop where
  aside : Aside s s'
  quiet : ∀ e ∈ new, e.fst.Quiet
  closeRequested : s'.runtime.closeRequested →
    s.runtime.closeRequested ∨ action = .context true .requestClose
  active : (s.runtime.state = .starting → s.opening ∧ s.transitionActive) →
    s'.active = s.active ∨ Forgets s.runtime.state action new
  refused : ∀ drawing, action = .draw drawing → ¬s.surface.valid →
    new = [] ∧ ∃ result, result ≠ Result.ok ∧ reply = .result result
  token : ∀ token, reply = .token token →
    s.runtime.state = .running ∧ token.contextGeneration = s.runtime.contextGeneration
  validated : ∀ token result, reply = .validated token result →
    result = s.runtime.validateWakeupToken token

theorem Surface.validate_valid {surface : Surface} (h : surface.validate = .ok) :
    surface.valid = true := by
  unfold Surface.validate at h
  split at h
  case isTrue     => cases h
  case isFalse hn => simpa using (not_or.mp hn).left

theorem does_perform {drawing : Draw} (h : Does (Surface.perform drawing) s w x s' w') :
    s' = s ∧ (w' = w ∧ x ≠ .ok ∨ s.surface.valid = true ∧ w' = ⟨.surface drawing, x⟩ :: w) := by
  simp only [Surface.perform, returns_bind, returns_get, returns_ite] at h
  obtain ⟨_, _, _, ⟨rfl, rfl, rfl⟩, h⟩ := h
  split at h
  case isTrue hv =>
    obtain ⟨rfl, rfl, rfl⟩ := returns_pure.mp h
    exact ⟨rfl, .inl ⟨rfl, hv⟩⟩
  case isFalse hv =>
    obtain ⟨rfl, rfl⟩ := does_ask.mp h
    exact ⟨rfl, .inr ⟨Surface.validate_valid (not_not.mp hv), rfl⟩⟩

theorem does_invalidate {region : Option Rect}
    (h : Does (Surface.invalidate region) s w x s' w') :
    s' = s ∧ w' = w ∧ x ≠ .ok ∨ s.surface.valid = true ∧
      ∃ new, Within s w new s' w' ∧ s'.active = s.active := by
  simp only [Surface.invalidate, returns_bind, returns_get, returns_ite] at h
  obtain ⟨_, _, _, ⟨rfl, rfl, rfl⟩, h⟩ := h
  split at h
  case isTrue hv =>
    obtain ⟨rfl, rfl, rfl⟩ := returns_pure.mp h
    exact .inl ⟨rfl, rfl, hv⟩
  case isFalse hv =>
    obtain ⟨r, s₁, w₁, ha, h⟩ := h
    obtain ⟨rfl, rfl⟩ := does_ask.mp ha
    refine .inr ⟨Surface.validate_valid (not_not.mp hv), ?_⟩
    split at h
    case isTrue =>
      simp at h
      obtain ⟨rfl, rfl, rfl⟩ := h
      exact ⟨_, .of_call (c := .surface (.invalidate region)) trivial (.of_runtime rfl rfl rfl id),
        rfl⟩
    case isFalse =>
      obtain ⟨rfl, rfl, rfl⟩ := returns_pure.mp h
      exact ⟨_, .of_call (c := .surface (.invalidate region)) trivial .refl, rfl⟩

variable {reply : Reply}

-- Replies that are neither a token nor the verdict about one.
def Reply.Plain : Reply → Prop
  | token _ | validated _ _ => False
  | _                       => True

-- Without a valid surface, a drawing call reaches nothing.
theorem does_draw {drawing : Draw} (h : Does (Surface.draw drawing) s w reply s' w') :
    reply.Plain ∧ (s' = s ∧ w' = w ∧ (∃ r, r ≠ Result.ok ∧ reply = .result r) ∨
      s.surface.valid = true ∧ ∃ new, Within s w new s' w' ∧ s'.active = s.active) := by
  have hp {given : Bool} {drawing : Draw} (h : Does
      (if given then Reply.result <$> Surface.perform drawing else pure (.result .invalidArgument))
      s w reply s' w') : reply.Plain ∧ (s' = s ∧ w' = w ∧ (∃ r, r ≠ Result.ok ∧ reply = .result r) ∨
        s.surface.valid = true ∧ ∃ new, Within s w new s' w' ∧ s'.active = s.active) := by
    rw [Does, returns_ite] at h
    split at h
    case isTrue =>
      obtain ⟨r, rfl, hd⟩ := returns_map.mp h
      obtain ⟨rfl, ⟨rfl, hr⟩ | ⟨hv, rfl⟩⟩ := does_perform hd
      · exact ⟨trivial, .inl ⟨rfl, rfl, r, hr, rfl⟩⟩
      · exact ⟨trivial, .inr ⟨hv, _, .of_call (c := .surface drawing) trivial .refl, rfl⟩⟩
    case isFalse =>
      obtain ⟨rfl, rfl, rfl⟩ := returns_pure.mp h
      exact ⟨trivial, .inl ⟨rfl, rfl, _, by decide, rfl⟩⟩
  cases drawing
  case getInfo out =>
    simp only [Surface.draw, returns_ite, Surface.getInfo, returns_bind, returns_get] at h
    split at h
    case isFalse =>
      obtain ⟨rfl, rfl, rfl⟩ := returns_pure.mp h
      exact ⟨trivial, .inl ⟨rfl, rfl, _, by decide, rfl⟩⟩
    case isTrue =>
      obtain ⟨_, _, _, ⟨rfl, rfl, rfl⟩, h⟩ := h
      split at h
      case isTrue hv =>
        obtain ⟨rfl, rfl, rfl⟩ := returns_pure.mp h
        exact ⟨trivial, .inl ⟨rfl, rfl, _, hv, rfl⟩⟩
      case isFalse hv =>
        obtain ⟨rfl, rfl, rfl⟩ := returns_pure.mp h
        exact ⟨trivial, .inr ⟨Surface.validate_valid (not_not.mp hv), [], .of_kept .refl, rfl⟩⟩
  case invalidate region =>
    obtain ⟨r, rfl, hd⟩ := returns_map.mp h
    refine ⟨trivial, (does_invalidate hd).imp_left ?_⟩
    rintro ⟨hs, hw, hr⟩
    exact ⟨hs, hw, r, hr, rfl⟩
  case clear rgb565                => exact @hp true _ h
  case fillRect rect _             => exact @hp rect.isSome _ h
  case strokeRect rect _           => exact @hp rect.isSome _ h
  case text bounds utf8 _          => exact @hp (bounds.isSome && utf8.isSome) _ h
  case blit destination pixels _   => exact @hp (destination.isSome && pixels.isSome) _ h
  case lock out                    => exact @hp out _ h

theorem does_withContext {ctx out : Bool} {f : Runtime → Task Reply}
    (h : Does (withContext ctx out f) s w reply s' w') :
    (s' = s ∧ w' = w ∧ reply.Plain) ∨ ctx = true ∧ Does (f s.runtime) s w reply s' w' := by
  simp only [withContext, returns_bind, returns_get, returns_ite] at h
  obtain ⟨_, _, _, ⟨rfl, rfl, rfl⟩, h⟩ := h
  split at h
  case isTrue =>
    obtain ⟨rfl, rfl, rfl⟩ := returns_pure.mp h
    exact .inl ⟨rfl, rfl, trivial⟩
  case isFalse =>
    split at h
    case isTrue =>
      obtain ⟨rfl, rfl, rfl⟩ := returns_pure.mp h
      exact .inl ⟨rfl, rfl, trivial⟩
    case isFalse hv =>
      refine .inr ⟨?_, h⟩
      cases ctx
      case true  => rfl
      case false =>
        refine absurd ?_ hv
        have hr : Result.staleHandle ≠ Result.ok := by decide
        simp [Runtime.validateCallbackContext, Runtime.validateContext, hr]

-- What the context functions do that do not stand out.
def Ordinary (s : Switch) (w : Log) (reply : Reply) (s' : Switch) (w' : Log) : Prop :=
  reply.Plain ∧ ∃ new, Within s w new s' w' ∧ s'.active = s.active

theorem Ordinary.of_pure {r : Reply} (h : Does (pure r) s w reply s' w') (hr : r.Plain) :
    Ordinary s w reply s' w' := by
  obtain ⟨rfl, rfl, rfl⟩ := returns_pure.mp h
  exact ⟨hr, [], .of_kept .refl, rfl⟩

theorem Ordinary.of_result {r : Result} (h : Does (pure (.result r)) s w reply s' w') :
    Ordinary s w reply s' w' :=
  .of_pure h trivial

theorem Ordinary.of_modify {r : Result} {f : Runtime → Runtime}
    (h : Does (do modifyRuntime f; return .result r) s w reply s' w')
    (hf : Kept s { s with runtime := f s.runtime }) : Ordinary s w reply s' w' := by
  simp at h
  obtain ⟨rfl, rfl, rfl⟩ := h
  exact ⟨trivial, [], .of_kept hf, rfl⟩

theorem Ordinary.of_open {session : Session} {mode : UInt64} {hold : Runtime → Runtime}
    (h : Does (openSession session mode hold) s w reply s' w')
    (hh : Kept s { s with runtime := hold s.runtime }) : Ordinary s w reply s' w' := by
  simp only [openSession, returns_bind, returns_ite] at h
  obtain ⟨r, s₁, w₁, ha, h⟩ := h
  obtain ⟨rfl, rfl⟩ := does_ask.mp ha
  have hq : (Call.open session mode).Quiet := trivial
  split at h
  case isTrue =>
    simp at h
    obtain ⟨rfl, rfl, rfl⟩ := h
    exact ⟨trivial, _, .of_call hq hh, rfl⟩
  case isFalse =>
    obtain ⟨rfl, rfl, rfl⟩ := returns_pure.mp h
    exact ⟨trivial, _, .of_call hq .refl, rfl⟩

-- Whatever is wrong with the pointers, nothing happens.
theorem Ordinary.of_withContext {ctx out : Bool} {f : Runtime → Task Reply}
    (h : Does (withContext ctx out f) s w reply s' w')
    (hf : Does (f s.runtime) s w reply s' w' → Ordinary s w reply s' w') :
    Ordinary s w reply s' w' := by
  obtain ⟨rfl, rfl, hp⟩ | ⟨-, h⟩ := does_withContext h
  · exact ⟨hp, [], .of_kept .refl, rfl⟩
  · exact hf h

theorem Ordinary.of_ite {c : Prop} [Decidable c] {p q : Task Reply}
    (h : Does (if c then p else q) s w reply s' w')
    (hp : Does p s w reply s' w' → Ordinary s w reply s' w')
    (hq : Does q s w reply s' w' → Ordinary s w reply s' w') : Ordinary s w reply s' w' := by
  split at h
  · exact hp h
  · exact hq h

theorem contextIdentity_ordinary {ctx out : Bool}
    (h : Does (contextIdentity ctx out) s w reply s' w') : Ordinary s w reply s' w' :=
  .of_withContext h (.of_pure · trivial)

theorem contextTime_ordinary {ctx out : Bool} (h : Does (contextTime ctx out) s w reply s' w') :
    Ordinary s w reply s' w' :=
  .of_withContext h .of_result

theorem contextInput_ordinary {ctx out : Bool} (h : Does (contextInput ctx out) s w reply s' w') :
    Ordinary s w reply s' w' :=
  .of_withContext h .of_result

theorem contextTeardownDeadline_ordinary {ctx out : Bool}
    (h : Does (contextTeardownDeadline ctx out) s w reply s' w') : Ordinary s w reply s' w' :=
  .of_withContext h fun h => .of_ite h .of_result (.of_pure · trivial)

-- A session is handed out again or opened, unless the app is torn down.
theorem contextExternalLink_ordinary {ctx out : Bool} {modeFeatures : UInt64}
    (h : Does (contextExternalLink ctx modeFeatures out) s w reply s' w') :
    Ordinary s w reply s' w' := by
  refine .of_withContext h fun h => .of_ite h .of_result fun h => .of_ite h .of_result fun h => ?_
  split at h
  · exact .of_ite h .of_result (.of_pure · trivial)
  · refine .of_ite h .of_result (.of_open · ?_)
    exact ⟨⟨rfl, Nat.le_refl _, rfl, rfl, id⟩, rfl⟩

theorem contextDisplay_ordinary {ctx out : Bool} {plane : UInt32}
    (h : Does (contextDisplay ctx plane out) s w reply s' w') : Ordinary s w reply s' w' := by
  refine .of_withContext h fun h => .of_ite h .of_result fun h => .of_ite h .of_result fun h => ?_
  split at h
  · exact .of_pure h trivial
  · refine .of_ite h .of_result fun h => ?_
    split at h
    · exact .of_open h ⟨⟨rfl, Nat.le_refl _, rfl, rfl, id⟩, rfl⟩
    · exact .of_result h

theorem contextLights_ordinary {ctx out : Bool} {channels : UInt32}
    (h : Does (contextLights ctx channels out) s w reply s' w') : Ordinary s w reply s' w' := by
  refine .of_withContext h fun h => .of_ite h .of_result fun h => .of_ite h .of_result fun h => ?_
  split at h
  · exact .of_pure h trivial
  · refine .of_ite h .of_result fun h => ?_
    split at h
    · exact .of_open h ⟨⟨rfl, Nat.le_refl _, rfl, rfl, id⟩, rfl⟩
    · exact .of_result h

theorem contextState_ordinary {ctx out : Bool}
    (h : Does (contextState ctx out) s w reply s' w') : Ordinary s w reply s' w' := by
  refine .of_withContext h fun h => ?_
  split at h
  · exact .of_pure h trivial
  · exact absurd h returns_hang

theorem contextRequestRender_ordinary {ctx : Bool} {region : Option Rect}
    (h : Does (contextRequestRender ctx region) s w reply s' w') : Ordinary s w reply s' w' := by
  refine .of_withContext h fun h => .of_ite h .of_result fun h => .of_ite h .of_result fun h => ?_
  split at h
  · exact .of_modify h ⟨⟨rfl, Nat.le_refl _, rfl, rfl, id⟩, rfl⟩
  · refine .of_ite h .of_result fun h => .of_ite h .of_result fun h => .of_ite h .of_result fun h => ?_
    exact .of_modify h ⟨⟨rfl, Nat.le_refl _, rfl, rfl, id⟩, rfl⟩

theorem does_contextRequestClose {ctx : Bool}
    (h : Does (contextRequestClose ctx) s w reply s' w') :
    Ordinary s w reply s' w' ∨ ctx = true ∧ w' = w ∧ reply.Plain ∧
      s' = { s with runtime := { s.runtime with closeRequested := true } } := by
  obtain ⟨rfl, rfl, hp⟩ | ⟨hc, h⟩ := does_withContext h
  · exact .inl ⟨hp, [], .of_kept .refl, rfl⟩
  split at h
  case isTrue  => exact .inl (.of_result h)
  case isFalse =>
    simp at h
    obtain ⟨rfl, rfl, rfl⟩ := h
    exact .inr ⟨hc, rfl, trivial, rfl⟩

theorem does_contextWakeupToken {ctx out : Bool} {value : UInt32}
    (h : Does (contextWakeupToken ctx value out) s w reply s' w') :
    Ordinary s w reply s' w' ∨ s' = s ∧ w' = w ∧ s.runtime.state = .running ∧
      ∃ token, reply = .token token ∧
        token.contextGeneration = s.runtime.context.generation := by
  obtain ⟨rfl, rfl, hp⟩ | ⟨-, h⟩ := does_withContext h
  · exact .inl ⟨hp, [], .of_kept .refl, rfl⟩
  split at h
  case isTrue     => exact .inl (.of_result h)
  case isFalse hr =>
    obtain ⟨rfl, rfl, rfl⟩ := returns_pure.mp h
    exact .inr ⟨rfl, rfl, not_not.mp hr, _, rfl, rfl⟩

theorem does_context {ctx : Bool} {request : ContextCall}
    (h : Does (context ctx request) s w reply s' w') :
    Ordinary s w reply s' w' ∨
      (ctx = true ∧ w' = w ∧ reply.Plain ∧
        s' = { s with runtime := { s.runtime with closeRequested := true } }) ∧
        request = .requestClose ∨
      s' = s ∧ w' = w ∧ s.runtime.state = .running ∧ ∃ token, reply = .token token ∧
        token.contextGeneration = s.runtime.context.generation := by
  cases request
  case identity out                  => exact .inl (contextIdentity_ordinary h)
  case time out                      => exact .inl (contextTime_ordinary h)
  case input out                     => exact .inl (contextInput_ordinary h)
  case externalLink modeFeatures out => exact .inl (contextExternalLink_ordinary h)
  case display plane out             => exact .inl (contextDisplay_ordinary h)
  case lights channels out           => exact .inl (contextLights_ordinary h)
  case state out                     => exact .inl (contextState_ordinary h)
  case teardownDeadline out          => exact .inl (contextTeardownDeadline_ordinary h)
  case requestClose                  =>
    exact (does_contextRequestClose h).imp_right fun h => .inl ⟨h, rfl⟩
  case requestRender region          => exact .inl (contextRequestRender_ordinary h)
  case wakeupToken value out         => exact (does_contextWakeupToken h).imp_right .inr

theorem Reply.Plain.not_token (h : reply.Plain) {token : Token} : reply ≠ .token token := by
  rintro rfl
  exact h

theorem Reply.Plain.not_validated (h : reply.Plain) {token : Token} {result : Result} :
    reply ≠ .validated token result := by
  rintro rfl
  exact h

variable {action : Action} {new : Log}

theorem Did.of_within (hw : Within s w new s' w') (hp : reply.Plain)
    (ha : (s.runtime.state = .starting → s.opening ∧ s.transitionActive) →
      s'.active = s.active ∨ Forgets s.runtime.state action new)
    (hd : ∀ drawing, action ≠ .draw drawing) : Did s action new reply s' where
  aside := hw.kept.toAside
  quiet := hw.quiet
  closeRequested hc := .inl (hw.kept.closeRequested ▸ hc)
  active := ha
  refused drawing he := absurd he (hd drawing)
  token _ he := absurd he hp.not_token
  validated _ _ he := absurd he hp.not_validated

theorem Did.of_kept (hk : Kept s s') (hp : reply.Plain)
    (ha : (s.runtime.state = .starting → s.opening ∧ s.transitionActive) →
      s'.active = s.active ∨ Forgets s.runtime.state action [])
    (hd : ∀ drawing, action ≠ .draw drawing) : Did s action [] reply s' :=
  .of_within (w := []) (.of_kept hk) hp ha hd

-- What is to be shown about the active app, for each state of the runtime.
theorem Inside.forgets (hi : Inside s.runtime)
    (hr : s.runtime.state = .running → s'.active = s.active ∨ Forgets .running action new)
    (hs : s.runtime.state = .starting → s.opening → s.transitionActive →
      s'.active = s.active ∨ Forgets .starting action new)
    (ho : s.runtime.state = .starting → s.opening ∧ s.transitionActive) :
    s'.active = s.active ∨ Forgets s.runtime.state action new := by
  cases h : s.runtime.state
  case inactive => exact absurd h hi.not_inactive
  case faulted  => exact absurd h hi.not_faulted
  case stopping => exact .inr trivial
  case running  => exact hr h
  case starting => exact hs h (ho h).left (ho h).right

theorem Inside.perform (hi : Inside s.runtime) (ho : s.opening → s.transitionActive)
    (h : Does (perform app action) s w reply s' w') :
    ∃ new, w' = new ++ w ∧ Did s action new reply s' := by
  cases action
  case context ctx request =>
    obtain ⟨hp, new, hw, ha⟩ | ⟨⟨rfl, rfl, hp, rfl⟩, rfl⟩ | ⟨rfl, rfl, hs, t, rfl, ht⟩ :=
      does_context h
    · exact ⟨new, hw.log, .of_within hw hp (fun _ => .inl ha) (by rintro _ ⟨⟩)⟩
    · refine ⟨[], rfl, ⟨rfl, Nat.le_refl _, rfl, rfl, id⟩, List.forall_mem_nil _, fun _ => .inr rfl,
        fun _ => .inl rfl, (by rintro _ ⟨⟩), ?_, ?_⟩
      · exact fun _ he => absurd he hp.not_token
      · exact fun _ _ he => absurd he hp.not_validated
    · refine ⟨[], rfl, .refl, List.forall_mem_nil _, .inl, fun _ => .inl rfl, (by rintro _ ⟨⟩), ?_, (by intros; contradiction)⟩
      rintro _ ⟨rfl⟩
      exact ⟨hs, ht.trans hi.generation⟩
  case draw drawing =>
    obtain ⟨hp, ⟨rfl, rfl, r, hr, rfl⟩ | ⟨hv, new, hw, ha⟩⟩ := does_draw h
    · refine ⟨[], rfl, .refl, List.forall_mem_nil _, .inl, fun _ => .inl rfl, ?_, (by rintro _ ⟨⟩), (by intros; contradiction)⟩
      exact fun _ _ _ => ⟨rfl, r, hr, rfl⟩
    · refine ⟨new, hw.log, hw.kept.toAside, hw.quiet, fun hc => .inl (hw.kept.closeRequested ▸ hc),
        fun _ => .inl ha, fun _ _ hn => absurd hv hn, ?_, ?_⟩
      · exact fun _ he => absurd he hp.not_token
      · exact fun _ _ he => absurd he hp.not_validated
  case openApp descriptor =>
    obtain ⟨r, rfl, hc⟩ := returns_map.mp h
    obtain ⟨rfl, hk, ha⟩ := hi.switchOpen ho hc
    refine ⟨[], rfl, .of_kept hk trivial (hi.forgets ?_ ?_) (by rintro _ ⟨⟩)⟩
    · exact fun _ => ha.imp_right And.right
    · exact fun _ _ ht => .inl (ha.resolve_right fun hn => hn.left ht)
  case close reason =>
    obtain ⟨r, rfl, hc⟩ := returns_map.mp h
    obtain ⟨rfl, hk, ha⟩ := hi.switchClose hc
    refine ⟨[], rfl, .of_kept hk trivial (hi.forgets ?_ ?_) (by rintro _ ⟨⟩)⟩
    · exact fun _ => .inr trivial
    · exact fun _ _ ht => .inl (ha.resolve_right fun hn => hn ht)
  case input event consumed =>
    obtain ⟨r, rfl, hc⟩ := returns_map.mp h
    obtain ⟨rfl, hk, ha⟩ := hi.switchInput hc
    refine ⟨[], rfl, .of_kept hk trivial (hi.forgets ?_ ?_) (by rintro _ ⟨⟩)⟩
    · exact fun hr => .inl (ha.resolve_right fun hn => hn.left hr)
    · exact fun _ ho _ => .inl (ha.resolve_right fun hn => hn.right ho)
  case media kind generation timestampUs =>
    obtain ⟨r, rfl, hc⟩ := returns_map.mp h
    obtain ⟨rfl, hk, ha⟩ := hi.switchMedia hc
    refine ⟨[], rfl, .of_kept hk trivial (hi.forgets ?_ ?_) (by rintro _ ⟨⟩)⟩
    · exact fun hr => .inl (ha.resolve_right fun hn => hn.left hr)
    · exact fun _ _ _ => ha.imp_right And.right
  case wakeup token timestampUs =>
    obtain ⟨r, rfl, hc⟩ := returns_map.mp h
    obtain ⟨rfl, hk, ha⟩ := hi.switchWakeup hc
    exact ⟨[], rfl, .of_kept hk trivial (fun _ => .inl ha) (by rintro _ ⟨⟩)⟩
  case poll nowUs =>
    obtain ⟨r, rfl, hc⟩ := returns_map.mp h
    obtain ⟨new, hw, ha⟩ := hi.switchPoll hc
    refine ⟨new, hw.log, .of_within hw trivial (hi.forgets ?_ ?_) (by rintro _ ⟨⟩)⟩
    · exact fun hr => ha.imp_right fun hn => (hn.resolve_right fun hn => hn.left hr).right
    · exact fun _ _ ht => ha.imp_right fun hn => (hn.resolve_left fun hn => hn.left ht).right
  case validate token =>
    simp only [App.perform, returns_bind, returns_get] at h
    obtain ⟨_, _, _, ⟨rfl, rfl, rfl⟩, h⟩ := h
    obtain ⟨rfl, rfl, rfl⟩ := returns_pure.mp h
    refine ⟨[], rfl, .refl, List.forall_mem_nil _, .inl, fun _ => .inl rfl, (by rintro _ ⟨⟩), (by intros; contradiction), ?_⟩
    rintro _ _ ⟨rfl, rfl⟩
    rfl

-- What each action preserves of the callback's dialogue holds at its end.
theorem Inside.callback {fuel depth : Nat} {k : Callback} (hi : Inside s.runtime)
    (ho : s.opening → s.transitionActive) (J : Option Reply → Switch → Log → Prop)
    (start : J none s w)
    (step : ∀ {last s₁ w₁ action new reply s₂}, Aside s s₁ → J last s₁ w₁ →
      Did s₁ action new reply s₂ →
      J (some reply) s₂ (new ++ ⟨.next k last, .act action⟩ :: w₁))
    (h : Does (runCallback fuel depth k) s w x s' w') :
    ∃ last w₁, Aside s s' ∧ J last s' w₁ ∧ w' = ⟨.next k last, .done x⟩ :: w₁ := by
  cases depth with
  | zero => exact absurd h returns_hang
  | succ depth =>
    rw [runCallback] at h
    have round (last s₁ w₁ last' s₂ w₂) (hi' : Aside s s₁ ∧ J last s₁ w₁)
        (h : Does (answer (runCallback fuel depth) k last) s₁ w₁ (.inr last') s₂ w₂) :
        Aside s s₂ ∧ J last' s₂ w₂ := by
      obtain ⟨ha, hj⟩ := hi'
      simp only [answer, returns_bind] at h
      obtain ⟨next, s₃, w₃, hn, h⟩ := h
      obtain ⟨rfl, rfl⟩ := does_ask.mp hn
      cases next
      case done r     => simp at h
      case act action =>
        simp at h
        obtain ⟨reply, rfl, hp⟩ := h
        have ho' : s₃.opening → s₃.transitionActive := by
          rw [ha.opening, ha.transitionActive]
          exact ho
        obtain ⟨new, rfl, hd⟩ := Inside.perform (ha.inside hi) ho' hp
        exact ⟨ha.trans hd.aside, step ha hj hd⟩
    obtain ⟨last, s₁, w₁, ⟨ha, hj⟩, h⟩ := Returns.loop _ round ⟨.refl, start⟩ h
    simp only [answer, returns_bind] at h
    obtain ⟨next, s₂, w₂, hn, h⟩ := h
    obtain ⟨rfl, rfl⟩ := does_ask.mp hn
    cases next
    case done r =>
      simp at h
      obtain ⟨rfl, rfl, rfl⟩ := h
      exact ⟨last, w₁, ha, hj, rfl⟩
    case act action => simp at h

end App
