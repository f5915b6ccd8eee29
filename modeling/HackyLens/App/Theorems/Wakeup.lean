import HackyLens.App.Theorems.Law
import HackyLens.App.Lifecycle

-- A wakeup token is only good for the instance that obtained it.

namespace App

open Prog

variable {fuel depth : Nat} {s s' : Switch} {w w' : Log} {x : Result}

-- Another instance is prepared, or the stop callback is entered.
def Ends : Sigma Call.Answer → Prop
  | ⟨.prepare _, _⟩    => True
  | ⟨.next .stop _, _⟩ => True
  | _                  => False

-- What is known of a token that has been given to an app before the calls `later`.
def Dated (runtime : Runtime) (later : Log) (token : Token) : Prop :=
  token.contextGeneration < runtime.contextGeneration ∨
    token.contextGeneration = runtime.contextGeneration ∧
      match runtime.state with
      | .running               => ∀ e ∈ later, ¬Ends e
      | .stopping | .faulted   => True
      | .inactive | .starting  => False

structure Wakeups (s : Switch) (w : Log) : Prop where
  tokens : ∀ later callback token next earlier,
    w = later ++ ⟨.next callback (some (.token token)), next⟩ :: earlier →
    Dated s.runtime later token
  verdicts : ∀ later callback token next mid callback' next' earlier,
    w = later ++ ⟨.next callback (some (.validated token .ok)), next⟩ ::
      (mid ++ ⟨.next callback' (some (.token token)), next'⟩ :: earlier) →
    ∀ e ∈ mid, ¬Ends e
  generations : ∀ later callback token next mid callback' token' next' earlier,
    w = later ++ ⟨.next callback (some (.token token)), next⟩ ::
      (mid ++ ⟨.next callback' (some (.token token')), next'⟩ :: earlier) →
    (∃ e ∈ mid, Ends e) → token'.contextGeneration < token.contextGeneration

theorem Dated.accepted {runtime : Runtime} {later : Log} {token : Token}
    (h : Dated runtime later token) (hv : runtime.validateWakeupToken token = .ok) :
    runtime.state = .running ∧ ∀ e ∈ later, ¬Ends e := by
  obtain ⟨hr, hg⟩ := validateWakeupToken_running hv
  refine ⟨hr, ?_⟩
  rw [Dated, hr, hg] at h
  exact (h.resolve_left (UInt32.lt_irrefl _)).right

namespace Wakeups

theorem mono (h : Wakeups s w)
    (hd : ∀ later token, Dated s.runtime later token → Dated s'.runtime later token) :
    Wakeups s' w :=
  ⟨fun _ _ _ _ _ hw => hd _ _ (h.tokens _ _ _ _ _ hw), h.verdicts, h.generations⟩

theorem of_state (h : Wakeups s w) (hs : s'.runtime.state = s.runtime.state)
    (hg : s'.runtime.contextGeneration = s.runtime.contextGeneration) : Wakeups s' w := by
  refine h.mono fun later token hd => ?_
  rw [Dated, hs, hg]
  exact hd

-- A call that does not end a running instance.
theorem cons {e : Sigma Call.Answer} (h : Wakeups s w) (he : s.runtime.state = .running → ¬Ends e)
    (ht : ∀ callback token next, e = ⟨.next callback (some (.token token)), next⟩ →
      s.runtime.state = .running ∧ token.contextGeneration = s.runtime.contextGeneration)
    (hv : ∀ callback token next, e = ⟨.next callback (some (.validated token .ok)), next⟩ →
      s.runtime.validateWakeupToken token = .ok) : Wakeups s (e :: w) where
  tokens later callback token next earlier hw := by
    obtain ⟨rfl, he'⟩ | ⟨later, rfl, rfl⟩ := List.cons_eq_append_iff.mp hw
    · obtain ⟨hr, hg⟩ := ht callback token next (List.cons.inj he'.symm).left
      refine .inr ⟨hg, ?_⟩
      rw [hr]
      exact List.forall_mem_nil _
    · refine (h.tokens later callback token next earlier rfl).imp_right fun ⟨hg, hd⟩ => ⟨hg, ?_⟩
      cases hs : s.runtime.state <;> rw [hs] at hd
      case running =>
        exact List.forall_mem_cons.mpr ⟨he hs, hd⟩
      all_goals exact hd
  verdicts later callback token next mid callback' next' earlier hw := by
    obtain ⟨rfl, he'⟩ | ⟨later, rfl, rfl⟩ := List.cons_eq_append_iff.mp hw
    · obtain ⟨rfl, rfl⟩ := List.cons.inj he'
      exact ((h.tokens mid callback' token next' earlier rfl).accepted
        (hv callback token next rfl)).right
    · exact h.verdicts later callback token next mid callback' next' earlier rfl
  generations later callback token next mid callback' token' next' earlier hw := by
    obtain ⟨rfl, he'⟩ | ⟨later, rfl, rfl⟩ := List.cons_eq_append_iff.mp hw
    · obtain ⟨rfl, rfl⟩ := List.cons.inj he'
      obtain ⟨hr, hg⟩ := ht callback token next rfl
      rintro ⟨e, hm, he⟩
      rw [hg]
      refine (h.tokens mid callback' token' next' earlier rfl).resolve_right fun ⟨_, hd⟩ => ?_
      rw [hr] at hd
      exact hd e hm he
    · exact h.generations later callback token next mid callback' token' next' earlier rfl

-- A call of the runtime that has nothing to do with callbacks.
theorem call {c : Call} {a : c.Answer} (h : Wakeups s w) (hc : c.Quiet ∨ c.Final) :
    Wakeups s (⟨c, a⟩ :: w) := by
  refine h.cons (fun _ he => ?_) ?_ ?_
  · cases c
    case prepare => exact False.elim <| hc.elim id id
    case next    => exact False.elim <| hc.elim id id
    all_goals exact he
  · rintro callback token next ⟨⟩
    exact False.elim <| hc.elim id id
  · rintro callback token next ⟨⟩
    exact False.elim <| hc.elim id id

theorem append {new : Log} (h : Wakeups s w) (hn : ∀ e ∈ new, e.fst.Quiet) :
    Wakeups s (new ++ w) := by
  induction new with
  | nil => exact h
  | cons e new ih =>
    rw [List.forall_mem_cons] at hn
    exact (ih hn.right).call (.inl hn.left)

-- What an app knows within a callback.
structure Within (last : Option Reply) (s : Switch) (w : Log) : Prop where
  wakeups : Wakeups s w
  token : ∀ token, last = some (.token token) →
    s.runtime.state = .running ∧ token.contextGeneration = s.runtime.contextGeneration
  verdict : ∀ token, last = some (.validated token .ok) →
    s.runtime.validateWakeupToken token = .ok

theorem Within.next {k : Callback} {last : Option Reply} {next : Next} (h : Within last s w)
    (hk : k = .stop → s.runtime.state = .stopping) : Wakeups s (⟨.next k last, next⟩ :: w) := by
  refine h.wakeups.cons (fun hr he => ?_) ?_ ?_
  · cases k
    case stop => exact absurd (hr.symm.trans (hk rfl)) nofun
    all_goals exact he
  · rintro callback token next ⟨⟩
    exact h.token token rfl
  · rintro callback token next ⟨⟩
    exact h.verdict token rfl

theorem callback {k : Callback} (hk : k = .stop → s.runtime.state = .stopping)
    (hi : Inside s.runtime) (ho : s.opening → s.transitionActive) (h : Wakeups s w)
    (hd : Does (runCallback fuel depth k) s w x s' w') : Wakeups s' w' := by
  have hc := hi.callback ho Within ⟨h, nofun, nofun⟩ ?_ hd
  · obtain ⟨last, w₁, ha, hw, rfl⟩ := hc
    exact hw.next fun hk' => ha.state.trans (hk hk')
  · intro last s₁ w₁ action new reply s₂ ha hw hd
    refine ⟨?_, ?_, ?_⟩
    · have hn : Wakeups s₁ (⟨.next k last, .act action⟩ :: w₁) :=
        hw.next fun hk' => ha.state.trans (hk hk')
      exact (hn.append hd.quiet).of_state hd.aside.state hd.aside.contextGeneration
    · rintro token ⟨⟩
      rw [hd.aside.state, hd.aside.contextGeneration]
      exact hd.token token rfl
    · rintro token ⟨⟩
      rw [hd.aside.validateWakeupToken]
      exact (hd.validated token .ok rfl).symm

theorem law : Law fuel depth Wakeups where
  call e he h := h.call (.inr he)
  runtime runtime hg _ hs h := by
    obtain hs | hs := hs
    · exact h.of_state hs hg
    · refine h.mono fun later token hd => ?_
      rw [Dated, hs]
      rw [Dated] at hd
      rw [hg]
      exact hd.imp_right fun hd => ⟨hd.left, trivial⟩
  invalidated runtime hg _ h := by
    refine h.mono fun later token hd => ?_
    have hle : token.contextGeneration < runtime.contextGeneration ∨
        token.contextGeneration = runtime.contextGeneration := by
      rw [hg]
      exact hd.imp_right And.left
    obtain ⟨hs, hn⟩ | ⟨-, hn, hm, -⟩ := @invalidateInstance_cases runtime
    · rw [Dated, hs, hn]
      exact hle.imp_right fun hg => ⟨hg, trivial⟩
    · rw [Dated, hn]
      refine .inl ?_
      obtain hlt | he := hle
      · exact UInt32.lt_trans hlt (counter_lt hm)
      · rw [he]
        exact counter_lt hm
  started hs h := by
    refine h.mono fun later token hd => ?_
    rw [Dated, hs] at hd
    exact .inl (hd.resolve_right And.right)
  beside hr _ h := h.of_state (by rw [hr]) (by rw [hr])
  callback _ _ _ _ _ hk hi ho h hd := callback hk hi ho h hd

-- A new instance starts with a generation that no token has.
theorem adopted {d : Descriptor} {answer : Result × Bool} (h : Wakeups s w)
    (hs : s.runtime.state = .inactive) :
    Wakeups (s.adopted d answer.2) (⟨.prepare d, answer⟩ :: w) := by
  have hg : (s.adopted d answer.2).runtime.contextGeneration = s.runtime.contextGeneration := by
    rw [Switch.adopted, Runtime.prepared]
    split <;> rfl
  have hw : Wakeups s (⟨.prepare d, answer⟩ :: w) := by
    refine h.cons (by simp [hs]) ?_ ?_
    · rintro _ _ _ ⟨⟩
    · rintro _ _ _ ⟨⟩
  refine hw.mono fun later token hd => ?_
  rw [Dated, hs] at hd
  rw [Dated, hg]
  exact .inl (hd.resolve_right And.right)

end Wakeups

section Runs

variable {ops : Ops} {teardownBudgetUs : UInt64} {es : List (RuntimeCall × Option Result)}
variable {ok : RuntimeCall → List ((c : Call) → c.Answer) → Switch → Log → Prop}

-- What holds between the calls of the runtime.
structure Waking (s : Switch) (w : Log) : Prop where
  atRest : s.runtime.AtRest
  flags : s.opening → s.transitionActive
  wakeups : Wakeups s w

theorem Waking.call {call : RuntimeCall} (h : Waking s w)
    (hd : Does (runtimeCalls fuel depth call) s w x s' w') : Waking s' w' := by
  obtain ⟨hw, hb, hr⟩ := Wakeups.law.runtimeCall (fun _ _ hs hw => hw.adopted hs)
    (Wakeups.callback (k := .render) nofun) h.atRest h.flags h.wakeups hd
  exact ⟨hr, hb.flags h.flags, hw⟩

-- The last generation is in use, or it was.
def Spent (s : Switch) (_ : Log) : Prop :=
  s.runtime.Exhausted ∧ s.runtime.state ≠ .inactive

theorem Spent.of_aside (h : Spent s w) (ha : Aside s s') : Spent s' w' := by
  rw [Spent, ha.runtime]
  exact h

theorem spent_law : Law fuel depth Spent where
  call _ _ h := h
  runtime runtime hg he hs h := by
    refine ⟨h.left.imp (fun h => hg.trans h) he, ?_⟩
    obtain hs | hs := hs
    · exact hs ▸ h.right
    · simp [hs]
  invalidated runtime hg he h := by
    have hx : runtime.Exhausted := by
      rw [Runtime.Exhausted, hg, he]
      exact h.left
    refine ⟨hx.invalidateInstance.left, ?_⟩
    simp [hx.invalidateInstance.right]
  started hs h := ⟨h.left, nofun⟩
  beside hr _ h := by
    rw [Spent, hr]
    exact h
  callback _ _ _ _ _ _ hi ho h hd := h.of_aside (hi.aside ho hd)

theorem Spent.call {call : RuntimeCall} (h : Waking s w) (hx : Spent s w)
    (hd : Does (runtimeCalls fuel depth call) s w x s' w') : Spent s' w' :=
  (spent_law.runtimeCall (fun _ _ hs hx => absurd hs hx.right)
    (fun hi ho hx hd => hx.of_aside (hi.aside ho hd)) h.atRest h.flags hx hd).left

-- The token that an event callback obtains in the first instance.
def Token.sample : Token :=
  ⟨tokenSize, tokenVersion, runtimeSlot, 1, 1, 7⟩

end Runs
end App
