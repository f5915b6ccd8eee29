import HackyLens.App.Theorems.Law

-- Drawing calls from outside of the render callback are refused, unless a render callback has spoiled
-- it for the instance.

namespace App

open Prog

variable {fuel depth : Nat} {s s' : Switch} {w w' : Log} {x : Result}

-- A render callback returns an error or requests to close.
def Spoils : Sigma Call.Answer → Prop
  | ⟨.next .render _, .done result⟩ => callbackResult result ≠ .ok
  | ⟨.next .render _, .act action⟩  => action = .context true .requestClose
  | _                               => False

-- This has happened in the present instance.
def Spoiled (w : Log) : Prop :=
  ∃ later e earlier, w = later ++ e :: earlier ∧ Spoils e ∧ ∀ e ∈ later, ∀ d, e.fst ≠ .prepare d

theorem Spoiled.cons {e : Sigma Call.Answer} (h : Spoiled w) (he : ∀ d, e.fst ≠ .prepare d) :
    Spoiled (e :: w) := by
  obtain ⟨later, e', earlier, rfl, hs, hl⟩ := h
  exact ⟨e :: later, e', earlier, rfl, hs, List.forall_mem_cons.mpr ⟨he, hl⟩⟩

theorem Spoiled.next {callback : Callback} {last : Option Reply} {next : Next} (h : Spoiled w) :
    Spoiled (⟨.next callback last, next⟩ :: w) :=
  h.cons fun d hd => by simp at hd

theorem Spoils.spoiled {e : Sigma Call.Answer} (h : Spoils e) : Spoiled (e :: w) :=
  ⟨[], e, w, rfl, h, List.forall_mem_nil _⟩

-- The next that happens after a drawing call is that the app gets an error.
def Refused (callback : Callback) (e : Sigma Call.Answer) : Prop :=
  ∃ result next, result ≠ Result.ok ∧ e = ⟨.next callback (some (.result result)), next⟩

structure Drawn (w : Log) : Prop where
  refused : ∀ later e callback last drawing earlier,
    w = later ++ e :: ⟨.next callback last, .act (.draw drawing)⟩ :: earlier →
    callback ≠ .render → ¬Spoiled earlier → Refused callback e

-- What is to be done about a drawing call that was made last.
def Awaits (w : Log) (callback : Callback) (last : Option Reply) : Prop :=
  ∀ callback' last' drawing earlier, w = ⟨.next callback' last', .act (.draw drawing)⟩ :: earlier →
    callback' ≠ .render → ¬Spoiled earlier →
    callback' = callback ∧ ∃ result, result ≠ Result.ok ∧ last = some (.result result)

-- The last call was not a drawing call.
def Quieted (w : Log) : Prop :=
  ∀ callback last drawing earlier, w ≠ ⟨.next callback last, .act (.draw drawing)⟩ :: earlier

theorem Drawn.cons {e : Sigma Call.Answer} (h : Drawn w)
    (he : ∀ callback last drawing earlier,
      w = ⟨.next callback last, .act (.draw drawing)⟩ :: earlier → callback ≠ .render →
      ¬Spoiled earlier → Refused callback e) : Drawn (e :: w) where
  refused later e' callback last drawing earlier hw := by
    obtain ⟨rfl, hw⟩ | ⟨later, rfl, rfl⟩ := List.cons_eq_append_iff.mp hw
    · obtain ⟨rfl, rfl⟩ := List.cons.inj hw
      exact he callback last drawing earlier rfl
    · exact h.refused later e' callback last drawing earlier rfl

theorem Drawn.next {callback : Callback} {last : Option Reply} {next : Next} (h : Drawn w)
    (ha : Awaits w callback last) : Drawn (⟨.next callback last, next⟩ :: w) := by
  refine h.cons fun callback' last' drawing earlier hw hk hs => ?_
  obtain ⟨rfl, result, hr, rfl⟩ := ha callback' last' drawing earlier hw hk hs
  exact ⟨result, next, hr, rfl⟩

theorem Drawn.append {new : Log} (h : Drawn w) (hq : Quieted w) (hn : ∀ e ∈ new, Quieted [e]) :
    Drawn (new ++ w) ∧ Quieted (new ++ w) := by
  induction new with
  | nil => exact ⟨h, hq⟩
  | cons e new ih =>
    rw [List.forall_mem_cons] at hn
    obtain ⟨hd, hq'⟩ := ih hn.right
    refine ⟨hd.cons fun _ _ _ _ hw => absurd hw (hq' _ _ _ _), ?_⟩
    intro callback last drawing earlier hw
    obtain ⟨rfl, -⟩ := List.cons.inj hw
    exact hn.left _ _ _ _ rfl

theorem Call.Quiet.quieted {e : Sigma Call.Answer} (h : e.fst.Quiet) : Quieted [e] := by
  rintro _ _ _ _ ⟨⟩
  exact h

theorem Call.Final.quieted {e : Sigma Call.Answer} (h : e.fst.Final) : Quieted [e] := by
  rintro _ _ _ _ ⟨⟩
  exact h

-- Between callbacks, and in all of them but the render callback.
structure Clean (s : Switch) (w : Log) : Prop where
  surface : s.surface.valid = true → Spoiled w
  drawn : Drawn w
  quieted : Quieted w

section Callbacks

variable {k : Callback} {last : Option Reply} {action : Action} {new : Log} {reply : Reply}

-- The calls that are made within an action.
theorem Drawn.within {e₀ : Sigma Call.Answer} (h : Drawn (e₀ :: w)) (hn : ∀ e ∈ new, e.fst.Quiet)
    (hs : ∀ callback last drawing, e₀ = ⟨.next callback last, .act (.draw drawing)⟩ →
      callback ≠ .render → Spoiled w) : Drawn (new ++ e₀ :: w) := by
  induction new with
  | nil => exact h
  | cons e new ih =>
    rw [List.forall_mem_cons] at hn
    refine (ih hn.right).cons fun callback last drawing earlier hw hk hn' => ?_
    cases new with
    | nil =>
      obtain ⟨he, rfl⟩ := List.cons.inj hw
      exact absurd (hs callback last drawing he hk) hn'
    | cons e' new =>
      obtain ⟨rfl, -⟩ := List.cons.inj hw
      exact (hn.right _ (List.mem_cons_self ..)).elim

-- One action of a callback. Only with a valid surface, a drawing call reaches something.
theorem Drawn.act (h : Drawn w) (ha : Awaits w k last)
    (hs : k ≠ .render → s.surface.valid = true → Spoiled w) (hd : Did s action new reply s') :
    Drawn (new ++ ⟨.next k last, .act action⟩ :: w) ∧
      Awaits (new ++ ⟨.next k last, .act action⟩ :: w) k (some reply) := by
  cases hn : new with
  | nil =>
    refine ⟨h.next ha, ?_⟩
    rintro _ _ drawing _ ⟨⟩ hk hn
    obtain ⟨_, result, hr, he⟩ := hd.refused drawing rfl fun hv => hn (hs hk hv)
    exact ⟨rfl, result, hr, by rw [he]⟩
  | cons e new =>
    have hq := hd.quiet
    rw [hn] at hq
    refine ⟨(h.next ha).within hq ?_, ?_⟩
    · rintro _ _ drawing ⟨⟩ hk
      by_contra hw
      obtain ⟨he, _⟩ := hd.refused drawing rfl fun hv => hw (hs hk hv)
      simp [hn] at he
    · intro _ _ _ _ hw
      obtain ⟨rfl, -⟩ := List.cons.inj hw
      exact (hq _ (List.mem_cons_self ..)).elim

-- A callback keeps what its surface allows.
structure Painting (k : Callback) (last : Option Reply) (s : Switch) (w : Log) : Prop where
  surface : k ≠ .render → s.surface.valid = true → Spoiled w
  drawn : Drawn w
  awaits : Awaits w k last
  closing : k = .render → s.runtime.closeRequested = true → Spoiled w

theorem Spoiled.append {new : Log} (h : Spoiled w) (hn : ∀ e ∈ new, e.fst.Quiet) :
    Spoiled (new ++ w) := by
  induction new with
  | nil => exact h
  | cons e new ih =>
    rw [List.forall_mem_cons] at hn
    refine (ih hn.right).cons fun d hd => ?_
    exact (hd ▸ hn.left : (Call.prepare d).Quiet).elim

theorem Painting.act {s₁ s₂ : Switch} (h : Painting k last s₁ w) (hd : Did s₁ action new reply s₂) :
    Painting k (some reply) s₂ (new ++ ⟨.next k last, .act action⟩ :: w) := by
  obtain ⟨hw, ha⟩ := h.drawn.act h.awaits h.surface hd
  refine ⟨fun hk hv => ?_, hw, ha, fun hk hc => ?_⟩
  · exact (h.surface hk (hd.aside.surface hv)).next.append hd.quiet
  · refine Spoiled.append ?_ hd.quiet
    obtain hc | rfl := hd.closeRequested hc
    · exact (h.closing hk hc).next
    · subst hk
      exact Spoils.spoiled rfl

theorem Inside.painting (hi : Inside s.runtime) (ho : s.opening → s.transitionActive)
    (h : Painting k none s w) (hd : Does (runCallback fuel depth k) s w x s' w') :
    Aside s s' ∧ Drawn w' ∧ Quieted w' ∧ (k ≠ .render → s'.surface.valid = true → Spoiled w') ∧
      (k = .render → callbackResult x ≠ .ok ∨ s'.runtime.closeRequested = true → Spoiled w') := by
  obtain ⟨last, w₁, ha, hp, rfl⟩ :=
    hi.callback ho (Painting k) h (fun _ hp hd => hp.act hd) hd
  refine ⟨ha, hp.drawn.next hp.awaits, ?_, fun hk hv => (hp.surface hk hv).next, ?_⟩
  · rintro _ _ _ _ ⟨⟩
  · rintro rfl (hr | hc)
    · exact Spoils.spoiled hr
    · exact (hp.closing rfl hc).next

end Callbacks

theorem Quieted.awaits (h : Quieted w) {k : Callback} : Awaits w k none :=
  fun _ _ _ _ hw => absurd hw (h _ _ _ _)

theorem Clean.quiet {new : Log} (h : Clean s w) (hn : ∀ e ∈ new, e.fst.Quiet) :
    Clean s (new ++ w) := by
  obtain ⟨hd, hq⟩ := h.drawn.append h.quieted fun e he => (hn e he).quieted
  exact ⟨fun hv => (h.surface hv).append hn, hd, hq⟩

theorem clean_law : Law fuel depth Clean where
  call e he h := by
    obtain ⟨hd, hq⟩ := @Drawn.append _ [e] h.drawn h.quieted (by simpa using he.quieted)
    refine ⟨fun hv => (h.surface hv).cons fun d hd => ?_, hd, hq⟩
    exact (hd ▸ he : (Call.prepare d).Final).elim
  runtime _ _ _ _ h := ⟨h.surface, h.drawn, h.quieted⟩
  invalidated _ _ _ h := ⟨h.surface, h.drawn, h.quieted⟩
  started _ h := ⟨h.surface, h.drawn, h.quieted⟩
  beside _ hb h := ⟨h.surface ∘ hb.surface, h.drawn, h.quieted⟩
  callback k _ _ _ hk _ hi ho h hd := by
    have hp : Painting k none _ _ :=
      ⟨fun _ => h.surface, h.drawn, h.quieted.awaits, fun he => absurd he hk⟩
    obtain ⟨_, hd, hq, hs, _⟩ := hi.painting ho hp hd
    exact ⟨hs hk, hd, hq⟩

end App
