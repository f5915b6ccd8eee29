import HackyLens.Lib.Preserves

-- Worlds that give any answers and draw their own conclusions from them.

namespace Prog

variable {C C' : Type} {R : C → Type} {R' : C' → Type} {σ τ α W : Type}

def observing (step : W → (c : C) → R c → W) : Handler C R W ((c : C) → R c) :=
  fun answer c w => (answer c, step w c (answer c))

-- What is concluded is to meet `Inv` whenever something is asked.
def Env.observing (step : W → (c : C) → R c → W) (Inv : W → Prop) :
    Env C R W ((c : C) → R c) where
  handler  := Prog.observing step
  admits _ := True
  call _   := Inv
  hung     := Inv

-- Programs that keep a relation between their state and the world.
def Keeps {D : Type} (E : Env C R W D) (J : σ → W → Prop) (p : Prog C R σ α) : Prop :=
  ∀ s w, J s w → wp E p (fun _ => J) s w

namespace Keeps

variable {D β : Type} {E : Env C R W D} {J : σ → W → Prop} {p p' : Prog C R σ α}
variable {f : α → Prog C R σ β}

theorem pure {a : α} : Keeps E J (pure a : Prog C R σ α) :=
  fun _ _ h => h

theorem bind (hp : Keeps E J p) (hf : ∀ a, Keeps E J (f a)) : Keeps E J (p >>= f) :=
  fun s w h => wp_seq (hp s w h) hf

theorem map {f : α → β} (hp : Keeps E J p) : Keeps E J (f <$> p) :=
  hp.bind fun _ => pure

theorem get {f : σ → Prog C R σ β} (hf : ∀ s, Keeps E J (f s)) :
    Keeps E J (MonadState.get >>= f) :=
  fun s w h => hf s s w h

-- The relation may be used of what was read.
theorem inspect {f : σ → Prog C R σ β} (hf : ∀ s w, J s w → wp E (f s) (fun _ => J) s w) :
    Keeps E J (MonadState.get >>= f) :=
  fun s w h => hf s w h

theorem modify {g : σ → σ} (hg : ∀ s w, J s w → J (g s) w) :
    Keeps E J (modify g : Prog C R σ PUnit) :=
  fun s w h => hg s w h

theorem ite {b : Prop} [Decidable b] (hp : b → Keeps E J p) (hp' : ¬b → Keeps E J p') :
    Keeps E J (if b then p else p') := by
  split
  case isTrue hb  => exact hp hb
  case isFalse hb => exact hp' hb

theorem loop {body : β → Prog C R σ (α ⊕ β)} {fuel : Nat} {b : β}
    (hh : ∀ s w, J s w → E.hung w) (hb : ∀ b, Keeps E J (body b)) :
    Keeps E J (.loop body fuel b) := by
  intro s w h
  refine wp_loop (fun _ => J) (fun _ => hh) ?_ h
  intro b s w h
  refine wp_mono (hb b s w h) ?_
  rintro (_ | _) _ _ h <;> exact h

end Keeps

section Observing

variable {step : W → (c : C) → R c → W} {Inv : W → Prop} {p : Prog C R σ α} {s : σ} {w : W}

theorem wp_observed {c : C} {Q : R c → σ → W → Prop} (hi : Inv w) (h : ∀ r, Q r s (step w c r)) :
    wp (.observing step Inv) (call c) Q s w :=
  ⟨hi, fun answer _ => h (answer c)⟩

theorem Keeps.observed {c : C} {J : σ → W → Prop} (hi : ∀ s w, J s w → Inv w)
    (hs : ∀ s w r, J s w → J s (step w c r)) : Keeps (.observing step Inv) J (call c) :=
  fun s w h => wp_observed (hi s w h) fun r => hs s w r h

-- The conclusions also meet `Inv` where the program is cut short.
theorem observed_world {Q : α → σ → W → Prop} {answers : List ((c : C) → R c)}
    (h : wp (.observing step Inv) p Q s w) (hq : ∀ a s w, Q a s w → Inv w) :
    Inv (p.run (observing step) s answers w).world := by
  have hm : (p.run (observing step) s answers w).Meets (.observing step Inv) _ :=
    run_meets (fun _ _ => trivial) h
  revert hm
  cases p.run (observing step) s answers w
  case done a w => exact hq _ _ _
  case cut w    => exact fun ⟨_, h⟩ => h
  case hung w   => exact id

variable (Inv) in
-- An invariant of all operations holds along the runs of the system.
theorem Run.observed {ι : Type} {ops : ι → Prog C R σ α}
    {ok : ι → List ((c : C) → R c) → σ → W → Prop} {s₀ : σ} {w₀ : W} {es : List (ι × Option α)}
    (J : σ → W → Prop) (start : J s₀ w₀)
    (hops : ∀ i ds s w, ok i ds s w → J s w → wp (.observing step Inv) (ops i) (fun _ => J) s w)
    (r : Run (observing step) ops none ok s₀ w₀ es s w) : J s w := by
  refine r.invariant (fun _ => J) start ?_
  intro es s w i ds ho hj
  have hm := run_meets (fun d (_ : d ∈ ds) => trivial) (hops i ds s w ho hj)
  revert hm
  show Outcome.Meets _ _ ((ops i).run (observing step) s ds w) → _
  cases (ops i).run (observing step) s ds w
  case done => exact id
  all_goals exact fun _ _ h => nomatch h

end Observing

-- What a part of the program does to its part of the state.
theorem wp_focused {D : Type} {E : Env (C ⊕ C') (Sum.elim R R') W D} {p : Prog C R σ α}
    {Q : α → σ → W → Prop} {get : τ → σ} {put : σ → τ → τ} {t : τ} {w : W}
    (hp : Prog.wp E.left p Q (get t) w) :
    Prog.wp E (p.focus get put) (fun a t' w' => ∃ s, Q a s w' ∧ t' = put s t) t w :=
  wp_focus.mpr <| wp_mono hp fun _ s _ hq => ⟨s, hq, rfl⟩

-- A call of a part of the program.
theorem wp_observed_left {step : W → (c : C ⊕ C') → Sum.elim R R' c → W} {Inv : W → Prop} {c : C}
    {Q : R c → σ → W → Prop} {s : σ} {w : W} (hi : Inv w)
    (h : ∀ r : R c, Q r s (step w (.inl c) r)) :
    Prog.wp (Env.observing step Inv).left (call c) Q s w :=
  ⟨hi, fun answer _ => h (answer (.inl c))⟩

-- A part of the program whose calls the observer does not notice.
theorem Ensures.unnoticed {step : W → (c : C ⊕ C') → Sum.elim R R' c → W} {Inv : W → Prop}
    {ok : C → Prop} {p : Prog C R σ α} {Q : α → σ → Prop} {get : τ → σ} {put : σ → τ → τ} {t : τ}
    {w : W} (hs : ∀ w c r, ok c → step w (.inl c) r = w) (he : Ensures ok p Q (get t))
    (hi : Inv w) :
    Prog.wp (.observing step Inv) (p.focus get put)
      (fun a t' w' => w' = w ∧ ∃ s, Q a s ∧ t' = put s t) t w := by
  refine wp_focus.mpr (wp_mono (he.keeps (· = w) ?_ ?_ rfl) ?_)
  · rintro c _ hc rfl
    exact ⟨hi, fun answer _ => hs _ c _ hc⟩
  · rintro _ rfl
    exact hi
  · rintro a s _ ⟨hq, rfl⟩
    exact ⟨rfl, s, hq, rfl⟩

end Prog
