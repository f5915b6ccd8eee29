import HackyLens.Lib.Wp

-- Sequences of operations on a volatile state and a world. When an operation is cut short, the
-- volatile state is lost.

namespace Prog

variable {C : Type} {R : C → Type} {σ ι α W D : Type}

-- `Run h ops boot ok s₀ w₀ es s w`: from `s₀` and `w₀` the operations `es` lead to `s` and `w`. The
-- latest one comes first, and the ones that did not finish have no result. Each of them was `ok` for
-- the decisions that the world took and for the state in which it started. There is no `boot` where
-- an operation that does not finish ends the run.
inductive Run (h : Handler C R W D) (ops : ι → Prog C R σ α) (boot : Option σ)
    (ok : ι → List D → σ → W → Prop) (s₀ : σ) (w₀ : W) : List (ι × Option α) → σ → W → Prop
  | start : Run h ops boot ok s₀ w₀ [] s₀ w₀
  | done {es s w i ds a s' w'} :
    Run h ops boot ok s₀ w₀ es s w → ok i ds s w → (ops i).run h s ds w = .done (a, s') w' →
    Run h ops boot ok s₀ w₀ ((i, some a) :: es) s' w'
  | lost {es s w i ds s' o} :
    Run h ops boot ok s₀ w₀ es s w → ok i ds s w → (ops i).run h s ds w = o → o.result = none →
    boot = some s' → Run h ops boot ok s₀ w₀ ((i, none) :: es) s' o.world

variable {h : Handler C R W D} {ops : ι → Prog C R σ α} {boot : Option σ}
variable {ok : ι → List D → σ → W → Prop} {s₀ : σ} {w₀ : W} {es : List (ι × Option α)} {s : σ} {w : W}

-- What is to be shown of one operation, so that `Inv` holds along all runs.
def Kept (boot : Option σ) (Inv : List (ι × Option α) → σ → W → Prop)
    (es : List (ι × Option α)) (i : ι) : Outcome (α × σ) W → Prop
  | .done (a, s) w    => Inv ((i, some a) :: es) s w
  | .cut w | .hung w => ∀ s ∈ boot, Inv ((i, none) :: es) s w

theorem Run.invariant (Inv : List (ι × Option α) → σ → W → Prop) (start : Inv [] s₀ w₀)
    (step : ∀ {es s w i ds}, ok i ds s w → Inv es s w →
      Kept boot Inv es i ((ops i).run h s ds w))
    (r : Run h ops boot ok s₀ w₀ es s w) : Inv es s w := by
  induction r with
  | start => exact start
  | done r ho hr ih =>
    have hk := step ho ih
    rw [hr] at hk
    exact hk
  | lost r ho hr hn hb ih =>
    have hk := step ho ih
    rw [hr] at hk
    revert hn hk
    cases ‹Outcome _ _› <;> intro hn hk
    case done => cases hn
    all_goals exact hk _ hb

theorem Tree.run_keeps {t : Tree C R α} {ds : List D} (Inv : W → Prop)
    (hc : ∀ d c w, Inv w → Inv (h d c w).snd) (hi : Inv w) : Inv (t.run h ds w).world := by
  induction t generalizing ds w with
  | ret | hang  => exact hi
  | call c k ih =>
    cases ds
    case nil       => exact hi
    case cons d ds => exact ih _ <| hc d c w hi

-- What all calls preserve of the world is preserved by all runs.
theorem Run.world_invariant (r : Run h ops boot ok s₀ w₀ es s w) (Inv : W → Prop) (start : Inv w₀)
    (hc : ∀ d c w, Inv w → Inv (h d c w).snd) : Inv w := by
  have run {p : Prog C R σ α} {s ds w o} (hr : p.run h s ds w = o) (hi : Inv w) : Inv o.world :=
    hr ▸ Tree.run_keeps Inv hc hi
  induction r with
  | start                => exact start
  | done _ _ hr ih       => exact run hr ih
  | lost _ _ hr _ _ ih   => exact run hr ih

section Execute

-- The history, the state and the world after one more operation.
def after (boot : Option σ) (es : List (ι × Option α)) (i : ι) :
    Outcome (α × σ) W → Option (List (ι × Option α) × σ × W)
  | .done (a, s) w   => some ((i, some a) :: es, s, w)
  | .cut w | .hung w => boot.map fun s => ((i, none) :: es, s, w)

-- The run for a list of operations and decisions, unless one of them is not `ok`.
def execute (h : Handler C R W D) (ops : ι → Prog C R σ α) (boot : Option σ)
    (ok : ι → List D → σ → W → Prop) [∀ i ds s w, Decidable (ok i ds s w)] :
    List (ι × List D) → List (ι × Option α) × σ × W → Option (List (ι × Option α) × σ × W)
  | [],              x          => some x
  | (i, ds) :: rest, (es, s, w) =>
    if ok i ds s w then
      (after boot es i ((ops i).run h s ds w)).bind (execute h ops boot ok rest)
    else
      none

theorem Run.after {i : ι} {ds : List D} {x : List (ι × Option α) × σ × W}
    (r : Run h ops boot ok s₀ w₀ es s w) (ho : ok i ds s w)
    (hx : Prog.after boot es i ((ops i).run h s ds w) = some x) :
    Run h ops boot ok s₀ w₀ x.1 x.2.1 x.2.2 := by
  cases hr : (ops i).run h s ds w <;> rw [hr] at hx
  case done a w =>
    cases hx
    exact .done r ho hr
  all_goals
    obtain ⟨_, hb, hx⟩ := Option.map_eq_some_iff.mp hx
    subst hx
    exact .lost r ho hr rfl hb

variable [∀ i ds s w, Decidable (ok i ds s w)]

theorem Run.execute {steps : List (ι × List D)} {x : List (ι × Option α) × σ × W}
    (r : Run h ops boot ok s₀ w₀ es s w)
    (hx : Prog.execute h ops boot ok steps (es, s, w) = some x) :
    Run h ops boot ok s₀ w₀ x.1 x.2.1 x.2.2 := by
  induction steps generalizing es s w with
  | nil =>
    cases hx
    exact r
  | cons step steps ih =>
    rw [Prog.execute] at hx
    split at hx
    case isFalse => cases hx
    case isTrue ho =>
      obtain ⟨_, ha, hx⟩ := Option.bind_eq_some_iff.mp hx
      exact ih (r.after ho ha) hx

-- A run with a certain property can be found by executing it.
theorem exists_run {P : List (ι × Option α) → σ → W → Prop} (steps : List (ι × List D))
    (hx : ∃ x ∈ Prog.execute h ops boot ok steps ([], s₀, w₀), P x.1 x.2.1 x.2.2) :
    ∃ es s w, Run h ops boot ok s₀ w₀ es s w ∧ P es s w := by
  obtain ⟨⟨es, s, w⟩, hx, hp⟩ := hx
  exact ⟨es, s, w, Run.start.execute hx, hp⟩

end Execute

end Prog
