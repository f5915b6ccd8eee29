import HackyLens.Lib.Run

-- What a program can return, as a relation between the states before and after it. Each kind of
-- statement has an inversion rule, so that what is known of a program that returned can be taken
-- apart into what its parts returned.

namespace Prog

variable {C : Type} {R : C → Type} {W D : Type} {σ α β : Type} {h : Handler C R W D}

inductive Tree.Returns (h : Handler C R W D) : Tree C R α → W → α → W → Prop
  | ret {a w} : Returns h (.ret a) w a w
  | call {c k w a w'} (d : D) :
    Returns h (k (h d c w).fst) (h d c w).snd a w' → Returns h (.call c k) w a w'

namespace Tree.Returns

theorem of_run {t : Tree C R α} {ds : List D} {w w' : W} {a : α}
    (hr : t.run h ds w = .done a w') : t.Returns h w a w' := by
  induction t generalizing ds w with
  | ret a =>
    cases hr
    exact .ret
  | hang => cases hr
  | call c k ih =>
    cases ds
    case nil       => cases hr
    case cons d ds => exact .call d (ih _ hr)

theorem bind_iff {t : Tree C R α} {f : α → Tree C R β} {w w'' : W} {b : β} :
    (t.bind f).Returns h w b w'' ↔ ∃ a w', t.Returns h w a w' ∧ (f a).Returns h w' b w'' := by
  constructor
  · intro hr
    induction t generalizing w with
    | ret a       => exact ⟨a, w, .ret, hr⟩
    | hang        => cases hr
    | call c k ih =>
      cases hr with
      | call d hr =>
        obtain ⟨a, w', ha, hb⟩ := ih _ hr
        exact ⟨a, w', .call d ha, hb⟩
  · rintro ⟨a, w', ha, hb⟩
    induction ha with
    | ret         => exact hb
    | call d _ ih => exact .call d (ih hb)

end Tree.Returns

-- Some run of `p` from `s` and `w` returns `a` and ends in `s'` and `w'`.
def Returns (h : Handler C R W D) (p : Prog C R σ α) (s : σ) (w : W) (a : α) (s' : σ) (w' : W) :
    Prop :=
  (p s).Returns h w (a, s') w'

variable {p : Prog C R σ α} {s s' : σ} {w w' : W} {a : α}

theorem Returns.of_run {ds : List D} (hr : p.run h s ds w = .done (a, s') w') :
    Returns h p s w a s' w' :=
  Tree.Returns.of_run hr

-- What all calls preserve of the world is preserved.
theorem Returns.world_keeps (Inv : W → Prop) (hc : ∀ d c w, Inv w → Inv (h d c w).snd)
    (hi : Inv w) (hr : Returns h p s w a s' w') : Inv w' := by
  have tree {t : Tree C R (α × σ)} {b w w'} (hi : Inv w) (hr : t.Returns h w b w') : Inv w' := by
    induction hr with
    | ret         => exact hi
    | call d _ ih => exact ih (hc d _ _ hi)
  exact tree hi hr

@[simp]
theorem returns_pure {b : α} :
    Returns h (pure b : Prog C R σ α) s w a s' w' ↔ a = b ∧ s' = s ∧ w' = w := by
  constructor
  · intro hr
    cases hr
    exact ⟨rfl, rfl, rfl⟩
  · rintro ⟨rfl, rfl, rfl⟩
    exact .ret

@[simp]
theorem returns_bind {f : α → Prog C R σ β} {b : β} :
    Returns h (p >>= f) s w b s' w' ↔
      ∃ a s₁ w₁, Returns h p s w a s₁ w₁ ∧ Returns h (f a) s₁ w₁ b s' w' := by
  refine Tree.Returns.bind_iff.trans ?_
  exact ⟨fun ⟨⟨a, s₁⟩, w₁, hr⟩ => ⟨a, s₁, w₁, hr⟩, fun ⟨a, s₁, w₁, hr⟩ => ⟨(a, s₁), w₁, hr⟩⟩

@[simp]
theorem returns_map {f : α → β} {b : β} :
    Returns h (f <$> p) s w b s' w' ↔ ∃ a, b = f a ∧ Returns h p s w a s' w' := by
  rw [map_eq_pure_bind, returns_bind]
  constructor
  · rintro ⟨a, s₁, w₁, hr, hb⟩
    obtain ⟨rfl, rfl, rfl⟩ := returns_pure.mp hb
    exact ⟨a, rfl, hr⟩
  · rintro ⟨a, rfl, hr⟩
    exact ⟨a, s', w', hr, returns_pure.mpr ⟨rfl, rfl, rfl⟩⟩

@[simp]
theorem returns_get {t : σ} :
    Returns h (get : Prog C R σ σ) s w t s' w' ↔ t = s ∧ s' = s ∧ w' = w :=
  returns_pure (b := s) (a := t)

@[simp]
theorem returns_modify {f : σ → σ} {u : PUnit} :
    Returns h (modify f : Prog C R σ PUnit) s w u s' w' ↔ s' = f s ∧ w' = w := by
  constructor
  · intro hr
    cases hr
    exact ⟨rfl, rfl⟩
  · rintro ⟨rfl, rfl⟩
    exact .ret

@[simp]
theorem returns_hang : ¬Returns h (hang : Prog C R σ α) s w a s' w' := by
  intro hr
  cases hr

@[simp]
theorem returns_call {c : C} {r : R c} :
    Returns h (call c) s w r s' w' ↔ ∃ d, r = (h d c w).fst ∧ s' = s ∧ w' = (h d c w).snd := by
  constructor
  · intro hr
    cases hr with
    | call d hr =>
      cases hr
      exact ⟨d, rfl, rfl, rfl⟩
  · rintro ⟨d, rfl, rfl, rfl⟩
    exact .call d .ret

-- A conditional is resolved by splitting.
theorem returns_ite {b : Prop} [Decidable b] {p' : Prog C R σ α} :
    Returns h (if b then p else p') s w a s' w' ↔
      if b then Returns h p s w a s' w' else Returns h p' s w a s' w' := by
  split <;> rfl

-- What a loop's body preserves holds when the last round begins.
theorem Returns.loop {body : β → Prog C R σ (α ⊕ β)} (Inv : β → σ → W → Prop)
    (hb : ∀ b s w b' s' w', Inv b s w → Returns h (body b) s w (.inr b') s' w' → Inv b' s' w')
    {b : β} {fuel : Nat} (hi : Inv b s w) (hr : Returns h (loop body fuel b) s w a s' w') :
    ∃ b s w, Inv b s w ∧ Returns h (body b) s w (.inl a) s' w' := by
  induction fuel generalizing b s w with
  | zero => exact absurd hr returns_hang
  | succ fuel ih =>
    rw [Prog.loop, returns_bind] at hr
    obtain ⟨r, s₁, w₁, hr, hn⟩ := hr
    cases r
    case inl a' =>
      obtain ⟨rfl, rfl, rfl⟩ := returns_pure.mp hn
      exact ⟨b, s, w, hi, hr⟩
    case inr b' => exact ih (hb b s w b' s₁ w₁ hi hr) hn

-- A loop by its first round.
theorem Returns.loop_done {body : β → Prog C R σ (α ⊕ β)} {b : β} {fuel : Nat} (hf : 0 < fuel)
    (hr : Returns h (body b) s w (.inl a) s' w') : Returns h (Prog.loop body fuel b) s w a s' w' := by
  obtain ⟨fuel, rfl⟩ := Nat.exists_eq_succ_of_ne_zero (Nat.ne_of_gt hf)
  rw [Prog.loop, returns_bind]
  exact ⟨.inl a, s', w', hr, returns_pure.mpr ⟨rfl, rfl, rfl⟩⟩

theorem Returns.loop_next {body : β → Prog C R σ (α ⊕ β)} {b b' : β} {fuel : Nat} {s₁ : σ} {w₁ : W}
    (hf : 0 < fuel) (hr : Returns h (body b) s w (.inr b') s₁ w₁)
    (hn : Returns h (Prog.loop body (fuel - 1) b') s₁ w₁ a s' w') :
    Returns h (Prog.loop body fuel b) s w a s' w' := by
  obtain ⟨fuel, rfl⟩ := Nat.exists_eq_succ_of_ne_zero (Nat.ne_of_gt hf)
  rw [Prog.loop, returns_bind]
  exact ⟨.inr b', s₁, w₁, hr, hn⟩

-- What is shown of all runs is met by what they return.
theorem Tree.Returns.of_wp {E : Env C R W D} {t : Tree C R α} {Q : α → W → Prop}
    (hd : ∀ d, E.admits d) (hw : t.wp E Q w) (hr : t.Returns E.handler w a w') : Q a w' := by
  induction hr with
  | ret         => exact hw
  | call d _ ih => exact ih (hw.right d (hd d))

theorem Returns.of_wp {E : Env C R W D} {Q : α → σ → W → Prop} (hd : ∀ d, E.admits d)
    (hw : wp E p Q s w) (hr : Returns E.handler p s w a s' w') : Q a s' w' :=
  Tree.Returns.of_wp (Q := fun r : α × σ => Q r.fst r.snd) hd hw hr

-- What is shown of all runs is met by one of them, where no loop can use up its fuel.
theorem Returns.exists_of_wp {E : Env C R W D} {Q : α → σ → W → Prop} (d : D) (hd : E.admits d)
    (hh : ∀ w, ¬E.hung w) (hp : wp E p Q s w) :
    ∃ a s' w', Returns E.handler p s w a s' w' ∧ Q a s' w' := by
  obtain ⟨n, a, s', w', hr, hq⟩ := exists_done (fun _ => d) (fun _ => hd) hh hp
  exact ⟨a, s', w', .of_run hr, hq⟩

-- A run's operations are looked at by what they return.
theorem Run.returns {ι : Type} {ops : ι → Prog C R σ α} {ok : ι → List D → σ → W → Prop} {s₀ : σ}
    {w₀ : W} {es : List (ι × Option α)} (Inv : List (ι × Option α) → σ → W → Prop)
    (start : Inv [] s₀ w₀)
    (step : ∀ {es s w i a s' w'}, Inv es s w → Returns h (ops i) s w a s' w' →
      Inv ((i, some a) :: es) s' w')
    (r : Run h ops none ok s₀ w₀ es s w) : Inv es s w := by
  refine r.invariant Inv start ?_
  intro es s w i ds _ hi
  cases hr : (ops i).run h s ds w with
  | done a w' => exact step hi (.of_run hr)
  | cut | hung => exact nofun

end Prog
