import HackyLens.Lib.Prog

-- Weakest preconditions for programs that can be cut short. Besides the postcondition there is a
-- condition on the world at each call, which is also where a run can stop.

namespace Prog

structure Env (C : Type) (R : C → Type) (W D : Type) where
  handler : Handler C R W D
  -- The decisions that the world is assumed to take.
  admits : D → Prop
  -- What is to hold of the world whenever a call is made, and whenever a loop hangs.
  call : C → W → Prop
  hung : W → Prop

variable {C : Type} {R : C → Type} {σ α β W D : Type} {E : Env C R W D}

def Outcome.Meets (E : Env C R W D) (Q : α → W → Prop) : Outcome α W → Prop
  | .done a w => Q a w
  | .cut w    => ∃ c, E.call c w
  | .hung w   => E.hung w

namespace Tree

def wp (E : Env C R W D) : Tree C R α → (α → W → Prop) → W → Prop
  | ret a,    Q, w => Q a w
  | hang,     _, w => E.hung w
  | call c k, Q, w =>
    E.call c w ∧ ∀ d, E.admits d → (k (E.handler d c w).fst).wp E Q (E.handler d c w).snd

variable {Q Q' : α → W → Prop}

theorem wp_bind {t : Tree C R α} {f : α → Tree C R β} {Q : β → W → Prop} {w : W} :
    (t.bind f).wp E Q w ↔ t.wp E (fun a => (f a).wp E Q) w := by
  induction t generalizing w with
  | ret | hang  => rfl
  | call c k ih => simp only [Tree.bind, wp, ih]

theorem wp_mono (hq : ∀ a w, Q a w → Q' a w) {t : Tree C R α} {w : W} (h : t.wp E Q w) :
    t.wp E Q' w := by
  induction t generalizing w with
  | ret a       => exact hq a w h
  | hang        => exact h
  | call c k ih => exact ⟨h.left, fun d hd => ih _ <| h.right d hd⟩

theorem run_meets {t : Tree C R α} {ds : List D} {w : W} (hd : ∀ d ∈ ds, E.admits d)
    (h : t.wp E Q w) : (t.run E.handler ds w).Meets E Q := by
  induction t generalizing ds w with
  | ret | hang  => exact h
  | call c k ih =>
    cases ds
    case nil       => exact ⟨c, h.left⟩
    case cons d ds =>
      obtain ⟨hd, hds⟩ := List.forall_mem_cons.mp hd
      exact ih _ hds <| h.right d hd

end Tree

-- With enough decisions no run is cut short.
theorem Tree.exists_uncut {h : Handler C R W D} {t : Tree C R α} {w : W} (d : D) :
    ∃ n, ∀ w', t.run h (.replicate n d) w ≠ .cut w' := by
  induction t generalizing w with
  | ret | hang  => exact ⟨0, fun _ => nofun⟩
  | call c k ih =>
    obtain ⟨n, hn⟩ := @ih (h d c w).fst (h d c w).snd
    exact ⟨n + 1, hn⟩

def wp (E : Env C R W D) (p : Prog C R σ α) (Q : α → σ → W → Prop) (s : σ) (w : W) : Prop :=
  (p s).wp E (fun a => Q a.fst a.snd) w

variable {p : Prog C R σ α} {Q Q' : α → σ → W → Prop} {s : σ} {w : W}

theorem run_meets {ds : List D} (hd : ∀ d ∈ ds, E.admits d) (h : wp E p Q s w) :
    (p.run E.handler s ds w).Meets E (fun a => Q a.fst a.snd) :=
  Tree.run_meets hd h

theorem wp_mono (h : wp E p Q s w) (hq : ∀ a s w, Q a s w → Q' a s w) : wp E p Q' s w := by
  refine Tree.wp_mono ?_ h
  exact fun a => hq a.fst a.snd

theorem Tree.wp_and {t : Tree C R α} {Q Q' : α → W → Prop} {w : W} (h : t.wp E Q w)
    (h' : t.wp E Q' w) : t.wp E (fun a w => Q a w ∧ Q' a w) w := by
  induction t generalizing w with
  | ret         => exact ⟨h, h'⟩
  | hang        => exact h
  | call c k ih => exact ⟨h.left, fun d hd => ih _ (h.right d hd) (h'.right d hd)⟩

theorem wp_and (h : wp E p Q s w) (h' : wp E p Q' s w) :
    wp E p (fun a s w => Q a s w ∧ Q' a s w) s w :=
  Tree.wp_and h h'

-- What is already known of a program may be assumed of its results.
theorem wp_assuming {P : α → σ → W → Prop} (hp : wp E p P s w)
    (h : wp E p (fun a s w => P a s w → Q a s w) s w) : wp E p Q s w :=
  wp_mono (wp_and hp h) fun _ _ _ hq => hq.right hq.left

-- What holds for all decisions holds for some of them.
theorem Tree.wp_restrict {admits : D → Prop} (ha : ∀ d, admits d → E.admits d) {t : Tree C R α}
    {Q : α → W → Prop} {w : W} (h : t.wp E Q w) : t.wp { E with admits } Q w := by
  induction t generalizing w with
  | ret | hang  => exact h
  | call c k ih => exact ⟨h.left, fun d hd => ih _ (h.right d (ha d hd))⟩

theorem wp_restrict {admits : D → Prop} (ha : ∀ d, admits d → E.admits d) (h : wp E p Q s w) :
    wp { E with admits } p Q s w :=
  Tree.wp_restrict ha h

@[simp]
theorem wp_pure {a : α} : wp E (pure a : Prog C R σ α) Q = Q a :=
  rfl

@[simp]
theorem wp_bind {f : α → Prog C R σ β} {Q : β → σ → W → Prop} :
    wp E (p >>= f) Q = wp E p fun a => wp E (f a) Q :=
  funext fun _ => funext fun _ => propext Tree.wp_bind

theorem wp_seq {f : α → Prog C R σ β} {P : α → σ → W → Prop} {Q : β → σ → W → Prop}
    (hp : wp E p P s w) (hf : ∀ a s w, P a s w → wp E (f a) Q s w) : wp E (p >>= f) Q s w :=
  wp_bind ▸ wp_mono hp hf

@[simp]
theorem wp_map {f : α → β} {Q : β → σ → W → Prop} :
    wp E (f <$> p) Q = wp E p fun a => Q (f a) :=
  funext fun _ => funext fun _ => propext Tree.wp_bind

@[simp]
theorem wp_get {Q : σ → σ → W → Prop} : wp E (get : Prog C R σ σ) Q = fun s => Q s s :=
  rfl

@[simp]
theorem wp_set {Q : PUnit → σ → W → Prop} {s : σ} :
    wp E (set s : Prog C R σ PUnit) Q = fun _ => Q ⟨⟩ s :=
  rfl

@[simp]
theorem wp_modify {Q : PUnit → σ → W → Prop} {f : σ → σ} :
    wp E (modify f : Prog C R σ PUnit) Q = fun s => Q ⟨⟩ (f s) :=
  rfl

@[simp]
theorem wp_hang : wp E (hang : Prog C R σ α) Q = fun _ => E.hung :=
  rfl

@[simp]
theorem wp_call {c : C} {Q : R c → σ → W → Prop} :
    wp E (call c) Q = fun s w =>
      E.call c w ∧ ∀ d, E.admits d → Q (E.handler d c w).fst s (E.handler d c w).snd :=
  rfl

@[simp]
theorem wp_zoom {τ : Type} {get : τ → σ} {put : σ → τ → τ} {Q : α → τ → W → Prop} :
    wp E (zoom get put p) Q = fun t w => wp E p (fun a s => Q a (put s t)) (get t) w :=
  funext fun _ => funext fun _ => propext Tree.wp_bind

@[simp]
theorem wp_ite {b : Prop} [Decidable b] {p' : Prog C R σ α} :
    wp E (if b then p else p') Q = if b then wp E p Q else wp E p' Q := by
  split <;> rfl

-- An invariant of the loop's body, for runs that may also hang.
theorem wp_loop {body : β → Prog C R σ (α ⊕ β)} (Inv : β → σ → W → Prop)
    (hh : ∀ b s w, Inv b s w → E.hung w)
    (hb : ∀ b s w, Inv b s w → wp E (body b) (fun r s w => r.elim (Q · s w) (Inv · s w)) s w)
    {b : β} {fuel : Nat} (h : Inv b s w) : wp E (loop body fuel b) Q s w := by
  induction fuel generalizing b s w with
  | zero => exact hh _ _ _ h
  | succ fuel ih =>
    rw [loop, wp_bind]
    refine wp_mono (hb _ _ _ h) ?_
    intro r s w hr
    cases r
    case inl a => exact hr
    case inr b => exact ih hr

-- The invariant counts how many more rounds there are, so that the loop is known to end.
theorem wp_loop_of_lt {body : β → Prog C R σ (α ⊕ β)} (Inv : Nat → β → σ → W → Prop)
    (hb : ∀ n b s w, Inv n b s w →
      wp E (body b) (fun r s w => r.elim (Q · s w) (fun b => ∃ m < n, Inv m b s w)) s w)
    {b : β} {n fuel : Nat} (hf : n < fuel) (h : Inv n b s w) : wp E (loop body fuel b) Q s w := by
  induction fuel generalizing b s w n with
  | zero => exact absurd hf (Nat.not_lt_zero n)
  | succ fuel ih =>
    rw [loop, wp_bind]
    refine wp_mono (hb _ _ _ _ h) ?_
    intro r s w hr
    cases r
    case inl a => exact hr
    case inr b =>
      obtain ⟨m, hm, h⟩ := hr
      exact ih (Nat.lt_of_lt_of_le hm (Nat.le_of_lt_succ hf)) h

theorem wp_allM {f : β → Prog C R σ Bool} (Inv : σ → W → Prop)
    (hf : ∀ b s w, Inv s w → wp E (f b) (fun _ => Inv) s w) {l : List β} (h : Inv s w) :
    wp E (l.allM f) (fun _ => Inv) s w := by
  induction l generalizing s w with
  | nil => exact h
  | cons b l ih =>
    rw [List.allM, wp_bind]
    refine wp_mono (hf b s w h) ?_
    intro r s w hr
    cases r
    case false => exact hr
    case true  => exact ih hr

-- Nothing is known about the answers. All that is asked of a call is `ok`.
def Env.any (R : C → Type) (ok : C → Prop) : Env C R Unit ((c : C) → R c) where
  handler d c w := ⟨d c, w⟩
  admits _      := True
  call c _      := ok c
  hung _        := True

-- As `Env.any`, where no loop may use up its fuel.
def Env.total (R : C → Type) (ok : C → Prop) : Env C R Unit ((c : C) → R c) :=
  { Env.any R ok with hung := fun _ => False }

-- What the calls that are `ok` preserve of the world is preserved by a program that ends.
theorem Tree.total_keeps {ok : C → Prop} {t : Tree C R α} {P : α → Prop} {w : W} (Inv : W → Prop)
    (hc : ∀ c w, ok c → Inv w → E.call c w ∧ ∀ d, E.admits d → Inv (E.handler d c w).snd)
    (ht : t.wp (.total R ok) (fun a _ => P a) ()) (h : Inv w) :
    t.wp E (fun a w => P a ∧ Inv w) w := by
  induction t generalizing w with
  | ret a       => exact ⟨ht, h⟩
  | hang        => exact ht.elim
  | call c k ih =>
    obtain ⟨hl, hr⟩ := hc c w ht.left h
    refine ⟨hl, fun d hd => ih _ ?_ (hr d hd)⟩
    exact ht.right (fun c => (E.handler d c w).fst) ⟨⟩

-- Where no loop can use up its fuel, finitely many decisions lead to the end.
theorem Tree.exists_done {t : Tree C R α} {Q : α → W → Prop} {w : W} (ds : Nat → D)
    (hd : ∀ n, E.admits (ds n)) (hh : ∀ w, ¬E.hung w) (h : t.wp E Q w) :
    ∃ n a w', t.run E.handler ((List.range n).map ds) w = .done a w' ∧ Q a w' := by
  induction t generalizing ds w with
  | ret a       => exact ⟨0, a, w, rfl, h⟩
  | hang        => exact absurd h (hh w)
  | call c k ih =>
    obtain ⟨n, a, w', hr, hq⟩ := ih _ (ds <| · + 1) (fun n => hd (n + 1)) (h.right (ds 0) (hd 0))
    refine ⟨n + 1, a, w', ?_, hq⟩
    rw [List.range_succ_eq_map, List.map_cons, List.map_map]
    exact hr

theorem exists_done (ds : Nat → D) (hd : ∀ n, E.admits (ds n)) (hh : ∀ w, ¬E.hung w)
    (h : wp E p Q s w) :
    ∃ n a s' w', p.run E.handler s ((List.range n).map ds) w = .done (a, s') w' ∧ Q a s' w' := by
  obtain ⟨n, a, w', hr, hq⟩ := Tree.exists_done ds hd hh h
  exact ⟨n, a.fst, a.snd, w', hr, hq⟩

-- A program that ends meets what is shown of it in a world where it might not.
theorem Tree.wp_of_total {ok : C → Prop} {t : Tree C R α} {P : α → Prop} {Q : α → W → Prop} {w : W}
    (ht : t.wp (.total R ok) (fun a _ => P a) ())
    (h : t.wp { E with hung := fun _ => True } Q w) : t.wp E Q w := by
  induction t generalizing w with
  | ret a       => exact h
  | hang        => exact ht.elim
  | call c k ih =>
    refine ⟨h.left, fun d hd => ih _ ?_ (h.right d hd)⟩
    exact ht.right (fun c => (E.handler d c w).fst) ⟨⟩

theorem wp_of_total {ok : C → Prop} {P : α → σ → Prop}
    (ht : wp (.total R ok) p (fun a s _ => P a s) s ())
    (h : wp { E with hung := fun _ => True } p Q s w) : wp E p Q s w :=
  Tree.wp_of_total ht h

-- Whatever the answers are, all calls are `ok` and the results meet `Q`.
def Ensures (ok : C → Prop) (p : Prog C R σ α) (Q : α → σ → Prop) (s : σ) : Prop :=
  wp (.any R ok) p (fun a s _ => Q a s) s ()

namespace Ensures

variable {ok : C → Prop} {Q Q' : α → σ → Prop} {s : σ}

theorem call {c : C} {Q : R c → σ → Unit → Prop} (hc : ok c) (h : ∀ r, Q r s ()) :
    Prog.wp (.any R ok) (.call c) Q s () :=
  ⟨hc, fun d _ => h (d c)⟩

theorem tree_wp {t : Tree C R α} {P : α → Prop} {Q : α → W → Prop} {w : W}
    (he : t.wp (.any R ok) (fun a _ => P a) ()) (h : t.wp E Q w) :
    t.wp E (fun a w => P a ∧ Q a w) w := by
  induction t generalizing w with
  | ret a       => exact ⟨he, h⟩
  | hang        => exact h
  | call c k ih =>
    refine ⟨h.left, fun d hd => ih _ ?_ (h.right d hd)⟩
    exact he.right (fun c => (E.handler d c w).fst) ⟨⟩

-- What is ensured for all answers is added to the postcondition in a particular world.
theorem and_wp {Q' : α → σ → W → Prop} (he : Ensures ok p Q s) (h : wp E p Q' s w) :
    wp E p (fun a s w => Q a s ∧ Q' a s w) s w :=
  tree_wp he h

theorem tree_keeps {t : Tree C R α} {P : α → Prop} {Inv : W → Prop} {w : W}
    (hc : ∀ c w, ok c → Inv w → E.call c w ∧ ∀ d, E.admits d → Inv (E.handler d c w).snd)
    (hh : ∀ w, Inv w → E.hung w) (he : t.wp (.any R ok) (fun a _ => P a) ()) (h : Inv w) :
    t.wp E (fun a w => P a ∧ Inv w) w := by
  induction t generalizing w with
  | ret a       => exact ⟨he, h⟩
  | hang        => exact hh w h
  | call c k ih =>
    obtain ⟨hl, hr⟩ := hc c w he.left h
    refine ⟨hl, fun d hd => ih _ ?_ (hr d hd)⟩
    exact he.right (fun c => (E.handler d c w).fst) ⟨⟩

-- What the calls that are `ok` preserve of the world is preserved by the program.
theorem keeps (Inv : W → Prop)
    (hc : ∀ c w, ok c → Inv w → E.call c w ∧ ∀ d, E.admits d → Inv (E.handler d c w).snd)
    (hh : ∀ w, Inv w → E.hung w) (he : Ensures ok p Q s) (h : Inv w) :
    Prog.wp E p (fun a s w => Q a s ∧ Inv w) s w :=
  tree_keeps hc hh he h

-- What is shown of a program that ends holds where it might not be known to.
theorem of_total (h : Prog.wp (.total R ok) p (fun a s _ => Q a s) s ()) : Ensures ok p Q s := by
  refine Tree.wp_mono (fun _ _ => And.left) (Tree.total_keeps (fun _ => True) ?_ h trivial)
  exact fun _ _ hc _ => ⟨hc, fun _ _ => trivial⟩

theorem weaken {ok' : C → Prop} (hc : ∀ c, ok c → ok' c) (h : Ensures ok p Q s) :
    Ensures ok' p Q s := by
  refine wp_mono (h.keeps (E := .any R ok') (fun _ => True) ?_ ?_ trivial) ?_
  · exact fun c _ ho _ => ⟨hc c ho, fun _ _ => trivial⟩
  · exact fun _ _ => trivial
  · exact fun _ _ _ => And.left

theorem mono (h : Ensures ok p Q s) (hq : ∀ a s, Q a s → Q' a s) : Ensures ok p Q' s :=
  wp_mono h fun a s _ => hq a s

theorem seq {f : α → Prog C R σ β} {Q : β → σ → Prop} {P : α → σ → Prop} (hp : Ensures ok p P s)
    (hf : ∀ a s, P a s → Ensures ok (f a) Q s) : Ensures ok (p >>= f) Q s :=
  wp_seq hp fun a s _ => hf a s

theorem loop {body : β → Prog C R σ (α ⊕ β)} (Inv : β → σ → Prop)
    (hb : ∀ b s, Inv b s → Ensures ok (body b) (fun r s => r.elim (Q · s) (Inv · s)) s)
    {b : β} {fuel : Nat} (h : Inv b s) : Ensures ok (.loop body fuel b) Q s :=
  wp_loop (E := .any R ok) (fun b s _ => Inv b s) (fun _ _ _ _ => ⟨⟩) (fun b s _ => hb b s) h

-- A loop whose body leaves the state alone.
theorem loop_eq {body : β → Prog C R σ (α ⊕ β)} {fuel : Nat} {b : β}
    (hb : ∀ b, Ensures ok (body b) (fun _ => (· = s)) s) :
    Ensures ok (.loop body fuel b) (fun _ => (· = s)) s := by
  refine loop (fun _ => (· = s)) ?_ rfl
  rintro b _ rfl
  refine (hb b).mono ?_
  intro r s hr
  cases r <;> exact hr

end Ensures

section Transport

variable {W' D' : Type} {E' : Env C R W' D'} {ok : C → Prop}

-- What is shown in one world holds in another one that gives the same answers, as long as only calls
-- that are `ok` are made.
theorem Tree.wp_transport {t : Tree C R α} {Q : α → W → Prop} {w : W} {w' : W'}
    (Rel : W → W' → Prop)
    (hc : ∀ c w w', ok c → Rel w w' → E.call c w → E'.call c w' ∧ ∀ d', E'.admits d' →
      ∃ d, E.admits d ∧ (E'.handler d' c w').fst = (E.handler d c w).fst ∧
        Rel (E.handler d c w).snd (E'.handler d' c w').snd)
    (hh : ∀ w w', Rel w w' → E.hung w → E'.hung w')
    (ht : t.wp (.any R ok) (fun _ _ => True) ()) (h : t.wp E Q w) (hr : Rel w w') :
    t.wp E' (fun a w' => ∃ w, Rel w w' ∧ Q a w) w' := by
  induction t generalizing w w' with
  | ret a       => exact ⟨w, hr, h⟩
  | hang        => exact hh w w' hr h
  | call c k ih =>
    obtain ⟨hl, hn⟩ := hc c w w' ht.left hr h.left
    refine ⟨hl, fun d' hd' => ?_⟩
    obtain ⟨d, hd, he, hr'⟩ := hn d' hd'
    rw [he]
    refine ih _ ?_ (h.right d hd) hr'
    exact ht.right (fun c => (E.handler d c w).fst) ⟨⟩

theorem wp_transport {Q : α → σ → W → Prop} {w' : W'} (Rel : W → W' → Prop)
    (hc : ∀ c w w', ok c → Rel w w' → E.call c w → E'.call c w' ∧ ∀ d', E'.admits d' →
      ∃ d, E.admits d ∧ (E'.handler d' c w').fst = (E.handler d c w).fst ∧
        Rel (E.handler d c w).snd (E'.handler d' c w').snd)
    (hh : ∀ w w', Rel w w' → E.hung w → E'.hung w')
    (ht : Ensures ok p (fun _ _ => True) s) (h : wp E p Q s w) (hr : Rel w w') :
    wp E' p (fun a s w' => ∃ w, Rel w w' ∧ Q a s w) s w' :=
  Tree.wp_transport Rel hc hh ht h hr

end Transport

-- The world that gives any answer, and remembers the calls, the latest first.
def answering : Handler C R (List C) ((c : C) → R c) :=
  fun answer c calls => (answer c, c :: calls)

section Answering

variable {ok : C → Prop} {Q : α → σ → Prop} {calls : List C}

-- That world, in which a call is to be `ok`, so that all those remembered are.
def Env.answering (R : C → Type) (ok : C → Prop) : Env C R (List C) ((c : C) → R c) where
  handler       := Prog.answering
  admits _      := True
  call c calls  := ok c ∧ ∀ c ∈ calls, ok c
  hung _        := False

theorem wp_answering (h : wp (.total R ok) p (fun a s _ => Q a s) s ()) (hc : ∀ c ∈ calls, ok c) :
    wp (.answering R ok) p (fun a s calls => Q a s ∧ ∀ c ∈ calls, ok c) s calls := by
  refine Tree.total_keeps (fun calls => ∀ c ∈ calls, ok c) ?_ h hc
  intro c calls ho hc
  exact ⟨⟨ho, hc⟩, fun _ _ => List.forall_mem_cons.mpr ⟨ho, hc⟩⟩

theorem answering_ok {answers : List ((c : C) → R c)}
    (h : wp (.total R ok) p (fun a s _ => Q a s) s ()) (hc : ∀ c ∈ calls, ok c) :
    ∀ c ∈ (p.run answering s answers calls).world, ok c := by
  have hm : (p.run Prog.answering s answers calls).Meets _ _ :=
    run_meets (fun _ _ => trivial) (wp_answering h hc)
  revert hm
  cases p.run Prog.answering s answers calls
  case done a calls => exact And.right
  case cut calls    => exact fun ⟨c, hm⟩ => hm.right
  case hung calls   => exact False.elim

end Answering

-- The same world with a list of the decisions that it took, the latest last.
def Handler.logged (h : Handler C R W D) : Handler C R (W × List D) D :=
  fun d c w => ((h d c w.fst).fst, (h d c w.fst).snd, w.snd ++ [d])

theorem Tree.run_logged {h : Handler C R W D} {t : Tree C R α} {ds taken : List D} {w : W} :
    ∃ used, used <+: ds ∧
      t.run h.logged ds (w, taken) = (t.run h ds w).mapWorld fun w => (w, taken ++ used) := by
  induction t generalizing ds taken w with
  | ret | hang  =>
    refine ⟨[], List.nil_prefix, ?_⟩
    rw [List.append_nil]
    rfl
  | call c k ih =>
    cases ds
    case nil       =>
      refine ⟨[], List.nil_prefix, ?_⟩
      rw [List.append_nil]
      rfl
    case cons d ds =>
      obtain ⟨used, hu, hr⟩ := @ih (h d c w).fst ds (taken ++ [d]) (h d c w).snd
      refine ⟨d :: used, (List.prefix_cons_inj d).mpr hu, ?_⟩
      rw [List.append_assoc] at hr
      exact hr

-- What is shown in the world that remembers its decisions holds with some of the given ones.
theorem run_meets_logged {E : Env C R (W × List D) D} {F : Env C R W D} {P : α → σ → W → Prop}
    {Q : α → σ → W × List D → Prop} {ds : List D} (he : E.handler = F.handler.logged)
    (hd : ∀ d ∈ ds, E.admits d) (h : wp E p Q s (w, []))
    (hq : ∀ a s w used, used <+: ds → Q a s (w, used) → P a s w)
    (hc : ∀ c w used, used <+: ds → E.call c (w, used) → F.call c w)
    (hh : ∀ w used, used <+: ds → E.hung (w, used) → F.hung w) :
    (p.run F.handler s ds w).Meets F fun a => P a.fst a.snd := by
  have hm := run_meets hd h
  obtain ⟨used, hu, hr⟩ := @Tree.run_logged _ _ _ _ _ F.handler (p s) ds [] w
  rw [run, he, hr] at hm
  rw [run]
  revert hm
  cases Tree.run F.handler (p s) ds w
  case done a w => exact hq _ _ _ _ hu
  case cut w    => exact fun ⟨c, hm⟩ => ⟨c, hc _ _ _ hu hm⟩
  case hung w   => exact hh _ _ hu

-- A program on a part of the state only sees the calls of its own world.
def Env.left {C' : Type} {R' : C' → Type} (E : Env (C ⊕ C') (Sum.elim R R') W D) :
    Env C R W D where
  handler d c w := E.handler d (.inl c) w
  admits        := E.admits
  call c        := E.call (.inl c)
  hung          := E.hung

theorem Tree.wp_widen {C' : Type} {R' : C' → Type} {E : Env (C ⊕ C') (Sum.elim R R') W D}
    {t : Tree C R α} {Q : α → W → Prop} {w : W} : t.widen.wp E Q w ↔ t.wp E.left Q w := by
  induction t generalizing w with
  | ret | hang  => rfl
  | call c k ih =>
    refine and_congr_right fun _ => forall_congr' fun d => imp_congr_right fun _ => ?_
    exact ih _

theorem wp_focus {τ C' : Type} {R' : C' → Type} {E : Env (C ⊕ C') (Sum.elim R R') W D}
    {get : τ → σ} {put : σ → τ → τ} {Q : α → τ → W → Prop} {t : τ} :
    wp E (focus get put p) Q t w ↔ wp E.left p (fun a s => Q a (put s t)) (get t) w :=
  Tree.wp_bind.trans Tree.wp_widen

end Prog
