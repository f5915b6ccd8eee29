import HackyLens.Lib.Run

-- Programs that preserve a property of the volatile state, whatever the world answers.

namespace Prog

variable {C : Type} {R : C → Type} {σ α β : Type}

def Preserves (P : σ → Prop) (p : Prog C R σ α) : Prop :=
  ∀ s, P s → Ensures (fun _ => True) p (fun _ => P) s

-- What is ensured for all answers holds after a run that is not cut short.
theorem Ensures.of_run {W D : Type} {h : Handler C R W D} {ds : List D} {w w' : W} {a : α}
    {p : Prog C R σ α} {Q : α → σ → Prop} {s s' : σ} (hp : Ensures (fun _ => True) p Q s)
    (hr : p.run h s ds w = .done (a, s') w') : Q a s' := by
  let E : Env C R W D := ⟨h, fun _ => True, fun _ _ => True, fun _ => True⟩
  have hw : wp E p (fun a s _ => Q a s ∧ True) s w :=
    hp.keeps (fun _ => True) (fun _ _ _ _ => ⟨trivial, fun _ _ => trivial⟩)
      (fun _ _ => trivial) trivial
  have hm : (p.run h s ds w).Meets E _ := run_meets (fun _ _ => trivial) hw
  rw [hr] at hm
  exact hm.left

namespace Preserves

variable {P : σ → Prop} {p p' : Prog C R σ α} {f : α → Prog C R σ β} {s : σ}

theorem pure {a : α} : Preserves P (pure a : Prog C R σ α) :=
  fun _ => id

theorem hang : Preserves P (Prog.hang : Prog C R σ α) :=
  fun _ _ => trivial

theorem call {c : C} : Preserves P (Prog.call c : Prog C R σ (R c)) :=
  fun _ h => ⟨trivial, fun _ _ => h⟩

theorem bind (hp : Preserves P p) (hf : ∀ a, Preserves P (f a)) : Preserves P (p >>= f) :=
  fun s h => (hp s h).seq fun a s' h' => hf a s' h'

theorem map {f : α → β} (hp : Preserves P p) : Preserves P (f <$> p) :=
  hp.bind fun _ => pure

-- The property may be used of what was read.
theorem get {f : σ → Prog C R σ β} (hf : ∀ s, P s → Preserves P (f s)) :
    Preserves P (MonadState.get >>= f) :=
  fun s h => hf s h s h

theorem set (h : P s) : Preserves P (MonadStateOf.set s : Prog C R σ PUnit) :=
  fun _ _ => h

theorem modify {g : σ → σ} (hg : ∀ s, P s → P (g s)) :
    Preserves P (modify g : Prog C R σ PUnit) :=
  fun s h => hg s h

theorem ite {b : Prop} [Decidable b] (hp : b → Preserves P p) (hp' : ¬b → Preserves P p') :
    Preserves P (if b then p else p') := by
  split
  case isTrue hb  => exact hp hb
  case isFalse hb => exact hp' hb

theorem forM {l : List β} {f : β → Prog C R σ PUnit} (hf : ∀ b, Preserves P (f b)) :
    Preserves P (l.forM f) := by
  induction l with
  | nil         => exact pure
  | cons b l ih => exact (hf b).bind fun _ => ih

section Run

variable {W D ι : Type} {h : Handler C R W D} {ds : List D} {w w' : W} {a : α} {s' : σ}

theorem of_run (hp : Preserves P p) (hs : P s) (hr : p.run h s ds w = .done (a, s') w') : P s' :=
  (hp s hs).of_run hr

end Run

end Preserves

theorem Run.preserves {W D ι : Type} {h : Handler C R W D} {ops : ι → Prog C R σ α}
    {boot : Option σ} {ok : ι → List D → σ → W → Prop} {s₀ s : σ} {w₀ w : W}
    {es : List (ι × Option α)} {P : σ → Prop} (r : Run h ops boot ok s₀ w₀ es s w)
    (hp : ∀ i, Preserves P (ops i)) (start : P s₀) (hb : ∀ s ∈ boot, P s) : P s := by
  induction r with
  | start            => exact start
  | done _ _ hr ih   => exact (hp _).of_run ih hr
  | lost _ _ _ _ h _ => exact hb _ h

namespace Ensures

variable {ok : C → Prop} {p p' : Prog C R σ α} {Q : α → σ → Prop} {s : σ}

-- Nothing is claimed.
theorem top : Ensures (fun _ => True) p (fun _ _ => True) s := by
  have tree {t : Tree C R (α × σ)} : t.wp (.any R fun _ => True) (fun _ _ => True) () := by
    induction t with
    | ret         => trivial
    | hang        => trivial
    | call c k ih => exact ⟨trivial, fun _ _ => ih _⟩
  exact tree

theorem get {f : σ → Prog C R σ α} (h : Ensures ok (f s) Q s) :
    Ensures ok (MonadState.get >>= f) Q s :=
  h

theorem ite {b : Prop} [Decidable b] (hp : b → Ensures ok p Q s) (hp' : ¬b → Ensures ok p' Q s) :
    Ensures ok (if b then p else p') Q s := by
  split
  case isTrue hb  => exact hp hb
  case isFalse hb => exact hp' hb

end Ensures
end Prog
