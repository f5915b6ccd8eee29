import HackyLens.Lib.Wp

-- Runs of programs that are not cut short. Where the decisions have run out, the world takes a
-- given one from there on, so that only a loop that uses up its fuel does not come to an end.

namespace Prog

variable {C : Type} {R : C → Type} {σ α W D : Type}

def Tree.drive (h : Handler C R W D) (d₀ : D) : Tree C R α → List D → W → Option (α × W)
  | ret a,    _,  w => some (a, w)
  | hang,     _,  _ => none
  | call c k, ds, w =>
    (k (h (ds.headD d₀) c w).fst).drive h d₀ ds.tail (h (ds.headD d₀) c w).snd

def drive (h : Handler C R W D) (d₀ : D) (p : Prog C R σ α) (s : σ) (ds : List D) (w : W) :
    Option ((α × σ) × W) :=
  (p s).drive h d₀ ds w

theorem Tree.drive_meets {E : Env C R W D} {d₀ : D} {t : Tree C R α} {Q : α → W → Prop}
    {ds : List D} {w : W} (h₀ : E.admits d₀) (hd : ∀ d ∈ ds, E.admits d) (hh : ∀ w, ¬E.hung w)
    (h : t.wp E Q w) : ∃ a w', t.drive E.handler d₀ ds w = some (a, w') ∧ Q a w' := by
  induction t generalizing ds w with
  | ret a       => exact ⟨a, w, rfl, h⟩
  | hang        => exact absurd h (hh w)
  | call c k ih =>
    have head : E.admits (ds.headD d₀) := by
      cases ds
      case nil       => exact h₀
      case cons d ds => exact hd d List.mem_cons_self
    exact ih _ (fun d hm => hd d (List.mem_of_mem_tail hm)) (h.right _ head)

theorem drive_meets {E : Env C R W D} {d₀ : D} {p : Prog C R σ α} {Q : α → σ → W → Prop}
    {s : σ} {ds : List D} {w : W} (h₀ : E.admits d₀) (hd : ∀ d ∈ ds, E.admits d)
    (hh : ∀ w, ¬E.hung w) (h : wp E p Q s w) :
    ∃ a s' w', drive E.handler d₀ p s ds w = some ((a, s'), w') ∧ Q a s' w' := by
  obtain ⟨⟨a, s'⟩, w', hr, hq⟩ := Tree.drive_meets h₀ hd hh h
  exact ⟨a, s', w', hr, hq⟩

end Prog
