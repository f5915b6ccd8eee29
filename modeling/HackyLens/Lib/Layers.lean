import Mathlib.Data.List.Basic

-- A picture that is painted in layers: each brush gives its values to the places that it covers.

namespace Layers

variable {β ι γ : Type} (covers : β → ι → Prop) [∀ b i, Decidable (covers b i)] (value : β → ι → γ)

def coat (b : β) (below : ι → γ) : ι → γ :=
  fun i => if covers b i then value b i else below i

-- The first brush of the list is the lowest layer.
def stack (bs : List β) (below : ι → γ) : ι → γ :=
  bs.foldl (fun picture b => coat covers value b picture) below

variable {covers value} {bs : List β} {below : ι → γ} {b : β} {i : ι}

-- A loop that changes a place in one of its rounds only.
theorem foldl_range_at {f : Nat → (ι → γ) → ι → γ} (g : γ → γ) (j : Nat) {n : Nat}
    (hj : j < n → ∀ picture, f j picture i = g (picture i))
    (hn : ∀ k < n, k ≠ j → ∀ picture, f k picture i = picture i) :
    (List.range n).foldl (fun picture k => f k picture) below i =
      if j < n then g (below i) else below i := by
  induction n with
  | zero => rfl
  | succ n ih =>
    have ih := ih (fun h => hj (Nat.lt_succ_of_lt h)) fun k h => hn k (Nat.lt_succ_of_lt h)
    rw [List.range_succ, List.foldl_concat]
    by_cases h : n = j
    case pos =>
      subst h
      rw [hj (Nat.lt_succ_self n), ih, if_neg (Nat.lt_irrefl n), if_pos (Nat.lt_succ_self n)]
    case neg =>
      rw [hn n (Nat.lt_succ_self n) h, ih]
      exact if_congr (by omega) rfl rfl

end Layers
