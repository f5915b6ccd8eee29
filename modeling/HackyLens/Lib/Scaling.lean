import Mathlib.Tactic

-- An interval of one grid and its image in another one, where every place of the other grid takes
-- its value from the place below it.

namespace Scaling

variable {size dst lo hi i : Nat}

-- The place that `i` takes its value from.
def source (size dst i : Nat) : Nat :=
  i * size / dst

-- An interval of the image that starts below the scaled start, and is as long as the scaled length
-- that is rounded up.
def first (size dst lo : Nat) : Nat :=
  lo * dst / size

def extent (size dst length : Nat) : Nat :=
  (length * dst + size - 1) / size

-- The two roundings together do not lose a place.
def Even (size dst lo hi : Nat) : Prop :=
  lo * dst % size = 0 ∨
    (hi - lo) * dst % size ≠ 0 ∧ lo * dst % size + (hi - lo) * dst % size ≤ size

theorem le_source_iff (hd : 0 < dst) : lo ≤ source size dst i ↔ lo * dst ≤ i * size :=
  Nat.le_div_iff_mul_le hd

theorem source_lt_iff (hd : 0 < dst) : source size dst i < hi ↔ i * size < hi * dst :=
  Nat.div_lt_iff_lt_mul hd

theorem source_lt (hs : 0 < size) (hi : i < dst) : source size dst i < size :=
  (source_lt_iff (Nat.zero_lt_of_lt hi)).mpr (by
    rw [Nat.mul_comm size]
    exact Nat.mul_lt_mul_of_pos_right hi hs)

theorem roundUp (n : Nat) (hs : 0 < size) :
    (n + size - 1) / size = n / size + if n % size = 0 then 0 else 1 := by
  have hn := Nat.div_add_mod n size
  have hlt := Nat.mod_lt n hs
  generalize n / size = q at *
  generalize n % size = r at *
  subst hn
  split
  case isTrue hr =>
    rw [hr, Nat.add_zero, Nat.add_zero, Nat.add_sub_assoc hs, Nat.mul_add_div hs,
      Nat.div_eq_of_lt (by omega), Nat.add_zero]
  case isFalse hr =>
    rw [Nat.add_assoc, Nat.add_sub_assoc (by omega), Nat.mul_add_div hs]
    congr 1
    exact Nat.div_eq_of_lt_le (by omega) (by omega)

theorem extent_eq (length : Nat) (hs : 0 < size) : extent size dst length =
    length * dst / size + if length * dst % size = 0 then 0 else 1 :=
  roundUp _ hs

-- The scaled ends, with what is lost when they are rounded.
theorem scaled_hi (h : lo ≤ hi) : hi * dst =
    (lo * dst / size + (hi - lo) * dst / size) * size + lo * dst % size +
      (hi - lo) * dst % size := by
  have ha := Nat.div_add_mod' (lo * dst) size
  have hb := Nat.div_add_mod' ((hi - lo) * dst) size
  have hsum : hi * dst = lo * dst + (hi - lo) * dst := by
    rw [← Nat.add_mul, Nat.add_sub_cancel' h]
  rw [Nat.add_mul]
  omega

theorem extent_pos (hs : 0 < size) (hd : 0 < dst) (h : lo < hi) :
    0 < extent size dst (hi - lo) := by
  have hn : 0 < (hi - lo) * dst := Nat.mul_pos (by omega) hd
  exact Nat.div_pos (by omega) hs

-- The image of what is inside is inside.
theorem first_add_extent_le (dst : Nat) (hs : 0 < size) (h : lo < hi) (hle : hi ≤ size) :
    first size dst lo + extent size dst (hi - lo) ≤ dst := by
  have hhi := @scaled_hi size dst lo hi (Nat.le_of_lt h)
  have hmul : hi * dst ≤ dst * size := by
    rw [Nat.mul_comm dst]
    exact Nat.mul_le_mul_right dst hle
  have hr := Nat.mod_lt (lo * dst) hs
  have ht := Nat.mod_lt ((hi - lo) * dst) hs
  rw [first, extent_eq _ hs]
  generalize lo * dst / size = a at *
  generalize (hi - lo) * dst / size = b at *
  rw [Nat.add_mul] at hhi
  refine Nat.le_of_lt_succ (Nat.lt_of_mul_lt_mul_right (a := size) ?_)
  rw [Nat.add_mul, Nat.add_mul, Nat.succ_mul]
  split
  case isTrue  => omega
  case isFalse => omega

theorem covers (hs : 0 < size) (hd : 0 < dst) (h : lo ≤ hi) (he : Even size dst lo hi)
    (hlo : lo ≤ source size dst i) (hhi : source size dst i < hi) :
    first size dst lo ≤ i ∧ i < first size dst lo + extent size dst (hi - lo) := by
  rw [le_source_iff hd] at hlo
  rw [source_lt_iff hd, scaled_hi h] at hhi
  rw [Even] at he
  refine ⟨Nat.div_le_of_le_mul (by rw [Nat.mul_comm size]; exact hlo), ?_⟩
  have ht := Nat.mod_lt ((hi - lo) * dst) hs
  rw [first, extent_eq _ hs]
  generalize lo * dst / size = a at *
  generalize (hi - lo) * dst / size = b at *
  rw [Nat.add_mul] at hhi
  refine Nat.lt_of_mul_lt_mul_right (a := size) ?_
  rw [Nat.add_mul, Nat.add_mul]
  split
  case isTrue  => omega
  case isFalse => omega

-- Otherwise the last place of the image is lost.
theorem misses (hs : 0 < size) (hd : 0 < dst) (h : lo < hi) (hle : hi ≤ size)
    (he : ¬Even size dst lo hi) :
    ∃ i < dst, lo ≤ source size dst i ∧ source size dst i < hi ∧
      first size dst lo + extent size dst (hi - lo) ≤ i := by
  have hhi := @scaled_hi size dst lo hi (Nat.le_of_lt h)
  have hlo := Nat.div_add_mod' (lo * dst) size
  have hr := Nat.mod_lt (lo * dst) hs
  have hpos : 0 < (hi - lo) * dst := Nat.mul_pos (by omega) hd
  have hlen := Nat.div_add_mod' ((hi - lo) * dst) size
  have hmul : hi * dst ≤ dst * size := by
    rw [Nat.mul_comm dst]
    exact Nat.mul_le_mul_right dst hle
  rw [Even, not_or] at he
  obtain ⟨hr0, ht⟩ := he
  -- The last place has its value from inside, but the length has been rounded without the start.
  have hi_lt : (first size dst lo + extent size dst (hi - lo)) * size < hi * dst ∧
      lo * dst ≤ (first size dst lo + extent size dst (hi - lo)) * size := by
    rw [first, extent_eq _ hs]
    generalize lo * dst / size = a at *
    generalize (hi - lo) * dst / size = b at *
    rw [Nat.add_mul] at hhi
    rw [Nat.add_mul, Nat.add_mul]
    split
    case isFalse ht0 => omega
    case isTrue ht0  =>
      have hb : 0 < b := Nat.pos_of_ne_zero fun hb => by
        rw [hb, Nat.zero_mul] at hlen
        omega
      have hbs : size ≤ b * size := Nat.le_mul_of_pos_left size hb
      omega
  refine ⟨_, ?_, (le_source_iff hd).mpr hi_lt.right, (source_lt_iff hd).mpr hi_lt.left,
    Nat.le_refl _⟩
  exact Nat.lt_of_mul_lt_mul_right (Nat.lt_of_lt_of_le hi_lt.left hmul)

section Meets

variable {s : Nat}

-- A place of the one grid and one of the other whose images share more than an edge.
def Meets (size dst s i : Nat) : Prop :=
  s * dst < (i + 1) * size ∧ i * size < (s + 1) * dst

-- The last place that meets `i`; the first one is `source`.
def last (size dst i : Nat) : Nat :=
  ((i + 1) * size - 1) / dst

theorem le_last_iff (hs : 0 < size) (hd : 0 < dst) :
    s ≤ last size dst i ↔ s * dst < (i + 1) * size := by
  have hpos : 0 < (i + 1) * size := Nat.mul_pos (Nat.succ_pos i) hs
  rw [last, Nat.le_div_iff_mul_le hd]
  omega

theorem meets_iff (hs : 0 < size) (hd : 0 < dst) :
    Meets size dst s i ↔ source size dst i ≤ s ∧ s ≤ last size dst i := by
  rw [Meets, le_last_iff hs hd, ← Nat.lt_succ_iff, source_lt_iff hd, and_comm]

end Meets
end Scaling
