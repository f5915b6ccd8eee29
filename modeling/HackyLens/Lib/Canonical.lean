import Mathlib.Data.Nat.Count
import Mathlib.Tactic.Common

-- Canonical prefix codes. A symbol whose length is not zero has a code of that many bits. The codes
-- of a length are consecutive numbers, and what follows them begins the codes that are longer.

namespace Canonical

section Code

variable (len : Nat → Nat) (n : Nat)

-- How many of the first `n` symbols have codes of length `l`.
def number (l : Nat) : Nat :=
  if l = 0 then 0 else Nat.count (fun i => len i = l) n

def first : (l : Nat) → Nat
  | 0     => 0
  | l + 1 => (first l + number len n l) * 2

def code (i : Nat) : Nat :=
  first len n (len i) + Nat.count (fun j => len j = len i) i

-- There are enough codes of at most `max` bits.
def Fits (max : Nat) : Prop :=
  first len n max + number len n max ≤ 2 ^ max

end Code

section Reverse

-- The bits in the opposite order.
def reverse : (l c : Nat) → Nat
  | 0,     _ => 0
  | l + 1, c => c % 2 * 2 ^ l + reverse l (c / 2)

variable {l d c c' : Nat}

theorem reverse_lt : reverse l c < 2 ^ l := by
  induction l generalizing c with
  | zero      => exact Nat.one_pos
  | succ l ih =>
    have hr := @ih (c / 2)
    have hb : c % 2 * 2 ^ l ≤ 1 * 2 ^ l := Nat.mul_le_mul_right _ (by omega)
    rw [reverse, Nat.pow_succ]
    omega

-- What is last comes first.
theorem reverse_mod : reverse (l + d) c % 2 ^ l = reverse l (c / 2 ^ d) := by
  induction d generalizing c with
  | zero      => rw [Nat.add_zero, Nat.pow_zero, Nat.div_one, Nat.mod_eq_of_lt reverse_lt]
  | succ d ih =>
    rw [← Nat.add_assoc, reverse, Nat.pow_add, Nat.mul_comm (2 ^ l), ← Nat.mul_assoc,
      Nat.mul_add_mod_self_right, ih, Nat.div_div_eq_div_mul, Nat.pow_succ, Nat.mul_comm 2]

theorem reverse_inj (hc : c < 2 ^ l) (hc' : c' < 2 ^ l) (h : reverse l c = reverse l c') :
    c = c' := by
  induction l generalizing c c' with
  | zero      => omega
  | succ l ih =>
    rw [Nat.pow_succ] at hc hc'
    rw [reverse, reverse] at h
    have hr := @reverse_lt l (c / 2)
    have hr' := @reverse_lt l (c' / 2)
    have hd : c % 2 = c' % 2 := by
      have := congrArg (· / 2 ^ l) h
      simpa only [Nat.mul_comm _ (2 ^ l), Nat.mul_add_div (Nat.two_pow_pos l),
        Nat.div_eq_of_lt hr, Nat.div_eq_of_lt hr', Nat.add_zero] using this
    have hm : c / 2 = c' / 2 := by
      rw [hd] at h
      exact ih (by omega) (by omega) (Nat.add_left_cancel h)
    omega

end Reverse

section Prefix

variable {len : Nat → Nat} {n i j l l' max idx : Nat}

theorem first_le (h : l < l') :
    (first len n l + number len n l) * 2 ^ (l' - l) ≤ first len n l' := by
  induction l', h using Nat.le_induction with
  | base           => rw [Nat.succ_eq_add_one, Nat.add_sub_cancel_left, Nat.pow_one, first]
  | succ l' hl ih  =>
    rw [first, Nat.succ_sub (by omega), Nat.pow_succ, ← Nat.mul_assoc]
    exact Nat.mul_le_mul_right 2 (Nat.le_trans ih (Nat.le_add_right _ _))

theorem Fits.le (h : Fits len n max) (hl : l ≤ max) :
    first len n l + number len n l ≤ 2 ^ l := by
  rcases Nat.lt_or_eq_of_le hl with hlt | rfl
  · refine Nat.le_of_mul_le_mul_right ?_ (Nat.two_pow_pos (max - l))
    rw [← Nat.pow_add, Nat.add_sub_cancel' hl]
    exact Nat.le_trans (first_le hlt) (Nat.le_trans (Nat.le_add_right _ _) h)
  · exact h

theorem count_lt_number (h0 : len i ≠ 0) (hi : i < n) :
    Nat.count (fun j => len j = len i) i < number len n (len i) := by
  rw [number, if_neg h0]
  exact Nat.count_strict_mono rfl hi

theorem Fits.code_lt (h : Fits len n max) (h0 : len i ≠ 0) (hi : i < n) (hl : len i ≤ max) :
    code len n i < 2 ^ len i :=
  Nat.lt_of_lt_of_le (Nat.add_lt_add_left (count_lt_number h0 hi) _) (h.le hl)

-- No code is a prefix of another one.
theorem eq_of_prefix (h0 : len i ≠ 0) (hi : i < n) (hl : len i ≤ len j)
    (h : code len n j / 2 ^ (len j - len i) = code len n i) : i = j := by
  rcases Nat.lt_or_eq_of_le hl with hlt | he
  · have hc : code len n i + 1 ≤ first len n (len i) + number len n (len i) :=
      Nat.add_lt_add_left (count_lt_number h0 hi) _
    have hf := Nat.le_trans (Nat.mul_le_mul_right _ hc) (first_le hlt)
    have hd := (Nat.le_div_iff_mul_le (Nat.two_pow_pos _)).mpr
      (Nat.le_trans hf (Nat.le_add_right _ (Nat.count (fun k => len k = len j) j)))
    exact absurd (h ▸ hd : code len n i + 1 ≤ code len n i) (Nat.not_succ_le_self _)
  · rw [he, Nat.sub_self, Nat.pow_zero, Nat.div_one, code, code, he] at h
    exact (Nat.count_injective (p := fun k => len k = len j) rfl he (Nat.add_left_cancel h)).symm

-- The code is read from the low bits on.
def Matches (len : Nat → Nat) (n i idx : Nat) : Prop :=
  idx % 2 ^ len i = reverse (len i) (code len n i)

theorem Fits.matches_unique (h : Fits len n max) (hi : i < n) (hj : j < n) (h0 : len i ≠ 0)
    (h0' : len j ≠ 0) (hm : len i ≤ max) (hm' : len j ≤ max) (hx : Matches len n i idx)
    (hx' : Matches len n j idx) : i = j := by
  wlog hl : len i ≤ len j
  · exact (this h hj hi h0' h0 hm' hm hx' hx (Nat.le_of_not_le hl)).symm
  obtain ⟨d, hd⟩ := Nat.exists_eq_add_of_le hl
  refine eq_of_prefix h0 hi hl (reverse_inj ?_ (h.code_lt h0 hi hm) ?_)
  · rw [Nat.div_lt_iff_lt_mul (Nat.two_pow_pos _), ← Nat.pow_add, Nat.add_sub_cancel' hl]
    exact h.code_lt h0' hj hm'
  · rw [show len j - len i = d by omega, ← reverse_mod, ← hd, ← hx', ← hx]
    exact Nat.mod_mod_of_dvd idx (Nat.pow_dvd_pow 2 hl)

end Prefix

end Canonical
