import Mathlib.Data.Nat.Bitwise
import Mathlib.Data.Nat.Size
import Mathlib.Tactic

-- Streams of bits that are packed into bytes from the least significant bit on, as a reader of
-- numbers of some width sees them.

namespace BitStream

variable {m n x y : Nat} {bytes bytes' : List UInt8}

-- The lowest `n` bits of a number.
def ofNat (n x : Nat) : List Bool :=
  (List.range n).map x.testBit

def ofBytes (bytes : List UInt8) : List Bool :=
  bytes.flatMap fun byte => ofNat 8 byte.toNat

@[simp]
theorem ofNat_length : (ofNat n x).length = n := by
  rw [ofNat, List.length_map, List.length_range]

@[simp]
theorem ofNat_zero : ofNat 0 x = [] :=
  rfl

theorem ofNat_add : ofNat (m + n) x = ofNat m x ++ ofNat n (x >>> m) := by
  rw [ofNat, List.range_add, List.map_append, List.map_map]
  refine congrArg (ofNat m x ++ ·) (List.map_congr_left fun i _ => ?_)
  rw [Function.comp_apply, Nat.testBit_shiftRight]

theorem ofNat_congr (h : ∀ i < n, x.testBit i = y.testBit i) : ofNat n x = ofNat n y :=
  List.map_congr_left fun i hi => h i (List.mem_range.mp hi)

theorem ofNat_mod (h : n ≤ m) : ofNat n (x % 2 ^ m) = ofNat n x := by
  refine ofNat_congr fun i hi => ?_
  rw [Nat.testBit_mod_two_pow, decide_eq_true (hi.trans_le h), Bool.true_and]

-- The bits determine the number.
theorem ofNat_inj (h : ofNat n x = ofNat n y) : x % 2 ^ n = y % 2 ^ n := by
  refine Nat.eq_of_testBit_eq fun i => ?_
  rw [Nat.testBit_mod_two_pow, Nat.testBit_mod_two_pow]
  by_cases hi : i < n
  case pos => rw [List.map_inj_left.mp h i (List.mem_range.mpr hi)]
  case neg => rw [decide_eq_false hi, Bool.false_and, Bool.false_and]

-- A number above another one that has `m` bits.
theorem ofNat_or_shiftLeft (h : x < 2 ^ m) :
    ofNat (m + n) (x ||| y <<< m) = ofNat m x ++ ofNat n y := by
  rw [ofNat_add]
  congr 1
  case e_a =>
    refine ofNat_congr fun i hi => ?_
    rw [Nat.testBit_or, Nat.testBit_shiftLeft, decide_eq_false (Nat.not_le.mpr hi),
      Bool.false_and, Bool.or_false]
  case e_a =>
    refine ofNat_congr fun i _ => ?_
    rw [Nat.testBit_shiftRight, Nat.testBit_or, Nat.testBit_shiftLeft,
      Nat.testBit_lt_two_pow (h.trans_le (Nat.pow_le_pow_right (by decide) (Nat.le_add_right m i))),
      decide_eq_true (Nat.le_add_right m i), Bool.true_and, Bool.false_or, Nat.add_sub_cancel_left]

theorem or_shiftLeft_lt (hx : x < 2 ^ m) (hy : y < 2 ^ n) : x ||| y <<< m < 2 ^ (m + n) := by
  have hm : 2 ^ m ≤ 2 ^ (m + n) := Nat.pow_le_pow_right (by decide) (Nat.le_add_right m n)
  refine Nat.or_lt_two_pow (hx.trans_le hm) ?_
  rw [Nat.shiftLeft_eq, Nat.add_comm, Nat.pow_add]
  exact Nat.mul_lt_mul_of_pos_right hy (Nat.two_pow_pos m)

@[simp]
theorem ofBytes_nil : ofBytes [] = [] :=
  rfl

@[simp]
theorem ofBytes_cons {byte : UInt8} :
    ofBytes (byte :: bytes) = ofNat 8 byte.toNat ++ ofBytes bytes :=
  rfl

theorem ofBytes_length : (ofBytes bytes).length = 8 * bytes.length := by
  induction bytes with
  | nil => rfl
  | cons byte bytes ih =>
    rw [ofBytes_cons, List.length_append, ih, ofNat_length, List.length_cons, Nat.mul_add]
    exact Nat.add_comm ..

theorem ofBytes_append : ofBytes (bytes ++ bytes') = ofBytes bytes ++ ofBytes bytes' :=
  List.flatMap_append

-- A reader that holds `m` bits, of which the first `n` are taken.
theorem take_eq {rest rest' : List Bool} (hn : n ≤ m) (hy : y < 2 ^ n)
    (h : ofNat m x ++ rest = ofNat n y ++ rest') :
    x % 2 ^ n = y ∧ ofNat (m - n) (x >>> n) ++ rest = rest' := by
  rw [← Nat.add_sub_of_le hn, ofNat_add, List.append_assoc] at h
  obtain ⟨hl, hr⟩ := List.append_inj h (by rw [ofNat_length, ofNat_length])
  exact ⟨(ofNat_inj hl).trans (Nat.mod_eq_of_lt hy), hr⟩

end BitStream
