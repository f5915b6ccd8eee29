import Mathlib.Data.BitVec
import Mathlib.Tactic

-- Reflected cyclic redundancy checks over any register width and polynomial: the bit-serial form,
-- the table-driven form, and the reason they are one function.
namespace Crc

variable {w : Nat} (poly : BitVec w)

def shiftBit (c : BitVec w) : BitVec w :=
  (c >>> 1) ^^^ (if c.getLsbD 0 then poly else 0)

def shiftBits : Nat → BitVec w → BitVec w
  | 0, c => c
  | n + 1, c => shiftBits n (shiftBit poly c)

def serial (c : BitVec w) (b : BitVec 8) : BitVec w :=
  shiftBits poly 8 (c ^^^ b.setWidth w)

def tableEntry (i : BitVec 8) : BitVec w :=
  shiftBits poly 8 (i.setWidth w)

def tabular (c : BitVec w) (b : BitVec 8) : BitVec w :=
  tableEntry poly ((c ^^^ b.setWidth w).setWidth 8) ^^^ (c >>> 8)

variable {poly}

-- The register update is linear over xor, which is what a lookup table rests on.
theorem shiftBit_xor (x y : BitVec w) :
    shiftBit poly (x ^^^ y) = shiftBit poly x ^^^ shiftBit poly y := by
  apply BitVec.eq_of_getLsbD_eq
  intro i _
  cases hx : x.getLsbD 0 <;> cases hy : y.getLsbD 0 <;>
    simp [shiftBit, BitVec.getLsbD_xor, BitVec.getLsbD_ushiftRight, hx, hy]
  all_goals cases x.getLsbD (1 + i) <;> cases y.getLsbD (1 + i) <;> cases poly.getLsbD i <;> rfl

theorem shiftBits_xor (n : Nat) (x y : BitVec w) :
    shiftBits poly n (x ^^^ y) = shiftBits poly n x ^^^ shiftBits poly n y := by
  induction n generalizing x y
  case zero      => rfl
  case succ n hi => simp only [shiftBits, shiftBit_xor, hi]

-- Bits that only shift out zeros never meet the polynomial.
theorem shiftBits_of_low_zero {n : Nat} {x : BitVec w} (h : ∀ i < n, x.getLsbD i = false) :
    shiftBits poly n x = x >>> n := by
  induction n generalizing x
  case zero => simp [shiftBits]
  case succ n hi =>
    have hb : shiftBit poly x = x >>> 1 := by simp [shiftBit, h 0 (by omega)]
    have hs : ∀ i < n, (x >>> 1).getLsbD i = false := fun i hi => by
      simpa [BitVec.getLsbD_ushiftRight] using h (1 + i) (by omega)
    rw [shiftBits, hb, hi hs, ← BitVec.shiftRight_add, Nat.add_comm]

theorem serial_eq_tabular (hw : 8 ≤ w) (c : BitVec w) (b : BitVec 8) :
    serial poly c b = tabular poly c b := by
  let x := c ^^^ b.setWidth w
  let low : BitVec w := (x.setWidth 8).setWidth w
  have split : x = low ^^^ (x ^^^ low) := by
    rw [BitVec.xor_comm x low, ← BitVec.xor_assoc, BitVec.xor_self, BitVec.zero_xor]
  have hlow : ∀ i < 8, (x ^^^ low).getLsbD i = false := fun i h => by
    simp [low, h, Nat.lt_of_lt_of_le h hw]
  have hhigh : (x ^^^ low) >>> 8 = c >>> 8 := by
    apply BitVec.eq_of_getLsbD_eq
    intro i _
    simp [x, low, BitVec.getLsbD_xor, BitVec.getLsbD_setWidth, BitVec.getLsbD_ushiftRight]
  calc serial poly c b
    _ = shiftBits poly 8 (low ^^^ (x ^^^ low))                   := by rw [← split]; rfl
    _ = shiftBits poly 8 low ^^^ shiftBits poly 8 (x ^^^ low)    := shiftBits_xor ..
    _ = tableEntry poly (x.setWidth 8) ^^^ ((x ^^^ low) >>> 8)   := by
          rw [shiftBits_of_low_zero hlow]; rfl
    _ = tabular poly c b                                         := by rw [hhigh]; rfl

end Crc
