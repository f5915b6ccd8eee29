import Mathlib.Data.UInt
import Mathlib.Tactic

namespace LittleEndian

-- The bytes a C pointer reaches: `p i` is the byte `i` places after the address.
abbrev Bytes := Nat → UInt8

def at' (l : List UInt8) (offset : Nat) : Bytes :=
  fun i => l.getD (offset + i) 0

def u16 (p : Bytes) : UInt16 :=
  (p 0).toUInt16 ||| ((p 1).toUInt16 <<< 8)

def u32 (p : Bytes) : UInt32 :=
  (p 0).toUInt32 ||| ((p 1).toUInt32 <<< 8) ||| ((p 2).toUInt32 <<< 16) ||| ((p 3).toUInt32 <<< 24)

def bytes16 (v : UInt16) : List UInt8 :=
  [v.toUInt8, (v >>> 8).toUInt8]

def bytes32 (v : UInt32) : List UInt8 :=
  [v.toUInt8, (v >>> 8).toUInt8, (v >>> 16).toUInt8, (v >>> 24).toUInt8]

@[simp]
theorem bytes16_length (v : UInt16) : (bytes16 v).length = 2 :=
  rfl

@[simp]
theorem bytes32_length (v : UInt32) : (bytes32 v).length = 4 :=
  rfl

theorem or_mul_two_pow_of_lt {x : Nat} (y k : Nat) (h : x < 2 ^ k) :
    x ||| (y * 2 ^ k) = x + y * 2 ^ k := by
  rw [Nat.or_comm, ← Nat.shiftLeft_eq, ← Nat.shiftLeft_add_eq_or_of_lt h, Nat.add_comm]

theorem u16_toNat (p : Bytes) : (u16 p).toNat = (p 0).toNat + 256 * (p 1).toNat := by
  have h₀ := (p 0).toNat_lt
  have h₁ := (p 1).toNat_lt
  simp only [u16, UInt16.toNat_or, UInt16.toNat_shiftLeft, UInt8.toNat_toUInt16, Nat.shiftLeft_eq,
    UInt16.reduceToNat, Nat.reduceMod]
  rw [Nat.mod_eq_of_lt (by omega), or_mul_two_pow_of_lt _ 8 (by omega)]
  omega

theorem u32_toNat (p : Bytes) : (u32 p).toNat =
    (p 0).toNat + 256 * (p 1).toNat + 65536 * (p 2).toNat + 16777216 * (p 3).toNat := by
  have h₀ := (p 0).toNat_lt
  have h₁ := (p 1).toNat_lt
  have h₂ := (p 2).toNat_lt
  have h₃ := (p 3).toNat_lt
  simp only [u32, UInt32.toNat_or, UInt32.toNat_shiftLeft, UInt8.toNat_toUInt32, Nat.shiftLeft_eq,
    UInt32.reduceToNat, Nat.reduceMod]
  rw [Nat.mod_eq_of_lt (by omega), Nat.mod_eq_of_lt (by omega), Nat.mod_eq_of_lt (by omega),
    or_mul_two_pow_of_lt _ 8 (by omega), or_mul_two_pow_of_lt _ 16 (by omega),
    or_mul_two_pow_of_lt _ 24 (by omega)]
  omega

theorem at'_append_right (l₁ l₂ : List UInt8) (offset : Nat) :
    at' (l₁ ++ l₂) (l₁.length + offset) = at' l₂ offset := by
  funext i
  simp [at', Nat.add_assoc, List.getElem?_append_right]

theorem u16_bytes16 (l₁ : List UInt8) (v : UInt16) (l₂ : List UInt8) :
    u16 (at' (l₁ ++ bytes16 v ++ l₂) l₁.length) = v := by
  rw [List.append_assoc, ← Nat.add_zero l₁.length, at'_append_right]
  apply UInt16.toNat_inj.mp
  have := v.toNat_lt
  simp [u16_toNat, at', bytes16, Nat.shiftRight_eq_div_pow]
  omega

theorem u32_bytes32 (l₁ : List UInt8) (v : UInt32) (l₂ : List UInt8) :
    u32 (at' (l₁ ++ bytes32 v ++ l₂) l₁.length) = v := by
  rw [List.append_assoc, ← Nat.add_zero l₁.length, at'_append_right]
  apply UInt32.toNat_inj.mp
  have := v.toNat_lt
  simp [u32_toNat, at', bytes32, Nat.shiftRight_eq_div_pow]
  omega

end LittleEndian
