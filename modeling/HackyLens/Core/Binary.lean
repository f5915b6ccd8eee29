import HackyLens.Lib.Crc
import HackyLens.Lib.LittleEndian

namespace Core

open LittleEndian

def rd16 (p : Bytes) : UInt16 :=
  u16 p

def rd32 (p : Bytes) : UInt32 :=
  u32 p

def rd32be (p : Bytes) : UInt32 :=
  ((p 0).toUInt32 <<< 24) ||| ((p 1).toUInt32 <<< 16) ||| ((p 2).toUInt32 <<< 8) ||| (p 3).toUInt32

def wr16 (value : UInt16) : List UInt8 :=
  bytes16 value

def wr32 (value : UInt32) : List UInt8 :=
  bytes32 value

-- One round of the bit loop that `crc32_update` and `hmpy_crc32` share.
def crc32Bit (crc : UInt32) : UInt32 :=
  (crc >>> 1) ^^^ (0xEDB88320 &&& (0 - (crc &&& 1)))

def crc32Bits : Nat → UInt32 → UInt32
  | 0, crc => crc
  | n + 1, crc => crc32Bits n (crc32Bit crc)

def crc32Byte (crc : UInt32) (byte : UInt8) : UInt32 :=
  crc32Bits 8 (crc ^^^ byte.toUInt32)

def crc32Update (crc : UInt32) (data : List UInt8) : UInt32 :=
  ~~~(data.foldl crc32Byte (~~~crc))

-- A checksum may be taken over a file piece by piece.
theorem crc32Update_append (crc : UInt32) (data₁ data₂ : List UInt8) :
    crc32Update (crc32Update crc data₁) data₂ = crc32Update crc (data₁ ++ data₂) := by
  simp [crc32Update]

@[simp]
theorem crc32Update_nil (crc : UInt32) : crc32Update crc [] = crc := by
  simp [crc32Update]

def crc32Poly : BitVec 32 :=
  0xEDB88320#32

-- The branch-free mask of the C code selects the polynomial by the lowest bit.
theorem crc32Bit_toBitVec (crc : UInt32) :
    (crc32Bit crc).toBitVec = Crc.shiftBit crc32Poly crc.toBitVec := by
  have mask : 0#32 - (crc.toBitVec &&& 1#32) =
      if crc.toBitVec.getLsbD 0 then 0xFFFFFFFF#32 else 0#32 := by
    rw [BitVec.and_one_eq_setWidth_ofBool_getLsbD]
    cases crc.toBitVec.getLsbD 0 <;> rfl
  have hm : (crc32Bit crc).toBitVec =
      (crc.toBitVec >>> 1) ^^^ (0xEDB88320#32 &&& (0#32 - (crc.toBitVec &&& 1#32))) := rfl
  rw [hm, mask, Crc.shiftBit]
  cases crc.toBitVec.getLsbD 0 <;> rfl

theorem crc32Bits_toBitVec (n : Nat) (crc : UInt32) :
    (crc32Bits n crc).toBitVec = Crc.shiftBits crc32Poly n crc.toBitVec := by
  induction n generalizing crc
  case zero      => rfl
  case succ n hi => rw [crc32Bits, hi, crc32Bit_toBitVec]; rfl

theorem crc32Byte_toBitVec (crc : UInt32) (byte : UInt8) :
    (crc32Byte crc byte).toBitVec = Crc.serial crc32Poly crc.toBitVec byte.toBitVec := by
  rw [crc32Byte, crc32Bits_toBitVec]
  rfl

end Core
