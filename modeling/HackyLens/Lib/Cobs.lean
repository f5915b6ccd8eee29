import Mathlib.Data.UInt
import Mathlib.Tactic

-- Consistent overhead byte stuffing: a packet is a row of blocks, each a code byte followed by
-- `code - 1` nonzero bytes. Code 255 closes a full block, which stands for its bytes alone; every
-- other block but the last also stands for a zero after its bytes.
namespace Cobs

def maxRun : Nat := 254

def code (block : List UInt8) : UInt8 :=
  UInt8.ofNat (block.length + 1)

-- The packet of the bytes that follow an open block.
def encodeFrom (block : List UInt8) : List UInt8 → List UInt8
  | [] => code block :: block
  | b :: bs =>
    if b = 0 then
      code block :: block ++ encodeFrom [] bs
    else if block.length + 1 = maxRun then
      code (block ++ [b]) :: (block ++ [b]) ++ encodeFrom [] bs
    else
      encodeFrom (block ++ [b]) bs

def encode (data : List UInt8) : List UInt8 :=
  encodeFrom [] data

-- `Decodes packet data` holds when the blocks of `packet` stand for `data`.
inductive Decodes : List UInt8 → List UInt8 → Prop
  | last {block} (h : block.length ≤ maxRun) : Decodes (code block :: block) block
  | full {block packet data} (h : block.length = maxRun) (d : Decodes packet data) :
    Decodes (code block :: block ++ packet) (block ++ data)
  | stop {block packet data} (h : block.length < maxRun) (d : Decodes packet data) :
    Decodes (code block :: block ++ packet) (block ++ 0 :: data)

variable {block : List UInt8}

theorem code_toNat (h : block.length ≤ maxRun) : (code block).toNat = block.length + 1 := by
  simp only [maxRun] at h
  simp [code]
  omega

theorem code_ne_zero (h : block.length ≤ maxRun) : code block ≠ 0 := by
  intro hc
  have := code_toNat h
  simp [hc] at this

theorem code_eq_full_iff (h : block.length ≤ maxRun) : code block = 255 ↔ block.length = maxRun := by
  rw [← UInt8.toNat_inj, code_toNat h]
  simp [maxRun]

theorem Decodes.ne_nil {packet data} : Decodes packet data → packet ≠ []
  | last _ | full .. | stop .. => by simp

theorem decodes_encodeFrom (data : List UInt8) (h : block.length < maxRun) :
    Decodes (encodeFrom block data) (block ++ data) := by
  induction data generalizing block <;> simp only [encodeFrom]
  case nil => simpa using Decodes.last h.le
  case cons b bs hi =>
    split
    case isTrue hb => exact hb ▸ .stop h (hi (by simp [maxRun]))
    case isFalse =>
      split
      case isTrue hf =>
        have hb : (block ++ [b]).length = maxRun := by simpa using hf
        simpa using Decodes.full hb (@hi [] (by simp [maxRun]))
      case isFalse hf =>
        have hl : (block ++ [b]).length < maxRun := by
          simp only [List.length_append, List.length_singleton]; omega
        simpa using hi hl

theorem decodes_encode (data : List UInt8) : Decodes (encode data) data := by
  simpa [encode] using @decodes_encodeFrom [] data (by simp [maxRun])

theorem zero_not_mem_encodeFrom (data : List UInt8) (h : block.length < maxRun) (hz : 0 ∉ block) :
    0 ∉ encodeFrom block data := by
  induction data generalizing block <;> simp only [encodeFrom]
  case nil => simp [hz, (code_ne_zero h.le).symm]
  case cons b bs hi =>
    have hn := @hi [] (by simp [maxRun]) (by simp)
    split
    case isTrue => simp [hz, hn, (code_ne_zero h.le).symm]
    case isFalse hb =>
      split
      case isTrue hf =>
        have hc := @code_ne_zero (block ++ [b]) (by simpa using hf.le)
        simp [hz, hn, hc.symm, Ne.symm hb]
      case isFalse hf =>
        apply hi
        · simp only [List.length_append, List.length_singleton]; omega
        · simp [hz, Ne.symm hb]

theorem zero_not_mem_encode (data : List UInt8) : 0 ∉ encode data :=
  zero_not_mem_encodeFrom data (by simp [maxRun]) (by simp)

theorem encodeFrom_ne_nil (data : List UInt8) (h : block.length < maxRun) :
    encodeFrom block data ≠ [] :=
  (decodes_encodeFrom data h).ne_nil

theorem length_lt_encodeFrom (data : List UInt8) : block.length < (encodeFrom block data).length := by
  induction data generalizing block <;> simp only [encodeFrom]
  case nil => simp
  case cons b bs hi =>
    split
    case isTrue => simp
    case isFalse =>
      split
      case isTrue => simp
      case isFalse => have := @hi (block ++ [b]); simp at this; omega

-- One code byte for every 254 data bytes, and one more.
theorem encodeFrom_length_le (data : List UInt8) (h : block.length < maxRun) :
    (encodeFrom block data).length ≤
      block.length + data.length + 1 + (block.length + data.length) / maxRun := by
  induction data generalizing block <;> simp only [encodeFrom]
  case nil => simp
  case cons b bs hi =>
    have hn := @hi [] (by simp [maxRun])
    split
    case isTrue => simp [maxRun] at hn h ⊢; omega
    case isFalse =>
      split
      case isTrue hf => simp [maxRun] at hn hf ⊢; omega
      case isFalse hf =>
        have := @hi (block ++ [b]) (by simp [maxRun] at h hf ⊢; omega)
        simp [maxRun] at this ⊢
        omega

theorem encode_length_le (data : List UInt8) :
    (encode data).length ≤ data.length + 1 + data.length / maxRun := by
  simpa [encode] using @encodeFrom_length_le [] data (by simp [maxRun])

end Cobs
