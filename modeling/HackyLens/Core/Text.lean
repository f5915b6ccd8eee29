import Mathlib.Data.UInt

-- `hk_string.c`: text that is converted for a buffer of fixed size.

namespace Core

-- One of the six-bit groups of a code point.
def utf8Group (codepoint : UInt32) (shift : UInt32) : UInt8 :=
  0x80 ||| (codepoint >>> shift).toUInt8 &&& 0x3F

-- `utf8_encode`, which returns nothing where the capacity is too small or there is no such code point.
def utf8Encode (codepoint : UInt32) (capacity : Nat) : List UInt8 :=
  if codepoint ≤ 0x7F then
    if capacity < 1 then [] else [codepoint.toUInt8]
  else if codepoint ≤ 0x7FF then
    if capacity < 2 then [] else
      [(0xC0 : UInt8) ||| (codepoint >>> 6).toUInt8, utf8Group codepoint 0]
  else if codepoint ≤ 0xFFFF then
    if capacity < 3 then [] else
      [(0xE0 : UInt8) ||| (codepoint >>> 12).toUInt8, utf8Group codepoint 6, utf8Group codepoint 0]
  else if codepoint ≤ 0x10FFFF then
    if capacity < 4 then [] else
      [(0xF0 : UInt8) ||| (codepoint >>> 18).toUInt8, utf8Group codepoint 12, utf8Group codepoint 6,
        utf8Group codepoint 0]
  else
    []

-- The code point at a place in UTF-16, with the number of units it takes. What is no pair of
-- surrogates is a question mark.
def utf16Next (input : Nat → UInt16) (inputUnits i : Nat) : UInt32 × Nat :=
  let codepoint := (input i).toUInt32
  if 0xD800 ≤ codepoint ∧ codepoint ≤ 0xDBFF ∧ i + 1 < inputUnits ∧ 0xDC00 ≤ input (i + 1) ∧
      input (i + 1) ≤ 0xDFFF then
    ((0x10000 : UInt32) + ((codepoint - 0xD800) <<< 10) + ((input (i + 1)).toUInt32 - 0xDC00), 2)
  else if 0xD800 ≤ codepoint ∧ codepoint ≤ 0xDFFF then
    (63, 1)
  else
    (codepoint, 1)

-- The loop of `utf16_to_utf8`, which takes at least one unit in each round.
def utf16Loop (input : Nat → UInt16) (inputUnits outputSize : Nat) :
    (rounds i : Nat) → (used : List UInt8) → List UInt8
  | 0,          _, used => used
  | rounds + 1, i, used =>
    if i < inputUnits ∧ input i ≠ 0 ∧ input i ≠ 0xFFFF then
      let (codepoint, units) := utf16Next input inputUnits i
      let encoded := utf8Encode codepoint (outputSize - used.length - 1)
      if encoded = [] then
        used
      else
        utf16Loop input inputUnits outputSize rounds (i + units) (used ++ encoded)
    else
      used

-- `utf16_to_utf8`, without the zero at the end.
def utf16ToUtf8 (input : Nat → UInt16) (inputUnits outputSize : Nat) : List UInt8 :=
  utf16Loop input inputUnits outputSize inputUnits 0 []

-- `ascii_lower`
def asciiLower (c : UInt8) : UInt8 :=
  if 0x41 ≤ c ∧ c ≤ 0x5A then c + 0x20 else c

-- `str_eq_ci`, of strings without the zeros at their ends.
def strEqCi : List UInt8 → List UInt8 → Bool
  | a :: as, b :: bs => if asciiLower a ≠ asciiLower b then false else strEqCi as bs
  | [], []           => true
  | _, _             => false

end Core
