import Mathlib.Algebra.Order.Field.Rat

-- What the detectors compute of the places of faces and objects, with exact arithmetic.

namespace Detection

-- `overlap`
def overlap (c₁ s₁ c₂ s₂ : Rat) : Rat :=
  let left := if c₁ - s₁ * (1 / 2) > c₂ - s₂ * (1 / 2) then c₁ - s₁ * (1 / 2)
    else c₂ - s₂ * (1 / 2)
  let right := if c₁ + s₁ * (1 / 2) < c₂ + s₂ * (1 / 2) then c₁ + s₁ * (1 / 2)
    else c₂ + s₂ * (1 / 2)
  if right > left then right - left else 0

-- The place of a candidate or of a box.
structure Region where
  x : Rat
  y : Rat
  w : Rat
  h : Rat

-- `candidate_iou`
def iou (a b : Region) : Rat :=
  let intersection := overlap a.x a.w b.x b.w * overlap a.y a.h b.y b.h
  let total := a.w * a.h + b.w * b.h - intersection
  if total > 0 then intersection / total else 0

-- The conversion to `int32_t`, which stops at the ends of its range.
def toInt32 (value : Rat) : Int :=
  max (-2147483648) (min 2147483647 (value.num.tdiv value.den))

end Detection
