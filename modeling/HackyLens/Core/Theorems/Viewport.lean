import HackyLens.Core.Viewport
import Mathlib.Tactic

-- The parts of the image and of the destination are inside of them, and not empty.

namespace Core

variable {srcW srcH dstW dstH : UInt16} {mode : UInt32} {view : Viewport}

theorem toUInt32_mul (a b : UInt16) : (a.toUInt32 * b.toUInt32).toNat = a.toNat * b.toNat := by
  have ha := a.toNat_lt
  have hb := b.toNat_lt
  rw [UInt32.toNat_mul, UInt16.toNat_toUInt32, UInt16.toNat_toUInt32]
  refine Nat.mod_eq_of_lt ?_
  calc a.toNat * b.toNat ≤ 65535 * 65535 := Nat.mul_le_mul (by omega) (by omega)
    _ < 2 ^ 32 := by decide

theorem toUInt32_mul_le (a b : UInt16) : a.toNat * b.toNat ≤ 4294836225 :=
  Nat.mul_le_mul (show _ ≤ 65535 by have := a.toNat_lt; omega)
    (show _ ≤ 65535 by have := b.toNat_lt; omega)

theorem nonzero_toNat {size : UInt32} (h : size.toNat < 65536) :
    (nonzero size).toNat = max 1 size.toNat := by
  rw [nonzero, UInt32.toNat_toUInt16]
  split
  case isTrue hn =>
    have hpos : 0 < size.toNat := Nat.pos_of_ne_zero fun he => hn (UInt32.toNat_inj.mp he)
    rw [Nat.max_eq_right hpos]
    exact Nat.mod_eq_of_lt h
  case isFalse hn =>
    rw [not_not.mp hn]
    rfl

theorem margin_toNat {outer inner : UInt16} (h : inner.toNat ≤ outer.toNat) :
    (margin outer inner).toNat = (outer.toNat - inner.toNat) / 2 := by
  have ho := outer.toNat_lt
  have hle : inner.toUInt32 ≤ outer.toUInt32 := by
    rw [UInt32.le_iff_toNat_le, UInt16.toNat_toUInt32, UInt16.toNat_toUInt32]
    exact h
  rw [margin, UInt32.toNat_toUInt16, UInt32.toNat_div, UInt32.toNat_sub_of_le _ _ hle,
    UInt16.toNat_toUInt32, UInt16.toNat_toUInt32]
  exact Nat.mod_eq_of_lt (Nat.lt_of_le_of_lt (Nat.div_le_self _ _) (by omega))

-- A quotient that is rounded to the nearest number.
theorem rounded_le {a b c : Nat} (h : a ≤ b * c) (hb : 0 < b) : (a + b / 2) / b ≤ c := by
  have hlt : a + b / 2 < b * (c + 1) := by
    rw [Nat.mul_add, Nat.mul_one]
    omega
  exact Nat.lt_succ_iff.mp (Nat.div_lt_of_lt_mul hlt)

structure Viewport.Inside (view : Viewport) (srcW srcH dstW dstH : UInt16) : Prop where
  srcW_pos : 0 < view.srcW.toNat
  srcH_pos : 0 < view.srcH.toNat
  dstW_pos : 0 < view.dstW.toNat
  dstH_pos : 0 < view.dstH.toNat
  srcX_le : view.srcX.toNat + view.srcW.toNat ≤ srcW.toNat
  srcY_le : view.srcY.toNat + view.srcH.toNat ≤ srcH.toNat
  dstX_le : view.dstX.toNat + view.dstW.toNat ≤ dstW.toNat
  dstY_le : view.dstY.toNat + view.dstH.toNat ≤ dstH.toNat

-- A part that is not larger than the whole is in its middle.
theorem margin_add_le {outer : UInt16} {size : UInt32} (h : size.toNat ≤ outer.toNat)
    (ho : 0 < outer.toNat) : 0 < (nonzero size).toNat ∧
      (margin outer (nonzero size)).toNat + (nonzero size).toNat ≤ outer.toNat := by
  have hlt := outer.toNat_lt
  have hs := @nonzero_toNat size (by omega)
  have hle : (nonzero size).toNat ≤ outer.toNat := by omega
  rw [margin_toNat hle]
  omega

theorem margin_self {outer : UInt16} : (margin outer outer).toNat = 0 := by
  rw [margin_toNat (Nat.le_refl _), Nat.sub_self]

theorem viewportCalculate_inside (h : viewportCalculate srcW srcH dstW dstH mode = some view) :
    view.Inside srcW srcH dstW dstH := by
  rw [viewportCalculate] at h
  split at h
  case isTrue => cases h
  case isFalse hn =>
    simp only [not_or] at hn
    obtain ⟨ha, hb, hc, hd, _⟩ := hn
    have pos {n : UInt16} (hn : ¬n = 0) : 0 < n.toNat :=
      Nat.pos_of_ne_zero fun he => hn (UInt16.toNat_inj.mp he)
    have ha := pos ha
    have hb := pos hb
    have hc := pos hc
    have hd := pos hd
    have half (n : UInt16) : (n.toUInt32 / 2).toNat = n.toNat / 2 := by
      rw [UInt32.toNat_div, UInt16.toNat_toUInt32]
      rfl
    -- What the rounded sizes are, which do not overflow.
    have round (a b c : UInt16) : ((a.toUInt32 * b.toUInt32 + c.toUInt32 / 2) / c.toUInt32).toNat =
        (a.toNat * b.toNat + c.toNat / 2) / c.toNat := by
      have hle := toUInt32_mul_le a b
      have hlt := c.toNat_lt
      rw [UInt32.toNat_div, UInt32.toNat_add, toUInt32_mul, half, UInt16.toNat_toUInt32,
        Nat.mod_eq_of_lt (show _ < 4294967296 by omega)]
    have floor (a b c : UInt16) : (a.toUInt32 * b.toUInt32 / c.toUInt32).toNat =
        a.toNat * b.toNat / c.toNat := by
      rw [UInt32.toNat_div, toUInt32_mul, UInt16.toNat_toUInt32]
    have wider : srcW.toUInt32 * dstH.toUInt32 > srcH.toUInt32 * dstW.toUInt32 ↔
        srcH.toNat * dstW.toNat < srcW.toNat * dstH.toNat := by
      rw [gt_iff_lt, UInt32.lt_iff_toNat_lt, toUInt32_mul, toUInt32_mul]
    dsimp only at h
    simp only [wider] at h
    split at h
    case isTrue =>
      split at h
      case isTrue hw =>
        have hm := @margin_add_le srcW (srcH.toUInt32 * dstW.toUInt32 / dstH.toUInt32) (by
          rw [floor]
          exact Nat.div_le_of_le_mul (by rw [Nat.mul_comm dstH.toNat]; exact Nat.le_of_lt hw)) ha
        cases h
        exact ⟨hm.left, hb, hc, hd, hm.right, by simp, by simp, by simp⟩
      case isFalse hw =>
        have hm := @margin_add_le srcH (srcW.toUInt32 * dstH.toUInt32 / dstW.toUInt32) (by
          rw [floor]
          exact Nat.div_le_of_le_mul (by rw [Nat.mul_comm dstW.toNat]; exact Nat.not_lt.mp hw)) hb
        cases h
        exact ⟨ha, hm.left, hc, hd, by simp, hm.right, by simp, by simp⟩
    case isFalse =>
      split at h
      case isTrue hw =>
        have hm := @margin_add_le dstH
          ((srcH.toUInt32 * dstW.toUInt32 + srcW.toUInt32 / 2) / srcW.toUInt32) (by
            rw [round]
            exact rounded_le (Nat.le_of_lt hw) ha) hd
        cases h
        exact ⟨ha, hb, hc, hm.left, by simp, by simp, by simp [margin_self], hm.right⟩
      case isFalse hw =>
        have hm := @margin_add_le dstW
          ((srcW.toUInt32 * dstH.toUInt32 + srcH.toUInt32 / 2) / srcH.toUInt32) (by
            rw [round]
            exact rounded_le (Nat.not_lt.mp hw) hb) hc
        cases h
        exact ⟨ha, hb, hm.left, hd, by simp, by simp, hm.right, by simp [margin_self]⟩

end Core
