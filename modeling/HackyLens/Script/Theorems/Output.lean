import Mathlib.Tactic
import HackyLens.Script.Output

namespace Output

variable {s s' : State} {r : Reading} {written : List UInt8} {ops : List Op} {reader : Nat}

-- A cursor that is neither behind the oldest byte nor at most at the total is taken back to it.
def Reading.Ahead (r : Reading) : Prop :=
  ¬negative (r.cursor - oldest r.write) ∧ negative (r.write - r.cursor)

-- What holds of a call of which some bytes have been loaded.
structure Reading.Right (written : List UInt8) (r : Reading) : Prop where
  range : r.read.toNat + r.count ≤ written.length
  loaded : r.destination.length ≤ r.count
  flags : r.untouched.length = r.destination.length
  bytes : ∀ i, r.untouched[i]? = some true → r.destination[i]? = written[r.read.toNat + i]?
  moved : ¬r.Ahead → r.cursor' = r.cursor + r.lost + .ofNat r.count
  back : r.Ahead → r.cursor' = r.write ∧ r.lost = 0 ∧ r.count = 0

theorem Reading.Right.append {byte : UInt8} (h : r.Right written) : r.Right (written ++ [byte]) := by
  refine ⟨?_, h.loaded, h.flags, fun i hi => ?_, h.moved, h.back⟩
  · rw [List.length_append]
    exact h.range.trans (Nat.le_add_right ..)
  · have hl := (List.getElem?_eq_some_iff.mp hi).fst
    have hr := h.range
    have hd := h.loaded
    rw [h.flags] at hl
    rw [List.getElem?_append_left (by omega)]
    exact h.bytes i hi

theorem oldest_toNat (write : UInt32) : (oldest write).toNat = write.toNat - outputBytes := by
  rw [oldest]
  split
  case isTrue h =>
    have hl : (4096 : UInt32) ≤ write := UInt32.le_iff_toNat_le.mpr h.le
    rw [UInt32.toNat_sub_of_le _ _ hl]
    rfl
  case isFalse h =>
    rw [Nat.sub_eq_zero_of_le (Nat.le_of_not_lt h)]
    rfl

-- Each slot holds the latest byte that has been stored for it. The total may be behind what has been
-- stored, and what has been stored is less than half of what a cursor can count.
structure Inv (s : State) : Prop where
  ring : ∀ p < s.written.length, s.written.length ≤ p + outputBytes →
    s.written[p]? = some (s.shared.output (p % outputBytes))
  total : s.shared.outputWrite.toNat ≤ s.written.length
  idle : s.writing = none → s.shared.outputWrite.toNat = s.written.length
  writing : ∀ w, s.writing = some w → w.write.toNat = s.written.length
  reading : ∀ reader r, s.reading reader = some r → r.Right s.written
  results : ∀ r ∈ s.results, r.Right s.written ∧ r.destination.length = r.count

theorem start_inv (output : Nat → UInt8) : Inv (.start output) :=
  ⟨by rintro _ ⟨⟩, Nat.le_refl 0, fun _ => rfl, by rintro _ ⟨⟩, by rintro _ _ ⟨⟩, by rintro _ ⟨⟩⟩

theorem slot_eq {position : UInt32} :
    (position &&& outputMask).toNat = position.toNat % outputBytes := by
  rw [UInt32.toNat_and]
  exact Nat.and_two_pow_sub_one_eq_mod position.toNat 12

end Output
