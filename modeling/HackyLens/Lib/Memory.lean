import Mathlib.Data.UInt
import Mathlib.Tactic.Common

-- Memory by addresses, with the ranges of it that are read or replaced.
abbrev Memory := Nat → UInt8

namespace Memory

variable {m f : Memory} {addr addr' len len' : Nat} {data : List UInt8}

def read (m : Memory) (addr len : Nat) : List UInt8 :=
  (List.range len).map fun i => m (addr + i)

-- What `f` holds from `addr` on, and `m` elsewhere.
def overlay (m : Memory) (addr len : Nat) (f : Memory) : Memory :=
  fun a => if addr ≤ a ∧ a < addr + len then f a else m a

@[simp]
theorem read_length : (m.read addr len).length = len := by
  simp [read]

theorem read_congr (h : ∀ i < len, m (addr + i) = f (addr + i)) : m.read addr len = f.read addr len :=
  List.map_congr_left fun i hi => h i (List.mem_range.mp hi)

theorem overlay_apply_of_not_mem {a : Nat} (h : ¬(addr ≤ a ∧ a < addr + len)) :
    m.overlay addr len f a = m a :=
  if_neg h

theorem read_overlay (hl : addr' ≤ addr) (hr : addr + len ≤ addr' + len') :
    (m.overlay addr' len' f).read addr len = f.read addr len :=
  read_congr fun _ _ => if_pos ⟨by omega, by omega⟩

theorem read_overlay_disjoint (h : addr + len ≤ addr' ∨ addr' + len' ≤ addr) :
    (m.overlay addr' len' f).read addr len = m.read addr len :=
  read_congr fun _ _ => overlay_apply_of_not_mem (by omega)

@[simp]
theorem overlay_overlay {g : Memory} :
    (m.overlay addr len f).overlay addr len g = m.overlay addr len g := by
  funext a
  simp only [overlay]
  split <;> rfl

-- A range that is replaced a part at a time.
theorem overlay_append : (m.overlay addr len f).overlay (addr + len) len' f = m.overlay addr (len + len') f := by
  funext a
  simp only [overlay]
  by_cases hl : addr + len ≤ a ∧ a < addr + len + len'
  case pos => rw [if_pos hl, if_pos (by omega)]
  case neg =>
    rw [if_neg hl]
    by_cases hf : addr ≤ a ∧ a < addr + len
    case pos => rw [if_pos hf, if_pos (by omega)]
    case neg => rw [if_neg hf, if_neg (by omega)]

theorem read_append (m : Memory) (addr len len' : Nat) :
    m.read addr len ++ m.read (addr + len) len' = m.read addr (len + len') := by
  simp [read, List.range_add, Nat.add_assoc]

theorem read_succ : m.read addr (len + 1) = m addr :: m.read (addr + 1) len := by
  rw [Nat.add_comm, ← read_append]
  rfl

theorem read_eq (hl : data.length = len) (h : ∀ (i : Nat) (hi : i < data.length), m (addr + i) = data[i]) :
    m.read addr len = data := by
  subst hl
  refine List.ext_getElem (by simp) fun i _ hi => ?_
  simp [read, h i hi]

end Memory
