import HackyLens.Lib.Memory

-- A serial NOR flash with 24-bit addresses, as its bus sees it.

namespace Nor

def pageSize : Nat := 0x100
def sectorSize : Nat := 0x1000

def sectorErase : UInt8 := 0x20
def pageProgram : UInt8 := 0x02
def writeEnable : UInt8 := 0x06
def readStatus  : UInt8 := 0x05
def readId      : UInt8 := 0x9F
def readData    : UInt8 := 0x03

-- While a write takes place, the device is `busy` and ignores everything but requests for its
-- status. A write instruction is ignored as well unless `wel`, the write enable latch, is set.
structure Chip where
  memory : Memory
  wel : Bool
  busy : Bool

def address (a b c : UInt8) : Nat :=
  a.toNat * 0x10000 + b.toNat * 0x100 + c.toNat

-- What has been sent of a page is collected in a buffer. At the end of the page it goes on at its
-- beginning.
def load : List UInt8 → Nat → Memory → Memory
  | [],           _,   buffer => buffer
  | byte :: rest, pos, buffer => load rest ((pos + 1) % pageSize) (Function.update buffer pos byte)

-- Bits are only ever cleared by programming a page, and only ever set by erasing a sector.
def program (m : Memory) (addr : Nat) (data : List UInt8) : Memory :=
  fun a =>
    if a / pageSize = addr / pageSize then
      m a &&& load data (addr % pageSize) (fun _ => 0xFF) (a % pageSize)
    else
      m a

def erase (m : Memory) (addr : Nat) : Memory :=
  fun a => if a / sectorSize = addr / sectorSize then 0xFF else m a

namespace Chip

def begin (chip : Chip) (memory : Memory) : Chip :=
  { chip with memory, busy := true }

-- What the device does with a frame. Even when a write is enabled, the device may still refuse it.
def execute (chip : Chip) (accepts : Bool) (frame : List UInt8) : Chip :=
  if chip.busy then
    chip
  else
    match frame with
    | [cmd] => if cmd = writeEnable then { chip with wel := true } else chip
    | [cmd, a, b, c] =>
      if cmd = sectorErase ∧ chip.wel ∧ accepts then
        chip.begin (erase chip.memory (address a b c))
      else
        chip
    | cmd :: a :: b :: c :: data =>
      if cmd = pageProgram ∧ chip.wel ∧ accepts then
        chip.begin (program chip.memory (address a b c) data)
      else
        chip
    | _ => chip

-- The latch is reset when a write is finished.
def settle (chip : Chip) (finished : Bool) : Chip :=
  if chip.busy ∧ finished then
    { chip with wel := false, busy := false }
  else
    chip

-- The bits of the status that say something else can have any value.
def status (chip : Chip) (others : UInt8) : UInt8 :=
  others &&& 0xFC ||| (if chip.wel then 2 else 0) ||| if chip.busy then 1 else 0

-- What is received when `len` bytes are asked for. `noise` is all that can be said about the answer
-- to a frame that is not understood, and about the identification of an unknown device.
def reply (chip : Chip) (noise : Memory) (frame : List UInt8) (len : Nat) : List UInt8 :=
  match frame with
  | [cmd] =>
    if cmd = readStatus then
      .replicate len (chip.status (noise 0))
    else
      noise.read 0 len
  | [cmd, a, b, c] =>
    if cmd = readData ∧ !chip.busy then
      chip.memory.read (address a b c) len
    else
      noise.read 0 len
  | _ => noise.read 0 len

end Chip

section Memory

variable {m buffer : Memory} {addr pos a : Nat} {data : List UInt8}

-- The bytes of a page that are not sent are loaded with what does not change them.
theorem load_apply (hp : pos + data.length ≤ pageSize) (ha : a < pageSize) :
    load data pos buffer a =
      if pos ≤ a ∧ a < pos + data.length then data.getD (a - pos) 0 else buffer a := by
  induction data generalizing pos buffer with
  | nil =>
    rw [if_neg]
    · rfl
    · simp only [List.length_nil]
      omega
  | cons byte rest ih =>
    simp only [List.length_cons] at hp ⊢
    rw [load]
    by_cases hn : pos + 1 = pageSize
    case pos =>
      have hr : rest = [] := List.eq_nil_of_length_eq_zero (by omega)
      subst hr
      rw [load, Function.update_apply]
      by_cases he : a = pos
      case pos => simp [he]
      case neg => rw [if_neg he, if_neg (by simp; omega)]
    case neg =>
      rw [Nat.mod_eq_of_lt (by omega), ih (by omega), Function.update_apply]
      by_cases he : a = pos
      case pos => simp [he]
      case neg =>
        by_cases hb : pos + 1 ≤ a ∧ a < pos + 1 + rest.length
        case pos =>
          rw [if_pos hb, if_pos (by omega), show a - pos = a - (pos + 1) + 1 by omega]
          rfl
        case neg => rw [if_neg hb, if_neg he, if_neg (by omega)]

-- What stays inside a page does not wrap.
theorem program_apply (hp : addr % pageSize + data.length ≤ pageSize) :
    program m addr data a =
      if addr ≤ a ∧ a < addr + data.length then m a &&& data.getD (a - addr) 0 else m a := by
  have ha : a % pageSize < pageSize := Nat.mod_lt _ (by decide)
  simp only [program, load_apply hp ha]
  by_cases hs : a / pageSize = addr / pageSize
  case neg =>
    rw [if_neg hs, if_neg]
    simp only [pageSize] at hp hs
    omega
  case pos =>
    have hm : addr % pageSize ≤ a % pageSize ∧ a % pageSize < addr % pageSize + data.length ↔
        addr ≤ a ∧ a < addr + data.length := by
      simp only [pageSize] at hs ⊢
      omega
    simp only [if_pos hs, hm]
    split
    case isTrue =>
      rw [show a % pageSize - addr % pageSize = a - addr by simp only [pageSize] at hs ⊢; omega]
    case isFalse => exact UInt8.and_neg_one

theorem erase_eq (ha : addr % sectorSize = 0) :
    erase m addr = m.overlay addr sectorSize fun _ => 0xFF := by
  funext a
  have hm : a / sectorSize = addr / sectorSize ↔ addr ≤ a ∧ a < addr + sectorSize := by
    simp only [sectorSize] at ha ⊢
    omega
  simp only [erase, Memory.overlay, hm]

end Memory

-- The bytes of a program reach the device in their order, and it can start on any part of them.
namespace Chip

variable {chip : Chip} {accepts : Bool} {a b c : UInt8} {data : List UInt8} {n : Nat}

theorem execute_writeEnable (accepts : Bool) (n : Nat) (hb : chip.busy = false) :
    let chip' := chip.execute accepts ([writeEnable].take n)
    chip' = chip ∨ chip' = { chip with wel := true } := by
  cases n with
  | zero   => exact .inl (by simp [execute, hb])
  | succ n => exact .inr (by simp [execute, hb])

theorem execute_of_short {frame : List UInt8} (hl : frame.length < 4) (hw : frame ≠ [writeEnable]) :
    chip.execute accepts frame = chip := by
  rcases frame with _ | ⟨cmd, _ | ⟨a, _ | ⟨b, _ | ⟨c, rest⟩⟩⟩⟩
  case cons.nil =>
    have hc : cmd ≠ writeEnable := fun h => hw (h ▸ rfl)
    simp [execute, hc]
  case cons.cons.cons.cons =>
    simp only [List.length_cons] at hl
    omega
  all_goals simp [execute]

theorem execute_sectorErase (chip : Chip) (accepts : Bool) (a b c : UInt8) (n : Nat) :
    let chip' := chip.execute accepts ([sectorErase, a, b, c].take n)
    chip' = chip ∨ chip' = chip.begin (erase chip.memory (address a b c)) := by
  by_cases hn : n < 4
  case pos =>
    refine .inl <| execute_of_short ?_ ?_
    · simpa using hn
    · cases n <;> simp [sectorErase, writeEnable]
  case neg =>
    rw [List.take_of_length_le (by simpa using hn)]
    simp only [execute]
    split
    · exact .inl rfl
    · split
      · exact .inr rfl
      · exact .inl rfl

theorem execute_pageProgram (chip : Chip) (accepts : Bool) (a b c : UInt8) (data : List UInt8)
    (n : Nat) :
    let chip' := chip.execute accepts ((pageProgram :: a :: b :: c :: data).take n)
    chip' = chip ∨ ∃ k, (data.length + 4 ≤ n → data.take k = data) ∧
      chip' = chip.begin (program chip.memory (address a b c) (data.take k)) := by
  by_cases hn : n < 4
  case pos =>
    refine .inl <| execute_of_short ?_ ?_
    · simp only [List.length_take]
      omega
    · cases n <;> simp [pageProgram, writeEnable]
  case neg =>
    obtain ⟨k, rfl⟩ := Nat.exists_eq_add_of_le' (Nat.le_of_not_lt hn)
    simp only [List.take_succ_cons]
    have hk : data.length + 4 ≤ k + 4 → data.take k = data :=
      fun h => List.take_of_length_le (by omega)
    simp only [execute]
    cases hd : data.take k with
    | nil =>
      refine .inl ?_
      simp [pageProgram, sectorErase]
    | cons byte rest =>
      simp only
      split
      · exact .inl rfl
      · split
        · exact .inr ⟨k, hk, hd ▸ rfl⟩
        · exact .inl rfl

theorem settle_of_ready {finished : Bool} (h : chip.busy = false) : chip.settle finished = chip := by
  simp [settle, h]

theorem settle_memory {finished : Bool} : (chip.settle finished).memory = chip.memory := by
  rw [settle]
  split <;> rfl

theorem settle_settle {f g : Bool} : (chip.settle f).settle g = chip.settle (f || g) := by
  cases hb : chip.busy <;> cases f <;> cases g <;> simp [settle, hb]

-- Nothing but the end of a write resets the latch.
theorem settle_eq_of_wel {f : Bool} (hw : chip.wel = true) (h : (chip.settle f).wel = false) :
    chip.settle f = { chip with wel := false, busy := false } ∧ chip.busy = true := by
  by_cases hb : chip.busy ∧ f
  case pos =>
    rw [settle, if_pos hb]
    exact ⟨rfl, hb.left⟩
  case neg =>
    rw [settle, if_neg hb, hw] at h
    cases h

theorem or_and {x y z : UInt8} : (x ||| y) &&& z = x &&& z ||| y &&& z :=
  UInt8.toBitVec_inj.mp BitVec.and_or_distrib_right

theorem status_busy {others : UInt8} : chip.status others &&& 1 = 0 ↔ chip.busy = false := by
  have ho : others &&& 0xFC &&& 1 = 0 := UInt8.and_assoc .. ▸ UInt8.and_zero
  rw [status, or_and, or_and, ho]
  cases chip.wel <;> cases chip.busy <;> decide

theorem status_wel {others : UInt8} : chip.status others &&& 2 = 0 ↔ chip.wel = false := by
  have ho : others &&& 0xFC &&& 2 = 0 := UInt8.and_assoc .. ▸ UInt8.and_zero
  rw [status, or_and, or_and, ho]
  cases chip.wel <;> cases chip.busy <;> decide

end Chip

end Nor
