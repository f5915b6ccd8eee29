import HackyLens.Lib.LittleEndian
import HackyLens.Photo.PngImage
import HackyLens.Photo.Theorems.Inflate

-- Stored blocks are inflated to the bytes that are in them.

namespace Inflate

open Prog LittleEndian

-- A block as it is written. The bits after its type are not used.
def storedBytes (final : Bool) (data : List UInt8) : List UInt8 :=
  (if final then 1 else 0) :: (bytes16 (.ofNat data.length) ++
    (bytes16 (~~~.ofNat data.length) ++ data))

def storedBlocks (blocks : List (List UInt8)) (last : List UInt8) : List UInt8 :=
  blocks.flatMap (storedBytes false) ++ storedBytes true last

-- The checksum at the end is not looked at.
def storedZlib (blocks : List (List UInt8)) (last checksum : List UInt8) : List UInt8 :=
  0x78 :: 0x01 :: (storedBlocks blocks last ++ checksum)

def Ahead (m : Memory) (addr : Nat) (bytes : List UInt8) : Prop :=
  m.read addr bytes.length = bytes

namespace Ahead

variable {m : Memory} {addr : Nat} {byte : UInt8} {bytes bytes' : List UInt8}

theorem append (h : Ahead m addr (bytes ++ bytes')) :
    Ahead m addr bytes ∧ Ahead m (addr + bytes.length) bytes' := by
  rw [Ahead, List.length_append, ← Memory.read_append] at h
  exact List.append_inj h Memory.read_length

theorem cons (h : Ahead m addr (byte :: bytes)) : m addr = byte ∧ Ahead m (addr + 1) bytes := by
  rw [Ahead, List.length_cons, Memory.read_succ] at h
  exact List.cons.inj h

theorem getD : Ahead (bytes.getD · 0) 0 bytes := by
  refine Memory.read_eq rfl fun i hi => ?_
  rw [Nat.zero_add, List.getD_eq_getElem?_getD, List.getElem?_eq_getElem hi, Option.getD_some]

-- One more byte is written behind those that are there.
theorem update (h : Ahead m 0 bytes) :
    Ahead (Function.update m bytes.length byte) 0 (bytes ++ [byte]) := by
  rw [Ahead, List.length_append, ← Memory.read_append]
  congr 1
  · refine Eq.trans (Memory.read_congr fun i hi => ?_) h
    rw [Nat.zero_add, Function.update_of_ne (Nat.ne_of_lt hi)]
  · show [Function.update m bytes.length byte (0 + bytes.length + 0)] = _
    rw [Nat.zero_add, Nat.add_zero, Function.update_self]

end Ahead

variable {src : Memory} {srcSize outSize : UInt32} {st st' : State} {bits : Nat}
  {written rest data : List UInt8}

theorem wp_getBits_held (h : bits ≤ st.s.bitcount) : wp safe (getBits src srcSize bits)
    (fun v st' _ => v = st.s.bitbuf % 2 ^ bits ∧ st' = { st with s := st.s.drop bits }) st () := by
  refine wp_seq (wp_need_held h) ?_
  rintro _ _ _ rfl
  exact ⟨rfl, rfl⟩

-- The output so far and the rest of the source, where all of it is read in order.
structure Reading (src : Memory) (srcSize : UInt32) (st : State) (written rest : List UInt8) :
    Prop where
  size_add : st.s.size.toNat + 6 = srcSize.toNat
  pos_add : st.s.pos.toNat + rest.length = st.s.size.toNat
  ahead : Ahead src (2 + st.s.pos.toNat) rest
  outPos_eq : st.outPos.toNat = written.length
  out : Ahead st.out 0 written

structure Stream.Aligned (s : Stream) : Prop where
  bitbuf_eq : s.bitbuf = 0
  bitcount_eq : s.bitcount = 0

theorem Stream.Aligned.takeByte {s : Stream} (h : s.Aligned) (byte : UInt8) :
    (s.takeByte byte).bitbuf = byte.toNat ∧ (s.takeByte byte).bitcount = 8 := by
  have := byte.toNat_lt
  rw [Stream.takeByte, h.bitbuf_eq, h.bitcount_eq, Nat.zero_or, Nat.shiftLeft_zero]
  exact ⟨Nat.mod_eq_of_lt (by omega), rfl⟩

-- The first bit of a block and what is left of its byte.
theorem wp_header {byte : UInt8} (h : Reading src srcSize st written (byte :: rest))
    (ha : st.s.Aligned) : wp safe (getBits src srcSize 1)
      (fun v st' _ => v = byte.toNat % 2 ∧ st'.s.bitbuf = byte.toNat / 2 ∧ st'.s.bitcount = 7 ∧
        Reading src srcSize st' written rest) st () := by
  obtain ⟨hb, hr⟩ := h.ahead.cons
  obtain ⟨hbuf, hcount⟩ := ha.takeByte byte
  have hz := h.size_add
  have hp := h.pos_add
  rw [List.length_cons] at hp
  have hn : (st.s.pos + 1).toNat = st.s.pos.toNat + 1 := toNat_succ (b := st.s.size) (by omega)
  refine wp_seq (P := fun _ st' _ => st' = { st with s := st.s.takeByte byte }) ?_ ?_
  · refine wp_loop_of_lt (fun n _ st' _ => n = 1 ∧ st' = st ∨
      n = 0 ∧ st' = { st with s := st.s.takeByte byte }) ?_ (Nat.lt_succ_self 1) (.inl ⟨rfl, rfl⟩)
    rintro n _ _ _ (⟨rfl, rfl⟩ | ⟨rfl, rfl⟩)
    all_goals
      rw [needRound, wp_bind, wp_get]
      dsimp only
      rw [wp_ite]
    · rw [if_pos (by rw [ha.bitcount_eq]; decide), wp_ite, if_neg ?_, check_eq (by omega),
        pure_bind, checkShift_eq (by rw [ha.bitcount_eq]; decide), pure_bind]
      · exact ⟨0, Nat.one_pos, .inr ⟨rfl, by rw [Stream.takeByte, hb]⟩⟩
      · exact UInt32.not_le.mpr (UInt32.lt_iff_toNat_lt.mpr (by omega))
    · rw [if_neg (by omega)]
      rfl
  · rintro _ _ _ rfl
    refine ⟨?_, ?_, ?_, ?_⟩
    · show (st.s.takeByte byte).bitbuf % 2 ^ 1 = _
      rw [hbuf, Nat.pow_one]
    · show (st.s.takeByte byte).bitbuf >>> 1 = _
      rw [hbuf, Nat.shiftRight_one]
    · show ((st.s.takeByte byte).bitcount + 2 ^ 8 - 1) % 2 ^ 8 = 7
      omega
    · refine ⟨hz, ?_, ?_, h.outPos_eq, h.out⟩
      · show (st.s.pos + 1).toNat + rest.length = st.s.size.toNat
        omega
      · show Ahead src (2 + (st.s.pos + 1).toNat) rest
        rw [hn, ← Nat.add_assoc]
        exact hr

theorem stored16_ahead {pos : UInt32} {v : UInt16} (h : Ahead src (2 + pos.toNat) (bytes16 v))
    (hp : 2 + pos.toNat + 1 < srcSize.toNat) : stored16 src srcSize pos = pure v := by
  have hn : (pos + 1).toNat = pos.toNat + 1 := toNat_succ (b := srcSize) (by omega)
  obtain ⟨h₀, h₁⟩ := h.cons
  rw [stored16, check_eq (by omega), pure_bind, check_eq (by omega), pure_bind, hn,
    ← Nat.add_assoc, h₀, h₁.cons.left]
  exact congrArg pure (u16_bytes16 [] v [])

theorem wp_copyStored_ahead {pos : UInt32} {i : Nat} (hn : st.outPos.toNat = written.length)
    (hw : Ahead st.out 0 written) (ha : Ahead src (2 + pos.toNat + i) data)
    (hp : 2 + pos.toNat + i + data.length ≤ srcSize.toNat)
    (ho : written.length + data.length ≤ outSize.toNat) :
    wp safe (copyStored src srcSize outSize pos data.length i) (fun _ st' _ => st'.s = st.s ∧
      st'.outPos.toNat = (written ++ data).length ∧ Ahead st'.out 0 (written ++ data)) st () := by
  induction data generalizing i st written with
  | nil =>
    rw [List.append_nil]
    exact ⟨rfl, hn, hw⟩
  | cons byte data ih =>
    obtain ⟨hb, ha⟩ := ha.cons
    rw [List.length_cons] at *
    rw [copyStored, check_eq (by omega), pure_bind, put, wp_bind, wp_bind, wp_get]
    dsimp only
    rw [check_eq (by omega), pure_bind, wp_modify, hb, hn, List.append_cons]
    refine ih ?_ hw.update ha (by omega) ?_
    · show (st.outPos + 1).toNat = _
      rw [toNat_succ (b := outSize) (by omega), hn, List.length_append]
      rfl
    · rw [List.length_append, List.length_singleton]
      omega

-- After the bits of its header, wherever they end.
theorem wp_storedBlock_ahead {len : UInt16} (hl : data.length = len.toNat)
    (h : Reading src srcSize st written (bytes16 len ++ (bytes16 (~~~len) ++ (data ++ rest))))
    (hs : srcSize.toNat + 65529 < 4294967296) (ho : outSize.toNat ≤ pngOutMax)
    (hw : written.length + data.length ≤ outSize.toNat) :
    wp safe (storedBlock src srcSize outSize) (fun r st' _ => r = true ∧ st'.s.Aligned ∧
      Reading src srcSize st' (written ++ data) rest) st () := by
  have hz := h.size_add
  have hp := h.pos_add
  have hlen := len.toNat_lt
  have hn := h.outPos_eq
  rw [List.length_append, List.length_append, List.length_append, bytes16_length,
    bytes16_length] at hp
  have h2 : (st.s.pos + 2).toNat = st.s.pos.toNat + 2 := toNat_add (by simp; omega)
  have h4 : (st.s.pos + 4).toNat = st.s.pos.toNat + 4 := toNat_add (by simp; omega)
  have hlp : (st.s.pos + 4 + len.toUInt32).toNat = st.s.pos.toNat + 4 + len.toNat := by
    rw [toNat_add (by simp; omega), h4, UInt16.toNat_toUInt32]
  have hlo : (st.outPos + len.toUInt32).toNat = st.outPos.toNat + len.toNat := by
    rw [pngOutMax] at ho
    rw [toNat_add (by simp; omega), UInt16.toNat_toUInt32]
  obtain ⟨ha, hr⟩ := h.ahead.append
  obtain ⟨ha', hr⟩ := hr.append
  obtain ⟨hd, hr⟩ := hr.append
  rw [bytes16_length, bytes16_length] at *
  rw [storedBlock, wp_bind, modifyStream, wp_modify, wp_bind, wp_get]
  dsimp only
  rw [wp_ite, if_neg (UInt32.not_lt.mpr (UInt32.le_iff_toNat_le.mpr (by omega))),
    stored16_ahead ha (by omega), pure_bind,
    stored16_ahead (by rw [h2]; exact ha') (by omega), pure_bind, wp_bind, modifyStream,
    wp_modify, wp_bind, wp_get]
  dsimp only
  have hok : ¬(~~~len ≠ ~~~len ∨ st.s.pos + 4 + len.toUInt32 > st.s.size ∨
      st.outPos + len.toUInt32 > outSize) := by
    rw [not_or, not_or, not_not, UInt32.not_lt, UInt32.not_lt]
    exact ⟨rfl, UInt32.le_iff_toNat_le.mpr (by omega), UInt32.le_iff_toNat_le.mpr (by omega)⟩
  rw [wp_ite, if_neg hok, ← hl]
  have hd : Ahead src (2 + (st.s.pos + 4).toNat + 0) data := by
    rw [h4]
    exact hd
  refine wp_seq (wp_copyStored_ahead hn h.out hd (by omega) hw) ?_
  rintro _ st₁ _ ⟨hs₁, hn₁, hw₁⟩
  rw [wp_bind, modifyStream, wp_modify, wp_pure]
  dsimp only
  rw [hs₁]
  refine ⟨rfl, ⟨rfl, rfl⟩, hz, ?_, ?_, hn₁, hw₁⟩
  · show (st.s.pos + 4 + len.toUInt32).toNat + rest.length = st.s.size.toNat
    omega
  · show Ahead src (2 + (st.s.pos + 4 + len.toUInt32).toNat) rest
    rw [hlp, ← hl]
    convert hr using 1
    omega

section File

variable {blocks : List (List UInt8)} {last checksum : List UInt8}

-- A round of the loop over the blocks.
theorem wp_blockRound_ahead {final : Bool} (ha : st.s.Aligned) (hd : data.length < 65536)
    (h : Reading src srcSize st written (storedBytes final data ++ rest))
    (hs : srcSize.toNat + 65529 < 4294967296) (ho : outSize.toNat ≤ pngOutMax)
    (hw : written.length + data.length ≤ outSize.toNat) :
    wp safe (blockRound src srcSize outSize ()) (fun r st' _ => st'.s.Aligned ∧
      Reading src srcSize st' (written ++ data) rest ∧
      r = if final then .inl (decide (st'.outPos = outSize)) else .inr ()) st () := by
  rw [storedBytes, List.cons_append, List.append_assoc, List.append_assoc] at h
  refine wp_seq (wp_header h ha) ?_
  rintro finalBlock st₁ _ ⟨hf, hb, hc, h₁⟩
  refine wp_seq (wp_getBits_held (by omega)) ?_
  rintro blockType _ _ ⟨ht, rfl⟩
  have ht : blockType = 0 := by
    rw [ht, hb]
    cases final <;> rfl
  subst ht
  rw [block, if_pos rfl]
  have hl : data.length = (UInt16.ofNat data.length).toNat :=
    (Nat.mod_eq_of_lt hd).symm
  have h₁ : Reading src srcSize { st₁ with s := st₁.s.drop 2 } written _ :=
    ⟨h₁.size_add, h₁.pos_add, h₁.ahead, h₁.outPos_eq, h₁.out⟩
  refine wp_seq (wp_storedBlock_ahead hl h₁ hs ho hw) ?_
  rintro r st₂ _ ⟨rfl, ha₂, h₂⟩
  rw [if_pos rfl, wp_ite]
  cases final
  case false =>
    rw [if_neg (by rw [hf]; decide)]
    exact ⟨ha₂, h₂, rfl⟩
  case true  =>
    rw [if_pos (by rw [hf]; decide)]
    exact ⟨ha₂, h₂, rfl⟩

theorem length_le_storedBlocks : blocks.length ≤ (storedBlocks blocks last).length := by
  rw [storedBlocks, List.length_append]
  induction blocks with
  | nil                => exact Nat.zero_le _
  | cons data blocks ih =>
    rw [List.flatMap_cons, List.length_append, List.length_cons, storedBytes, List.length_cons]
    omega

theorem wp_blocks_ahead {fuel : Nat} (hb : ∀ data ∈ blocks, data.length < 65536)
    (hl : last.length < 65536) (hs : srcSize.toNat + 65529 < 4294967296)
    (ho : outSize.toNat ≤ pngOutMax)
    (hn : outSize.toNat = (written ++ (blocks.flatten ++ last)).length) (ha : st.s.Aligned)
    (h : Reading src srcSize st written (storedBlocks blocks last)) (hf : blocks.length < fuel) :
    wp safe (loop (blockRound src srcSize outSize) fuel ())
      (fun r st' _ => r = true ∧ Ahead st'.out 0 (written ++ (blocks.flatten ++ last))) st () := by
  induction blocks generalizing st written fuel with
  | nil =>
    obtain ⟨fuel, rfl⟩ := Nat.exists_eq_add_of_lt hf
    rw [List.flatten_nil, List.nil_append] at *
    rw [storedBlocks, List.flatMap_nil, List.nil_append,
      ← List.append_nil (storedBytes _ _)] at h
    rw [loop, wp_bind]
    refine wp_mono (wp_blockRound_ahead ha hl h hs ho ?_) ?_
    · rw [hn, List.length_append]
    · rintro r st₁ _ ⟨-, h₁, rfl⟩
      refine ⟨decide_eq_true (UInt32.toNat_inj.mp ?_), h₁.out⟩
      rw [h₁.outPos_eq, hn]
  | cons data blocks ih =>
    obtain ⟨hd, hb⟩ := List.forall_mem_cons.mp hb
    obtain ⟨fuel, rfl⟩ := Nat.exists_eq_add_of_lt hf
    rw [List.flatten_cons, List.append_assoc, ← List.append_assoc] at *
    rw [storedBlocks, List.flatMap_cons, List.append_assoc] at h
    rw [loop, wp_bind]
    refine wp_mono (wp_blockRound_ahead ha hd h hs ho ?_) ?_
    · rw [hn, List.length_append, List.length_append]
      exact Nat.le_add_right _ _
    · rintro r st₁ _ ⟨ha₁, h₁, rfl⟩
      rw [List.length_cons]
      exact ih hb hn ha₁ h₁ (by omega)

theorem wp_zlibInflateToBuffer_stored (hb : ∀ data ∈ blocks, data.length < 65536)
    (hl : last.length < 65536) (hc : checksum.length = 4)
    (hz : srcSize.toNat = (storedZlib blocks last checksum).length)
    (hs : srcSize.toNat + 65529 < 4294967296)
    (hn : outSize.toNat = (blocks.flatten ++ last).length) (ho : outSize.toNat ≤ pngOutMax) :
    wp safe (zlibInflateToBuffer ((storedZlib blocks last checksum).getD · 0) srcSize outSize)
      (fun r st' _ => r = true ∧ Ahead st'.out 0 (blocks.flatten ++ last)) st () := by
  have ha : Ahead ((storedZlib blocks last checksum).getD · 0) 0 _ := .getD
  generalize ((storedZlib blocks last checksum).getD · 0) = src at *
  obtain ⟨h₀, ha⟩ := ha.cons
  obtain ⟨h₁, ha⟩ := ha.cons
  have ha := ha.append.left
  rw [storedZlib, List.length_cons, List.length_cons, List.length_append] at hz
  have hle : blocks.length ≤ (storedBlocks blocks last).length := length_le_storedBlocks
  have h6 : 6 ≤ srcSize := UInt32.le_iff_toNat_le.mpr (show 6 ≤ srcSize.toNat by omega)
  have hd : (srcSize - 6).toNat = srcSize.toNat - 6 := UInt32.toNat_sub_of_le _ _ h6
  rw [zlibInflateToBuffer, wp_bind, wp_modify, wp_ite, if_neg (UInt32.not_lt.mpr h6),
    check_eq (by omega), pure_bind, check_eq (by omega), pure_bind, wp_ite, h₀, h₁,
    if_neg (by decide), wp_bind, wp_modify]
  have h : Reading src srcSize { st with s := ⟨srcSize - 6, 0, 0, 0⟩, outPos := 0 } []
      (storedBlocks blocks last) := by
    refine ⟨?_, ?_, ha, rfl, rfl⟩
    · show (srcSize - 6).toNat + 6 = srcSize.toNat
      omega
    · show 0 + (storedBlocks blocks last).length = (srcSize - 6).toNat
      omega
  exact wp_blocks_ahead hb hl hs ho hn ⟨rfl, rfl⟩ h (by omega)

-- The checksum is not compared, so that any four bytes will do.
theorem inflates_stored (hb : ∀ data ∈ blocks, data.length < 65536) (hl : last.length < 65536)
    (hc : checksum.length = 4)
    (hs : (storedZlib blocks last checksum).length + 65529 < 4294967296)
    (ho : (blocks.flatten ++ last).length ≤ pngOutMax) :
    Png.inflate (storedZlib blocks last checksum) (blocks.flatten ++ last).length st =
      some (some (blocks.flatten ++ last)) := by
  have hz : (UInt32.ofNat (storedZlib blocks last checksum).length).toNat = _ :=
    Nat.mod_eq_of_lt (show _ < 4294967296 by omega)
  have hn : (UInt32.ofNat (blocks.flatten ++ last).length).toNat = _ :=
    Nat.mod_eq_of_lt (show _ < 4294967296 by rw [pngOutMax] at ho; omega)
  have hw : wp safe (zlibInflateToBuffer _ _ _) _ st () :=
    wp_zlibInflateToBuffer_stored hb hl hc hz (by rw [hz]; exact hs) hn (by rw [hn]; exact ho)
  obtain ⟨r, st', he, rfl, hr⟩ := exists_ret hw
  rw [Png.inflate, run, he]
  refine congrArg (fun out => some (some out)) (Eq.trans ?_ hr)
  rw [Memory.read]
  simp only [Nat.zero_add]

theorem inflates_stored_two :
    Png.inflate (storedZlib [[1, 2]] [3] [0, 0, 0, 0]) 3 zeroed = some (some [1, 2, 3]) :=
  inflates_stored (by simp) (by decide) rfl (by decide) (by decide)

end File

end Inflate
