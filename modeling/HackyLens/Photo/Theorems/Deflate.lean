import HackyLens.Photo.Theorems.Dynamic

-- Compressed blocks are inflated to what they say. Stored blocks are not among them, because bytes
-- of theirs that are in the buffer already would be lost.

namespace Inflate

open Prog Canonical

variable {src : Memory} {srcSize outSize : UInt32} {c : Coding} {n n' : Nat}
  {written : List UInt8} {st : State}

section Fixed

-- The codes of a block that does not come with its own.
def fixedCoding : Coding where
  len
    | .lit  => fixedLitLengths
    | .dist => fun _ => 5
  count
    | .lit  => 288
    | .dist => 32

theorem fixedCoding_sound : fixedCoding.Sound := by
  constructor
  case count_le =>
    intro t
    cases t <;> decide
  case len_le   =>
    intro t i _
    cases t
    case lit  =>
      show fixedLitLengths i ≤ 15
      rw [fixedLitLengths]
      split_ifs <;> decide
    case dist =>
      show 5 ≤ 15
      decide

theorem fixedCoding_fits (t : Table) :
    Fits (fixedCoding.len t) (fixedCoding.count t) huffTableBits := by
  cases t <;> unfold Fits <;> decide +kernel

theorem wp_buildFixedTables_at (h : Left src srcSize outSize n written st) :
    wp safe buildFixedTables (fun r st' _ => r = true ∧
      At src srcSize outSize fixedCoding n written st') st () := by
  have hf := fixedCoding_fits
  have hl := fixedCoding_sound.len_le
  rw [buildFixedTables, fixedCoding] at *
  -- With these lengths elaboration would run the loops.
  generalize fixedLitLengths = litLengths at *
  generalize (fun _ => 5 : Nat → Nat) = distLengths at *
  refine wp_seq (wp_and (wp_huffBuildTable h.sound (by decide) (by decide))
    (wp_wholeTable (Nat.le_refl 288) (hf .lit) (hl .lit))) ?_
  rintro _ st₁ _ ⟨h₁, rfl, ho, hlit⟩
  have hl₁ := h.only ho h₁.sound
  rw [if_pos rfl]
  refine wp_mono (wp_and (wp_huffBuildTable h₁.sound (by decide) (by decide))
    (wp_wholeTable (Nat.le_refl 32) (hf .dist) (hl .dist))) ?_
  rintro _ st₂ _ ⟨h₂, rfl, ho₂, hdist⟩
  refine ⟨rfl, hl₁.only ho₂ h₂.sound, fun t => ?_⟩
  cases t
  case lit  =>
    rw [ho₂.tables_eq .lit (by decide)]
    exact hlit
  case dist => exact hdist

end Fixed

section Blocks

-- The type of a block and the codes that follow from it or come with it.
inductive Header : Nat → Coding → Nat → Prop
  | fixed {n : Nat} (ht : n % 2 ^ 2 = 1) : Header n fixedCoding (n / 2 ^ 2)
  | dynamic {n n' hlit hdist : Nat} {ls : List Nat} (ht : n % 2 ^ 2 = 2)
      (h : DynamicHeader (n / 2 ^ 2) hlit hdist ls n') :
      Header n (dynamicCoding hlit hdist ls) n'

-- The blocks that are left, up to the last one.
inductive Blocks : Nat → List UInt8 → List UInt8 → Prop
  | last {n n₁ n' : Nat} {c : Coding} {out out' : List UInt8} (hf : n % 2 = 1)
      (hh : Header (n / 2) c n₁) (h : Symbols c n₁ out n' out') : Blocks n out out'
  | more {n n₁ n₂ : Nat} {c : Coding} {out out₁ out' : List UInt8} (hf : n % 2 = 0)
      (hh : Header (n / 2) c n₁) (h : Symbols c n₁ out n₂ out₁) (next : Blocks n₂ out₁ out') :
      Blocks n out out'

theorem Blocks.length_le {out out' : List UInt8} (h : Blocks n out out') :
    out.length ≤ out'.length := by
  induction h with
  | last _ _ h      => exact h.length_le
  | more _ _ h _ ih => exact Nat.le_trans h.length_le ih

theorem Header.sound (h : Header n c n') : c.Sound := by
  cases h
  case fixed     => exact fixedCoding_sound
  case dynamic h =>
    obtain ⟨_, _, _, _, _, hs⟩ := h.exists_lengths
    have hle := getD_le (hs.le (by simp))
    have hl := h.hlit_le
    have hd := h.hdist_le
    constructor
    case count_le =>
      intro t
      cases t
      case lit  => exact Nat.le_trans hl (by decide)
      case dist => exact Nat.le_trans hd (by decide)
    case len_le   =>
      intro t i _
      cases t <;> exact hle _

-- The type takes at least one bit that is set.
theorem Header.value_lt (h : Header n c n') : n' < n := by
  cases h
  case fixed ht     => omega
  case dynamic ht h =>
    obtain ⟨_, _, _, _, _, hs⟩ := h.exists_lengths
    have hle := hs.value_le
    have hd : ∀ k m : Nat, k / 2 ^ m ≤ k := fun k m => Nat.div_le_self k (2 ^ m)
    have hle := Nat.le_trans hle (Nat.le_trans (hd _ _) (Nat.le_trans (hd _ 4)
      (Nat.le_trans (hd _ 5) (hd _ 5))))
    omega

section Types

-- Otherwise elaboration would build the fixed tables.
attribute [local irreducible] wp

theorem wp_block_at {blockType : Nat} {out out' : List UInt8} (hb : blockType = n % 2 ^ 2)
    {n₁ : Nat} (hh : Header n c n₁) (ho : outSize.toNat ≤ pngOutMax)
    (h : Left src srcSize outSize (n / 2 ^ 2) out st) (hs : Symbols c n₁ out n' out')
    (hle : out'.length ≤ outSize.toNat) : wp safe (block src srcSize outSize blockType)
      (fun r st' _ => r = true ∧ Left src srcSize outSize n' out' st') st () := by
  have hc := hh.sound
  have codes (st₁ : State) (h₁ : At src srcSize outSize c n₁ out st₁) :
      wp safe (inflateCodes src srcSize outSize) (fun r st' _ => r = true ∧
        Left src srcSize outSize n' out' st') st₁ () := by
    rw [inflateCodes]
    refine wp_mono (wp_inflateCodes_at hc ho hs h₁ hle (by omega)) ?_
    exact fun _ _ _ h => ⟨h.left, h.right.toLeft⟩
  cases hh
  case fixed ht     =>
    rw [block, if_neg (by omega), if_pos (by omega), huffmanBlock]
    refine wp_seq (wp_buildFixedTables_at h) ?_
    rintro _ st₁ _ ⟨rfl, h₁⟩
    rw [if_pos rfl]
    exact codes st₁ h₁
  case dynamic ht hd =>
    rw [block, if_neg (by omega), if_neg (by omega), if_pos (by omega), huffmanBlock]
    refine wp_seq (wp_buildDynamicTables_at hd h) ?_
    rintro _ st₁ _ ⟨rfl, h₁⟩
    rw [if_pos rfl]
    exact codes st₁ h₁

end Types

theorem wp_blockRound_at {n₁ : Nat} {out out' : List UInt8} (ho : outSize.toNat ≤ pngOutMax)
    (hh : Header (n / 2) c n₁) (h : Left src srcSize outSize n out st)
    (hs : Symbols c n₁ out n' out') (hle : out'.length ≤ outSize.toNat) :
    wp safe (blockRound src srcSize outSize ()) (fun r st' _ =>
      Left src srcSize outSize n' out' st' ∧
        r = if n % 2 = 0 then .inr () else .inl (decide (st'.outPos = outSize))) st () := by
  refine wp_seq (wp_getBits_left h (by decide)) ?_
  rintro finalBlock st₁ _ ⟨hf, h₁, -⟩
  refine wp_seq (wp_getBits_left h₁ (by decide)) ?_
  rintro blockType st₂ _ ⟨hb, h₂, -⟩
  rw [Nat.pow_one] at hb h₂
  refine wp_seq (wp_block_at hb hh ho h₂ hs hle) ?_
  rintro _ st₃ _ ⟨rfl, h₃⟩
  rw [if_pos rfl, wp_ite, show finalBlock = n % 2 from hf]
  by_cases h0 : n % 2 = 0
  case pos =>
    rw [if_neg (not_not.mpr h0)]
    exact ⟨h₃, (if_pos h0).symm⟩
  case neg =>
    rw [if_pos h0]
    exact ⟨h₃, (if_neg h0).symm⟩

theorem wp_blocks_at {out out' : List UInt8} (ho : outSize.toNat ≤ pngOutMax)
    (hb : Blocks n out out') (h : Left src srcSize outSize n out st)
    (hn : outSize.toNat = out'.length) {fuel : Nat} (hf : n < 2 ^ fuel) :
    wp safe (loop (blockRound src srcSize outSize) fuel ())
      (fun r st' _ => r = true ∧ Ahead st'.out 0 out') st () := by
  induction hb generalizing st fuel with
  | last hl hh hs          =>
    cases fuel
    case zero      =>
      rw [Nat.pow_zero] at hf
      omega
    case succ fuel =>
      rw [loop, wp_bind]
      refine wp_mono (wp_blockRound_at ho hh h hs (Nat.le_of_eq hn.symm)) ?_
      rintro _ st₁ _ ⟨h₁, rfl⟩
      rw [if_neg (by omega)]
      exact ⟨decide_eq_true (UInt32.toNat_inj.mp (h₁.outPos_eq.trans hn.symm)), h₁.out⟩
  | more hl hh hs hb ih    =>
    have hlt := hh.value_lt
    cases fuel
    case zero      =>
      rw [Nat.pow_zero] at hf
      omega
    case succ fuel =>
      have hle := hs.value_le
      rw [Nat.pow_succ] at hf
      rw [loop, wp_bind]
      refine wp_mono (wp_blockRound_at ho hh h hs (hn ▸ hb.length_le)) ?_
      rintro _ st₁ _ ⟨h₁, rfl⟩
      rw [if_pos hl]
      exact ih h₁ hn (by omega)

theorem bitsFrom_lt {addr len : Nat} : bitsFrom src addr len < 2 ^ (8 * len) := by
  induction len generalizing addr with
  | zero        => exact Nat.one_pos
  | succ len ih =>
    have hlt := (src addr).toNat_lt
    have hr := @ih (addr + 1)
    rw [bitsFrom, Nat.mul_add, Nat.pow_add]
    omega

-- What precedes the bits of the blocks.
structure Zlib (src : Memory) (srcSize : UInt32) : Prop where
  size_le : 6 ≤ srcSize.toNat
  method : src 0 &&& 0x0F = 8
  check : ((src 0).toNat * 256 + (src 1).toNat) % 31 = 0

theorem wp_zlibInflateToBuffer_at {out : List UInt8} (hz : Zlib src srcSize) (hc : st.Coded)
    (hb : Blocks (bitsFrom src 2 (srcSize.toNat - 6)) [] out) (hn : outSize.toNat = out.length)
    (ho : outSize.toNat ≤ pngOutMax) : wp safe (zlibInflateToBuffer src srcSize outSize)
      (fun r st' _ => r = true ∧ Ahead st'.out 0 out) st () := by
  have h6 := hz.size_le
  have hle : 6 ≤ srcSize := UInt32.le_iff_toNat_le.mpr h6
  have hd : (srcSize - 6).toNat = srcSize.toNat - 6 := UInt32.toNat_sub_of_le _ _ hle
  have hh : ¬(src 0 &&& 0x0F ≠ 8 ∨ ((src 0).toNat * 256 + (src 1).toNat) % 31 ≠ 0) := by
    rw [not_or, not_not, not_not]
    exact ⟨hz.method, hz.check⟩
  rw [zlibInflateToBuffer, wp_bind, wp_modify, wp_ite, if_neg (UInt32.not_lt.mpr hle),
    check_eq (by omega), pure_bind, check_eq (by omega), pure_bind, wp_ite, if_neg hh, wp_bind,
    wp_modify]
  have h : Left src srcSize outSize (bitsFrom src 2 (srcSize.toNat - 6)) []
      { st with s := ⟨srcSize - 6, 0, 0, 0⟩, outPos := 0 } := by
    refine ⟨⟨hc, ⟨?_, Nat.zero_le _, Nat.zero_le _, Nat.one_pos⟩, Nat.zero_le _⟩, ?_, rfl, rfl⟩
    · show (srcSize - 6).toNat + 6 = srcSize.toNat
      omega
    · show 0 + 2 ^ 0 * bitsFrom src (2 + 0) ((srcSize - 6).toNat - 0) = _
      rw [hd, Nat.zero_add, Nat.pow_zero, Nat.one_mul]
      rfl
  refine wp_blocks_at ho hb h hn (Nat.lt_of_lt_of_le bitsFrom_lt ?_)
  exact Nat.pow_le_pow_right (by decide) (by omega)

theorem inflates_compressed {out : List UInt8} (hz : Zlib src srcSize) (hc : st.Coded)
    (hb : Blocks (bitsFrom src 2 (srcSize.toNat - 6)) [] out) (hn : outSize.toNat = out.length)
    (ho : outSize.toNat ≤ pngOutMax) :
    ∃ st', zlibInflateToBuffer src srcSize outSize st = .ret (true, st') ∧
      Memory.read st'.out 0 out.length = out := by
  obtain ⟨_, st', he, rfl, h⟩ := exists_ret (wp_zlibInflateToBuffer_at hz hc hb hn ho)
  exact ⟨st', he, h⟩

-- The file that zlib makes of the letter a.
def letterFile : List UInt8 :=
  [0x78, 0x9C, 0x4B, 0x04, 0x00, 0x00, 0x62, 0x00, 0x62]

theorem letter_blocks : Blocks (bitsFrom (letterFile.getD · 0) 2 3) [] [0x61] := by
  have header : Header (bitsFrom (letterFile.getD · 0) 2 3 / 2) fixedCoding _ :=
    .fixed (by decide)
  have letter : fixedCoding.Reads .lit 97 (bitsFrom (letterFile.getD · 0) 2 3 / 2 / 2 ^ 2) 0 :=
    ⟨by decide, by decide, by unfold Matches; decide +kernel, by decide⟩
  have stop : fixedCoding.Reads .lit 256 0 0 :=
    ⟨by decide, by decide, by unfold Matches; decide +kernel, by decide⟩
  exact .last (by decide) header (.literal letter (by decide) (.stop stop))

theorem inflates_compressed_letter :
    ∃ st', zlibInflateToBuffer (letterFile.getD · 0) 9 1 zeroed = .ret (true, st') ∧
      Memory.read st'.out 0 1 = [0x61] := by
  have hz : Zlib (letterFile.getD · 0) 9 := ⟨by decide, by decide, by decide⟩
  have hc : zeroed.Coded := fun _ _ => .inr (show (0 : UInt16).toNat / 512 ≤ 15 by decide)
  have hn : (1 : UInt32).toNat = [(0x61 : UInt8)].length := rfl
  exact inflates_compressed hz hc letter_blocks hn (by decide)

end Blocks

end Inflate
