import HackyLens.Photo.Theorems.Huffman
import HackyLens.Photo.Theorems.Stored

-- The symbols of a compressed block are read as the format says. What is left of the stream is a
-- number, whose lowest bits come first.

namespace Inflate

open Prog Canonical

-- The lengths of the codes for literals and lengths, and of those for distances.
structure Coding where
  len : Table → Nat → Nat
  count : Table → Nat

-- A symbol at the front of the bits `n`, and what follows it.
structure Reads (len : Nat → Nat) (count sym n n' : Nat) : Prop where
  lt : sym < count
  ne_zero : len sym ≠ 0
  front : Matches len count sym n
  rest_eq : n' = n / 2 ^ len sym

abbrev Coding.Reads (c : Coding) (t : Table) : (sym n n' : Nat) → Prop :=
  Inflate.Reads (c.len t) (c.count t)

-- The bytes that are repeated may be among those that are being written.
def copied (distance : Nat) : (length : Nat) → (out : List UInt8) → List UInt8
  | 0,          out => out
  | length + 1, out => copied distance length (out ++ [out.getD (out.length - distance) 0])

-- The symbols of a block up to its end, and the output before and after it.
inductive Symbols (c : Coding) : Nat → List UInt8 → Nat → List UInt8 → Prop
  | stop {n n' : Nat} {out : List UInt8} (h : c.Reads .lit 256 n n') : Symbols c n out n' out
  | literal {n n₁ n' sym : Nat} {out out' : List UInt8} (h : c.Reads .lit sym n n₁)
      (hs : sym < 256) (next : Symbols c n₁ (out ++ [.ofNat sym]) n' out') :
      Symbols c n out n' out'
  | copy {n n₁ n₂ n' i d length distance : Nat} {out out' : List UInt8}
      (h : c.Reads .lit (257 + i) n n₁) (hi : i < 29)
      (hl : length = lenBase.getD i 0 + n₁ % 2 ^ lenExtra.getD i 0)
      (hd : c.Reads .dist d (n₁ / 2 ^ lenExtra.getD i 0) n₂) (hd' : d < 30)
      (hx : distance = distBase.getD d 0 + n₂ % 2 ^ distExtra.getD d 0)
      (hin : distance ≤ out.length)
      (next : Symbols c (n₂ / 2 ^ distExtra.getD d 0) (copied distance length out) n' out') :
      Symbols c n out n' out'

theorem length_copied {distance length : Nat} {out : List UInt8} :
    (copied distance length out).length = out.length + length := by
  induction length generalizing out with
  | zero           => rfl
  | succ length ih =>
    rw [copied, ih, List.length_append, List.length_singleton]
    omega

theorem Symbols.length_le {c : Coding} {n n' : Nat} {out out' : List UInt8}
    (h : Symbols c n out n' out') : out.length ≤ out'.length := by
  induction h with
  | stop                      => exact Nat.le_refl _
  | literal _ _ _ ih          =>
    rw [List.length_append] at ih
    omega
  | copy _ _ _ _ _ _ _ _ ih   =>
    rw [length_copied] at ih
    omega

-- A state with the bits that are left and the output.
structure Left (src : Memory) (srcSize outSize : UInt32) (n : Nat) (written : List UInt8)
    (st : State) : Prop where
  sound : st.Sound srcSize outSize
  value_eq : st.s.value src = n
  outPos_eq : st.outPos.toNat = written.length
  out : Ahead st.out 0 written

-- In it the tables are those of the coding.
structure At (src : Memory) (srcSize outSize : UInt32) (c : Coding) (n : Nat) (written : List UInt8)
    (st : State) : Prop extends Left src srcSize outSize n written st where
  filled : ∀ t, Filled (c.len t) (c.count t) (c.count t) (st.tables t)

structure Coding.Sound (c : Coding) : Prop where
  count_le : ∀ t, c.count t ≤ 512
  len_le : ∀ t, ∀ i < c.count t, c.len t i ≤ huffTableBits

variable {src : Memory} {srcSize outSize : UInt32} {c : Coding} {n n' bits : Nat}
  {written : List UInt8} {t : Table} {st st₁ : State}

-- Some bits are taken from the buffer after it was filled up.
theorem Left.drop (h : Left src srcSize outSize n written st)
    (h₁ : Later srcSize outSize st st₁) (hs : Same src st st₁) (hb : bits ≤ st₁.s.bitcount) :
    Left src srcSize outSize (n / 2 ^ bits) written { st₁ with s := st₁.s.drop bits } := by
  refine ⟨h₁.sound.withStream (h₁.sound.stream.drop hb).left, ?_, ?_, ?_⟩
  · rw [← h.value_eq, ← hs.value_eq]
    exact h₁.sound.stream.value_drop hb
  · show st₁.outPos.toNat = _
    rw [h₁.outPos_eq, h.outPos_eq]
  · show Ahead st₁.out 0 written
    exact hs.out_eq ▸ h.out

theorem wp_getBits_left (h : Left src srcSize outSize n written st) (hb : bits ≤ 15) :
    wp safe (getBits src srcSize bits) (fun v st' _ => v = n % 2 ^ bits ∧
      Left src srcSize outSize (n / 2 ^ bits) written st' ∧ st'.tables = st.tables) st () := by
  refine wp_seq (wp_need h.sound hb) ?_
  rintro _ st₁ _ ⟨h₁, hc, hs⟩
  refine ⟨?_, h.drop h₁ hs hc, hs.tables_eq⟩
  rw [← h.value_eq, ← hs.value_eq]
  exact (Stream.Sound.value_mod hc).symm

theorem wp_getBits_at (h : At src srcSize outSize c n written st) (hb : bits ≤ 15) :
    wp safe (getBits src srcSize bits) (fun v st' _ => v = n % 2 ^ bits ∧
      At src srcSize outSize c (n / 2 ^ bits) written st') st () := by
  refine wp_mono (wp_getBits_left h.toLeft hb) ?_
  rintro _ st₁ _ ⟨hv, hl, ht⟩
  exact ⟨hv, hl, ht ▸ h.filled⟩

theorem wp_huffDecode_left {len : Nat → Nat} {count sym : Nat} (hc : count ≤ 512)
    (hl : len sym ≤ huffTableBits) (h : Left src srcSize outSize n written st)
    (hf : Filled len count count (st.tables t)) (hr : Reads len count sym n n') :
    wp safe (huffDecode src srcSize t) (fun r st' _ => r = some sym ∧
      Left src srcSize outSize n' written st' ∧ st'.tables = st.tables) st () := by
  refine wp_seq (wp_need h.sound (Nat.le_refl 15)) ?_
  rintro _ st₁ _ ⟨h₁, hb, hs⟩
  have hm : Matches len count sym st₁.s.bitbuf := by
    have hv : st₁.s.value src % 2 ^ len sym = st₁.s.bitbuf % 2 ^ len sym :=
      Stream.Sound.value_mod (Nat.le_trans hl hb)
    rw [Matches, ← hv, hs.value_eq, h.value_eq]
    exact hr.front
  rw [← hs.tables_eq] at hf
  have he := hf.hit sym hr.lt hr.ne_zero _ (Nat.mod_lt _ (by decide))
    ((Filled.matches_index hl).mpr hm)
  have hi : sym < 512 := Nat.lt_of_lt_of_le hr.lt hc
  rw [wp_bind, wp_get]
  dsimp only
  rw [check_eq (Nat.mod_lt _ (by decide)), pure_bind, he, wp_ite, if_neg (entry_ne_invalid hl hi),
    entry_toNat hl hi, show (len sym * 512 + sym) % 512 = sym by omega,
    show (len sym * 512 + sym) / 512 = len sym by omega, hr.rest_eq]
  exact ⟨rfl, h.drop h₁ hs (Nat.le_trans hl hb), hs.tables_eq⟩

theorem wp_huffDecode_at {sym : Nat} (hc : c.Sound) (h : At src srcSize outSize c n written st)
    (hr : c.Reads t sym n n') : wp safe (huffDecode src srcSize t)
      (fun r st' _ => r = some sym ∧ At src srcSize outSize c n' written st') st () := by
  refine wp_mono (wp_huffDecode_left (hc.count_le t) (hc.len_le t sym hr.lt) h.toLeft (h.filled t)
    hr) ?_
  rintro _ st₁ _ ⟨hv, hl, ht⟩
  exact ⟨hv, hl, ht ▸ h.filled⟩

theorem wp_put_at {byte : UInt8} (h : At src srcSize outSize c n written st)
    (ho : written.length < outSize.toNat) : wp safe (put outSize byte)
      (fun _ st' _ => At src srcSize outSize c n (written ++ [byte]) st') st () := by
  have hn := h.outPos_eq
  have hs : (st.outPos + 1).toNat = st.outPos.toNat + 1 := toNat_succ (b := outSize) (by omega)
  rw [put, wp_bind, wp_get]
  dsimp only
  rw [check_eq (by omega), pure_bind, wp_modify]
  refine ⟨⟨⟨h.sound.coded, h.sound.stream, ?_⟩, h.value_eq, ?_, ?_⟩, h.filled⟩
  · show (st.outPos + 1).toNat ≤ outSize.toNat
    omega
  · show (st.outPos + 1).toNat = _
    rw [hs, hn, List.length_append]
    rfl
  · show Ahead (Function.update st.out st.outPos.toNat byte) 0 _
    rw [hn]
    exact h.out.update

theorem Ahead.get {m : Memory} {bytes : List UInt8} {i : Nat} (h : Ahead m 0 bytes)
    (hi : i < bytes.length) : m i = bytes.getD i 0 := by
  have hr : (m.read 0 bytes.length).getD i 0 = bytes.getD i 0 := congrArg (·.getD i 0) h
  rw [← hr, Memory.read, List.getD_eq_getElem?_getD]
  simp [hi]

theorem wp_copyMatch_at {distance : UInt32} {length : Nat} (h0 : 0 < distance.toNat)
    (h : At src srcSize outSize c n written st) (hd : distance.toNat ≤ written.length)
    (ho : written.length + length ≤ outSize.toNat) :
    wp safe (copyMatch outSize distance length) (fun _ st' _ =>
      At src srcSize outSize c n (copied distance.toNat length written) st') st () := by
  induction length generalizing st written with
  | zero           => exact h
  | succ length ih =>
    have hn := h.outPos_eq
    have hs := UInt32.toNat_sub_of_le st.outPos distance (UInt32.le_iff_toNat_le.mpr (by omega))
    rw [copyMatch, wp_bind, wp_get]
    dsimp only
    rw [check_eq (by omega), pure_bind, hs, hn, h.out.get (by omega), copied]
    refine wp_seq (wp_put_at h (by omega)) ?_
    rintro _ st₁ _ h₁
    refine ih h₁ ?_ ?_
    all_goals
      rw [List.length_append, List.length_singleton]
      omega

theorem dist_le : ∀ i < 30, 0 < distBase.getD i 0 ∧
    distBase.getD i 0 + 2 ^ distExtra.getD i 0 ≤ 32769 := by
  decide

-- The blocks are read to their end, which needs no more rounds than there are bytes.
theorem wp_inflateCodes_at (hc : c.Sound) (ho : outSize.toNat ≤ pngOutMax) {out out' : List UInt8}
    (hs : Symbols c n out n' out') (h : At src srcSize outSize c n out st)
    (hle : out'.length ≤ outSize.toNat) {fuel : Nat} (hf : out'.length - out.length < fuel) :
    wp safe (loop (codesRound src srcSize outSize) fuel ())
      (fun r st' _ => r = true ∧ At src srcSize outSize c n' out' st') st () := by
  induction hs generalizing st fuel with
  | stop hr                      =>
    obtain ⟨fuel, rfl⟩ := Nat.exists_eq_add_of_lt hf
    rw [loop, wp_bind, codesRound]
    refine wp_seq (wp_huffDecode_at hc h hr) ?_
    rintro _ st₁ _ ⟨rfl, h₁⟩
    exact ⟨rfl, h₁⟩
  | literal hr hsym next ih      =>
    obtain ⟨fuel, rfl⟩ := Nat.exists_eq_add_of_lt hf
    have hlen := next.length_le
    rw [List.length_append, List.length_singleton] at hlen
    have hn := h.outPos_eq
    rw [loop, wp_bind, codesRound]
    refine wp_seq (wp_huffDecode_at hc h hr) ?_
    rintro _ st₁ _ ⟨rfl, h₁⟩
    have hn₁ := h₁.outPos_eq
    dsimp only
    rw [wp_ite, if_pos hsym, wp_bind, wp_get]
    dsimp only
    rw [wp_ite, if_neg (UInt32.not_le.mpr (UInt32.lt_iff_toNat_lt.mpr (by omega)))]
    refine wp_seq (wp_put_at h₁ (by omega)) ?_
    rintro _ st₂ _ h₂
    refine ih h₂ hle ?_
    rw [List.length_append, List.length_singleton]
    omega
  | @copy _ n₁ n₂ _ i d length distance _ _ hr hi hl hd hd' hx hin next ih =>
    obtain ⟨fuel, rfl⟩ := Nat.exists_eq_add_of_lt hf
    have hlen := next.length_le
    rw [length_copied] at hlen
    obtain ⟨hle', hb0, hle₁⟩ := len_le i hi
    obtain ⟨hd0, hle₂⟩ := dist_le d hd'
    have hm₁ := Nat.mod_lt n₁ (Nat.two_pow_pos (lenExtra.getD i 0))
    have hm₂ := Nat.mod_lt n₂ (Nat.two_pow_pos (distExtra.getD d 0))
    rw [pngOutMax] at ho
    rw [loop, wp_bind, codesRound]
    refine wp_seq (wp_huffDecode_at hc h hr) ?_
    rintro _ st₁ _ ⟨rfl, h₁⟩
    dsimp only
    rw [wp_ite, if_neg (by omega), wp_ite, if_neg (by omega), wp_ite, if_neg (by omega),
      decodeMatch, Nat.add_sub_cancel_left, check_eq hi, pure_bind]
    refine wp_seq (wp_getBits_at h₁ (Nat.le_trans hle' (by decide))) ?_
    rintro _ st₂ _ ⟨rfl, h₂⟩
    refine wp_seq (wp_huffDecode_at hc h₂ hd) ?_
    rintro _ st₃ _ ⟨rfl, h₃⟩
    dsimp only
    rw [wp_ite, if_neg (Nat.not_le.mpr hd'), check_eq hd', pure_bind]
    refine wp_seq (wp_getBits_at h₃ (Nat.le_trans (distExtra_le d hd') (by decide))) ?_
    rintro _ st₄ _ ⟨rfl, h₄⟩
    have hn₄ := h₄.outPos_eq
    rw [← hl, ← hx, wp_bind, wp_get]
    dsimp only
    have hv : (UInt32.ofNat distance).toNat = distance := Nat.mod_eq_of_lt (by omega)
    have hok : ¬(UInt32.ofNat distance = 0 ∨ UInt32.ofNat distance > st₄.outPos ∨
        st₄.outPos + .ofNat length > outSize) := by
      rw [not_or, not_or, UInt32.not_lt, UInt32.not_lt]
      refine ⟨fun h0 => ?_, UInt32.le_iff_toNat_le.mpr (by omega),
        UInt32.le_iff_toNat_le.mpr ?_⟩
      · rw [h0] at hv
        have : (0 : UInt32).toNat = 0 := rfl
        omega
      · have hv' : (UInt32.ofNat length).toNat = length := Nat.mod_eq_of_lt (by omega)
        rw [toNat_add (by omega), hv']
        omega
    rw [wp_ite, if_neg hok]
    refine wp_seq (wp_copyMatch_at (by omega) h₄ (by omega) (by omega)) ?_
    rintro _ st₅ _ h₅
    rw [hv] at h₅
    refine ih h₅ hle ?_
    rw [length_copied]
    omega

theorem Symbols.value_le {out out' : List UInt8} (h : Symbols c n out n' out') : n' ≤ n := by
  induction h with
  | stop h                            => exact h.rest_eq ▸ Nat.div_le_self _ _
  | literal h _ _ ih                  =>
    exact Nat.le_trans ih (h.rest_eq ▸ Nat.div_le_self _ _)
  | copy h _ _ hd _ _ _ _ ih          =>
    refine Nat.le_trans (Nat.le_trans ih (Nat.div_le_self _ _)) ?_
    refine Nat.le_trans (hd.rest_eq ▸ Nat.div_le_self _ _) ?_
    exact Nat.le_trans (Nat.div_le_self _ _) (h.rest_eq ▸ Nat.div_le_self _ _)

end Inflate
