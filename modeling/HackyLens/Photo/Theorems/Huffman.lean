import HackyLens.Lib.Canonical
import HackyLens.Photo.Theorems.Inflate

-- The tables decode the canonical prefix codes with the lengths that they are built from.

namespace Inflate

open Prog Canonical

theorem huffReverse_eq {len code out : Nat} :
    huffReverse len code out = out * 2 ^ len + reverse len code := by
  induction len generalizing code out with
  | zero        => rw [huffReverse, reverse, Nat.pow_zero, Nat.mul_one, Nat.add_zero]
  | succ len ih =>
    rw [huffReverse, ih, reverse, Nat.add_mul, Nat.mul_assoc, ← Nat.pow_succ', Nat.add_assoc]

section Build

variable {lengths : Nat → Nat} {base size count : Nat} {t : Table} {st : State}

theorem number_succ {len : Nat → Nat} {n l : Nat} : number len (n + 1) l =
    if len n = l ∧ l ≠ 0 then number len n l + 1 else number len n l := by
  rw [number, number, Nat.count_succ]
  split
  case isTrue h0  => rw [if_neg (by omega)]
  case isFalse h0 =>
    by_cases hl : len n = l
    case pos => rw [if_pos hl, if_pos ⟨hl, h0⟩]
    case neg => rw [if_neg hl, if_neg (by omega), Nat.add_zero]

theorem countLengths_eq (hs : base + count ≤ size)
    (hl : ∀ i < count, lengths (base + i) ≤ huffTableBits) {left i : Nat} {blCount : Nat → Nat}
    (hi : i + left = count) (hb : ∀ l, blCount l = number (fun i => lengths (base + i)) i l) :
    ∃ blCount', countLengths lengths base size left i blCount = pure (some blCount') ∧
      ∀ l, blCount' l = number (fun i => lengths (base + i)) count l := by
  induction left generalizing i blCount with
  | zero         => exact ⟨blCount, rfl, fun l => by rw [hb, ← hi, Nat.add_zero]⟩
  | succ left ih =>
    have hli := hl i (by omega)
    rw [countLengths, check_eq (by omega), pure_bind]
    dsimp only
    rw [if_neg (Nat.not_lt.mpr hli)]
    split
    case isTrue h0 =>
      rw [check_eq (by omega), pure_bind]
      refine ih (by omega) fun l => ?_
      rw [number_succ]
      by_cases he : lengths (base + i) = l
      case pos => rw [he, Function.update_self, if_pos ⟨rfl, he ▸ h0⟩, hb]
      case neg => rw [Function.update_of_ne (Ne.symm he), if_neg (by omega), hb]
    case isFalse h0 =>
      refine ih (by omega) fun l => ?_
      rw [number_succ, if_neg (by omega), hb]

theorem nextCode_eq {len blCount : Nat → Nat} {n : Nat} (hf : Fits len n huffTableBits)
    (hb : ∀ l, blCount l = number len n l) {l : Nat} (hl : l ≤ huffTableBits) :
    nextCode blCount l = first len n l := by
  induction l with
  | zero      => rfl
  | succ l ih =>
    rw [nextCode, ih (Nat.le_of_succ_le hl), hb, first]
    have hle := hf.le (Nat.le_of_succ_le hl)
    have hp : 2 ^ l < 2 ^ 15 := Nat.pow_lt_pow_right (by decide) hl
    exact Nat.mod_eq_of_lt (by omega)

-- After changes to one of the tables.
structure Only (t : Table) (st st' : State) : Prop where
  s_eq : st'.s = st.s
  out_eq : st'.out = st.out
  outPos_eq : st'.outPos = st.outPos
  tables_eq : ∀ t' ≠ t, st'.tables t' = st.tables t'

theorem Only.refl : Only t st st :=
  ⟨rfl, rfl, rfl, fun _ _ => rfl⟩

theorem Only.trans {st' st₁ : State} (h : Only t st st₁) (h' : Only t st₁ st') : Only t st st' :=
  ⟨h'.s_eq.trans h.s_eq, h'.out_eq.trans h.out_eq, h'.outPos_eq.trans h.outPos_eq,
    fun t' ht => (h'.tables_eq t' ht).trans (h.tables_eq t' ht)⟩

theorem Only.update {table : Nat → UInt16} :
    Only t st { st with tables := Function.update st.tables t table } :=
  ⟨rfl, rfl, rfl, fun _ ht => Function.update_of_ne ht _ _⟩

-- All entries that begin with a code are filled, and no others.
theorem wp_fillRounds {value : UInt16} {step rev : Nat} (hr : rev < step) :
    wp safe (loop (fillRound t value step) (huffTableSize + 1) rev) (fun _ st' _ =>
      Only t st st' ∧ ∀ i, st'.tables t i =
        if i < huffTableSize ∧ i % step = rev then value else st.tables t i) st () := by
  refine wp_loop_of_lt (fun n idx st' _ => idx % step = rev ∧ huffTableSize - idx ≤ n ∧
    Only t st st' ∧ ∀ i, st'.tables t i =
      if i < huffTableSize ∧ i < idx ∧ i % step = rev then value else st.tables t i) ?_
    (Nat.lt_succ_self _) ⟨Nat.mod_eq_of_lt hr, Nat.sub_le _ _, .refl, ?_⟩
  · rintro n idx st₁ _ ⟨hm, hn, ho, ht⟩
    rw [fillRound, wp_ite]
    split
    case isFalse h =>
      refine ⟨ho, fun i => ?_⟩
      rw [ht]
      exact if_congr (by constructor <;> rintro ⟨hi, h⟩ <;> simp_all; omega) rfl rfl
    case isTrue h  =>
      rw [check_eq h, pure_bind]
      refine ⟨huffTableSize - (idx + step), by omega, ?_, Nat.le_refl _,
        ho.trans .update, fun i => ?_⟩
      · rw [Nat.add_mod_right, hm]
      · show Function.update st₁.tables t (Function.update (st₁.tables t) idx value) t i = _
        rw [Function.update_self]
        by_cases hi : i = idx
        case pos =>
          rw [hi, Function.update_self, if_pos ⟨h, by omega, hm⟩]
        case neg =>
          rw [Function.update_of_ne hi, ht]
          refine if_congr (and_congr_right fun _ => ?_) rfl rfl
          constructor
          · exact fun h => ⟨by omega, h.right⟩
          · rintro ⟨hlt, hmod⟩
            refine ⟨?_, hmod⟩
            have hz := Nat.sub_mod_eq_zero_of_mod_eq (hmod.trans hm.symm)
            by_contra hge
            rw [Nat.mod_eq_of_lt (by omega)] at hz
            omega
  · intro i
    rw [if_neg]
    rintro ⟨-, hi, hm⟩
    rw [Nat.mod_eq_of_lt (by omega)] at hm
    omega

-- What a table holds once the first `n` of `count` symbols are in it.
structure Filled (len : Nat → Nat) (count n : Nat) (table : Nat → UInt16) : Prop where
  hit : ∀ i < n, len i ≠ 0 → ∀ idx < huffTableSize, Matches len count i idx →
    table idx = UInt16.ofNat (len i * 512 ||| i)
  miss : ∀ idx < huffTableSize, (∀ i < n, len i ≠ 0 → ¬Matches len count i idx) →
    table idx = huffInvalid

theorem wp_fillTable_filled {left sym : Nat} {nextCode : Nat → Nat} (hs : base + count ≤ size)
    (hf : Fits (fun i => lengths (base + i)) count huffTableBits)
    (hl : ∀ i < count, lengths (base + i) ≤ huffTableBits) (hi : sym + left = count)
    (hn : ∀ l ≠ 0, l ≤ huffTableBits → nextCode l = first (fun i => lengths (base + i)) count l +
      Nat.count (fun i => lengths (base + i) = l) sym)
    (h : Filled (fun i => lengths (base + i)) count sym (st.tables t)) :
    wp safe (fillTable lengths base size t left sym nextCode) (fun _ st' _ => Only t st st' ∧
      Filled (fun i => lengths (base + i)) count count (st'.tables t)) st () := by
  induction left generalizing sym nextCode st with
  | zero         => exact ⟨.refl, (show sym = count by omega) ▸ h⟩
  | succ left ih =>
    have hlen := hl sym (by omega)
    rw [fillTable, check_eq (by omega), pure_bind]
    dsimp only
    rw [wp_ite]
    split
    case isTrue h0  =>
      refine ih (by omega) (fun l hl0 hl => ?_) ⟨fun i hi h0' => ?_, fun idx hx hm => ?_⟩
      · rw [hn l hl0 hl, Nat.count_succ, if_neg (by omega), Nat.add_zero]
      · refine h.hit i (Nat.lt_of_le_of_ne (Nat.le_of_lt_succ hi) ?_) h0'
        exact fun he => h0' (he ▸ h0)
      · exact h.miss idx hx fun i hi => hm i (Nat.lt_succ_of_lt hi)
    case isFalse h0 =>
      have hc : nextCode (lengths (base + sym)) = code (fun i => lengths (base + i)) count sym :=
        hn _ h0 hlen
      have hlt := hf.code_lt h0 (show sym < count by omega) hlen
      have hp : 2 ^ lengths (base + sym) ≤ 2 ^ 15 := Nat.pow_le_pow_right (by decide) hlen
      rw [check_eq (by omega), pure_bind, huffReverse_eq, Nat.zero_mul, Nat.zero_add, hc]
      refine wp_seq (wp_fillRounds reverse_lt) ?_
      rintro _ st₁ _ ⟨ho, ht⟩
      refine wp_mono (ih (by omega) (fun l hl0 hl => ?_)
        ⟨fun i hi h0' idx hx hm => ?_, fun idx hx hm => ?_⟩) fun _ _ _ => .imp_left ho.trans
      · rw [Nat.count_succ]
        by_cases he : lengths (base + sym) = l
        case pos =>
          subst he
          rw [Function.update_self, if_pos rfl, ← Nat.add_assoc]
          exact Nat.mod_eq_of_lt (by omega)
        case neg => rw [Function.update_of_ne (Ne.symm he), if_neg he, Nat.add_zero, hn l hl0 hl]
      · rw [ht]
        by_cases he : i = sym
        case pos =>
          subst he
          exact if_pos ⟨hx, hm⟩
        case neg =>
          rw [if_neg]
          · exact h.hit i (by omega) h0' idx hx hm
          · rintro ⟨-, hm'⟩
            exact he (hf.matches_unique (by omega) (by omega) h0' h0 (hl i (by omega)) hlen hm hm')
      · rw [ht, if_neg fun hm' => hm sym (Nat.lt_succ_self sym) h0 hm'.right]
        exact h.miss idx hx fun i hi => hm i (Nat.lt_succ_of_lt hi)

theorem wp_huffBuildTable_filled (hs : base + count ≤ size)
    (hf : Fits (fun i => lengths (base + i)) count huffTableBits)
    (hl : ∀ i < count, lengths (base + i) ≤ huffTableBits) :
    wp safe (huffBuildTable lengths base size t count) (fun r st' _ => r = true ∧ Only t st st' ∧
      Filled (fun i => lengths (base + i)) count count (st'.tables t)) st () := by
  obtain ⟨blCount, he, hb⟩ : ∃ blCount, countLengths lengths base size count 0 (fun _ => 0) =
      pure (some blCount) ∧ ∀ l, blCount l = number (fun i => lengths (base + i)) count l := by
    refine countLengths_eq hs hl (Nat.zero_add _) fun l => ?_
    rw [number]
    split <;> rfl
  rw [huffBuildTable, wp_bind, wp_modify, he, pure_bind]
  refine wp_seq (wp_fillTable_filled hs hf hl (Nat.zero_add _) (fun l hl0 hl => ?_) ⟨?_, ?_⟩) ?_
  · rw [nextCode_eq hf hb hl, Nat.count_zero, Nat.add_zero]
  · exact fun i hi => absurd hi (Nat.not_lt_zero i)
  · intro idx hx hm
    dsimp only
    rw [Function.update_self]
  · exact fun _ st₁ _ h => ⟨rfl, Only.update.trans h.left, h.right⟩

end Build

section Decode

variable {src : Memory} {srcSize : UInt32} {len : Nat → Nat} {count i : Nat} {t : Table}
  {st : State}

theorem entry_toNat {len : Nat} (hl : len ≤ huffTableBits) (hi : i < 512) :
    (UInt16.ofNat (len * 512 ||| i)).toNat = len * 512 + i := by
  have he := Nat.two_pow_add_eq_or_of_lt (i := 9) hi len
  rw [huffTableBits] at hl
  rw [Nat.mul_comm len, ← show 2 ^ 9 * len + i = 512 * len ||| i from he, UInt16.toNat_ofNat']
  omega

theorem entry_ne_invalid {len : Nat} (hl : len ≤ huffTableBits) (hi : i < 512) :
    UInt16.ofNat (len * 512 ||| i) ≠ huffInvalid := by
  intro hv
  have hv : len * 512 + i = 65535 := by
    rw [← entry_toNat hl hi, hv]
    rfl
  rw [huffTableBits] at hl
  omega

-- Where the buffer holds enough bits, the source is not read.
theorem huffDecode_eq (hc : huffTableBits ≤ st.s.bitcount) {entry : UInt16}
    (he : st.tables t (st.s.bitbuf % huffTableSize) = entry) :
    huffDecode src srcSize t st = .ret (if entry = huffInvalid then (none, st)
      else (some (entry.toNat % 512), { st with s := st.s.drop (entry.toNat / 512) })) := by
  have hw : wp safe (huffDecode src srcSize t) (fun r st' _ => (r, st') =
      if entry = huffInvalid then (none, st)
      else (some (entry.toNat % 512), { st with s := st.s.drop (entry.toNat / 512) })) st () := by
    refine wp_seq (wp_need_held hc) ?_
    rintro _ _ _ rfl
    rw [wp_bind, wp_get]
    dsimp only
    rw [check_eq (Nat.mod_lt _ (by decide)), pure_bind, wp_ite, he]
    split
    case isTrue  => rfl
    case isFalse => rfl
  obtain ⟨r, st', hd, hr⟩ := exists_ret hw
  rw [hd, hr]

namespace Filled

theorem matches_index (hl : len i ≤ huffTableBits) :
    Matches len count i (st.s.bitbuf % huffTableSize) ↔ Matches len count i st.s.bitbuf := by
  rw [Matches, Matches, huffTableSize, Nat.mod_mod_of_dvd _ (Nat.pow_dvd_pow 2 hl)]

theorem decodes (h : Filled len count count (st.tables t)) (hb : huffTableBits ≤ st.s.bitcount)
    (hi : i < count) (hc : count ≤ 512) (h0 : len i ≠ 0) (hl : len i ≤ huffTableBits)
    (hm : Matches len count i st.s.bitbuf) :
    huffDecode src srcSize t st = .ret (some i, { st with s := st.s.drop (len i) }) := by
  have he := h.hit i hi h0 _ (Nat.mod_lt _ (by decide)) ((matches_index hl).mpr hm)
  have hi : i < 512 := Nat.lt_of_lt_of_le hi hc
  rw [huffDecode_eq hb he, if_neg (entry_ne_invalid hl hi), entry_toNat hl hi,
    show (len i * 512 + i) % 512 = i by omega, show (len i * 512 + i) / 512 = len i by omega]

theorem rejects (h : Filled len count count (st.tables t)) (hb : huffTableBits ≤ st.s.bitcount)
    (hl : ∀ i < count, len i ≤ huffTableBits)
    (hm : ∀ i < count, len i ≠ 0 → ¬Matches len count i st.s.bitbuf) :
    huffDecode src srcSize t st = .ret (none, st) := by
  have he := h.miss _ (Nat.mod_lt _ (by decide)) fun i hi h0 hx =>
    hm i hi h0 ((matches_index (hl i hi)).mp hx)
  rw [huffDecode_eq hb he, if_pos rfl]

end Filled

-- A code is decoded to its symbol and its bits are taken from the buffer.
theorem decodes_canonical {lengths : Nat → Nat} {base size : Nat} (hs : base + count ≤ size)
    (hc : count ≤ 512) (hf : Fits (fun i => lengths (base + i)) count huffTableBits)
    (hl : ∀ i < count, lengths (base + i) ≤ huffTableBits) :
    ∃ st', huffBuildTable lengths base size t count st = .ret (true, st') ∧
      ∀ (src : Memory) (srcSize : UInt32) (st₁ : State), st₁.tables t = st'.tables t →
        huffTableBits ≤ st₁.s.bitcount →
        (∀ i < count, lengths (base + i) ≠ 0 →
          Matches (fun i => lengths (base + i)) count i st₁.s.bitbuf →
          huffDecode src srcSize t st₁ =
            .ret (some i, { st₁ with s := st₁.s.drop (lengths (base + i)) })) ∧
        ((∀ i < count, lengths (base + i) ≠ 0 →
          ¬Matches (fun i => lengths (base + i)) count i st₁.s.bitbuf) →
          huffDecode src srcSize t st₁ = .ret (none, st₁)) := by
  have hw : wp safe (huffBuildTable lengths base size t count) _ st () :=
    wp_huffBuildTable_filled hs hf hl
  obtain ⟨_, st', he, rfl, -, h⟩ := exists_ret hw
  refine ⟨st', he, fun src srcSize st₁ ht hb => ?_⟩
  rw [← ht] at h
  exact ⟨fun i hi h0 hm => h.decodes hb hi hc h0 (hl i hi) hm, fun hm => h.rejects hb hl hm⟩

-- The codes are 0, 10 and 11.
theorem decodes_canonical_three :
    ∃ st', huffBuildTable ([1, 2, 2].getD · 0) 0 3 .lit 3 zeroed = .ret (true, st') ∧
      ∀ st₁ : State, st₁.tables .lit = st'.tables .lit → st₁.s.bitcount = 15 →
        st₁.s.bitbuf = 1 → huffDecode (fun _ => 0) 0 .lit st₁ =
          .ret (some 1, { st₁ with s := st₁.s.drop 2 }) := by
  obtain ⟨st', he, h⟩ := @decodes_canonical 3 .lit zeroed ([1, 2, 2].getD · 0) 0 3 (by decide)
    (by decide) (by unfold Fits; decide) (by decide)
  refine ⟨st', he, fun st₁ ht hc hb => ?_⟩
  refine (h (fun _ => 0) 0 st₁ ht (Nat.le_of_eq hc.symm)).left 1 (by decide) (by decide) ?_
  rw [Matches, hb]
  decide

end Decode

end Inflate
