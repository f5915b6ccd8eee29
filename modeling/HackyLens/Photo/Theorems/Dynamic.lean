import HackyLens.Photo.Theorems.Codes

-- The codes that a block comes with.

namespace Inflate

open Prog Canonical

variable {src : Memory} {srcSize outSize : UInt32} {n n' : Nat}
  {written : List UInt8} {t : Table} {st : State}

theorem wp_wholeTable {lengths : Nat → Nat} {size count : Nat} (hs : count ≤ size)
    (hf : Fits lengths count huffTableBits)
    (hl : ∀ i < count, lengths i ≤ huffTableBits) :
    wp safe (huffBuildTable lengths 0 size t count) (fun r st' _ => r = true ∧ Only t st st' ∧
      Filled lengths count count (st'.tables t)) st () := by
  have h0 : (fun i => lengths (0 + i)) = lengths := funext fun i => by rw [Nat.zero_add]
  have hw : wp safe (huffBuildTable lengths 0 size t count) _ st () :=
    wp_huffBuildTable_filled (by omega) (by rw [h0]; exact hf)
      (fun i hi => by rw [Nat.zero_add]; exact hl i hi)
  rw [h0] at hw
  exact hw

theorem Left.only {st' : State} (h : Left src srcSize outSize n written st) (ho : Only t st st')
    (hs : st'.Sound srcSize outSize) : Left src srcSize outSize n written st' :=
  ⟨hs, ho.s_eq ▸ h.value_eq, ho.outPos_eq ▸ h.outPos_eq, ho.out_eq ▸ h.out⟩

-- The lengths of the codes that the lengths of the other codes are written in.
def clLengthsOf : (left j n : Nat) → (clLengths : Nat → Nat) → Nat → Nat
  | 0,        _, _, clLengths => clLengths
  | left + 1, j, n, clLengths =>
    clLengthsOf left (j + 1) (n / 2 ^ 3) (Function.update clLengths (order.getD j 0) (n % 2 ^ 3))

-- The lengths `ls` that have been read of `total` ones, and the lengths in the end.
inductive Lengths (len : Nat → Nat) (total : Nat) : Nat → List Nat → Nat → List Nat → Prop
  | stop {n : Nat} {ls : List Nat} (h : ls.length = total) : Lengths len total n ls n ls
  | one {n n₁ n' sym : Nat} {ls ls' : List Nat} (h : Reads len 19 sym n n₁) (hs : sym ≤ 15)
      (hl : ls.length < total) (next : Lengths len total n₁ (ls ++ [sym]) n' ls') :
      Lengths len total n ls n' ls'
  | again {n n₁ n' last : Nat} {ls ls' : List Nat} (h : Reads len 19 16 n n₁)
      (hl : (ls ++ [last]).length + (n₁ % 2 ^ 2 + 3) ≤ total)
      (next : Lengths len total (n₁ / 2 ^ 2)
        ((ls ++ [last]) ++ List.replicate (n₁ % 2 ^ 2 + 3) last) n' ls') :
      Lengths len total n (ls ++ [last]) n' ls'
  | zeros {n n₁ n' : Nat} {ls ls' : List Nat} (h : Reads len 19 17 n n₁)
      (hl : ls.length + (n₁ % 2 ^ 3 + 3) ≤ total)
      (next : Lengths len total (n₁ / 2 ^ 3) (ls ++ List.replicate (n₁ % 2 ^ 3 + 3) 0) n' ls') :
      Lengths len total n ls n' ls'
  | manyZeros {n n₁ n' : Nat} {ls ls' : List Nat} (h : Reads len 19 18 n n₁)
      (hl : ls.length + (n₁ % 2 ^ 7 + 11) ≤ total)
      (next : Lengths len total (n₁ / 2 ^ 7) (ls ++ List.replicate (n₁ % 2 ^ 7 + 11) 0) n' ls') :
      Lengths len total n ls n' ls'

theorem clLengthsOf_le {left j : Nat} {clLengths : Nat → Nat} (h : ∀ i, clLengths i ≤ 7) :
    ∀ i, clLengthsOf left j n clLengths i ≤ 7 := by
  induction left generalizing j n clLengths with
  | zero         => exact h
  | succ left ih =>
    refine ih fun i => ?_
    by_cases hi : i = order.getD j 0
    case pos =>
      rw [hi, Function.update_self]
      omega
    case neg =>
      rw [Function.update_of_ne hi]
      exact h i

theorem wp_readClLengths_left {left j : Nat} {clLengths : Nat → Nat} (hj : j + left ≤ 19)
    (h : Left src srcSize outSize n written st) :
    wp safe (readClLengths src srcSize left j clLengths) (fun r st' _ =>
      r = clLengthsOf left j n clLengths ∧
        Left src srcSize outSize (n / 2 ^ (3 * left)) written st') st () := by
  induction left generalizing j n clLengths st with
  | zero         =>
    rw [Nat.mul_zero, Nat.pow_zero, Nat.div_one]
    exact ⟨rfl, h⟩
  | succ left ih =>
    rw [readClLengths, check_eq (by omega), pure_bind, check_eq (order_lt j (by omega)), pure_bind]
    refine wp_seq (wp_getBits_left h (by decide)) ?_
    rintro _ st₁ _ ⟨rfl, h₁, -⟩
    refine wp_mono (ih (by omega) h₁) ?_
    rintro _ st₂ _ ⟨rfl, h₂⟩
    rw [Nat.div_div_eq_div_mul, ← Nat.pow_add] at h₂
    rw [Nat.mul_succ, Nat.add_comm (3 * left)]
    exact ⟨rfl, h₂⟩

theorem update_getD {ls : List Nat} {x : Nat} :
    Function.update (ls.getD · 0) ls.length x = ((ls ++ [x]).getD · 0) := by
  funext i
  by_cases hi : i = ls.length
  case pos => simp [hi]
  case neg =>
    rw [Function.update_of_ne hi]
    rcases Nat.lt_or_gt_of_ne hi with hlt | hgt
    · simp [List.getElem?_append_left hlt]
    · rw [List.getD_eq_getElem?_getD, List.getD_eq_getElem?_getD,
        List.getElem?_eq_none (Nat.le_of_lt hgt), List.getElem?_eq_none (by simp; omega)]

theorem repeatLength_list {len left : Nat} {ls : List Nat} (h : ls.length + left ≤ 320) :
    repeatLength len left ls.length (ls.getD · 0) =
      pure (ls.length + left, ((ls ++ List.replicate left len).getD · 0)) := by
  induction left generalizing ls with
  | zero         =>
    rw [List.replicate_zero, List.append_nil]
    rfl
  | succ left ih =>
    have hl : (ls ++ [len]).length + left ≤ 320 := by
      rw [List.length_append, List.length_singleton]
      omega
    have hi := ih hl
    rw [List.length_append, List.length_singleton, List.append_assoc, List.singleton_append,
      ← List.replicate_succ] at hi
    rw [repeatLength, check_eq (by omega), pure_bind, update_getD, hi, Nat.add_assoc,
      Nat.add_comm 1]

theorem wp_tryRepeat_list {total len left : Nat} {ls : List Nat} (ht : total ≤ 320)
    (hl : ls.length + left ≤ total)
    {Q : Option (Nat × (Nat → Nat)) ⊕ (Nat × (Nat → Nat)) → State → Unit → Prop}
    (h : Q (.inr ((ls ++ List.replicate left len).length,
      ((ls ++ List.replicate left len).getD · 0))) st ()) :
    wp safe (tryRepeat total len left ls.length (ls.getD · 0)) Q st () := by
  rw [tryRepeat, wp_ite, if_neg (by omega), repeatLength_list (by omega), pure_bind]
  rw [List.length_append, List.length_replicate] at h
  exact h

-- A round that repeats a length some bits of the stream tell how often.
theorem wp_repeated {bits base total len : Nat} {ls : List Nat} (hb : bits ≤ 15)
    (ht : total ≤ 320) (hl : ls.length + (n % 2 ^ bits + base) ≤ total)
    (h : Left src srcSize outSize n written st) :
    wp safe (do
      let left := (← getBits src srcSize bits) + base
      tryRepeat total len left ls.length (ls.getD · 0))
    (fun r st' _ => r = .inr ((ls ++ List.replicate (n % 2 ^ bits + base) len).length,
        ((ls ++ List.replicate (n % 2 ^ bits + base) len).getD · 0)) ∧
      Left src srcSize outSize (n / 2 ^ bits) written st' ∧ st'.tables = st.tables) st () := by
  refine wp_seq (wp_getBits_left h hb) ?_
  rintro _ st₁ _ ⟨rfl, h₁, ht₁⟩
  exact wp_tryRepeat_list ht hl ⟨rfl, h₁, ht₁⟩

theorem wp_lengths {len : Nat → Nat} {total : Nat} (hlen : ∀ i, len i ≤ 7) (ht : total ≤ 320)
    {ls ls' : List Nat} (hs : Lengths len total n ls n' ls')
    (h : Left src srcSize outSize n written st) (hf : Filled len 19 19 (st.tables .dist))
    {fuel : Nat} (hfuel : total - ls.length < fuel) :
    wp safe (loop (lengthRound src srcSize total) fuel (ls.length, (ls.getD · 0)))
      (fun r st' _ => r = some (ls'.length, (ls'.getD · 0)) ∧ ls'.length = total ∧
        Left src srcSize outSize n' written st') st () := by
  have hle (i : Nat) : len i ≤ huffTableBits := Nat.le_trans (hlen i) (by decide)
  induction hs generalizing st fuel with
  | stop h0                =>
    obtain ⟨fuel, rfl⟩ := Nat.exists_eq_add_of_lt hfuel
    rw [loop, wp_bind, lengthRound]
    dsimp only
    rw [wp_ite, if_neg (by omega)]
    exact ⟨rfl, h0, h⟩
  | @one _ _ _ sym ls _ hr hs hl next ih   =>
    obtain ⟨fuel, rfl⟩ := Nat.exists_eq_add_of_lt hfuel
    rw [loop, wp_bind, lengthRound]
    dsimp only
    rw [wp_ite, if_pos hl]
    refine wp_seq (wp_huffDecode_left (by decide) (hle _) h hf hr) ?_
    rintro _ st₁ _ ⟨rfl, h₁, ht₁⟩
    dsimp only
    have hadd : ls.length + 1 = (ls ++ [sym]).length := by
      rw [List.length_append]
      rfl
    rw [wp_ite, if_pos hs, check_eq (by omega), pure_bind, update_getD, hadd]
    exact ih h₁ (ht₁ ▸ hf) (by omega)
  | @again _ _ _ last ls _ hr hl next ih   =>
    obtain ⟨fuel, rfl⟩ := Nat.exists_eq_add_of_lt hfuel
    have hpos : 0 < (ls ++ [last]).length := by
      rw [List.length_append]
      exact Nat.succ_pos _
    have hlast : (ls ++ [last]).getD ((ls ++ [last]).length - 1) 0 = last := by simp
    rw [loop, wp_bind, lengthRound]
    dsimp only
    rw [wp_ite, if_pos (by omega)]
    refine wp_seq (wp_huffDecode_left (by decide) (hle _) h hf hr) ?_
    rintro _ st₁ _ ⟨rfl, h₁, ht₁⟩
    dsimp only
    rw [wp_ite, if_neg (by decide), wp_ite, if_pos rfl, wp_ite, if_neg (by omega)]
    refine wp_seq (wp_getBits_left h₁ (by decide)) ?_
    rintro _ st₂ _ ⟨rfl, h₂, ht₂⟩
    rw [check_eq (by omega), pure_bind, hlast]
    refine wp_tryRepeat_list ht hl (ih h₂ (ht₂ ▸ ht₁ ▸ hf) ?_)
    rw [List.length_append, List.length_replicate]
    omega
  | zeros hr hl next ih    =>
    obtain ⟨fuel, rfl⟩ := Nat.exists_eq_add_of_lt hfuel
    rw [loop, wp_bind, lengthRound]
    dsimp only
    rw [wp_ite, if_pos (by omega)]
    refine wp_seq (wp_huffDecode_left (by decide) (hle _) h hf hr) ?_
    rintro _ st₁ _ ⟨rfl, h₁, ht₁⟩
    dsimp only
    rw [wp_ite, if_neg (by decide), wp_ite, if_neg (by decide), wp_ite, if_pos rfl]
    refine wp_mono (wp_repeated (by decide) ht hl h₁) ?_
    rintro _ st₂ _ ⟨rfl, h₂, ht₂⟩
    refine ih h₂ (ht₂ ▸ ht₁ ▸ hf) ?_
    rw [List.length_append, List.length_replicate]
    omega
  | manyZeros hr hl next ih =>
    obtain ⟨fuel, rfl⟩ := Nat.exists_eq_add_of_lt hfuel
    rw [loop, wp_bind, lengthRound]
    dsimp only
    rw [wp_ite, if_pos (by omega)]
    refine wp_seq (wp_huffDecode_left (by decide) (hle _) h hf hr) ?_
    rintro _ st₁ _ ⟨rfl, h₁, ht₁⟩
    dsimp only
    rw [wp_ite, if_neg (by decide), wp_ite, if_neg (by decide), wp_ite, if_neg (by decide), wp_ite,
      if_pos rfl]
    refine wp_mono (wp_repeated (by decide) ht hl h₁) ?_
    rintro _ st₂ _ ⟨rfl, h₂, ht₂⟩
    refine ih h₂ (ht₂ ▸ ht₁ ▸ hf) ?_
    rw [List.length_append, List.length_replicate]
    omega

theorem Lengths.le {len : Nat → Nat} {total : Nat} {ls ls' : List Nat}
    (hs : Lengths len total n ls n' ls') (h : ∀ x ∈ ls, x ≤ 15) : ∀ x ∈ ls', x ≤ 15 := by
  induction hs with
  | stop _              => exact h
  | one _ hs _ _ ih     => exact ih (by simpa [or_imp, forall_and] using ⟨h, hs⟩)
  | again _ _ _ ih      =>
    refine ih fun x hx => ?_
    rcases List.mem_append.mp hx with hx | hx
    · exact h x hx
    · rw [List.eq_of_mem_replicate hx]
      exact h _ (by simp)
  | zeros _ _ _ ih | manyZeros _ _ _ ih =>
    refine ih fun x hx => ?_
    rcases List.mem_append.mp hx with hx | hx
    · exact h x hx
    · rw [List.eq_of_mem_replicate hx]
      exact Nat.zero_le _

theorem Lengths.value_le {len : Nat → Nat} {total : Nat} {ls ls' : List Nat}
    (hs : Lengths len total n ls n' ls') : n' ≤ n := by
  induction hs with
  | stop _          => exact Nat.le_refl _
  | one h _ _ _ ih  => exact Nat.le_trans ih (h.rest_eq ▸ Nat.div_le_self _ _)
  | again h _ _ ih | zeros h _ _ ih | manyZeros h _ _ ih =>
    exact Nat.le_trans (Nat.le_trans ih (Nat.div_le_self _ _)) (h.rest_eq ▸ Nat.div_le_self _ _)

-- The codes with the lengths `ls`, of which the first `hlit` are for literals and lengths.
def dynamicCoding (hlit hdist : Nat) (ls : List Nat) : Coding where
  len
    | .lit  => fun i => ls.getD i 0
    | .dist => fun i => ls.getD (hlit + i) 0
  count
    | .lit  => hlit
    | .dist => hdist

theorem getD_le {ls : List Nat} (h : ∀ x ∈ ls, x ≤ 15) (i : Nat) : ls.getD i 0 ≤ 15 := by
  rw [List.getD_eq_getElem?_getD]
  cases hi : ls[i]?
  case none   => exact Nat.zero_le _
  case some x => exact h x (List.mem_of_getElem? hi)

theorem wp_readTables_at {len : Nat → Nat} {hlit hdist : Nat} {ls : List Nat} (hl : hlit ≤ 288)
    (hd : hdist ≤ 32) (hlen : ∀ i, len i ≤ 7) (hs : Lengths len (hlit + hdist) n [] n' ls)
    (hfit : ∀ t, Fits ((dynamicCoding hlit hdist ls).len t) ((dynamicCoding hlit hdist ls).count t)
      huffTableBits)
    (h : Left src srcSize outSize n written st) (hf : Filled len 19 19 (st.tables .dist)) :
    wp safe (readTables src srcSize hlit hdist) (fun r st' _ => r = true ∧
      At src srcSize outSize (dynamicCoding hlit hdist ls) n' written st') st () := by
  have hle := getD_le (hs.le (by simp))
  have hw : wp safe (loop (lengthRound src srcSize (hlit + hdist)) (hlit + hdist + 1)
      (0, fun _ => 0)) _ st () :=
    wp_lengths hlen (by omega) hs h hf (Nat.lt_succ_of_le (Nat.sub_le _ _))
  rw [readTables]
  refine wp_seq hw ?_
  rintro _ st₁ _ ⟨rfl, -, h₁⟩
  dsimp only
  refine wp_seq (wp_and (wp_huffBuildTable h₁.sound (by omega) (by omega))
    (wp_wholeTable (by omega) (hfit .lit) fun i _ => hle i)) ?_
  rintro _ st₂ _ ⟨h₂, rfl, ho, hlit⟩
  have hl₂ := h₁.only ho h₂.sound
  rw [if_pos rfl]
  refine wp_mono (wp_and (wp_huffBuildTable h₂.sound (by omega) (by omega))
    (wp_huffBuildTable_filled (by omega) (hfit .dist) fun i _ => hle _)) ?_
  rintro _ st₃ _ ⟨h₃, rfl, ho₃, hdist⟩
  refine ⟨rfl, hl₂.only ho₃ h₃.sound, fun t => ?_⟩
  cases t
  case lit  =>
    rw [ho₃.tables_eq .lit (by decide)]
    exact hlit
  case dist => exact hdist

-- The numbers of codes and the lengths of the codes at the front of a block that comes with them.
structure DynamicHeader (n hlit hdist : Nat) (ls : List Nat) (n' : Nat) : Prop where
  hlit_eq : hlit = n % 2 ^ 5 + 257
  hdist_eq : hdist = n / 2 ^ 5 % 2 ^ 5 + 1
  hlit_le : hlit ≤ 288
  hdist_le : hdist ≤ 32
  exists_lengths : ∃ hclen len, hclen = n / 2 ^ 5 / 2 ^ 5 % 2 ^ 4 + 4 ∧
    len = clLengthsOf hclen 0 (n / 2 ^ 5 / 2 ^ 5 / 2 ^ 4) (fun _ => 0) ∧
    Fits len 19 huffTableBits ∧
    Lengths len (hlit + hdist) (n / 2 ^ 5 / 2 ^ 5 / 2 ^ 4 / 2 ^ (3 * hclen)) [] n' ls
  fits : ∀ t, Fits ((dynamicCoding hlit hdist ls).len t) ((dynamicCoding hlit hdist ls).count t)
    huffTableBits

theorem wp_buildDynamicTables_at {hlit hdist : Nat} {ls : List Nat}
    (hh : DynamicHeader n hlit hdist ls n') (h : Left src srcSize outSize n written st) :
    wp safe (buildDynamicTables src srcSize) (fun r st' _ => r = true ∧
      At src srcSize outSize (dynamicCoding hlit hdist ls) n' written st') st () := by
  obtain ⟨hclen, len, hc, hlen, hcf, hs⟩ := hh.exists_lengths
  have hl := hh.hlit_le
  have hd := hh.hdist_le
  have hle : ∀ i, len i ≤ 7 := hlen ▸ clLengthsOf_le fun _ => Nat.zero_le 7
  rw [buildDynamicTables]
  refine wp_seq (wp_getBits_left h (by decide)) ?_
  rintro _ st₁ _ ⟨rfl, h₁, -⟩
  refine wp_seq (wp_getBits_left h₁ (by decide)) ?_
  rintro _ st₂ _ ⟨rfl, h₂, -⟩
  refine wp_seq (wp_getBits_left h₂ (by decide)) ?_
  rintro _ st₃ _ ⟨rfl, h₃, -⟩
  rw [← hh.hlit_eq, ← hh.hdist_eq, ← hc, wp_ite, if_neg (by omega)]
  refine wp_seq (wp_readClLengths_left (by omega) h₃) ?_
  rintro _ st₄ _ ⟨rfl, h₄⟩
  rw [← hlen]
  refine wp_seq (wp_and (wp_huffBuildTable h₄.sound (by decide) (by decide))
    (wp_wholeTable (Nat.le_refl 19) hcf fun i _ => Nat.le_trans (hle i) (by decide))) ?_
  rintro _ st₅ _ ⟨h₅, rfl, ho, hf⟩
  rw [if_pos rfl]
  exact wp_readTables_at hl hd hle hs hh.fits (h₄.only ho h₅.sound) hf

end Inflate
