import Mathlib.Data.Nat.Size
import HackyLens.Lib.Wp
import HackyLens.Photo.Inflate

-- Whatever it is given, the inflater stays in its arrays and comes to an end. Each round of its
-- outer loop takes bits of the source that are left.

namespace Inflate

open Prog

-- No call is made, and no loop uses up its fuel.
abbrev safe : Env Call Call.Reply Unit ((c : Call) → c.Reply) :=
  .total Call.Reply fun _ => False

-- Programs that make no calls only compute.
theorem exists_ret {α : Type} {p : M α} {Q : α → State → Unit → Prop} {st : State}
    (h : wp safe p Q st ()) : ∃ a st', p st = .ret (a, st') ∧ Q a st' () := by
  rw [wp] at h
  generalize p st = t at *
  cases t with
  | ret x    => exact ⟨x.fst, x.snd, rfl, h⟩
  | hang     => exact False.elim h
  | call c k => exact False.elim h.left

theorem check_eq {i size : Nat} (h : i < size) : check i size = pure () :=
  if_pos h

theorem checkShift_eq {bitcount : Nat} (h : bitcount ≤ 24) : checkShift bitcount = pure () :=
  if_pos (by omega)

theorem toNat_add {a b : UInt32} (h : a.toNat + b.toNat < 2 ^ 32) :
    (a + b).toNat = a.toNat + b.toNat := by
  rw [UInt32.toNat_add]
  exact Nat.mod_eq_of_lt h

-- A position that something is above can be advanced.
theorem toNat_succ {a b : UInt32} (h : a.toNat < b.toNat) : (a + 1).toNat = a.toNat + 1 := by
  have hb : a.toNat + 1 < 2 ^ 32 := Nat.lt_of_le_of_lt h b.toNat_lt
  exact toNat_add hb

section Stream

variable {srcSize : UInt32} {s : Stream} {bits : Nat}

-- The bits that are left. Where the source is used up there may be zeros in front of them.
def Stream.left (s : Stream) : Nat :=
  if s.pos < s.size then 8 * (s.size.toNat - s.pos.toNat) + s.bitcount else s.bitbuf.size

structure Stream.Sound (srcSize : UInt32) (s : Stream) : Prop where
  size_add : s.size.toNat + 6 = srcSize.toNat
  pos_le : s.pos.toNat ≤ s.size.toNat
  count_le : s.bitcount ≤ 22
  buf_lt : s.bitbuf < 2 ^ s.bitcount

def Stream.takeByte (s : Stream) (byte : UInt8) : Stream :=
  { s with
    bitbuf   := (s.bitbuf ||| byte.toNat <<< s.bitcount) % 2 ^ 32
    pos      := s.pos + 1
    bitcount := (s.bitcount + 8) % 2 ^ 8 }

def Stream.drop (s : Stream) (bits : Nat) : Stream :=
  { s with
    bitbuf   := s.bitbuf >>> bits
    bitcount := (s.bitcount + 2 ^ 8 - bits) % 2 ^ 8 }

-- The number that the bytes of a range are the digits of, the lowest first.
def bitsFrom (src : Memory) (addr : Nat) : (len : Nat) → Nat
  | 0       => 0
  | len + 1 => (src addr).toNat + 256 * bitsFrom src (addr + 1) len

-- The bits that are still to be read. There are zeros behind the last byte.
def Stream.value (src : Memory) (s : Stream) : Nat :=
  s.bitbuf + 2 ^ s.bitcount * bitsFrom src (2 + s.pos.toNat) (s.size.toNat - s.pos.toNat)

namespace Stream.Sound

theorem left_of_end (hp : ¬s.pos < s.size) : s.left = s.bitbuf.size :=
  if_neg hp

theorem left_of_lt (hp : s.pos < s.size) :
    s.left = 8 * (s.size.toNat - s.pos.toNat) + s.bitcount :=
  if_pos hp

theorem size_bitbuf_le (h : s.Sound srcSize) : s.bitbuf.size ≤ s.bitcount :=
  Nat.size_le.mpr h.buf_lt

theorem takeByte (h : s.Sound srcSize) (hp : s.pos < s.size) (hc : s.bitcount < 15)
    (byte : UInt8) : (s.takeByte byte).Sound srcSize ∧ (s.takeByte byte).left ≤ s.left ∧
      (s.takeByte byte).bitcount = s.bitcount + 8 := by
  have hp' := UInt32.lt_iff_toNat_lt.mp hp
  have hn := toNat_succ hp'
  have hb : (s.takeByte byte).bitcount = s.bitcount + 8 := Nat.mod_eq_of_lt (by omega)
  have hv : (s.takeByte byte).bitbuf < 2 ^ (s.bitcount + 8) := by
    refine Nat.lt_of_le_of_lt (Nat.mod_le _ _) (Nat.or_lt_two_pow ?_ ?_)
    · exact Nat.lt_of_lt_of_le h.buf_lt (Nat.pow_le_pow_right (by decide) (by omega))
    · rw [Nat.shiftLeft_eq, Nat.pow_add, Nat.mul_comm]
      exact Nat.mul_lt_mul_of_pos_left byte.toNat_lt (Nat.two_pow_pos _)
  refine ⟨⟨h.size_add, ?_, ?_, hb ▸ hv⟩, ?_, hb⟩
  · show (s.pos + 1).toNat ≤ s.size.toNat
    omega
  · omega
  · rw [left_of_lt hp]
    by_cases hq : s.pos + 1 < s.size
    case pos =>
      rw [left_of_lt (s := s.takeByte byte) hq, hb]
      show 8 * (s.size.toNat - (s.pos + 1).toNat) + _ ≤ _
      omega
    case neg =>
      rw [left_of_end (s := s.takeByte byte) hq]
      have := Nat.size_le.mpr hv
      omega

-- Where the source is used up, zeros are put in front of what is in the buffer.
theorem fillUp (h : s.Sound srcSize) (hp : s.size ≤ s.pos) (hc : s.bitcount < bits)
    (hb : bits ≤ 15) :
    ({ s with bitcount := bits } : Stream).Sound srcSize ∧
      ({ s with bitcount := bits } : Stream).left ≤ s.left := by
  refine ⟨⟨h.size_add, h.pos_le, ?_, ?_⟩, ?_⟩
  · exact Nat.le_trans hb (by decide)
  · exact Nat.lt_of_lt_of_le h.buf_lt (Nat.pow_le_pow_right (by decide) (Nat.le_of_lt hc))
  · rw [left_of_end (UInt32.not_lt.mpr hp)]
    exact Nat.le_of_eq (left_of_end (UInt32.not_lt.mpr hp))

theorem drop (h : s.Sound srcSize) (hb : bits ≤ s.bitcount) :
    (s.drop bits).Sound srcSize ∧ (s.drop bits).left ≤ s.left ∧
      (0 < bits → (s.drop bits).left < s.left ∨
        s.bitbuf % 2 ^ bits = 0 ∧ (s.drop bits).left = 0) := by
  have hc := h.count_le
  have hn : (s.drop bits).bitcount = s.bitcount - bits := by
    show (s.bitcount + 2 ^ 8 - bits) % 2 ^ 8 = _
    omega
  have hv : (s.drop bits).bitbuf = s.bitbuf / 2 ^ bits := Nat.shiftRight_eq_div_pow _ _
  refine ⟨⟨h.size_add, h.pos_le, by omega, ?_⟩, ?_⟩
  · rw [hv, hn, Nat.div_lt_iff_lt_mul (Nat.two_pow_pos _), ← Nat.pow_add, Nat.sub_add_cancel hb]
    exact h.buf_lt
  by_cases hp : s.pos < s.size
  case pos =>
    rw [left_of_lt (s := s.drop bits) hp, left_of_lt hp, hn]
    show 8 * (s.size.toNat - s.pos.toNat) + _ ≤ _ ∧ _
    refine ⟨by omega, fun h0 => .inl ?_⟩
    show 8 * (s.size.toNat - s.pos.toNat) + _ < _
    omega
  case neg =>
    rw [left_of_end (s := s.drop bits) hp, left_of_end hp, hv]
    refine ⟨Nat.size_le_size (Nat.div_le_self _ _), fun h0 => ?_⟩
    by_cases hz : s.bitbuf = 0
    case pos => exact .inr (by simp [hz])
    case neg =>
      refine .inl ?_
      have hs := Nat.size_pos.mpr (Nat.pos_of_ne_zero hz)
      have hl := Nat.lt_size_self s.bitbuf
      refine Nat.lt_of_le_of_lt (Nat.size_le (n := s.bitbuf.size - 1).mpr ?_) (by omega)
      rw [Nat.div_lt_iff_lt_mul (Nat.two_pow_pos _), ← Nat.pow_add]
      exact Nat.lt_of_lt_of_le hl (Nat.pow_le_pow_right (by decide) (by omega))

theorem value_takeByte {src : Memory} (h : s.Sound srcSize) (hp : s.pos < s.size)
    (hc : s.bitcount < 15) :
    (s.takeByte (src (2 + s.pos.toNat))).value src = s.value src := by
  have hp' := UInt32.lt_iff_toNat_lt.mp hp
  have hn := toNat_succ hp'
  have hb : (s.bitcount + 8) % 2 ^ 8 = s.bitcount + 8 := Nat.mod_eq_of_lt (by omega)
  have hor := Nat.two_pow_add_eq_or_of_lt h.buf_lt (src (2 + s.pos.toNat)).toNat
  have hv : (s.bitbuf ||| (src (2 + s.pos.toNat)).toNat <<< s.bitcount) % 2 ^ 32 =
      s.bitbuf + 2 ^ s.bitcount * (src (2 + s.pos.toNat)).toNat := by
    rw [Nat.shiftLeft_eq, Nat.mul_comm _ (2 ^ s.bitcount), Nat.or_comm, ← hor, Nat.add_comm]
    refine Nat.mod_eq_of_lt ?_
    have hlt := (src (2 + s.pos.toNat)).toNat_lt
    have hpow : 2 ^ s.bitcount ≤ 2 ^ 14 := Nat.pow_le_pow_right (by decide) (by omega)
    have hmul : 2 ^ s.bitcount * (src (2 + s.pos.toNat)).toNat ≤ 2 ^ 14 * 255 :=
      Nat.mul_le_mul hpow (by omega)
    have := h.buf_lt
    omega
  obtain ⟨len, hl⟩ := Nat.exists_eq_add_of_lt hp'
  rw [value, Stream.takeByte, value]
  dsimp only
  rw [hv, hb, hn, show s.size.toNat - s.pos.toNat = len + 1 by omega,
    show s.size.toNat - (s.pos.toNat + 1) = len by omega, bitsFrom, Nat.pow_add, Nat.mul_add,
    Nat.add_assoc, Nat.mul_assoc]
  rfl

theorem value_fillUp {src : Memory} (hp : s.size ≤ s.pos) :
    ({ s with bitcount := bits } : Stream).value src = s.value src := by
  have hp := UInt32.le_iff_toNat_le.mp hp
  rw [value, value]
  dsimp only
  rw [Nat.sub_eq_zero_of_le hp, bitsFrom, Nat.mul_zero, Nat.mul_zero]

theorem value_drop {src : Memory} (h : s.Sound srcSize) (hb : bits ≤ s.bitcount) :
    (s.drop bits).value src = s.value src / 2 ^ bits := by
  have hc := h.count_le
  have hn : (s.bitcount + 2 ^ 8 - bits) % 2 ^ 8 = s.bitcount - bits := by omega
  rw [value, Stream.drop, value]
  dsimp only
  rw [hn, Nat.shiftRight_eq_div_pow]
  obtain ⟨d, hd⟩ := Nat.exists_eq_add_of_le hb
  rw [hd, Nat.add_sub_cancel_left, Nat.pow_add, Nat.mul_assoc,
    Nat.add_mul_div_left _ _ (Nat.two_pow_pos bits)]

theorem value_mod {src : Memory} (hb : bits ≤ s.bitcount) :
    s.value src % 2 ^ bits = s.bitbuf % 2 ^ bits := by
  obtain ⟨d, hd⟩ := Nat.exists_eq_add_of_le hb
  rw [value, hd, Nat.pow_add, Nat.mul_assoc, Nat.add_mul_mod_self_left]

end Stream.Sound

end Stream

section State

variable (srcSize outSize : UInt32)

-- What the tables hold does not take more bits than there are in the buffer when it is used.
def State.Coded (st : State) : Prop :=
  ∀ t i, st.tables t i = huffInvalid ∨ (st.tables t i).toNat / 512 ≤ huffTableBits

structure State.Sound (st : State) : Prop where
  coded : st.Coded
  stream : st.s.Sound srcSize
  out_le : st.outPos.toNat ≤ outSize.toNat

-- After something that writes no output.
structure Later (st st' : State) : Prop where
  sound : st'.Sound srcSize outSize
  left_le : st'.s.left ≤ st.s.left
  outPos_eq : st'.outPos = st.outPos

-- Nothing has been read of the bits that are left.
structure Same (src : Memory) (st st' : State) : Prop where
  value_eq : st'.s.value src = st.s.value src
  tables_eq : st'.tables = st.tables
  out_eq : st'.out = st.out

end State

variable {src : Memory} {srcSize outSize : UInt32} {st st' st₁ : State} {bits : Nat}

theorem Later.refl (h : st.Sound srcSize outSize) : Later srcSize outSize st st :=
  ⟨h, Nat.le_refl _, rfl⟩

theorem Later.trans (h : Later srcSize outSize st st₁) (h' : Later srcSize outSize st₁ st') :
    Later srcSize outSize st st' :=
  ⟨h'.sound, Nat.le_trans h'.left_le h.left_le, h'.outPos_eq.trans h.outPos_eq⟩

theorem State.Sound.later {s : Stream} (h : st.Sound srcSize outSize) (hs : s.Sound srcSize)
    (hl : s.left ≤ st.s.left) : Later srcSize outSize st { st with s } :=
  ⟨⟨h.coded, hs, h.out_le⟩, hl, rfl⟩

theorem wp_need (h : st.Sound srcSize outSize) (hb : bits ≤ 15) :
    wp safe (need src srcSize bits)
      (fun _ st' _ => Later srcSize outSize st st' ∧ bits ≤ st'.s.bitcount ∧ Same src st st') st
      () := by
  refine wp_loop_of_lt (fun n _ st' _ => Later srcSize outSize st st' ∧
    bits - st'.s.bitcount ≤ n ∧ Same src st st') ?_ (Nat.lt_succ_self bits)
    ⟨.refl h, Nat.sub_le _ _, ⟨rfl, rfl, rfl⟩⟩
  rintro n _ st₁ _ ⟨h₁, hn, hsame⟩
  have hs := h₁.sound.stream
  rw [needRound, wp_bind, wp_get]
  dsimp only
  rw [wp_ite]
  split
  case isFalse hc => exact ⟨h₁, Nat.not_lt.mp hc, hsame⟩
  case isTrue hc  =>
  rw [wp_ite]
  split
  case isTrue hp =>
    obtain ⟨hs', hl⟩ := hs.fillUp hp hc hb
    refine ⟨h₁.trans (h₁.sound.later hs' hl), Nat.le_refl _, ?_, hsame.tables_eq, hsame.out_eq⟩
    exact (Stream.Sound.value_fillUp hp).trans hsame.value_eq
  case isFalse hp =>
    have hp : st₁.s.pos < st₁.s.size := UInt32.not_le.mp hp
    have hp' := UInt32.lt_iff_toNat_lt.mp hp
    have hz := hs.size_add
    rw [check_eq (by omega), pure_bind, checkShift_eq (by omega), pure_bind]
    obtain ⟨hs', hl, hc'⟩ := hs.takeByte hp (by omega) (src (2 + st₁.s.pos.toNat))
    refine ⟨bits - (st₁.s.bitcount + 8), by omega, h₁.trans (h₁.sound.later hs' hl), ?_, ?_,
      hsame.tables_eq, hsame.out_eq⟩
    · show bits - (st₁.s.takeByte _).bitcount ≤ _
      omega
    · exact (hs.value_takeByte hp (by omega)).trans hsame.value_eq

theorem wp_need_held (h : bits ≤ st.s.bitcount) :
    wp safe (need src srcSize bits) (fun _ st' _ => st' = st) st () := by
  refine wp_loop_of_lt (fun _ _ st' _ => st' = st) ?_ (Nat.lt_succ_self bits) rfl
  rintro n _ _ _ rfl
  rw [needRound, wp_bind, wp_get]
  dsimp only
  rw [wp_ite, if_neg (Nat.not_lt.mpr h)]
  rfl

-- What takes bits leaves fewer of them. From where there are none left zeros are read.
theorem wp_getBits (h : st.Sound srcSize outSize) (hb : bits ≤ 15) :
    wp safe (getBits src srcSize bits) (fun v st' _ => Later srcSize outSize st st' ∧
      v < 2 ^ bits ∧ (0 < bits → st'.s.left < st.s.left ∨ v = 0 ∧ st'.s.left = 0)) st () := by
  refine wp_seq (wp_need h hb) ?_
  rintro _ st₁ _ ⟨h₁, hc, -⟩
  obtain ⟨hs, hl, hd⟩ := h₁.sound.stream.drop hc
  refine ⟨h₁.trans (h₁.sound.later hs hl), Nat.mod_lt _ (Nat.two_pow_pos _), fun h0 => ?_⟩
  exact (hd h0).imp (fun h => Nat.lt_of_lt_of_le h h₁.left_le) id

theorem wp_huffDecode {t : Table} (h : st.Sound srcSize outSize) :
    wp safe (huffDecode src srcSize t) (fun _ st' _ => Later srcSize outSize st st') st () := by
  refine wp_seq (wp_need h (Nat.le_refl 15)) ?_
  rintro _ st₁ _ ⟨h₁, hc, -⟩
  rw [wp_bind, wp_get]
  dsimp only
  rw [check_eq (Nat.mod_lt _ (by decide)), pure_bind, wp_ite]
  split
  case isTrue     => exact h₁
  case isFalse hi =>
    have hl := (h₁.sound.coded t (st₁.s.bitbuf % huffTableSize)).resolve_left hi
    obtain ⟨hs, hl, -⟩ := h₁.sound.stream.drop (Nat.le_trans hl hc)
    exact h₁.trans (h₁.sound.later hs hl)

section Build

variable {lengths : Nat → Nat} {base size : Nat} {t : Table}

theorem wp_countLengths {Q : Option (Nat → Nat) → State → Unit → Prop} {count : Nat}
    (hs : base + count ≤ size) (hn : Q none st ())
    (hq : ∀ blCount, (∀ i < count, lengths (base + i) ≤ huffTableBits) → Q (some blCount) st ())
    {left i : Nat} {blCount : Nat → Nat} (hi : i + left = count)
    (hl : ∀ j < i, lengths (base + j) ≤ huffTableBits) :
    wp safe (countLengths lengths base size left i blCount) Q st () := by
  induction left generalizing i blCount with
  | zero           => exact hq _ fun j hj => hl j (by omega)
  | succ left ih =>
    rw [countLengths, check_eq (by omega), pure_bind]
    dsimp only
    rw [wp_ite]
    split
    case isTrue     => exact hn
    case isFalse hb =>
    have hl' (j : Nat) (hj : j < i + 1) : lengths (base + j) ≤ huffTableBits := by
      by_cases he : j = i
      case pos => exact he ▸ Nat.not_lt.mp hb
      case neg => exact hl j (by omega)
    rw [wp_ite]
    split
    case isTrue =>
      rw [check_eq (by omega), pure_bind]
      exact ih (by omega) hl'
    case isFalse => exact ih (by omega) hl'

-- After a table was filled in part.
theorem coded_update {value : UInt16} {idx : Nat} (h : st.Sound srcSize outSize)
    (hv : value = huffInvalid ∨ value.toNat / 512 ≤ huffTableBits) :
    Later srcSize outSize st { st with
      tables := Function.update st.tables t (Function.update (st.tables t) idx value) } := by
  refine ⟨⟨fun t' i => ?_, h.stream, h.out_le⟩, Nat.le_refl _, rfl⟩
  dsimp only
  by_cases ht : t' = t
  case neg => simpa [ht] using h.coded t' i
  case pos =>
    subst ht
    rw [Function.update_self]
    by_cases hi : i = idx
    case pos => simpa [hi] using hv
    case neg => simpa [hi] using h.coded t' i

theorem value_le {len sym : Nat} (hl : len ≤ huffTableBits) (hs : sym < 512) :
    (UInt16.ofNat (len * 512 ||| sym)).toNat / 512 ≤ huffTableBits := by
  have he := Nat.two_pow_add_eq_or_of_lt (i := 9) hs len
  rw [Nat.mul_comm len, ← show 2 ^ 9 * len + sym = 512 * len ||| sym from he]
  rw [huffTableBits] at *
  rw [UInt16.toNat_ofNat']
  omega

theorem wp_fillTable {count left sym : Nat} {nextCode : Nat → Nat}
    (h : st.Sound srcSize outSize) (hs : base + count ≤ size) (hc : count ≤ 512)
    (hl : ∀ i < count, lengths (base + i) ≤ huffTableBits) (hi : sym + left = count) :
    wp safe (fillTable lengths base size t left sym nextCode)
      (fun _ st' _ => Later srcSize outSize st st') st () := by
  induction left generalizing sym nextCode st with
  | zero         => exact .refl h
  | succ left ih =>
    have hlen := hl sym (by omega)
    rw [fillTable, check_eq (by omega), pure_bind]
    dsimp only
    rw [wp_ite]
    split
    case isTrue  => exact ih h (by omega)
    case isFalse =>
      rw [check_eq (by omega), pure_bind]
      refine wp_seq (P := fun _ st' _ => Later srcSize outSize st st') ?_ ?_
      · refine wp_loop_of_lt (fun n idx st' _ =>
          Later srcSize outSize st st' ∧ huffTableSize - idx ≤ n) ?_
          (Nat.lt_succ_self huffTableSize) ⟨.refl h, Nat.sub_le _ _⟩
        rintro n idx st₁ _ ⟨h₁, hn⟩
        rw [fillRound, wp_ite]
        split
        case isFalse    => exact h₁
        case isTrue hlt =>
          rw [check_eq hlt, pure_bind]
          have hp := Nat.two_pow_pos (lengths (base + sym))
          refine ⟨huffTableSize - (idx + 2 ^ lengths (base + sym)), by omega, ?_, Nat.le_refl _⟩
          exact h₁.trans (coded_update h₁.sound (.inr (value_le hlen (by omega))))
      · exact fun _ st₁ _ h₁ => wp_mono (ih h₁.sound (by omega)) fun _ _ _ => h₁.trans

theorem wp_huffBuildTable {count : Nat} (h : st.Sound srcSize outSize)
    (hs : base + count ≤ size) (hc : count ≤ 512) :
    wp safe (huffBuildTable lengths base size t count)
      (fun _ st' _ => Later srcSize outSize st st') st () := by
  rw [huffBuildTable, wp_bind, wp_modify, wp_bind]
  have cleared : Later srcSize outSize st { st with
      tables := Function.update st.tables t fun _ => huffInvalid } := by
    refine ⟨⟨fun t' i => ?_, h.stream, h.out_le⟩, Nat.le_refl _, rfl⟩
    dsimp only
    by_cases ht : t' = t
    case pos => exact .inl (by rw [ht, Function.update_self])
    case neg => simpa [ht] using h.coded t' i
  refine wp_countLengths hs cleared (fun blCount hl => ?_) (Nat.zero_add _) (by omega)
  refine wp_seq (wp_fillTable cleared.sound hs hc hl (Nat.zero_add _)) ?_
  exact fun _ _ _ => cleared.trans

end Build

section Dynamic

theorem order_lt : ∀ j < 19, order.getD j 0 < 19 := by
  decide

theorem wp_readClLengths {left j : Nat} {clLengths : Nat → Nat} (h : st.Sound srcSize outSize)
    (hj : j + left ≤ 19) : wp safe (readClLengths src srcSize left j clLengths)
      (fun _ st' _ => Later srcSize outSize st st') st () := by
  induction left generalizing j clLengths st with
  | zero           => exact .refl h
  | succ left ih =>
    rw [readClLengths, check_eq (by omega), pure_bind, check_eq (order_lt j (by omega)), pure_bind]
    refine wp_seq (wp_getBits h (by decide)) ?_
    rintro len st₁ _ ⟨h₁, -⟩
    exact wp_mono (ih h₁.sound (by omega)) fun _ _ _ => h₁.trans

theorem repeatLength_eq {left i : Nat} (len : Nat) (lengths : Nat → Nat) (h : i + left ≤ 320) :
    ∃ lengths', repeatLength len left i lengths = pure (i + left, lengths') := by
  induction left generalizing i lengths with
  | zero         => exact ⟨lengths, rfl⟩
  | succ left ih =>
    rw [repeatLength, check_eq (by omega), pure_bind]
    obtain ⟨lengths', he⟩ := ih (i := i + 1) (Function.update lengths i len) (by omega)
    exact ⟨lengths', by rw [he]; congr 2; omega⟩

theorem wp_tryRepeat {total len left i : Nat} {lengths : Nat → Nat} (ht : total ≤ 320)
    {Q : Option (Nat × (Nat → Nat)) ⊕ (Nat × (Nat → Nat)) → State → Unit → Prop}
    (hn : Q (.inl none) st ())
    (hq : ∀ lengths', i + left ≤ total → Q (.inr (i + left, lengths')) st ()) :
    wp safe (tryRepeat total len left i lengths) Q st () := by
  rw [tryRepeat, wp_ite]
  split
  case isTrue     => exact hn
  case isFalse hl =>
    obtain ⟨lengths', he⟩ := repeatLength_eq len lengths (show i + left ≤ 320 by omega)
    rw [he, pure_bind]
    exact hq lengths' (by omega)

-- A round stores at least one length, unless it is the last one.
theorem wp_lengthRound {total i : Nat} {lengths : Nat → Nat} (h : st.Sound srcSize outSize)
    (ht : total ≤ 320) : wp safe (lengthRound src srcSize total (i, lengths))
      (fun r st' _ => Later srcSize outSize st st' ∧ ∀ b, r = .inr b → i < b.fst ∧ i < total) st
      () := by
  rw [lengthRound]
  dsimp only
  rw [wp_ite]
  split
  case isFalse    => exact ⟨.refl h, by intros; contradiction⟩
  case isTrue hi =>
  have stored {n : Nat} {lengths' : Nat → Nat} (hn : 0 < n)
      (b) (hb : (Sum.inr (i + n, lengths') : Option (Nat × (Nat → Nat)) ⊕ (Nat × (Nat → Nat))) =
        .inr b) : i < b.fst ∧ i < total := by
    cases hb
    exact ⟨Nat.lt_add_of_pos_right hn, hi⟩
  refine wp_seq (wp_huffDecode h) ?_
  rintro sym st₁ _ h₁
  have last : Later srcSize outSize st st₁ ∧ ∀ b,
      (Sum.inl none : Option (Nat × (Nat → Nat)) ⊕ (Nat × (Nat → Nat))) = .inr b →
        i < b.fst ∧ i < total :=
    ⟨h₁, by intros; contradiction⟩
  have repeated {bits n len : Nat} (hb : bits ≤ 15) (hn : 0 < n) :
      wp safe (do
        let left := (← getBits src srcSize bits) + n
        tryRepeat total len left i lengths)
      (fun r st' _ => Later srcSize outSize st st' ∧ ∀ b, r = .inr b → i < b.fst ∧ i < total) st₁
      () := by
    refine wp_seq (wp_getBits h₁.sound hb) ?_
    rintro v st₂ _ ⟨h₂, -⟩
    refine wp_tryRepeat ht ⟨h₁.trans h₂, by intros; contradiction⟩ fun lengths' _ => ?_
    exact ⟨h₁.trans h₂, stored (by omega)⟩
  cases sym
  case none     => exact last
  case some sym =>
  dsimp only
  rw [wp_ite]
  split
  case isTrue =>
    rw [check_eq (by omega), pure_bind]
    exact ⟨h₁, stored Nat.one_pos⟩
  rw [wp_ite]
  split
  case isTrue =>
    rw [wp_ite]
    split
    case isTrue     => exact last
    case isFalse h0 =>
      refine wp_seq (wp_getBits h₁.sound (by decide)) ?_
      rintro v st₂ _ ⟨h₂, -⟩
      rw [check_eq (by omega), pure_bind]
      refine wp_tryRepeat ht ⟨h₁.trans h₂, by intros; contradiction⟩ fun lengths' _ => ?_
      exact ⟨h₁.trans h₂, stored (by omega)⟩
  rw [wp_ite]
  split
  case isTrue => exact repeated (by decide) (by decide)
  rw [wp_ite]
  split
  case isTrue  => exact repeated (by decide) (by decide)
  case isFalse => exact last

theorem wp_readTables {hlit hdist : Nat} (h : st.Sound srcSize outSize) (hl : hlit ≤ 288)
    (hd : hdist ≤ 32) : wp safe (readTables src srcSize hlit hdist)
      (fun _ st' _ => Later srcSize outSize st st') st () := by
  rw [readTables]
  refine wp_seq (P := fun _ st' _ => Later srcSize outSize st st') ?_ ?_
  · refine wp_loop_of_lt (fun n b st' _ =>
      Later srcSize outSize st st' ∧ hlit + hdist - b.fst ≤ n) ?_
      (Nat.lt_succ_self (hlit + hdist)) ⟨.refl h, Nat.sub_le _ _⟩
    rintro n ⟨i, lengths⟩ st₁ _ ⟨h₁, hn⟩
    refine wp_mono (wp_lengthRound h₁.sound (by omega)) ?_
    rintro (_ | ⟨i', lengths'⟩) st₂ _ ⟨h₂, hi⟩
    · exact h₁.trans h₂
    · obtain ⟨hi, ht⟩ := hi _ rfl
      exact ⟨hlit + hdist - i', by dsimp only at *; omega, h₁.trans h₂, Nat.le_refl _⟩
  · rintro b st₁ _ h₁
    cases b
    case none   => exact h₁
    case some b =>
      refine wp_seq (wp_huffBuildTable h₁.sound (by omega) (by omega)) ?_
      rintro built st₂ _ h₂
      rw [wp_ite]
      split
      case isTrue  =>
        refine wp_mono (wp_huffBuildTable h₂.sound (by omega) (by omega)) ?_
        exact fun _ _ _ h₃ => (h₁.trans h₂).trans h₃
      case isFalse => exact h₁.trans h₂

theorem wp_buildDynamicTables (h : st.Sound srcSize outSize) :
    wp safe (buildDynamicTables src srcSize) (fun _ st' _ => Later srcSize outSize st st') st
      () := by
  rw [buildDynamicTables]
  refine wp_seq (wp_getBits h (by decide)) ?_
  rintro hlit st₁ _ ⟨h₁, -⟩
  refine wp_seq (wp_getBits h₁.sound (by decide)) ?_
  rintro hdist st₂ _ ⟨h₂, -⟩
  refine wp_seq (wp_getBits h₂.sound (by decide)) ?_
  rintro hclen st₃ _ ⟨h₃, hc, -⟩
  have h₃ := (h₁.trans h₂).trans h₃
  dsimp only
  rw [wp_ite]
  split
  case isTrue     => exact h₃
  case isFalse hn =>
  refine wp_seq (wp_readClLengths h₃.sound (by omega)) ?_
  rintro clLengths st₄ _ h₄
  refine wp_seq (wp_huffBuildTable h₄.sound (by decide) (by decide)) ?_
  rintro built st₅ _ h₅
  have h₅ := (h₃.trans h₄).trans h₅
  rw [wp_ite]
  split
  case isTrue  =>
    exact wp_mono (wp_readTables h₅.sound (by omega) (by omega)) fun _ _ _ => h₅.trans
  case isFalse => exact h₅

theorem wp_buildFixedTables (h : st.Sound srcSize outSize) :
    wp safe buildFixedTables (fun _ st' _ => Later srcSize outSize st st') st () := by
  rw [buildFixedTables]
  -- With these lengths elaboration would run the loops.
  generalize fixedLitLengths = litLengths
  generalize (fun _ => 5 : Nat → Nat) = distLengths
  refine wp_seq (wp_huffBuildTable h (by decide) (by decide)) ?_
  rintro built st₁ _ h₁
  rw [wp_ite]
  split
  case isTrue  =>
    exact wp_mono (wp_huffBuildTable h₁.sound (by decide) (by decide)) fun _ _ _ => h₁.trans
  case isFalse => exact h₁

end Dynamic

section Output

variable {distance : UInt32} {length : Nat}

-- After `n` bytes were written.
structure Written (srcSize outSize : UInt32) (n : Nat) (st st' : State) : Prop where
  sound : st'.Sound srcSize outSize
  s_eq : st'.s = st.s
  outPos_eq : st'.outPos.toNat = st.outPos.toNat + n

theorem Written.trans {m n : Nat} (h : Written srcSize outSize m st st₁)
    (h' : Written srcSize outSize n st₁ st') : Written srcSize outSize (m + n) st st' := by
  refine ⟨h'.sound, h'.s_eq.trans h.s_eq, ?_⟩
  rw [h'.outPos_eq, h.outPos_eq, Nat.add_assoc]

theorem wp_put {byte : UInt8} (h : st.Sound srcSize outSize)
    (ho : st.outPos.toNat < outSize.toNat) :
    wp safe (put outSize byte) (fun _ st' _ => Written srcSize outSize 1 st st') st () := by
  rw [put, wp_bind, wp_get]
  dsimp only
  rw [check_eq ho, pure_bind]
  have hn := toNat_succ ho
  exact ⟨⟨h.coded, h.stream, hn ▸ ho⟩, rfl, hn⟩

-- The bytes that are copied have been written before.
theorem wp_copyMatch (h : st.Sound srcSize outSize) (h0 : 0 < distance.toNat)
    (hd : distance.toNat ≤ st.outPos.toNat) (ho : st.outPos.toNat + length ≤ outSize.toNat) :
    wp safe (copyMatch outSize distance length)
      (fun _ st' _ => Written srcSize outSize length st st') st () := by
  induction length generalizing st with
  | zero           => exact ⟨h, rfl, rfl⟩
  | succ length ih =>
    rw [copyMatch, wp_bind, wp_get]
    dsimp only
    have hs := UInt32.toNat_sub_of_le st.outPos distance (UInt32.le_iff_toNat_le.mpr hd)
    rw [check_eq (by omega), pure_bind]
    refine wp_seq (wp_put h (by omega)) ?_
    rintro _ st₁ _ h₁
    have hp := h₁.outPos_eq
    rw [Nat.add_comm length]
    exact wp_mono (ih h₁.sound (by omega) (by omega)) fun _ _ _ => h₁.trans

theorem len_le : ∀ i < 29, lenExtra.getD i 0 ≤ 5 ∧ 0 < lenBase.getD i 0 ∧
    lenBase.getD i 0 + 2 ^ lenExtra.getD i 0 ≤ 259 := by
  decide

theorem distExtra_le : ∀ i < 30, distExtra.getD i 0 ≤ 13 := by
  decide

-- After a round that writes something, unless it is the last one.
structure Advanced (srcSize outSize : UInt32) (st : State) (r : Bool ⊕ Unit) (st' : State) :
    Prop where
  sound : st'.Sound srcSize outSize
  left_le : st'.s.left ≤ st.s.left
  outPos_lt : r = .inr () → st.outPos.toNat < st'.outPos.toNat

theorem Later.advanced {b : Bool} (h : Later srcSize outSize st st') :
    Advanced srcSize outSize st (.inl b) st' :=
  ⟨h.sound, h.left_le, by intros; contradiction⟩

theorem Later.written {n : Nat} {r : Bool ⊕ Unit} (h : Later srcSize outSize st st₁)
    (hw : Written srcSize outSize n st₁ st') (hn : 0 < n) : Advanced srcSize outSize st r st' := by
  refine ⟨hw.sound, hw.s_eq ▸ h.left_le, fun _ => ?_⟩
  rw [hw.outPos_eq, h.outPos_eq]
  omega

theorem wp_decodeMatch {lenIndex : Nat} (h : st.Sound srcSize outSize) (hi : lenIndex < 29)
    (ho : outSize.toNat ≤ pngOutMax) : wp safe (decodeMatch src srcSize outSize lenIndex)
      (fun r st' _ => Advanced srcSize outSize st r st') st () := by
  obtain ⟨he, hb, hl⟩ := len_le lenIndex hi
  rw [decodeMatch, check_eq hi, pure_bind]
  refine wp_seq (wp_getBits h (Nat.le_trans he (by decide))) ?_
  rintro v st₁ _ ⟨h₁, hv, -⟩
  refine wp_seq (wp_huffDecode h₁.sound) ?_
  rintro distSym st₂ _ h₂
  have h₂ := h₁.trans h₂
  cases distSym
  case none         => exact h₂.advanced
  case some distSym =>
  dsimp only
  rw [wp_ite]
  split
  case isTrue      => exact h₂.advanced
  case isFalse hds =>
  have hds := Nat.not_le.mp hds
  rw [check_eq hds, pure_bind]
  refine wp_seq (wp_getBits h₂.sound (Nat.le_trans (distExtra_le distSym hds) (by decide))) ?_
  rintro extra st₃ _ ⟨h₃, -⟩
  have h₃ := h₂.trans h₃
  rw [wp_bind, wp_get]
  dsimp only
  generalize UInt32.ofNat (distBase.getD distSym 0 + extra) = distance
  rw [wp_ite]
  split
  case isTrue     => exact h₃.advanced
  case isFalse hn =>
    obtain ⟨h0, hd, hs⟩ := by simpa only [not_or, UInt32.not_lt] using hn
    have h0 : 0 < distance.toNat := Nat.pos_of_ne_zero fun h => h0 (UInt32.toNat_inj.mp h)
    have hs := UInt32.le_iff_toNat_le.mp hs
    have := h₃.sound.out_le
    rw [pngOutMax] at ho
    rw [UInt32.toNat_add, UInt32.toNat_ofNat', Nat.mod_eq_of_lt (b := 2 ^ 32) (by omega),
      Nat.mod_eq_of_lt (by omega)] at hs
    refine wp_seq (wp_copyMatch h₃.sound h0 (UInt32.le_iff_toNat_le.mp hd) hs) ?_
    exact fun _ _ _ hw => h₃.written hw (by omega)

theorem wp_codesRound (h : st.Sound srcSize outSize) (ho : outSize.toNat ≤ pngOutMax) :
    wp safe (codesRound src srcSize outSize ())
      (fun r st' _ => Advanced srcSize outSize st r st') st () := by
  refine wp_seq (wp_huffDecode h) ?_
  rintro sym st₁ _ h₁
  cases sym
  case none     => exact h₁.advanced
  case some sym =>
  dsimp only
  rw [wp_ite]
  split
  case isTrue =>
    rw [wp_bind, wp_get]
    dsimp only
    rw [wp_ite]
    split
    case isTrue     => exact h₁.advanced
    case isFalse hp =>
      refine wp_seq (wp_put h₁.sound (UInt32.lt_iff_toNat_lt.mp (UInt32.not_le.mp hp))) ?_
      exact fun _ _ _ hw => h₁.written hw Nat.one_pos
  rw [wp_ite]
  split
  case isTrue => exact h₁.advanced
  rw [wp_ite]
  split
  case isTrue  => exact h₁.advanced
  case isFalse =>
    have hi : sym - 257 < 29 := by omega
    generalize sym - 257 = lenIndex at *
    refine wp_mono (wp_decodeMatch h₁.sound hi ho) ?_
    rintro r st₂ _ ⟨hs, hl, hp⟩
    exact ⟨hs, Nat.le_trans hl h₁.left_le, h₁.outPos_eq ▸ hp⟩

theorem wp_inflateCodes (h : st.Sound srcSize outSize) (ho : outSize.toNat ≤ pngOutMax) :
    wp safe (inflateCodes src srcSize outSize)
      (fun _ st' _ => st'.Sound srcSize outSize ∧ st'.s.left ≤ st.s.left) st () := by
  refine wp_loop_of_lt (fun n _ st' _ => st'.Sound srcSize outSize ∧ st'.s.left ≤ st.s.left ∧
    outSize.toNat - st'.outPos.toNat ≤ n) ?_ (Nat.lt_succ_self _) ⟨h, Nat.le_refl _, Nat.sub_le _ _⟩
  rintro n ⟨⟩ st₁ _ ⟨h₁, hl, hn⟩
  refine wp_mono (wp_codesRound h₁ ho) ?_
  rintro (b | ⟨⟩) st₂ _ ⟨h₂, hl', hp⟩
  · exact ⟨h₂, Nat.le_trans hl' hl⟩
  · have hp := hp rfl
    have := h₂.out_le
    exact ⟨outSize.toNat - st₂.outPos.toNat, by omega, h₂, Nat.le_trans hl' hl, Nat.le_refl _⟩

end Output

section Block

variable {pos : UInt32}

theorem Stream.Sound.restart {s : Stream} (h : s.Sound srcSize)
    (hp : pos.toNat ≤ s.size.toNat) : Stream.Sound srcSize ⟨s.size, pos, 0, 0⟩ ∧
      (s.pos.toNat < pos.toNat → Stream.left ⟨s.size, pos, 0, 0⟩ < s.left) := by
  refine ⟨⟨h.size_add, hp, Nat.zero_le _, Nat.one_pos⟩, fun hlt => ?_⟩
  rw [left_of_lt (UInt32.lt_iff_toNat_lt.mpr (by omega) : s.pos < s.size)]
  by_cases hq : pos < s.size
  case pos =>
    have hq' := UInt32.lt_iff_toNat_lt.mp hq
    rw [left_of_lt (s := ⟨s.size, pos, 0, 0⟩) hq]
    dsimp only
    omega
  case neg =>
    rw [left_of_end (s := ⟨s.size, pos, 0, 0⟩) hq, Nat.size_zero]
    omega

theorem State.Sound.withStream {s : Stream} (h : st.Sound srcSize outSize)
    (hs : s.Sound srcSize) : State.Sound srcSize outSize { st with s } :=
  ⟨h.coded, hs, h.out_le⟩

theorem wp_copyStored {left i : Nat} (h : st.Sound srcSize outSize)
    (hp : 2 + pos.toNat + i + left ≤ srcSize.toNat)
    (ho : st.outPos.toNat + left ≤ outSize.toNat) :
    wp safe (copyStored src srcSize outSize pos left i)
      (fun _ st' _ => Written srcSize outSize left st st') st () := by
  induction left generalizing i st with
  | zero         => exact ⟨h, rfl, rfl⟩
  | succ left ih =>
    rw [copyStored, check_eq (by omega), pure_bind]
    refine wp_seq (wp_put h (by omega)) ?_
    rintro _ st₁ _ h₁
    have hn := h₁.outPos_eq
    rw [Nat.add_comm left]
    exact wp_mono (ih h₁.sound (by omega) (by omega)) fun _ _ _ => h₁.trans

theorem stored16_eq (hp : 2 + pos.toNat + 1 < srcSize.toNat) :
    ∃ v, stored16 src srcSize pos = pure v := by
  have hn : (pos + 1).toNat = pos.toNat + 1 := toNat_succ (b := srcSize) (by omega)
  rw [stored16, check_eq (by omega), pure_bind, check_eq (by omega), pure_bind]
  exact ⟨_, rfl⟩

-- A stored block that is complete takes its header at least.
theorem wp_storedBlock (h : st.Sound srcSize outSize)
    (hs : srcSize.toNat + 65529 < 4294967296) (ho : outSize.toNat ≤ pngOutMax) :
    wp safe (storedBlock src srcSize outSize) (fun r st' _ => st'.Sound srcSize outSize ∧
      (r = true → st'.s.left < st.s.left)) st () := by
  have hz := h.stream.size_add
  have hp := h.stream.pos_le
  have h4 : (st.s.pos + 4).toNat = st.s.pos.toNat + 4 := toNat_add (by simp; omega)
  rw [storedBlock, wp_bind, modifyStream, wp_modify, wp_bind, wp_get]
  dsimp only
  rw [wp_ite]
  split
  case isTrue     => exact ⟨h.withStream (h.stream.restart hp).left, by intros; contradiction⟩
  case isFalse hn =>
  have hn := UInt32.le_iff_toNat_le.mp (UInt32.not_lt.mp hn)
  obtain ⟨len, he⟩ : ∃ v, stored16 src srcSize st.s.pos = pure v := stored16_eq (by omega)
  have h2 : (st.s.pos + 2).toNat = st.s.pos.toNat + 2 := toNat_add (by simp; omega)
  obtain ⟨nlen, he'⟩ : ∃ v, stored16 src srcSize (st.s.pos + 2) = pure v :=
    stored16_eq (by omega)
  rw [he, pure_bind, he', pure_bind, wp_bind, modifyStream, wp_modify, wp_bind, wp_get]
  dsimp only
  rw [wp_ite]
  split
  case isTrue =>
    exact ⟨h.withStream (h.stream.restart (by omega)).left, by intros; contradiction⟩
  case isFalse hn' =>
    obtain ⟨-, hl, hw⟩ := by simpa only [not_or, UInt32.not_lt] using hn'
    have hlen := len.toNat_lt
    have hlp : (st.s.pos + 4 + len.toUInt32).toNat = st.s.pos.toNat + 4 + len.toNat := by
      rw [toNat_add (by simp; omega), h4, UInt16.toNat_toUInt32]
    have hlo : (st.outPos + len.toUInt32).toNat = st.outPos.toNat + len.toNat := by
      have := h.out_le
      rw [pngOutMax] at ho
      rw [toNat_add (by simp; omega), UInt16.toNat_toUInt32]
    have hl := UInt32.le_iff_toNat_le.mp hl
    have hw := UInt32.le_iff_toNat_le.mp hw
    have h₀ := h.withStream (h.stream.restart (show (st.s.pos + 4).toNat ≤ _ by omega)).left
    refine wp_seq (wp_copyStored h₀ (by omega) (hlo ▸ hw)) ?_
    rintro _ st₁ _ h₁
    obtain ⟨hs', hlt⟩ := h.stream.restart hl
    rw [wp_bind, modifyStream, wp_modify, wp_pure]
    dsimp only
    rw [h₁.s_eq]
    exact ⟨h₁.sound.withStream hs', fun _ => hlt (by omega)⟩

theorem wp_huffmanBlock {build : M Bool} (ho : outSize.toNat ≤ pngOutMax)
    (h : wp safe build (fun _ st' _ => Later srcSize outSize st st') st ()) :
    wp safe (huffmanBlock src srcSize outSize build)
      (fun _ st' _ => st'.Sound srcSize outSize ∧ st'.s.left ≤ st.s.left) st () := by
  refine wp_seq h ?_
  rintro built st₁ _ h₁
  rw [wp_ite]
  split
  case isFalse => exact ⟨h₁.sound, h₁.left_le⟩
  case isTrue  =>
    refine wp_mono (wp_inflateCodes h₁.sound ho) ?_
    exact fun _ _ _ h₂ => ⟨h₂.left, Nat.le_trans h₂.right h₁.left_le⟩

section Types

-- Otherwise elaboration would build the fixed tables.
attribute [local irreducible] wp

theorem wp_block {blockType : Nat} (h : st.Sound srcSize outSize)
    (hs : srcSize.toNat + 65529 < 4294967296) (ho : outSize.toNat ≤ pngOutMax) :
    wp safe (block src srcSize outSize blockType) (fun r st' _ => st'.Sound srcSize outSize ∧
      (r = true → st'.s.left ≤ st.s.left ∧ (blockType = 0 → st'.s.left < st.s.left))) st () := by
  rw [block, wp_ite]
  split
  case isTrue     =>
    refine wp_mono (wp_storedBlock h hs ho) ?_
    exact fun _ _ _ h₁ => ⟨h₁.left, fun hr => ⟨Nat.le_of_lt (h₁.right hr), fun _ => h₁.right hr⟩⟩
  case isFalse h0 =>
  rw [wp_ite]
  split
  case isTrue =>
    refine wp_mono (wp_huffmanBlock ho (wp_buildFixedTables h)) ?_
    exact fun _ _ _ h₁ => ⟨h₁.left, fun _ => ⟨h₁.right, fun h => absurd h h0⟩⟩
  rw [wp_ite]
  split
  case isTrue  =>
    refine wp_mono (wp_huffmanBlock ho (wp_buildDynamicTables h)) ?_
    exact fun _ _ _ h₁ => ⟨h₁.left, fun _ => ⟨h₁.right, fun h => absurd h h0⟩⟩
  case isFalse =>
    rw [wp_pure]
    exact ⟨h, by intros; contradiction⟩

end Types

-- Where no bits are left, a block that is not complete is read.
theorem wp_blockRound (h : st.Sound srcSize outSize)
    (hs : srcSize.toNat + 65529 < 4294967296) (ho : outSize.toNat ≤ pngOutMax) :
    wp safe (blockRound src srcSize outSize ()) (fun r st' _ => st'.Sound srcSize outSize ∧
      (r = .inl true → st'.outPos = outSize) ∧ (r = .inr () → st'.s.left < st.s.left)) st () := by
  refine wp_seq (wp_getBits h (by decide)) ?_
  rintro finalBlock st₁ _ ⟨h₁, -, hf⟩
  refine wp_seq (wp_getBits h₁.sound (by decide)) ?_
  rintro blockType st₂ _ ⟨h₂, -, hb⟩
  refine wp_seq (wp_block h₂.sound hs ho) ?_
  rintro r st₃ _ ⟨h₃, hl⟩
  rw [wp_ite]
  split
  case isFalse    =>
    exact ⟨h₃, fun he => absurd (Sum.inl.inj he) Bool.false_ne_true, by intros; contradiction⟩
  case isTrue hr =>
  rw [wp_ite]
  split
  case isTrue =>
    refine ⟨h₃, fun he => ?_, by intros; contradiction⟩
    exact of_decide_eq_true (Sum.inl.inj he)
  case isFalse =>
    refine ⟨h₃, by intros; contradiction, fun _ => ?_⟩
    show st₃.s.left < st.s.left
    obtain ⟨hl, h0⟩ := hl hr
    have hl₂ := h₂.left_le
    rcases hf Nat.one_pos with hlt | ⟨-, hz⟩
    · omega
    · have h0 := h0 ((hb Nat.two_pos).resolve_left (by omega)).left
      omega

theorem wp_zlibInflateToBuffer (h : st.Coded) (hs : srcSize.toNat + 65529 < 4294967296)
    (ho : outSize.toNat ≤ pngOutMax) : wp safe (zlibInflateToBuffer src srcSize outSize)
      (fun r st' _ => st'.Coded ∧ (r = true → st'.outPos = outSize)) st () := by
  rw [zlibInflateToBuffer, wp_bind, wp_modify, wp_ite]
  split
  case isTrue     => exact ⟨h, by intros; contradiction⟩
  case isFalse hn =>
  have hn := UInt32.not_lt.mp hn
  have h6 : 6 ≤ srcSize.toNat := UInt32.le_iff_toNat_le.mp hn
  have hd : (srcSize - 6).toNat = srcSize.toNat - 6 := UInt32.toNat_sub_of_le _ _ hn
  rw [check_eq (by omega), pure_bind, check_eq (by omega), pure_bind, wp_ite]
  split
  case isTrue  => exact ⟨h, by intros; contradiction⟩
  case isFalse =>
  rw [wp_bind, wp_modify]
  have h₀ : State.Sound srcSize outSize { st with s := ⟨srcSize - 6, 0, 0, 0⟩, outPos := 0 } := by
    refine ⟨h, ⟨?_, Nat.zero_le _, Nat.zero_le _, Nat.one_pos⟩, Nat.zero_le _⟩
    show (srcSize - 6).toNat + 6 = _
    omega
  have hl : Stream.left ⟨srcSize - 6, 0, 0, 0⟩ ≤ 8 * srcSize.toNat := by
    rw [Stream.left]
    split
    case isTrue  =>
      show 8 * ((srcSize - 6).toNat - 0) + 0 ≤ _
      omega
    case isFalse => exact Nat.zero_le _
  refine wp_loop_of_lt (fun n _ st' _ => st'.Sound srcSize outSize ∧ st'.s.left ≤ n) ?_
    (Nat.lt_succ_of_lt (Nat.lt_succ_self _)) ⟨h₀, hl⟩
  rintro n ⟨⟩ st₁ _ ⟨h₁, hn⟩
  refine wp_mono (wp_blockRound h₁ hs ho) ?_
  rintro (b | ⟨⟩) st₂ _ ⟨h₂, hb, hl⟩
  · exact ⟨h₂.coded, fun he => hb (congrArg _ he)⟩
  · exact ⟨st₂.s.left, Nat.lt_of_lt_of_le (hl rfl) hn, h₂, Nat.le_refl _⟩

-- The tables may be those that an earlier picture left.
theorem inflates_in_bounds (h : st.Coded) (hs : srcSize.toNat + 65529 < 4294967296)
    (ho : outSize.toNat ≤ pngOutMax) :
    ∃ r st', zlibInflateToBuffer src srcSize outSize st = .ret (r, st') ∧ st'.Coded ∧
      (r = true → st'.outPos = outSize) :=
  exists_ret (wp_zlibInflateToBuffer h hs ho)

-- A file whose only block is a stored one of two bytes.
def storedFile : List UInt8 :=
  [0x78, 0x01, 0x01, 0x02, 0x00, 0xFD, 0xFF, 0x48, 0x69, 0, 0, 0, 0]

def zeroed : State where
  s := ⟨0, 0, 0, 0⟩
  tables _ _ := 0
  out _ := 0
  outPos := 0

theorem inflates_in_bounds_stored :
    zeroed.Coded ∧ ∃ r st',
      zlibInflateToBuffer (storedFile.getD · 0) 13 2 zeroed = .ret (r, st') ∧ st'.Coded ∧
        (r = true → st'.outPos = 2) :=
  have h : zeroed.Coded := fun _ _ => .inr (show (0 : UInt16).toNat / 512 ≤ 15 by decide)
  ⟨h, inflates_in_bounds h (by decide) (by decide)⟩

end Block

end Inflate
