import HackyLens.Lib.Lzw
import HackyLens.Photo.Theorems.GifRows

-- `gif_decode_lzw` inverts what an encoder does.

namespace Gif

open Core Fat32 Prog

-- What the tables make of a code.
inductive Spells (k : Nat) (pre : Nat → Nat) (suf : Nat → UInt8) : Nat → List UInt8 → Prop
  | literal {code} (h : code < 2 ^ k) : Spells k pre suf code [.ofNat code]
  | entry {code string} (hl : 2 ^ k ≤ code) (hp : pre code < code)
    (h : Spells k pre suf (pre code) string) : Spells k pre suf code (string ++ [suf code])

variable {v : Volume} {s s' : Globals} {rows : List Call} {k code nextCode stackSize : Nat}
variable {pre pre' : Nat → Nat} {suf suf' : Nat → UInt8} {string rest : List UInt8}

theorem Spells.congr (h : Spells k pre suf code string)
    (hc : ∀ c ≤ code, pre' c = pre c ∧ suf' c = suf c) : Spells k pre' suf' code string := by
  induction h with
  | literal h => exact .literal h
  | entry hl hp _ ih =>
    obtain ⟨hpc, hsc⟩ := hc _ (Nat.le_refl _)
    rw [← hsc]
    refine .entry hl (hpc ▸ hp) ?_
    rw [hpc]
    exact ih fun c hc' => hc c (hc'.trans hp.le)

-- A string on the stack, with a symbol below it that was pushed first.
theorem pushed_append {tail : List UInt8} {symbol : UInt8} {stack : Nat → UInt8} {n : Nat}
    (hn : stack n = symbol)
    (ht : ∀ i < tail.length, tail.reverse[i]? = some (stack (n + 1 + i))) :
    ∀ i < (tail ++ [symbol]).length,
      (tail ++ [symbol]).reverse[i]? = some (stack (n + i)) := by
  intro i hi
  rw [List.reverse_append, List.reverse_singleton, List.singleton_append]
  cases i
  case zero   => exact congrArg some hn.symm
  case succ i =>
    rw [List.length_append, List.length_singleton] at hi
    rw [List.getElem?_cons_succ, ht i (Nat.lt_of_succ_lt_succ hi), Nat.add_assoc, Nat.add_comm 1]

-- The walk pushes the string from its end on, and ends at its first symbol.
theorem wp_card_walk {Q : Option (Nat × Nat) → Globals → List Call → Prop} {fuel : Nat}
    (h : Spells k s.lzwPrefix s.lzwSuffix code string) (hc : code < nextCode)
    (hz : stackSize + string.length ≤ lzwTableSize)
    (hq : ∀ last tail stack, string = .ofNat last :: tail →
      (∀ i < stackSize, stack i = s.lzwStack i) →
      (∀ i < tail.length, tail.reverse[i]? = some (stack (stackSize + i))) →
      Q (some (last, stackSize + tail.length)) { s with lzwStack := stack } rows) :
    wp (card v) (loop (walkRound (2 ^ k) nextCode) fuel (code, stackSize)) Q s rows := by
  generalize hpre : s.lzwPrefix = pre at h
  generalize hsuf : s.lzwSuffix = suf at h
  induction h generalizing s stackSize fuel with
  | literal h =>
    cases fuel
    case zero => exact trivial
    case succ fuel =>
    rw [loop, wp_bind, walkRound, wp_ite, if_neg (Nat.not_le.mpr h)]
    exact hq _ [] _ rfl (fun _ _ => rfl) (by rintro _ ⟨⟩)
  | @entry code string hl hp h ih =>
    cases fuel
    case zero => exact trivial
    case succ fuel =>
    rw [List.length_append, List.length_singleton] at hz
    rw [loop, wp_bind, walkRound, wp_ite, if_pos hl, wp_ite, if_neg (by omega), wp_bind]
    refine wp_card_check ?_
    rw [wp_bind, wp_get]
    beta_reduce
    rw [wp_bind, push, wp_bind]
    refine wp_card_check ?_
    rw [hpre, hsuf]
    refine ih (hp.trans hc) (by omega) ?_ hpre hsuf
    intro last tail stack he hb ht
    have hq := hq last (tail ++ [suf code]) stack (by rw [he, List.cons_append]) ?_ ?_
    · rw [List.length_append, List.length_singleton, Nat.add_comm tail.length,
        ← Nat.add_assoc] at hq
      exact hq
    · intro i hi
      rw [hb i (by omega)]
      exact Function.update_of_ne (Nat.ne_of_lt hi) ..
    · refine pushed_append ?_ ht
      rw [hb stackSize (Nat.lt_succ_self _)]
      exact Function.update_self ..

-- The latest entry, which the decoder's tables miss.
structure Missing (k : Nat) (entries : List (List UInt8)) (rest : List UInt8) (l : Lzw)
    (pre : Nat → Nat) (suf : Nat → UInt8) (previous : Nat) (string : List UInt8) : Prop where
  next : l.nextCode + 1 = LZW.nextCode k entries
  lt : previous < l.nextCode
  spells : Spells k pre suf previous string
  head : string.head? = some l.first
  last : entries.getLast? = some (string ++ rest.take 1)

-- How the decoder's variables and tables follow an encoder that has these entries, in front of the
-- symbols `rest`. They miss the latest entry, until there is no more room.
structure Follows (k : Nat) (entries : List (List UInt8)) (rest : List UInt8) (l : Lzw)
    (pre : Nat → Nat) (suf : Nat → UInt8) : Prop where
  table : LZW.Table k entries
  width : l.codeWidth = LZW.width k entries
  spelled : ∀ i string, entries[i]? = some string → 2 ^ k + 2 + i < l.nextCode →
    Spells k pre suf (2 ^ k + 2 + i) string
  latest : match l.previous with
    | none => entries = [] ∧ l.nextCode = 2 ^ k + 2
    | some previous =>
      (l.nextCode = lzwTableSize ∧ LZW.nextCode k entries = lzwTableSize) ∨
      ∃ string, Missing k entries rest l pre suf previous string

variable {entries : List (List UInt8)} {l : Lzw} {first : UInt8} {previous : Nat}

theorem width_first (hk : 2 ≤ k) {n : Nat} (hn : n ≤ 2) (hp : 0 < n) :
    (2 ^ k + n).size = k + 1 := by
  have h2 : 2 ^ 2 ≤ 2 ^ k := Nat.pow_le_pow_right (by decide) hk
  refine Nat.le_antisymm (Nat.size_le.mpr ?_) (Nat.lt_size.mpr (Nat.le_add_right ..))
  rw [Nat.pow_succ]
  omega

theorem Follows.start (hk : 2 ≤ k ∧ k ≤ 8) {bits : Bits} {count used : Nat} :
    Follows k [] rest ⟨bits, 2 ^ k + 2, k + 1, none, first, count, used⟩ pre suf := by
  refine ⟨.nil hk.right, (width_first hk.left (by decide) (by decide)).symm, ?_, rfl, rfl⟩
  rintro i string ⟨⟩

theorem Follows.denoted (h : Follows k entries rest l pre suf)
    (hd : LZW.Denotes k entries code string) (hc : code < l.nextCode) :
    Spells k pre suf code string := by
  cases hd with
  | literal hl => exact .literal hl
  | entry hi   => exact h.spelled _ _ hi hc

theorem Follows.missing (h : Follows k entries rest l pre suf) (hp : l.previous = some previous)
    (hn : l.nextCode < lzwTableSize) :
    ∃ string, Missing k entries rest l pre suf previous string := by
  have hl := h.latest
  rw [hp] at hl
  rcases hl with ⟨hf, _⟩ | hm
  · exact absurd hf (Nat.ne_of_lt hn)
  · exact hm

theorem Missing.entry (h : Missing k entries rest l pre suf previous string) :
    ∃ i, l.nextCode = 2 ^ k + 2 + i ∧ entries.length = i + 1 ∧
      entries[i]? = some (string ++ rest.take 1) := by
  have hl := h.last
  rw [List.getLast?_eq_getElem?] at hl
  have hi := (List.getElem?_eq_some_iff.mp hl).fst
  have hn := h.next
  rw [LZW.nextCode, LZW.clearCode] at hn
  exact ⟨entries.length - 1, by omega, by omega, hl⟩

theorem take_one {x : UInt8} (h : string.head? = some x) : (string ++ rest).take 1 = [x] := by
  obtain ⟨tail, rfl⟩ := List.head?_eq_some_iff.mp h
  rfl

-- A code that stands for a string is one of the tables, or it is the one that they miss.
theorem Follows.denoted_or (h : Follows k entries (string ++ rest) l pre suf)
    (hd : LZW.Denotes k entries code string) :
    code < l.nextCode ∧ Spells k pre suf code string ∨
      code = l.nextCode ∧ ∃ previous tail, l.previous = some previous ∧
        Missing k entries (string ++ rest) l pre suf previous tail ∧
        string = tail ++ [l.first] := by
  have hc := hd.lt
  have hl := h.latest
  split at hl
  case h_1 =>
    obtain ⟨rfl, hn⟩ := hl
    have hc : code < l.nextCode := hn ▸ hc
    exact .inl ⟨hc, h.denoted hd hc⟩
  case h_2 previous hp =>
    by_cases hlt : code < l.nextCode
    case pos => exact .inl ⟨hlt, h.denoted hd hlt⟩
    case neg =>
    rcases hl with ⟨hn, hf⟩ | ⟨tail, hm⟩
    · rw [hf, ← hn] at hc
      exact absurd hc hlt
    obtain ⟨i, hi, _, hg⟩ := hm.entry
    have he : code = l.nextCode := by
      have hn := hm.next
      omega
    refine .inr ⟨he, previous, tail, hp, hm, ?_⟩
    cases hd with
    | literal hd =>
      rw [LZW.clearCode] at hd
      omega
    | @entry i' _ hs =>
      rw [LZW.clearCode] at he
      obtain rfl : i' = i := by omega
      have hs := Option.some_inj.mp (hs.symm.trans hg)
      have hh : string.head? = some l.first := by
        rw [hs, List.head?_append_of_ne_nil]
        · exact hm.head
        · rintro rfl
          cases hm.head
      rw [take_one hh] at hs
      exact hs

theorem width_nil (hk : 2 ≤ k) : LZW.width k [] = k + 1 :=
  width_first (n := 1) hk (by decide) (by decide)

theorem width_singleton (hk : 2 ≤ k) : LZW.width k [string] = k + 1 :=
  width_first (n := 2) hk (by decide) (by decide)

-- What the decoder has after a code that stands for `string`. There is nothing to add to the tables
-- after a clear code, and when they are full.
theorem Follows.skip (hk : 2 ≤ k ∧ k ≤ 8) (h : Follows k entries (string ++ rest) l pre suf)
    (hd : LZW.Denotes k entries code string) (hf : string.head? = some first)
    (hn : l.previous = none ∨ ¬l.nextCode < lzwTableSize) :
    Follows k (LZW.extend k entries string rest) rest { l with previous := some code, first } pre
      suf := by
  have hl := h.latest
  have ht : LZW.Table k (LZW.extend k entries string rest) := h.table.extend hd
  split at hl
  case h_1 hp =>
    obtain ⟨rfl, hz⟩ := hl
    have h8 : 2 ^ k ≤ 2 ^ 8 := Nat.pow_le_pow_right (by decide) hk.right
    have hx : LZW.extend k [] string rest = [string ++ rest.take 1] :=
      if_pos (show 2 ^ k + 2 + 0 < 4096 by omega)
    have hc : code < l.nextCode := hz ▸ hd.lt
    rw [hx] at ht ⊢
    refine ⟨ht, ?_, ?_, .inr ⟨string, ?_, hc, h.denoted hd hc, hf, rfl⟩⟩
    · rw [width_singleton hk.left, ← width_nil hk.left]
      exact h.width
    · intro i _ _ hi
      dsimp only at hi
      omega
    · exact congrArg (· + 1) hz
  case h_2 previous hp =>
    have hz : l.nextCode = lzwTableSize ∧ LZW.nextCode k entries = lzwTableSize := by
      rcases hl with hz | ⟨_, hm⟩
      · exact hz
      · have hm := hm.next
        have hf := h.table.full
        rw [hp] at hn
        have hn := hn.resolve_left nofun
        rw [LZW.tableSize] at hf
        rw [lzwTableSize] at hn ⊢
        omega
    have hx : LZW.extend k entries string rest = entries :=
      if_neg (hz.right ▸ Nat.lt_irrefl _)
    rw [hx]
    exact ⟨h.table, h.width, h.spelled, .inl hz⟩

theorem Spells.update (h : Spells k pre suf code string) (hc : code < nextCode) :
    Spells k (Function.update pre nextCode previous) (Function.update suf nextCode first) code
      string := by
  refine h.congr fun c hl => ?_
  have hn := Nat.ne_of_lt (hl.trans_lt hc)
  exact ⟨Function.update_of_ne hn .., Function.update_of_ne hn ..⟩

-- The entry that is added is the one that was missing.
theorem Missing.added {tail : List UInt8}
    (hm : Missing k entries (string ++ rest) l pre suf previous tail)
    (hf : string.head? = some first) :
    entries.getLast? = some (tail ++ [first]) ∧
      Spells k (Function.update pre l.nextCode previous) (Function.update suf l.nextCode first)
        l.nextCode (tail ++ [first]) := by
  obtain ⟨i, hi, _, _⟩ := hm.entry
  have hl := hm.last
  rw [take_one hf] at hl
  refine ⟨hl, ?_⟩
  have hs : Function.update suf l.nextCode first l.nextCode = first := Function.update_self ..
  have hp : Function.update pre l.nextCode previous l.nextCode = previous :=
    Function.update_self ..
  have he : Spells k (Function.update pre l.nextCode previous)
      (Function.update suf l.nextCode first) l.nextCode
      (tail ++ [Function.update suf l.nextCode first l.nextCode]) :=
    .entry (show 2 ^ k ≤ l.nextCode by omega) (hp.trans_lt hm.lt) (hp.symm ▸ hm.spells.update hm.lt)
  rwa [hs] at he

theorem size_succ (n : Nat) : (n + 1).size = if n + 1 = 2 ^ n.size then n.size + 1 else n.size := by
  have hn := Nat.lt_size_self n
  split
  case isTrue he =>
    rw [he, Nat.size_pow]
  case isFalse he =>
    refine Nat.le_antisymm (Nat.size_le.mpr (by omega)) ?_
    exact Nat.size_le_size (Nat.le_succ n)

theorem Follows.add (h : Follows k entries (string ++ rest) l pre suf)
    (hd : LZW.Denotes k entries code string) (hf : string.head? = some first)
    (hp : l.previous = some previous) (hn : l.nextCode < lzwTableSize) :
    Follows k (LZW.extend k entries string rest) rest
      { l with
        nextCode  := l.nextCode + 1
        codeWidth := if l.nextCode + 1 = 2 ^ l.codeWidth ∧ l.codeWidth < 12 then l.codeWidth + 1
          else l.codeWidth
        previous  := some code
        first }
      (Function.update pre l.nextCode previous) (Function.update suf l.nextCode first) := by
  obtain ⟨tail, hm⟩ := h.missing hp hn
  obtain ⟨hl, hs⟩ := hm.added hf
  obtain ⟨i, hi, hc, _⟩ := hm.entry
  rw [List.getLast?_eq_getElem?, hc, Nat.add_sub_cancel] at hl
  have hx : LZW.nextCode k entries = l.nextCode + 1 := hm.next.symm
  have hw : l.codeWidth = l.nextCode.size := by
    rw [h.width, LZW.width, hx, Nat.add_sub_cancel]
  have hsp {j str} (hj : entries[j]? = some str) (hlt : 2 ^ k + 2 + j < l.nextCode + 1) :
      Spells k (Function.update pre l.nextCode previous) (Function.update suf l.nextCode first)
        (2 ^ k + 2 + j) str := by
    by_cases he : j = i
    case pos =>
      subst he
      cases hl.symm.trans hj
      exact hi ▸ hs
    case neg => exact (h.spelled j str hj (by omega)).update (by omega)
  have hd' : code < l.nextCode + 1 → Spells k (Function.update pre l.nextCode previous)
      (Function.update suf l.nextCode first) code string := by
    intro hlt
    cases hd with
    | literal hd => exact .literal hd
    | entry hj   => exact hsp hj hlt
  have ht : LZW.Table k (LZW.extend k entries string rest) := h.table.extend hd
  by_cases hfull : LZW.nextCode k entries < LZW.tableSize
  case pos =>
    rw [LZW.extend, if_pos hfull] at ht ⊢
    have hx' : LZW.nextCode k (entries ++ [string ++ rest.take 1]) = l.nextCode + 1 + 1 := by
      rw [← hx, LZW.nextCode, LZW.nextCode, List.length_append]
      rfl
    refine ⟨ht, ?_, fun j str hj hlt => hsp ?_ hlt,
      .inr ⟨string, hx'.symm, hx ▸ hd.lt, hd' (hx ▸ hd.lt), hf, List.getLast?_concat⟩⟩
    · rw [LZW.width, hx', Nat.add_sub_cancel, size_succ, hw]
      rw [hx, LZW.tableSize] at hfull
      refine if_congr ⟨And.left, fun he => ⟨he, ?_⟩⟩ rfl rfl
      refine (Nat.pow_lt_pow_iff_right (show 1 < 2 by decide)).mp ?_
      rw [← he]
      exact hfull
    · dsimp only at hlt
      rwa [List.getElem?_append_left (by omega)] at hj
  case neg =>
    rw [LZW.extend, if_neg hfull] at ht ⊢
    have hz : l.nextCode + 1 = lzwTableSize := by
      rw [hx, LZW.tableSize] at hfull
      rw [lzwTableSize] at hn ⊢
      omega
    refine ⟨ht, ?_, fun j str hj hlt => hsp hj hlt, .inl ⟨hz, hx.trans hz⟩⟩
    dsimp only
    have hn : l.nextCode = 4095 := Nat.succ_injective hz
    rw [if_neg, h.width]
    rintro ⟨_, hlt⟩
    rw [hw, hn] at hlt
    exact absurd hlt (by decide)

theorem Follows.congr {l' : Lzw} (h : Follows k entries rest l pre suf)
    (hn : l'.nextCode = l.nextCode) (hw : l'.codeWidth = l.codeWidth)
    (hp : l'.previous = l.previous) (hf : l'.first = l.first) :
    Follows k entries rest l' pre suf := by
  obtain ⟨_, _, _, _, _, _, _⟩ := l
  obtain ⟨_, _, _, _, _, _, _⟩ := l'
  dsimp only at hn hw hp hf
  subst hn hw hp hf
  refine ⟨h.table, h.width, h.spelled, ?_⟩
  have hl := h.latest
  dsimp only at hl ⊢
  split at hl
  case h_1 => exact hl
  case h_2 =>
    refine hl.imp_right fun ⟨string, hm⟩ => ⟨string, ?_⟩
    exact ⟨hm.next, hm.lt, hm.spells, hm.head, hm.last⟩

variable {count used : Nat}

theorem wp_card_addEntry {Q : Lzw → Globals → List Call → Prop} (hk : 2 ≤ k ∧ k ≤ 8)
    (h : Follows k entries (string ++ rest) l s.lzwPrefix s.lzwSuffix)
    (hd : LZW.Denotes k entries code string) (hf : string.head? = some first)
    (hq : ∀ l' s', s' = { s with lzwPrefix := s'.lzwPrefix, lzwSuffix := s'.lzwSuffix } →
      l'.bits = l.bits → l'.pixelCount = count → l'.rowUsed = used →
      Follows k (LZW.extend k entries string rest) rest { l' with previous := some code }
        s'.lzwPrefix s'.lzwSuffix →
      Q l' s' rows) :
    wp (card v) (addEntry first { l with pixelCount := count, rowUsed := used, first }) Q s
      rows := by
  rw [addEntry]
  split
  case h_2 hp =>
    exact hq _ _ rfl rfl rfl rfl ((h.skip hk hd hf (.inl hp)).congr rfl rfl rfl rfl)
  case h_1 previous hp =>
  rw [wp_ite]
  split
  case isFalse hn =>
    exact hq _ _ rfl rfl rfl rfl ((h.skip hk hd hf (.inr hn)).congr rfl rfl rfl rfl)
  case isTrue hn =>
  rw [wp_bind]
  refine wp_card_check ?_
  rw [wp_bind, wp_modify]
  exact hq _ _ rfl rfl rfl rfl ((h.add hd hf hp hn).congr rfl rfl rfl rfl)

section Pixels

variable {frame : Frame} {palette : Nat → UInt16} {paletteSize last : Nat} {interlaced : Bool}
variable {pixels : List UInt8} {rows₀ : List Call}

-- What has been decoded, and what is still to be.
structure Decoded (frame : Frame) (palette : Nat → UInt16) (paletteSize : Nat) (interlaced : Bool)
    (pixels : List UInt8) (rows₀ : List Call) (k : Nat) (entries : List (List UInt8))
    (rest : List UInt8) (l : Lzw) (s : Globals) (rows : List Call) : Prop where
  follows : Follows k entries rest l s.lzwPrefix s.lzwSuffix
  drawn : Drawn frame palette paletteSize interlaced pixels rows₀ l.pixelCount l.rowUsed s rows
  range : l.pixelCount ≤ pixels.length
  behind : pixels.drop l.pixelCount = rest

variable (hw : 0 < frame.frameW) (hl : pixels.length = frame.frameW * frame.frameH)
variable (hi : ∀ index ∈ pixels, index.toNat < paletteSize) (hk : 2 ≤ k ∧ k ≤ 8)

-- The tables have room for the longest string.
theorem stack_fits (ht : LZW.Table k entries) (hd : LZW.Denotes k entries code string) :
    string.length + 2 ≤ lzwTableSize := by
  have hs := hd.length_le ht
  have hf := ht.full
  have hp := Nat.two_pow_pos k
  rw [LZW.nextCode, LZW.clearCode, LZW.tableSize] at hf
  rw [lzwTableSize]
  omega

include hw hl hi hk in
theorem wp_card_emitCode {Q : FileResult ⊕ Lzw → Globals → List Call → Prop} {tail : List UInt8}
    (h : Decoded frame palette paletteSize interlaced pixels rows₀ k entries (string ++ rest) l s
      rows)
    (hd : LZW.Denotes k entries code string) (hs : string = .ofNat last :: tail)
    (ht : ∀ i < tail.length, tail.reverse[i]? = some (s.lzwStack i))
    (hq : ∀ l' s' rows', s'.gif = s.gif → s'.sectorData = s.sectorData → l'.bits = l.bits →
      Decoded frame palette paletteSize interlaced pixels rows₀ k
        (LZW.extend k entries string rest) rest l' s' rows' → Q (.inr l') s' rows') :
    wp (card v) (emitCode frame palette paletteSize interlaced code last tail.length l) Q s
      rows := by
  have hz := stack_fits h.follows.table hd
  have hc : string.length = tail.length + 1 := hs ▸ List.length_cons
  have hx := h.behind
  rw [emitCode]
  dsimp only
  rw [wp_ite, if_neg (by omega), wp_bind, push, wp_bind]
  refine wp_card_check ?_
  rw [wp_modify, wp_bind, ← hc]
  have hst : Stacked string { s with
      lzwStack := Function.update s.lzwStack tail.length (.ofNat last) } := by
    intro i hi
    rw [hs, List.reverse_cons]
    dsimp only
    by_cases he : i = tail.length
    case pos =>
      have hu : Function.update s.lzwStack tail.length (.ofNat last) i = .ofNat last := by
        rw [he, Function.update_self]
      rw [hu, he, List.getElem?_append_right (by rw [List.length_reverse]), List.length_reverse,
        Nat.sub_self]
      rfl
    case neg =>
      have hlt : i < tail.length := by omega
      rw [List.getElem?_append_left (by rwa [List.length_reverse]), ht i hlt]
      exact congrArg some (Function.update_of_ne he ..).symm
  have hm : ∀ index ∈ string, index.toNat < paletteSize := by
    intro index hm
    refine hi index (List.mem_of_mem_drop (i := l.pixelCount) ?_)
    rw [hx]
    exact List.mem_append_left rest hm
  refine wp_card_emitStack hw hl hm hx hst
    ⟨h.drawn.remainder, h.drawn.buffered, h.drawn.delivered⟩ fun used₁ s₁ rows₁ hr₁ h₁ => ?_
  have hf₁ : Follows k entries (string ++ rest) l s₁.lzwPrefix s₁.lzwSuffix := by
    rw [hr₁]
    exact h.follows
  dsimp only
  rw [wp_ite, if_neg (by decide), wp_bind]
  refine wp_card_addEntry hk hf₁ hd (by rw [hs]; rfl) fun l₂ s₂ hr₂ hb₂ hp₂ hu₂ hf₂ => ?_
  refine hq _ _ _ ?_ ?_ hb₂ ⟨hf₂, ?_, ?_, ?_⟩
  · rw [hr₂, hr₁]
  · rw [hr₂, hr₁]
  · dsimp only
    rw [hp₂, hu₂, hr₂]
    exact ⟨h₁.remainder, h₁.buffered, h₁.delivered⟩
  · have hlen := congrArg List.length hx
    have hr := h.range
    rw [List.length_drop, List.length_append] at hlen
    dsimp only
    omega
  · dsimp only
    rw [hp₂, ← List.drop_drop, hx, List.drop_left]

include hw hl hi hk in
theorem wp_card_decodeCode {Q : FileResult ⊕ Lzw → Globals → List Call → Prop}
    (h : Decoded frame palette paletteSize interlaced pixels rows₀ k entries (string ++ rest) l s
      rows)
    (hd : LZW.Denotes k entries code string)
    (hq : ∀ l' s' rows', s'.gif = s.gif → s'.sectorData = s.sectorData → l'.bits = l.bits →
      Decoded frame palette paletteSize interlaced pixels rows₀ k
        (LZW.extend k entries string rest) rest l' s' rows' → Q (.inr l') s' rows') :
    wp (card v) (decodeCode frame palette paletteSize interlaced (2 ^ k) code l) Q s rows := by
  have hz := stack_fits h.follows.table hd
  rw [decodeCode]
  rcases h.follows.denoted_or hd with ⟨hlt, hs⟩ | ⟨he, previous, tail, hp, hm, ht⟩
  · rw [wp_ite, if_neg (by omega), wp_bind, walkStart, wp_ite, if_neg (Nat.ne_of_lt hlt)]
    rw [wp_pure, wp_bind]
    refine wp_card_walk hs hlt (by omega) fun last tail stack ht hb hst => ?_
    dsimp only
    rw [Nat.zero_add]
    refine wp_card_emitCode hw hl hi hk ⟨h.follows, ?_, h.range, h.behind⟩ hd ht ?_ hq
    · exact ⟨h.drawn.remainder, h.drawn.buffered, h.drawn.delivered⟩
    · intro i hi
      rw [hst i hi, Nat.zero_add]
  · rw [wp_ite, if_neg (by rw [hp]; simp [he]), wp_bind, walkStart, wp_ite, if_pos he, wp_bind,
      push, wp_bind]
    refine wp_card_check ?_
    rw [wp_modify, wp_pure, wp_bind, hp, Option.getD_some]
    rw [ht, List.length_append, List.length_singleton] at hz
    refine wp_card_walk hm.spells hm.lt (by omega) fun last tail' stack ht' hb hst => ?_
    dsimp only
    have hs : string = .ofNat last :: (tail' ++ [l.first]) := by
      rw [ht, ht']
      rfl
    have hc : 1 + tail'.length = (tail' ++ [l.first]).length := by
      rw [List.length_append, Nat.add_comm]
      rfl
    rw [hc]
    refine wp_card_emitCode hw hl hi hk ⟨h.follows, ?_, h.range, h.behind⟩ hd hs ?_ hq
    · exact ⟨h.drawn.remainder, h.drawn.buffered, h.drawn.delivered⟩
    · intro i hi
      have hf : stack 0 = l.first := by
        rw [hb 0 Nat.one_pos]
        exact Function.update_self 0 l.first s.lzwStack
      have hst := pushed_append hf (by rwa [Nat.zero_add]) i hi
      rwa [Nat.zero_add] at hst

-- What holds in the main loop of `gif_decode_lzw`, in front of codes that an encoder has emitted.
structure Along (v : Volume) (frame : Frame) (palette : Nat → UInt16) (paletteSize : Nat)
    (interlaced : Bool) (pixels : List UInt8) (rows₀ : List Call) (k : Nat) (pad : List Bool)
    (tail : List UInt8) (entries : List (List UInt8)) (rest : List UInt8) (codes : List (Nat × Nat))
    (l : Lzw) (s : Globals) (rows : List Call) : Prop where
  encodes : LZW.Encodes k entries rest codes
  feeds : Feeds v tail l.bits (LZW.bits codes ++ pad) s
  decoded : Decoded frame palette paletteSize interlaced pixels rows₀ k entries rest l s rows

theorem Decoded.streamed {entries : List (List UInt8)}
    (h : Decoded frame palette paletteSize interlaced pixels rows₀ k entries rest l s rows)
    (bits : Bits) (hm : Streamed s s') :
    Decoded frame palette paletteSize interlaced pixels rows₀ k entries rest { l with bits } s'
      rows := by
  refine ⟨?_, ?_, h.range, h.behind⟩
  · rw [hm]
    exact h.follows.congr rfl rfl rfl rfl
  · rw [hm]
    exact ⟨h.drawn.remainder, h.drawn.buffered, h.drawn.delivered⟩

include hw hl hi hk in
theorem wp_card_lzwRound {pad : List Bool} {codes : List (Nat × Nat)} {tail : List UInt8}
    (h : Along v frame palette paletteSize interlaced pixels rows₀ k pad tail entries rest codes l s
      rows) :
    wp (card v) (lzwRound frame palette paletteSize interlaced v.toGeometry k l)
      (fun r s' rows' => r.elim
        (fun r => ∃ l', r = .inr (true, l') ∧
          Drawn frame palette paletteSize interlaced pixels rows₀ l'.pixelCount l'.rowUsed s'
            rows' ∧
          l'.pixelCount = pixels.length ∧ ∃ bytes, Source v tail l'.bits.blocks bytes s')
        fun l' => ∃ entries rest codes, Along v frame palette paletteSize interlaced pixels rows₀ k
          pad tail entries rest codes l' s' rows') s rows := by
  obtain ⟨he, hf, hd⟩ := h
  have hwd : l.codeWidth = LZW.width k entries := hd.follows.width
  have hlt {n : Nat} (hn : n < LZW.nextCode k entries) : n < 2 ^ l.codeWidth := by
    have hs : LZW.nextCode k entries - 1 < 2 ^ LZW.width k entries := LZW.lt_width
    rw [hwd]
    omega
  have hn : 2 ^ k + 2 ≤ LZW.nextCode k entries := LZW.two_pow_le_nextCode
  rw [lzwRound]
  dsimp only
  rw [wp_bind]
  cases he with
  | finish =>
    rw [LZW.bits_cons, List.append_assoc, ← hwd] at hf
    have hc : LZW.endCode k < 2 ^ l.codeWidth := hlt (show 2 ^ k + 1 < _ by omega)
    refine wp_card_readCode hc hf fun b s' hm hf => ?_
    have hd' := hd.streamed b hm
    dsimp only
    have hne : LZW.endCode k ≠ 2 ^ k := Nat.succ_ne_self _
    rw [wp_ite, if_neg hne, wp_ite, if_pos (show LZW.endCode k = 2 ^ k + 1 from rfl)]
    obtain ⟨bytes, hs, _⟩ := hf
    exact ⟨_, rfl, hd'.drawn, hd'.range.antisymm (List.drop_eq_nil_iff.mp hd'.behind), bytes, hs⟩
  | @clear _ _ codes he =>
    rw [LZW.bits_cons, List.append_assoc, ← hwd] at hf
    have hc : LZW.clearCode k < 2 ^ l.codeWidth := hlt (show 2 ^ k < _ by omega)
    refine wp_card_readCode hc hf fun b s' hm hf => ?_
    have hd' := hd.streamed b hm
    dsimp only
    rw [wp_ite, if_pos (show LZW.clearCode k = 2 ^ k from rfl)]
    exact ⟨[], rest, codes, he, hf, Follows.start hk, hd'.drawn, hd'.range, hd'.behind⟩
  | @code _ code string rest codes hcode he =>
    rw [LZW.bits_cons, List.append_assoc, ← hwd] at hf
    refine wp_card_readCode (hlt hcode.lt) hf fun b s' hm hf => ?_
    have hd' := hd.streamed b hm
    have hne : code ≠ 2 ^ k ∧ code ≠ 2 ^ k + 1 := by
      cases hcode with
      | literal hc =>
        rw [LZW.clearCode] at hc
        omega
      | entry _    =>
        rw [LZW.clearCode]
        omega
    dsimp only
    rw [wp_ite, if_neg hne.left, wp_ite, if_neg hne.right, wp_bind]
    refine wp_card_decodeCode hw hl hi hk hd' hcode fun l' s'' rows' hg hs hb hd'' => ?_
    exact ⟨_, _, codes, he, hb ▸ hf.congr hg hs, hd''⟩

-- What the file holds of a frame's pixels.
def lzwData (k : Nat) (blocks : List (List UInt8)) : List UInt8 :=
  .ofNat k :: framed blocks

-- The order of a frame's rows, with the pixels of each of them.
def delivered (frame : Frame) (palette : Nat → UInt16) (paletteSize : Nat) (interlaced : Bool)
    (pixels : List UInt8) : List Call :=
  (rowOrder interlaced frame.frameH).mapIdx fun j row =>
    .renderIndexedRow frame row ((pixels.drop (frame.frameW * j)).take frame.frameW) palette
      paletteSize

theorem delivered_eq : delivered frame palette paletteSize interlaced pixels =
    (List.range frame.frameH).map (rowCall frame palette paletteSize interlaced pixels) := by
  refine List.ext_getElem? fun j => ?_
  rw [delivered, List.getElem?_mapIdx, List.getElem?_map]
  by_cases hj : j < frame.frameH
  case pos =>
    rw [rowOrder_getElem? hj, List.getElem?_range hj]
    rfl
  case neg =>
    have hj := Nat.le_of_not_lt hj
    rw [List.getElem?_eq_none, List.getElem?_eq_none (by rwa [List.length_range])]
    · rfl
    · rwa [(rowOrder_perm interlaced frame.frameH).length_eq, List.length_range]

include hw hl hi hk in
theorem wp_card_decodeLzw_ahead {Q : FileResult → Globals → List Call → Prop} {pad : List Bool}
    {codes : List (Nat × Nat)} {blocks : List (List UInt8)} {tail : List UInt8}
    (hm : frame.frameW ≤ Files.photoRowMaxBytes) (he : LZW.Encodes k [] pixels codes)
    (hb : Framable blocks) (hs : BitStream.ofBytes blocks.flatten = LZW.bits codes ++ pad)
    (ha : Ahead v (lzwData k blocks ++ tail) s)
    (hq : ∀ s', Ahead v tail s' →
      Q .ok s' (rows ++ delivered frame palette paletteSize interlaced pixels)) :
    wp (card v) (decodeLzw frame palette paletteSize interlaced v.toGeometry) Q s rows := by
  have hn : (UInt8.ofNat k).toNat = k :=
    UInt8.toNat_ofNat_of_lt' (show k < 2 ^ 8 by omega)
  rw [decodeLzw, wp_bind, wp_modify, wp_bind]
  have ha₀ : Ahead v ([.ofNat k] ++ (framed blocks ++ tail)) { s with emitted := 0 } :=
    ha.congr rfl rfl
  refine wp_card_read_ahead ha₀ fun s₁ hm₁ ha₁ => ?_
  dsimp only
  rw [wp_ite, if_neg (by decide), List.getD_cons_zero, hn, wp_ite, if_neg (by omega), wp_bind]
  refine wp_card_check ?_
  rw [wp_bind, wp_modify, wp_bind, wp_get]
  beta_reduce
  rw [wp_bind]
  refine wp_mono (wp_loop
    (fun l s' rows' => ∃ entries rest codes, Along v frame palette paletteSize interlaced pixels
      rows k pad tail entries rest codes l s' rows')
    (fun _ _ _ _ => trivial)
    (Q := fun r s' rows' => ∃ l', r = .inr (true, l') ∧
      Drawn frame palette paletteSize interlaced pixels rows l'.pixelCount l'.rowUsed s' rows' ∧
      l'.pixelCount = pixels.length ∧ ∃ bytes, Source v tail l'.bits.blocks bytes s') ?_ ?_) ?_
  case refine_1 =>
    rintro l s' rows' ⟨entries, rest, codes, h⟩
    exact wp_card_lzwRound hw hl hi hk h
  case refine_2 =>
    refine ⟨[], pixels, codes, he, ?_, .start hk, ?_, Nat.zero_le _, rfl⟩
    · rw [← hs]
      exact (Feeds.start hb ha₁).congr rfl rfl
    · refine ⟨(Nat.zero_mod _).symm, by rintro _ ⟨⟩, ?_⟩
      rw [Nat.zero_div, List.range_zero, List.map_nil, List.append_nil]
  case refine_3 =>
    rintro _ s₂ rows₂ ⟨l, rfl, hd, hc, bytes, hsrc⟩
    rw [hc, hl] at hd
    have hu := hd.remainder
    rw [Nat.mul_mod_right] at hu
    have hr := hd.delivered
    rw [Nat.mul_div_cancel_left _ hw, ← delivered_eq] at hr
    dsimp only
    rw [wp_bind]
    refine wp_card_drain hsrc fun blocks' s₃ _ ho ha₃ => ?_
    rw [wp_ite, if_neg (by rw [ho]; decide), wp_ite, if_neg (by simp [hc, hl, hu]), hr]
    exact hq s₃ ha₃

include hw hl hi hk in
theorem wp_card_decodeLzw {Q : FileResult → Globals → List Call → Prop} {pad : List Bool}
    {codes : List (Nat × Nat)} {blocks : List (List UInt8)}
    (hm : frame.frameW ≤ Files.photoRowMaxBytes) (he : LZW.Encodes k [] pixels codes)
    (hb : Framable blocks) (hs : BitStream.ofBytes blocks.flatten = LZW.bits codes ++ pad)
    (ha : Ahead v (lzwData k blocks) s)
    (hq : ∀ s', Q .ok s' (rows ++ delivered frame palette paletteSize interlaced pixels)) :
    wp (card v) (decodeLzw frame palette paletteSize interlaced v.toGeometry) Q s rows := by
  rw [← List.append_nil (lzwData k blocks)] at ha
  exact wp_card_decodeLzw_ahead hw hl hi hk hm he hb hs ha fun s' _ => hq s'

-- Whatever codes an encoder has emitted for a frame's pixels, and however they have been split into
-- blocks, `gif_decode_lzw` delivers each of the rows once.
theorem decodeLzw_inverts {pad : List Bool} {codes : List (Nat × Nat)} {blocks : List (List UInt8)}
    (hw : 0 < frame.frameW ∧ frame.frameW ≤ Files.photoViewMaxW)
    (hl : pixels.length = frame.frameW * frame.frameH) (hp : paletteSize ≤ paletteMax)
    (hi : ∀ index ∈ pixels, index.toNat < paletteSize) (hk : 2 ≤ k ∧ k ≤ 8)
    (he : LZW.Encodes k [] pixels codes) (hb : Framable blocks)
    (hs : BitStream.ofBytes blocks.flatten = LZW.bits codes ++ pad)
    (ha : Ahead v (lzwData k blocks) s) :
    (∃ n s', (decodeLzw frame palette paletteSize interlaced v.toGeometry).run (delivering v) s
      (.replicate n ()) rows =
        .done (.ok, s') (rows ++ delivered frame palette paletteSize interlaced pixels)) ∧
    (rowOrder interlaced frame.frameH).Perm (List.range frame.frameH) := by
  refine ⟨?_, rowOrder_perm interlaced frame.frameH⟩
  have hm : frame.frameW ≤ Files.photoRowMaxBytes := hw.right.trans (by decide)
  have hc : wp (card v) (decodeLzw frame palette paletteSize interlaced v.toGeometry)
      (fun result _ rows' => result = .ok ∧
        rows' = rows ++ delivered frame palette paletteSize interlaced pixels) s rows :=
    wp_card_decodeLzw hw.left hl hi hk hm he hb hs ha fun _ => ⟨rfl, rfl⟩
  have ht : wp { card v with hung := fun _ => False }
      (decodeLzw frame palette paletteSize interlaced v.toGeometry)
      (fun result _ rows' => result = .ok ∧
        rows' = rows ++ delivered frame palette paletteSize interlaced pixels) s rows :=
    wp_of_total (P := fun _ _ => True)
      (wp_decodeLzw hp (Nat.ne_of_gt hw.left) fun _ _ _ _ => trivial) hc
  obtain ⟨n, result, s', rows', hr, rfl, rfl⟩ :=
    exists_done (fun _ => ()) (fun _ => trivial) (fun _ => id) ht
  refine ⟨n, s', ?_⟩
  rw [List.map_const', List.length_range] at hr
  exact hr

end Pixels

-- The file of one pixel, on a volume that has it in all of its blocks.
def onePixelVolume : Volume where
  toGeometry  := ⟨0, 0, 1, single_mounted⟩
  readBlock _ := some fun i => onePixel.getD i 0

def onePixelFrame : Frame :=
  ⟨1, 1, 0, 0, 1, 1, 0, minDelayMs, -1, 0⟩

-- The decoder is in front of the pixel.
def onePixelGlobals : Globals :=
  { cleared with gif := { Session.zero with
    entry := ⟨2, 35⟩, stream := ⟨2, 29, 29, 0, false⟩ } }

theorem onePixel_ahead : Ahead onePixelVolume (lzwData 2 [[0x44, 1]]) onePixelGlobals := by
  refine ⟨29, ⟨rfl, by decide, rfl, rfl, nofun⟩, by decide, ?_, by decide⟩
  intro p hp
  have hp : p < 34 := hp
  have hd : p / onePixelVolume.clusterSize.toNat = 0 := Nat.div_eq_of_lt (hp.trans (by decide))
  refine ⟨?_, rfl⟩
  rw [hd]
  rfl

theorem decodeLzw_inverts_onePixel : ∃ n s',
    (decodeLzw onePixelFrame (fun _ => 0) 2 false onePixelVolume.toGeometry).run
      (delivering onePixelVolume) onePixelGlobals (.replicate n ()) [] =
    .done (.ok, s') [.renderIndexedRow onePixelFrame 0 [0] (fun _ => 0) 2] := by
  have hd : LZW.Denotes 2 [] 0 [0] := .literal (by decide)
  have he : LZW.Encodes 2 [] [0] [(4, 3), (0, 3), (5, 3)] := .clear (.code hd .finish)
  have hb : Framable [[0x44, 1]] := by
    unfold Framable
    decide
  have hs : BitStream.ofBytes [0x44, 1] =
      LZW.bits [(4, 3), (0, 3), (5, 3)] ++ .replicate 7 false := by
    decide
  have hi : ∀ index ∈ [(0 : UInt8)], index.toNat < 2 :=
    List.forall_mem_singleton.mpr (by decide)
  exact (decodeLzw_inverts (by decide) rfl (by decide) hi (by decide) he hb hs
    onePixel_ahead).left

end Gif
