import HackyLens.Photo.Theorems.Png

namespace Png

open Core Fat32

variable {v : Volume} {entry : Entry} {buf f : Memory} {c c' c₂ : Collect} {data : List UInt8}
variable {size pos len : Nat} {ok : Bool}

-- The length and the type of the chunk of a file at `pos`.
def lenAt (f : Memory) (pos : Nat) : Nat :=
  (rd32be fun i => f (pos + i)).toNat

def typeAt (f : Memory) (pos : Nat) : List UInt8 :=
  f.read (pos + 4) 4

-- The chunks of a file from `pos` on, up to its end chunk, carry so much compressed data.
inductive Carries (f : Memory) (size : Nat) : Nat → List UInt8 → Prop
  | iend {pos : Nat} : typeAt f pos = iend → Carries f size pos []
  | idat {pos : Nat} {data : List UInt8} :
    typeAt f pos = idat → pos + 12 + lenAt f pos ≤ size →
    Carries f size (pos + 12 + lenAt f pos) data →
    Carries f size pos (f.read (pos + 8) (lenAt f pos) ++ data)
  | other {pos : Nat} {data : List UInt8} :
    typeAt f pos ≠ iend → typeAt f pos ≠ idat → pos + 12 + lenAt f pos ≤ size →
    Carries f size (pos + 12 + lenAt f pos) data →
    Carries f size pos data

def Inside (c : Collect) : Prop :=
  ∀ i, c.comp i ≠ none → i < compMax.toNat

-- Nothing is written outside of the buffer, at any time, and what is returned are the data of the
-- file's chunks.
structure Collects (v : Volume) (entry : Entry) (buf : Memory) : Prop where
  reached : ∀ c, Reached v entry buf c → Inside c
  returned : ∀ rounds ok c, collectIdat v entry rounds buf = some (ok, c) → Inside c
  data : ∀ rounds c, collectIdat v entry rounds buf = some (true, c) →
    ∃ data, Carries (v.fileByte entry) entry.size.toNat 8 data ∧ c.compSize.toNat = data.length ∧
      ∀ i < data.length, c.comp i = data[i]?

-- The size test lets a chunk pass because its sum wraps around, and the chunk is made use of.
structure Wraps (v : Volume) (entry : Entry) (c : Collect) : Prop where
  admitted : Admitted v entry c
  wraps : 2 ^ 32 ≤ c.offset.toNat + 12 + (c.headed v entry).len.toNat
  ended : (c.headed v entry).type = iend → 2 ^ 32 ≤ c.offset.toNat + 12
  copied : (c.headed v entry).type = idat → c.gotIhdr ∧ c.out + (c.headed v entry).len ≤ compMax

theorem pass_inl (h : pass v entry c = .inl (ok, c')) :
    ok = false ∧ c'.comp = c.comp ∨
    Admitted v entry c ∧
      c.handled v entry = .inl (ok, c') := by
  rw [pass] at h
  split at h
  case isTrue => cases h; exact .inl ⟨rfl, rfl⟩
  case isFalse hr =>
  dsimp only at h
  split at h
  case isTrue => cases h; exact .inl ⟨rfl, rfl⟩
  case isFalse ho =>
  split at h
  case isTrue => cases h; exact .inl ⟨rfl, rfl⟩
  case isFalse hf =>
  split at h
  case h_2 => cases h
  case h_1 r hc =>
    cases h
    exact .inr ⟨⟨not_not.mp hr, by simpa using ho, UInt32.not_lt.mp hf⟩, hc⟩

theorem readIhdr_inl {len : UInt32} (h : readIhdr v entry len c = .inl (ok, c')) :
    ok = false ∧ c'.comp = c.comp := by
  rw [readIhdr] at h
  dsimp only at h
  repeat' split at h
  all_goals first | cases h; exact ⟨rfl, rfl⟩ | cases h

theorem readIhdr_inr {len : UInt32} (h : readIhdr v entry len c = .inr c') :
    c'.comp = c.comp ∧ c'.out = c.out := by
  rw [readIhdr] at h
  dsimp only at h
  repeat' split at h
  all_goals first | cases h; exact ⟨rfl, rfl⟩ | cases h

theorem Comp.store_eq {bytes : List UInt8} :
    Comp.store (data[·]?) data.length bytes = ((data ++ bytes)[·]?) := by
  funext i
  rw [Comp.store, List.getElem?_append]
  by_cases hi : i < data.length
  case pos => rw [if_neg (by omega), if_pos hi]
  case neg =>
    rw [if_neg hi]
    split
    case isTrue  => rfl
    case isFalse => rw [List.getElem?_eq_none (by omega), List.getElem?_eq_none (by omega)]

-- What the copying leaves behind, wherever it stops.
theorem copyLoop_eq {rounds : Nat} (remain chunkOffset : UInt32) (hr : remain.toNat ≤ rounds)
    (hc : c.comp = (data[·]?)) (ho : c.out.toNat = data.length)
    (hf : chunkOffset.toNat + remain.toNat ≤ entry.size.toNat)
    (hm : data.length + remain.toNat < 2 ^ 32) :
    ∃ n ≤ remain.toNat,
      let result := copyLoop v entry rounds remain chunkOffset c
      result.snd.comp = ((data ++ (v.fileByte entry).read chunkOffset.toNat n)[·]?) ∧
      (result.fst → n = remain.toNat ∧ result.snd.out.toNat = data.length + n) := by
  induction rounds generalizing remain chunkOffset c data with
  | zero           =>
    refine ⟨0, Nat.zero_le _, ?_, fun _ => ⟨(Nat.le_zero.mp hr).symm, ho⟩⟩
    simpa [copyLoop, Memory.read] using hc
  | succ rounds ih =>
    rw [copyLoop]
    split
    case isTrue hz =>
      refine ⟨0, Nat.zero_le _, ?_, fun _ => ⟨by rw [hz]; rfl, ho⟩⟩
      simpa [Memory.read] using hc
    case isFalse hz =>
    extract_lets take result
    have ht : 0 < take.toNat ∧ take.toNat ≤ remain.toNat := by
      have hz : remain.toNat ≠ 0 := fun h => hz (UInt32.toNat_inj.mp h)
      simp only [take]
      split
      case isTrue hl => exact ⟨by decide, (UInt32.lt_iff_toNat_lt.mp hl).le⟩
      case isFalse   => exact ⟨Nat.pos_of_ne_zero hz, Nat.le_refl _⟩
    have hs := entry.size.toNat_lt
    obtain ⟨n, hn, he, hk⟩ := Volume.readAt_eq (v := v) ht.left
      (show chunkOffset.toNat + take.toNat ≤ entry.size.toNat by omega)
    have hb : c.comp.store c.out.toNat (v.readAt entry chunkOffset take).snd =
        ((data ++ (v.fileByte entry).read chunkOffset.toNat n)[·]?) := by
      rw [hc, ho, he, Comp.store_eq]
    have hx : result =
        if !(v.readAt entry chunkOffset take).fst then
          (false, { c with comp := c.comp.store c.out.toNat (v.readAt entry chunkOffset take).snd })
        else
          copyLoop v entry rounds (remain - take) (chunkOffset + take) { c with
            comp := c.comp.store c.out.toNat (v.readAt entry chunkOffset take).snd
            out  := c.out + take } := rfl
    rw [hx, hb]
    split
    case isTrue => exact ⟨n, by omega, rfl, (by intros; contradiction)⟩
    case isFalse hr =>
    have hn : n = take.toNat := hk (by simpa using hr)
    have hrem : (remain - take).toNat = remain.toNat - take.toNat :=
      UInt32.toNat_sub_of_le _ _ (UInt32.le_iff_toNat_le.mpr ht.right)
    have hoff : (chunkOffset + take).toNat = chunkOffset.toNat + take.toNat := by
      rw [UInt32.toNat_add, Nat.mod_eq_of_lt (by omega)]
    have hl : (data ++ (v.fileByte entry).read chunkOffset.toNat n).length =
        data.length + take.toNat := by
      rw [List.length_append, Memory.read_length, hn]
    obtain ⟨n', hn', he', hk'⟩ := ih (remain - take) (chunkOffset + take)
      (c := { c with
        comp := ((data ++ (v.fileByte entry).read chunkOffset.toNat n)[·]?)
        out  := c.out + take }) (by omega) rfl
      (by rw [hl, UInt32.toNat_add, ho, Nat.mod_eq_of_lt (by omega)]) (by omega) (by omega)
    refine ⟨n + n', by omega, ?_, fun hr => ?_⟩
    · rw [he', List.append_assoc, hoff, ← hn, Memory.read_append]
    · obtain ⟨hr, ho⟩ := hk' hr
      exact ⟨by omega, by rw [ho, hl]; omega⟩

-- What has been collected up to the chunk that is read next.
structure Gathered (v : Volume) (entry : Entry) (c : Collect) (data : List UInt8) : Prop where
  comp : c.comp = (data[·]?)
  out : c.out.toNat = data.length
  behind : data.length ≤ c.offset.toNat
  room : data.length ≤ compMax.toNat
  rest : ∀ rest, Carries (v.fileByte entry) entry.size.toNat c.offset.toNat rest →
    Carries (v.fileByte entry) entry.size.toNat 8 (data ++ rest)

theorem inside_of_comp (hc : c.comp = (data[·]?)) (hl : data.length ≤ compMax.toNat) :
    Inside c := by
  intro i hi
  rw [hc] at hi
  have hi : i < data.length := by
    by_contra hn
    exact hi (List.getElem?_eq_none (by omega))
  omega

theorem Gathered.inside (h : Gathered v entry c data) : Inside c :=
  inside_of_comp h.comp h.room

-- The header that is read is the one that the file has there.
theorem Gathered.header (ha : Admitted v entry c) (ho : c.offset.toNat + 12 < 2 ^ 32) :
    c.offset.toNat + 12 ≤ entry.size.toNat ∧
    (c.headed v entry).len.toNat = lenAt (v.fileByte entry) c.offset.toNat ∧
    (c.headed v entry).type = typeAt (v.fileByte entry) c.offset.toNat := by
  have hr := UInt32.le_iff_toNat_le.mp ha.room
  rw [UInt32.toNat_add, show (12 : UInt32).toNat = 12 from rfl, Nat.mod_eq_of_lt ho] at hr
  obtain ⟨n, -, he, hk⟩ := Volume.readAt_eq (v := v) (by decide)
    (show c.offset.toNat + (8 : UInt32).toNat ≤ entry.size.toNat by
      rw [show (8 : UInt32).toNat = 8 from rfl]; omega)
  cases hk ha.read
  have hl : (v.readAt entry c.offset 8).snd.length = 8 := he ▸ Memory.read_length
  refine ⟨hr, ?_, ?_⟩
  · rw [Collect.len, Collect.headed, rd32be_fill (by omega), he]
    rfl
  · rw [Collect.type, Collect.headed, fill_read (by omega), he]
    rfl

theorem Admitted.fits_toNat (ha : Admitted v entry c)
    (ho : c.offset.toNat + 12 + (c.headed v entry).len.toNat < 2 ^ 32) :
    c.offset.toNat + 12 + (c.headed v entry).len.toNat ≤ entry.size.toNat := by
  have hf := UInt32.le_iff_toNat_le.mp ha.fits
  have h : (c.headed v entry).offset.toNat = c.offset.toNat + 8 := by
    simp only [Collect.headed_offset, UInt32.toNat_add, UInt32.reduceToNat]
    omega
  simp only [UInt32.toNat_add, h, UInt32.reduceToNat] at hf
  omega

-- A chunk that is stepped over once `extra` has been taken from it.
theorem Gathered.next (g : Gathered v entry c data) (extra : List UInt8)
    (hw : c.offset.toNat + 12 + (c.headed v entry).len.toNat < 2 ^ 32)
    (hc : c₂.comp = ((data ++ extra)[·]?)) (ho : c₂.out.toNat = (data ++ extra).length)
    (hp : c₂.offset = (c.headed v entry).offset) (hl : extra.length ≤ (c.headed v entry).len.toNat)
    (hm : (data ++ extra).length ≤ compMax.toNat)
    (hr : ∀ rest, Carries (v.fileByte entry) entry.size.toNat
      (c.offset.toNat + 12 + (c.headed v entry).len.toNat) rest →
      Carries (v.fileByte entry) entry.size.toNat c.offset.toNat (extra ++ rest)) :
    Gathered v entry { c₂ with offset := c₂.offset + ((c.headed v entry).len + 4) }
      (data ++ extra) := by
  have hn : (c₂.offset + ((c.headed v entry).len + 4)).toNat =
      c.offset.toNat + 12 + (c.headed v entry).len.toNat := by
    simp only [hp, Collect.headed_offset, UInt32.toNat_add, UInt32.reduceToNat]
    omega
  have hb := g.behind
  refine ⟨hc, ho, ?_, hm, fun rest h => ?_⟩
  · rw [List.length_append]
    dsimp only
    omega
  · rw [List.append_assoc]
    exact g.rest _ (hr _ (hn ▸ h))

-- What is promised of a return.
structure Returned (v : Volume) (entry : Entry) (ok : Bool) (c : Collect) : Prop where
  inside : Inside c
  data : ok → ∃ data, Carries (v.fileByte entry) entry.size.toNat 8 data ∧
    c.compSize.toNat = data.length ∧ c.comp = (data[·]?)

theorem Gathered.fails (g : Gathered v entry c data) (hc : c'.comp = c.comp) :
    Returned v entry false c' :=
  ⟨inside_of_comp (hc.trans g.comp) g.room, nofun⟩

-- One pass of the loop over a chunk that does not wrap around.
structure Passed (v : Volume) (entry : Entry) (step : Step) (len : UInt32) : Prop where
  returns : ∀ ok c', step = .inl (ok, c') → Returned v entry ok c'
  goesOn : ∀ c₂, step = .inr c₂ →
    ∃ data, Gathered v entry { c₂ with offset := c₂.offset + (len + 4) } data

-- A chunk that carries no data.
theorem Gathered.skip (g : Gathered v entry c data) (ha : Admitted v entry c)
    (hw : ¬Wraps v entry c) (hi : (c.headed v entry).type ≠ iend) 
    (hd : (c.headed v entry).type ≠ idat) (hc : c₂.comp = c.comp) (ho : c₂.out = c.out)
    (hp : c₂.offset = (c.headed v entry).offset) :
    ∃ data, Gathered v entry
      { c₂ with offset := c₂.offset + ((c.headed v entry).len + 4) } data := by
  have hw : ¬2 ^ 32 ≤ c.offset.toNat + 12 + (c.headed v entry).len.toNat := fun h =>
    hw ⟨ha, h, fun h => absurd h hi, fun h => absurd h hd⟩
  obtain ⟨-, hl, ht⟩ := Gathered.header ha (by omega)
  refine ⟨_, g.next [] (by omega) ?_ ?_ hp (Nat.zero_le _) ?_ fun rest h => ?_⟩
  · rw [hc, g.comp, List.append_nil]
  · rw [ho, g.out, List.append_nil]
  · rw [List.append_nil]
    exact g.room
  · have hf := ha.fits_toNat (by omega)
    rw [hl] at h hf
    exact .other (ht ▸ hi) (ht ▸ hd) hf h

theorem Gathered.idat (g : Gathered v entry c data) (ha : Admitted v entry c)
    (hw : ¬Wraps v entry c) (hd : (c.headed v entry).type = idat) :
    Passed v entry (copyIdat v entry (c.headed v entry).len (c.headed v entry))
      (c.headed v entry).len := by
  rw [copyIdat]
  split
  case isTrue =>
    refine ⟨fun ok c' h => ?_, (by intros; contradiction)⟩
    cases h
    exact g.fails rfl
  case isFalse hr =>
  have hr : c.gotIhdr ∧ c.out + (c.headed v entry).len ≤ compMax := by
    have hr := not_or.mp hr
    have hg : (c.headed v entry).gotIhdr := by simpa using hr.left
    exact ⟨hg, UInt32.not_lt.mp hr.right⟩
  have hw : ¬2 ^ 32 ≤ c.offset.toNat + 12 + (c.headed v entry).len.toNat := fun h =>
    hw ⟨ha, h, fun h => absurd (hd.symm.trans h) (by decide), fun _ => hr⟩
  obtain ⟨-, hl, ht⟩ := Gathered.header ha (by omega)
  have hf := ha.fits_toNat (by omega)
  have hb := g.behind
  have hm := UInt32.le_iff_toNat_le.mp hr.right
  rw [UInt32.toNat_add, g.out, Nat.mod_eq_of_lt (by omega)] at hm
  have hp : (c.headed v entry).offset.toNat = c.offset.toNat + 8 := by
    rw [Collect.headed_offset, UInt32.toNat_add, show (8 : UInt32).toNat = 8 from rfl,
      Nat.mod_eq_of_lt (by omega)]
  obtain ⟨n, hn, he, hk⟩ := copyLoop_eq (v := v) (c := c.headed v entry)
    (c.headed v entry).len (c.headed v entry).offset (Nat.le_refl _) g.comp g.out
    (show _ ≤ entry.size.toNat by omega) (by omega)
  have ho := copyLoop_offset v entry (c.headed v entry).len.toNat (c.headed v entry).len
    (c.headed v entry).offset (c.headed v entry)
  dsimp only
  generalize copyLoop _ _ _ _ _ _ = result at he hk ho ⊢
  obtain ⟨ok, c₂⟩ := result
  dsimp only at he hk ho ⊢
  have hlen : (data ++ (v.fileByte entry).read (c.headed v entry).offset.toNat n).length =
      data.length + n := by
    rw [List.length_append, Memory.read_length]
  cases ok
  case false =>
    refine ⟨fun ok c' h => ?_, (by intros; contradiction)⟩
    cases h
    exact ⟨inside_of_comp he (by omega), (by intros; contradiction)⟩
  case true =>
    refine ⟨(by intros; contradiction), fun c' h => ?_⟩
    cases h
    obtain ⟨rfl, hout⟩ := hk rfl
    refine ⟨_, g.next _ (by omega) he (by omega) ho (by rw [Memory.read_length]) (by omega)
      fun rest h => ?_⟩
    rw [hp, hl]
    rw [hl] at h hf
    exact .idat (ht ▸ hd) hf h

theorem Gathered.handle (g : Gathered v entry c data) (ha : Admitted v entry c)
    (hw : ¬Wraps v entry c) : Passed v entry (c.handled v entry) (c.headed v entry).len := by
  rw [Collect.handled, handleChunk]
  split
  case isTrue ht =>
    refine ⟨fun ok c' h => ?_, fun c' h => ?_⟩
    · obtain ⟨rfl, hc⟩ := readIhdr_inl h
      exact g.fails hc
    · obtain ⟨hc, ho⟩ := readIhdr_inr h
      have hp := handleChunk_offset
        (show handleChunk v entry ihdr _ _ = _ from (if_pos rfl).trans h)
      exact g.skip ha hw (by rw [ht]; decide) (by rw [ht]; decide) hc ho hp
  case isFalse =>
  split
  case isTrue ht => exact g.idat ha hw ht
  case isFalse hd =>
  split
  case isTrue ht =>
    refine ⟨fun ok c' h => ?_, (by intros; contradiction)⟩
    cases h
    have hw : ¬2 ^ 32 ≤ c.offset.toNat + 12 := fun h =>
      hw ⟨ha, by omega, fun _ => h, fun h => absurd (ht.symm.trans h) (by decide)⟩
    obtain ⟨-, -, ht'⟩ := Gathered.header ha (by omega)
    have hr := g.rest [] (.iend (ht' ▸ ht))
    rw [List.append_nil] at hr
    exact ⟨g.inside, fun _ => ⟨data, hr, g.out, g.comp⟩⟩
  case isFalse he =>
    refine ⟨(by intros; contradiction), fun c' h => ?_⟩
    cases h
    exact g.skip ha hw he hd rfl rfl rfl

theorem Gathered.pass (g : Gathered v entry c data) (hw : ¬Wraps v entry c) :
    (∀ c', Png.pass v entry c = .inr c' → ∃ data, Gathered v entry c' data) ∧
    ∀ ok c', Png.pass v entry c = .inl (ok, c') → Returned v entry ok c' := by
  refine ⟨fun c' h => ?_, fun ok c' h => ?_⟩
  · obtain ⟨ha, c₂, hc, rfl⟩ := pass_inr h
    exact (g.handle ha hw).goesOn c₂ hc
  · rcases pass_inl h with ⟨rfl, hc⟩ | ⟨ha, hc⟩
    · exact g.fails hc
    · exact (g.handle ha hw).returns ok c' hc

theorem checkSig_inl (h : checkSig v entry buf = .inl (ok, c)) :
    ok = false ∧ c.comp = fun _ => none := by
  rw [checkSig] at h
  dsimp only at h
  repeat' split at h
  all_goals first | cases h; exact ⟨rfl, rfl⟩ | cases h

theorem checkSig_gathered (h : checkSig v entry buf = .inr c) : Gathered v entry c [] := by
  rw [checkSig] at h
  dsimp only at h
  repeat' split at h
  all_goals first
    | cases h; exact ⟨rfl, rfl, Nat.zero_le _, Nat.zero_le _, fun _ h => h⟩
    | cases h

theorem gathered_of_reached (h : ∀ c, Reached v entry buf c → ¬Wraps v entry c)
    (hc : Reached v entry buf c) : ∃ data, Gathered v entry c data := by
  induction hc with
  | start hs      => exact ⟨[], checkSig_gathered hs⟩
  | pass hc hp ih =>
    obtain ⟨data, g⟩ := ih
    exact (g.pass (h _ hc)).left _ hp

theorem chunkLoop_returned (h : ∀ c, Reached v entry buf c → ¬Wraps v entry c) {rounds : Nat}
    (hc : Reached v entry buf c) (hr : chunkLoop v entry rounds c = some (ok, c')) :
    Returned v entry ok c' := by
  induction rounds generalizing c with
  | zero           => cases hr
  | succ rounds ih =>
    obtain ⟨data, g⟩ := gathered_of_reached h hc
    rw [chunkLoop] at hr
    split at hr
    case h_1 r hp =>
      cases hr
      exact (g.pass (h c hc)).right ok c' hp
    case h_2 c₂ hp => exact ih (hc.pass hp) hr

-- The data stay in their buffer, as long as no chunk that is made use of wraps around.
theorem collects (h : ∀ c, Reached v entry buf c → ¬Wraps v entry c) : Collects v entry buf := by
  have returned {rounds : Nat} {ok : Bool} {c : Collect}
      (hr : collectIdat v entry rounds buf = some (ok, c)) : Returned v entry ok c := by
    rw [collectIdat] at hr
    split at hr
    case h_1 hs =>
      cases hr
      obtain ⟨rfl, hc⟩ := checkSig_inl hs
      exact ⟨fun i hi => absurd (congrFun hc i) hi, (by intros; contradiction)⟩
    case h_2 c₀ hs => exact chunkLoop_returned h (.start hs) hr
  refine ⟨fun c hc => ?_, fun _ _ _ hr => (returned hr).inside, fun _ c hr => ?_⟩
  · obtain ⟨data, g⟩ := gathered_of_reached h hc
    exact g.inside
  · obtain ⟨data, hc, hl, he⟩ := (returned hr).data rfl
    exact ⟨data, hc, hl, fun i _ => congrFun he i⟩

-- What the walk has come to after so many passes.
def walked (v : Volume) (entry : Entry) (buf : Memory) : Nat → Step
  | 0     => checkSig v entry buf
  | n + 1 => (walked v entry buf n).elim .inl (pass v entry)

theorem walked_reached {n : Nat} (h : walked v entry buf n = .inr c) : Reached v entry buf c := by
  induction n generalizing c with
  | zero      => exact .start h
  | succ n ih =>
    rw [walked] at h
    cases hw : walked v entry buf n with
    | inl r  =>
      rw [hw] at h
      cases h
    | inr c₀ =>
      rw [hw] at h
      exact (ih hw).pass h

theorem Reached.walked (hc : Reached v entry buf c) : ∃ n, Png.walked v entry buf n = .inr c := by
  induction hc with
  | start hs      => exact ⟨0, hs⟩
  | pass hc hp ih =>
    obtain ⟨n, hn⟩ := ih
    exact ⟨n + 1, by rw [Png.walked, hn]; exact hp⟩

-- A walk that ends can be looked at chunk by chunk.
theorem not_wraps_of_walked {m : Nat} (hl : (walked v entry buf m).isLeft)
    (hn : ∀ n < m, ((walked v entry buf n).elim (fun _ => 0)
      fun c => c.offset.toNat + 12 + (c.headed v entry).len.toNat) < 2 ^ 32) :
    ∀ c, Reached v entry buf c → ¬Wraps v entry c := by
  intro c hc hw
  obtain ⟨n, h⟩ := hc.walked
  by_cases hm : n < m
  case pos =>
    have hn := hn n hm
    rw [h, Sum.elim_inr] at hn
    have hw := hw.wraps
    omega
  case neg =>
    obtain ⟨k, rfl⟩ := Nat.exists_eq_add_of_le (Nat.le_of_not_lt hm)
    have hk : (walked v entry buf (m + k)).isLeft := by
      clear h hm
      induction k with
      | zero      => exact hl
      | succ k ih =>
        obtain ⟨r, hr⟩ := Sum.isLeft_iff.mp ih
        rw [← Nat.add_assoc, walked, hr]
        rfl
    rw [h] at hk
    cases hk

-- A PNG of one pixel with three bytes of data in two chunks.
def onePixel : List UInt8 :=
  sig ++
  [0, 0, 0, 13] ++ ihdr ++ [0, 0, 0, 1, 0, 0, 0, 1, 8, 2, 0, 0, 0] ++ [0, 0, 0, 0] ++
  [0, 0, 0, 1] ++ idat ++ [1] ++ [0, 0, 0, 0] ++
  [0, 0, 0, 2] ++ idat ++ [2, 3] ++ [0, 0, 0, 0] ++
  [0, 0, 0, 0] ++ iend ++ [0, 0, 0, 0]

theorem collects_onePixel :
    ((collectIdat (oneSector onePixel) ⟨2, 72⟩ 4 fun _ => 0).map fun r => (r.fst, r.snd.compSize)) =
      some (true, 3) ∧
    Collects (oneSector onePixel) ⟨2, 72⟩ fun _ => 0 :=
  ⟨by decide +kernel,
    collects (not_wraps_of_walked (m := 4) (by decide +kernel) (by decide +kernel))⟩

theorem Comp.store_ne_none {comp : Comp} {out i : Nat} {bytes : List UInt8}
    (h : comp i ≠ none ∨ out ≤ i ∧ i < out + bytes.length) : comp.store out bytes i ≠ none := by
  rw [Comp.store]
  split
  case isTrue hi => simp [show i - out < bytes.length by omega]
  case isFalse hi => exact h.resolve_right hi

theorem copyLoop_keeps {rounds i : Nat} {remain chunkOffset : UInt32} (h : c.comp i ≠ none) :
    (copyLoop v entry rounds remain chunkOffset c).snd.comp i ≠ none := by
  induction rounds generalizing remain chunkOffset c with
  | zero           => exact h
  | succ rounds ih =>
    rw [copyLoop]
    split
    case isTrue => exact h
    case isFalse =>
      extract_lets take
      dsimp only
      split
      case isTrue  => exact Comp.store_ne_none (.inl h)
      case isFalse => exact ih (Comp.store_ne_none (.inl h))

-- Whole blocks that can be read are copied.
theorem copyLoop_writes {rounds i m : Nat} {remain chunkOffset : UInt32} (hm : m ≤ rounds)
    (hr : 512 * m < remain.toNat) (hf : chunkOffset.toNat + 512 * m ≤ entry.size.toNat)
    (hv : v.Readable entry.cluster (chunkOffset.toNat + 512 * m))
    (ho : c.out.toNat + 512 * m < 2 ^ 32) (hi : i < 512 * m) :
    (copyLoop v entry rounds remain chunkOffset c).snd.comp (c.out.toNat + i) ≠ none := by
  induction m generalizing rounds remain chunkOffset c i with
  | zero      => omega
  | succ m ih =>
    cases rounds
    case zero => omega
    case succ rounds =>
    have hz : remain ≠ 0 := fun h => by rw [h] at hr; simp at hr
    have hb : (512 : UInt32).toNat = 512 := by decide
    have ht : remain > 512 := UInt32.lt_iff_toNat_lt.mpr (by omega)
    have hs := entry.size.toNat_lt
    have hread : v.Readable entry.cluster (chunkOffset.toNat + (512 : UInt32).toNat) :=
      fun p hp => hv p (by omega)
    have hle : chunkOffset.toNat + (512 : UInt32).toNat ≤ entry.size.toNat := by omega
    have hok := Volume.readAt_ok (by decide) hle hread
    obtain ⟨n, -, he, hk⟩ := Volume.readAt_eq (v := v) (by decide) hle
    have hl : (v.readAt entry chunkOffset 512).snd.length = 512 := by
      rw [he, Memory.read_length, hk hok, hb]
    rw [copyLoop, if_neg hz]
    dsimp only
    rw [if_pos ht, if_neg (by simp [hok])]
    have hout : (c.out + 512).toNat = c.out.toNat + 512 := by
      rw [UInt32.toNat_add, hb]
      omega
    have hoff : (chunkOffset + 512).toNat = chunkOffset.toNat + 512 := by
      rw [UInt32.toNat_add, hb]
      omega
    have hrem : (remain - 512).toNat = remain.toNat - 512 :=
      UInt32.toNat_sub_of_le _ _ (UInt32.le_iff_toNat_le.mpr (UInt32.lt_iff_toNat_lt.mp ht).le)
    by_cases hi' : i < 512
    case pos => exact copyLoop_keeps (Comp.store_ne_none (.inr ⟨by omega, by omega⟩))
    case neg =>
      have hn : c.out.toNat + i = (c.out + 512).toNat + (i - 512) := by omega
      rw [hn]
      refine ih (by omega) (by omega) (by omega) (fun p hp => hv p (by omega)) ?_ (by omega)
      dsimp only
      omega

-- A volume with a file whose clusters, of 2 ^ 16 bytes, lie one behind the other.
def contiguous (content : List UInt8) : Volume where
  fatBegin := 0
  dataBegin := 128
  sectorsPerCluster := 128
  readBlock lba := some fun i =>
    if lba < 128 then
      if i % 4 = 0 then .ofNat (lba.toNat * 128 + i / 4 + 1) else 0
    else
      content.getD ((lba.toNat - 128) * 512 + i) 0
  mounted := by decide

-- A PNG of one pixel. The second chunk of its data announces 2 ^ 32 - 1 bytes.
def oversized : List UInt8 :=
  sig ++
  [0, 0, 0, 13] ++ ihdr ++ [0, 0, 0, 1, 0, 0, 0, 1, 8, 2, 0, 0, 0] ++ [0, 0, 0, 0] ++
  [0, 0, 0, 1] ++ idat ++ [0] ++ [0, 0, 0, 0] ++
  [0xFF, 0xFF, 0xFF, 0xFF] ++ idat

def oversizedEntry : Entry :=
  ⟨2, 0x100000⟩

theorem oversized_reached :
    ∃ c, Reached (contiguous oversized) oversizedEntry (fun _ => 0) c ∧
      c.offset = 46 ∧ c.out = 1 ∧ c.gotIhdr = true := by
  have h : (walked (contiguous oversized) oversizedEntry (fun _ => 0) 2).elim (fun _ => none)
      (fun c => some (c.offset, c.out, c.gotIhdr)) = some (46, 1, true) := by
    decide +kernel
  cases hw : walked (contiguous oversized) oversizedEntry (fun _ => 0) 2 with
  | inl r =>
    rw [hw] at h
    cases h
  | inr c =>
    rw [hw] at h
    injection h with h
    injection h with ho h
    injection h with hp hg
    exact ⟨c, walked_reached hw, ho, hp, hg⟩

theorem oversized_readable : (contiguous oversized).Readable oversizedEntry.cluster 0x100000 := by
  have hc : ∀ k < 16, (contiguous oversized).nextCluster (.ofNat (k + 2)) = .ofNat (k + 3) := by
    decide +kernel
  have hn : ∀ k ≤ 16,
      (contiguous oversized).nextCluster^[k] oversizedEntry.cluster = .ofNat (k + 2) := by
    intro k
    induction k with
    | zero      => exact fun _ => rfl
    | succ k ih =>
      intro hk
      rw [Function.iterate_succ_apply', ih (by omega), hc k (by omega)]
  have hi : ∀ k < 16, inChain (.ofNat (k + 2)) := by decide
  have hs : (contiguous oversized).clusterSize.toNat = 0x10000 := by decide
  intro p hp
  have hk : p / 0x10000 < 16 := by omega
  dsimp only
  rw [hs, hn _ hk.le]
  exact ⟨hi _ hk, Option.isSome_some⟩

theorem Reached.returns {rounds : Nat} {r : Bool × Collect} (hc : Reached v entry buf c)
    (hr : chunkLoop v entry rounds c = some r) :
    ∃ rounds, collectIdat v entry rounds buf = some r := by
  induction hc generalizing rounds with
  | start hs      => exact ⟨rounds, by rw [collectIdat, hs]; exact hr⟩
  | pass hc hp ih =>
    refine ih (show chunkLoop v entry (rounds + 1) _ = some r from ?_)
    rw [chunkLoop, hp]
    exact hr

theorem copyIdat_eq {len : UInt32} (hg : c.gotIhdr) (ho : c.out + len ≤ compMax) :
    copyIdat v entry len c =
      let result := copyLoop v entry len.toNat len c.offset c
      if result.fst then .inr result.snd else .inl (false, result.snd) :=
  if_neg <| by simpa [hg] using UInt32.not_lt.mpr ho

theorem oversized_overruns (hp : c.offset = 54) (ho : c.out = 1) :
    ¬Inside (copyLoop (contiguous oversized) oversizedEntry (0xFFFFFFFF : UInt32).toNat 0xFFFFFFFF
      c.offset c).snd := by
  have hr : (0xFFFFFFFF : UInt32).toNat = 0xFFFFFFFF := by decide
  have hs : oversizedEntry.size.toNat = 0x100000 := by decide
  have hp : c.offset.toNat = 54 := by rw [hp]; decide
  have ho : c.out.toNat = 1 := by rw [ho]; decide
  have hw : (copyLoop (contiguous oversized) oversizedEntry (0xFFFFFFFF : UInt32).toNat 0xFFFFFFFF
      c.offset c).snd.comp (c.out.toNat + 524287) ≠ none :=
    copyLoop_writes (m := 1024) (by omega) (by omega) (by omega)
      (fun p h => oversized_readable p (by omega)) (by omega) (by decide)
  rw [ho] at hw
  intro h
  have h := h _ hw
  revert h
  decide

-- A byte is written behind the end of the buffer.
theorem data_overruns : ¬Collects (contiguous oversized) oversizedEntry fun _ => 0 := by
  intro h
  obtain ⟨c, hc, ho, hout, hg⟩ := oversized_reached
  have hr : (contiguous oversized).readAt oversizedEntry 46 8 = (true, oversized.drop 46) := by
    decide +kernel
  have hl : (c.headed (contiguous oversized) oversizedEntry).len = 0xFFFFFFFF := by
    rw [Collect.headed, ho, hr]
    exact (rd32be_fill (by decide)).trans (by decide)
  have ht : (c.headed (contiguous oversized) oversizedEntry).type = idat := by
    rw [Collect.headed, ho, hr]
    exact (fill_read (by decide)).trans (by decide)
  have hp : (c.headed (contiguous oversized) oversizedEntry).offset = 54 := by
    rw [Collect.headed_offset, ho]
    rfl
  have ha : Admitted (contiguous oversized) oversizedEntry c :=
    ⟨by rw [ho]; decide, by rw [ho, hr], by rw [hp, hl]; decide⟩
  have hw := oversized_overruns (c := c.headed (contiguous oversized) oversizedEntry) hp hout
  have hcap : (c.headed (contiguous oversized) oversizedEntry).out + 0xFFFFFFFF ≤ compMax := by
    rw [show (c.headed _ _).out = 1 from hout]
    decide
  have hpass := pass_eq ha
  have hh : handleChunk (contiguous oversized) oversizedEntry idat 0xFFFFFFFF
      (c.headed (contiguous oversized) oversizedEntry) = _ := copyIdat_eq hg hcap
  rw [Collect.handled, ht, hl, hh] at hpass
  dsimp only at hpass
  split at hpass
  case isTrue =>
    have hi := h.reached _ (hc.pass hpass)
    exact hw hi
  case isFalse =>
    obtain ⟨rounds, hr⟩ := hc.returns
      (show chunkLoop (contiguous oversized) oversizedEntry 1 c = some (false, _) by
        rw [chunkLoop, hpass]
        rfl)
    exact hw (h.returned _ _ _ hr)

end Png
