import HackyLens.Link.Protocol

-- Frames are decoded as they were encoded, also by the parser in a stream with noise, and the
-- parser stays within its buffer.

namespace ExternalLink

open LittleEndian

variable {front back data rest : List UInt8} {offset : Nat} {m : Message}

theorem readU16_bytes16 {v : UInt16} :
    readU16 (front ++ (bytes16 v ++ back)) front.length = some v := by
  have hv := u16_bytes16 front v back
  rw [List.append_assoc] at hv
  rw [readU16, List.getElem?_append_right (Nat.le_refl _),
    List.getElem?_append_right (Nat.le_add_right _ 1), Nat.sub_self, Nat.add_sub_cancel_left]
  simpa [u16, at', bytes16] using hv

theorem readU16_append (h : offset + 2 ≤ front.length) :
    readU16 (front ++ back) offset = readU16 front offset := by
  rw [readU16, readU16, List.getElem?_append_left (by omega), List.getElem?_append_left (by omega)]

theorem readU16_of_lt (h : offset + 2 ≤ data.length) : ∃ v, readU16 data offset = some v := by
  rw [readU16, List.getElem?_eq_getElem (by omega), List.getElem?_eq_getElem (by omega)]
  exact ⟨_, rfl⟩

theorem region_append {body : List UInt8} :
    region (front ++ (body ++ back)) front.length body.length = some body := by
  rw [region, if_pos (by simp), List.drop_left, List.take_left]

-- The bytes of a frame.
def frameBytes (m : Message) : List UInt8 :=
  [0x48, 0x4B] ++ frameBody m ++ bytes16 (crc16 (frameBody m))

-- Where a message is short enough.
def Fits (m : Message) : Prop :=
  m.payload.length ≤ maxPayload

theorem Fits.frameEncode {capacity : Nat} (h : Fits m)
    (hc : m.payload.length + frameOverhead ≤ capacity) :
    frameEncode m capacity = some (frameBytes m) :=
  if_neg (not_or.mpr ⟨Nat.not_lt.mpr h, Nat.not_lt.mpr hc⟩)

theorem frameBody_length : (frameBody m).length = m.payload.length + 6 := by
  simp [frameBody]
  omega

theorem frameBytes_length : (frameBytes m).length = m.payload.length + frameOverhead := by
  simp [frameBytes, frameBody_length, frameOverhead]

-- The fields of a frame, which is the start of some bytes.
theorem frameBytes_append : frameBytes m ++ rest = [0x48, 0x4B] ++ (frameBody m ++
    (bytes16 (crc16 (frameBody m)) ++ rest)) := by
  simp [frameBytes]

theorem frameBytes_header : frameBytes m ++ rest = [0x48, 0x4B, protocolVersion, m.type] ++
    (bytes16 m.sequence ++ (bytes16 (.ofNat m.payload.length) ++ (m.payload ++
      (bytes16 (crc16 (frameBody m)) ++ rest)))) := by
  simp [frameBytes, frameBody]

theorem Fits.length_toNat (h : Fits m) :
    (UInt16.ofNat m.payload.length).toNat = m.payload.length := by
  rw [Fits, maxPayload] at h
  exact UInt16.toNat_ofNat_of_lt' (show _ < 65536 by omega)

theorem Fits.frame_le (h : Fits m) : (frameBytes m).length ≤ maxFrame := by
  rw [frameBytes_length]
  exact Nat.add_le_add_right h frameOverhead

theorem Fits.expected_toNat (h : Fits m) :
    (UInt16.ofNat m.payload.length + .ofNat frameOverhead).toNat = (frameBytes m).length := by
  have hle := h.frame_le
  rw [frameBytes_length] at hle ⊢
  rw [UInt16.toNat_add, h.length_toNat]
  exact Nat.mod_eq_of_lt (Nat.lt_of_le_of_lt hle (by decide))

theorem readU16_length : readU16 (frameBytes m ++ rest) 6 = some (.ofNat m.payload.length) := by
  rw [frameBytes_header, ← List.append_assoc]
  exact readU16_bytes16

theorem Fits.frameDecode (h : Fits m) :
    frameDecode (frameBytes m ++ rest) (m.payload.length + frameOverhead) = some (some m) := by
  have hseq : readU16 (frameBytes m ++ rest) 4 = some m.sequence := by
    rw [frameBytes_header]
    exact readU16_bytes16
  have hpay : region (frameBytes m ++ rest) 8 m.payload.length = some m.payload := by
    rw [frameBytes_header, ← List.append_assoc, ← List.append_assoc]
    exact region_append
  have hbody : region (frameBytes m ++ rest) 2 (m.payload.length + 6) = some (frameBody m) := by
    rw [frameBytes_append, ← frameBody_length]
    exact region_append
  have hcrc : readU16 (frameBytes m ++ rest) (8 + m.payload.length) =
      some (crc16 (frameBody m)) := by
    have hl : 8 + m.payload.length = ([0x48, 0x4B] ++ frameBody m).length := by
      rw [List.length_append, frameBody_length]
      simp only [List.length_cons, List.length_nil]
      omega
    rw [frameBytes_append, ← List.append_assoc, hl]
    exact readU16_bytes16
  have h0 : (frameBytes m ++ rest)[0]? = some 0x48 := rfl
  have h1 : (frameBytes m ++ rest)[1]? = some 0x4B := rfl
  have h2 : (frameBytes m ++ rest)[2]? = some protocolVersion := rfl
  have h3 : (frameBytes m ++ rest)[3]? = some m.type := rfl
  have hfit : ¬m.payload.length > maxPayload := Nat.not_lt.mpr h
  simp [ExternalLink.frameDecode, h0, h1, h2, h3, hseq, hpay, hbody, hcrc, readU16_length,
    h.length_toNat, hfit]

-- A frame is only looked for where a frame can be.
theorem frameDecode_of_maxFrame {length : Nat} (h : maxFrame ≤ data.length) :
    ∃ r, frameDecode data length = some r := by
  have h170 : maxFrame = 170 := rfl
  have h160 : maxPayload = 160 := rfl
  have get (i : Nat) (hi : i < 170) : ∃ b, data[i]? = some b :=
    ⟨_, List.getElem?_eq_getElem (by omega)⟩
  have word (i : Nat) (hi : i < 169) : ∃ v, readU16 data i = some v := readU16_of_lt (by omega)
  have part (i n : Nat) (hi : i + n ≤ 170) : ∃ l, region data i n = some l :=
    ⟨_, if_pos (by omega)⟩
  obtain ⟨b₀, h₀⟩ := get 0 (by decide)
  obtain ⟨b₁, h₁⟩ := get 1 (by decide)
  obtain ⟨b₂, h₂⟩ := get 2 (by decide)
  obtain ⟨b₃, h₃⟩ := get 3 (by decide)
  obtain ⟨v, hv⟩ := word 6 (by decide)
  obtain ⟨seq, hs⟩ := word 4 (by decide)
  rw [frameDecode]
  split
  case isTrue => exact ⟨_, rfl⟩
  case isFalse =>
    simp only [h₀, h₁, h₂, h₃, hv, hs, Option.bind_eq_bind, Option.bind_some]
    split
    · exact ⟨_, rfl⟩
    split
    · exact ⟨_, rfl⟩
    split
    · exact ⟨_, rfl⟩
    split
    · exact ⟨_, rfl⟩
    case isFalse hn =>
      rw [not_or] at hn
      obtain ⟨crc, hc⟩ := word (8 + v.toNat) (by omega)
      obtain ⟨body, hb⟩ := part 2 (v.toNat + 6) (by omega)
      obtain ⟨payload, hp⟩ := part 8 v.toNat (by omega)
      simp only [hc, hb, hp, Option.bind_some]
      split <;> exact ⟨_, rfl⟩

namespace StreamParser

variable {p p' : StreamParser} {byte : UInt8} {loaded : List UInt8}

theorem data_length : p.data.toList.length = maxFrame :=
  Vector.length_toList

-- The parser stays within its buffer.
theorem feed_bounded (h : p.length.toNat ≤ maxFrame) :
    ∃ r p', p.feed byte = some (r, p') ∧ p'.length.toNat ≤ maxFrame := by
  have h170 : maxFrame = 170 := rfl
  have hread (data : Vector UInt8 maxFrame) : ∃ v, readU16 data.toList 6 = some v :=
    readU16_of_lt (by rw [Vector.length_toList]; decide)
  have hdecode (data : Vector UInt8 maxFrame) (n : Nat) : ∃ r, frameDecode data.toList n = some r :=
    frameDecode_of_maxFrame (Nat.le_of_eq Vector.length_toList.symm)
  rw [feed]
  split
  case isTrue => exact ⟨none, p, rfl, h⟩
  split
  case isTrue =>
    refine ⟨none, _, rfl, ?_⟩
    dsimp only
    split <;> decide
  case isFalse =>
    rw [append]
    -- The length of the parser that the byte is stored into.
    have hq : ∃ q, (if p.length.toNat ≥ maxFrame then p.reset else p) = q ∧
        q.length.toNat < maxFrame := by
      split
      case isTrue     => exact ⟨_, rfl, show 0 < maxFrame by decide⟩
      case isFalse hn => exact ⟨_, rfl, Nat.lt_of_not_le hn⟩
    obtain ⟨q, hq, hlt⟩ := hq
    have hsucc : (q.length + 1).toNat = q.length.toNat + 1 := by
      rw [UInt16.toNat_add]
      exact Nat.mod_eq_of_lt (show _ + 1 < 65536 by omega)
    simp only [hq, store, dif_pos hlt, Option.bind_eq_bind, Option.bind_some]
    obtain ⟨v, hv⟩ := hread (q.data.set q.length.toNat byte hlt)
    obtain ⟨r, hr⟩ := hdecode (q.data.set q.length.toNat byte hlt)
      (v + UInt16.ofNat frameOverhead).toNat
    have hle : (q.length + 1).toNat ≤ maxFrame := by omega
    split
    · exact ⟨none, _, rfl, hle⟩
    rw [hv, Option.bind_some]
    split
    · exact ⟨none, _, rfl, Nat.zero_le _⟩
    split
    · exact ⟨none, _, rfl, hle⟩
    split
    · rw [hr]
      exact ⟨r, _, rfl, Nat.zero_le _⟩
    · exact ⟨none, _, rfl, Nat.zero_le _⟩

theorem feedAll_cons {bytes : List UInt8} {x : Option Message} {xs : List (Option Message)}
    {q : StreamParser} (h : p.feed byte = some (x, q)) (hs : q.feedAll bytes = some (xs, p')) :
    p.feedAll (byte :: bytes) = some (x :: xs, p') := by
  rw [feedAll, h, Option.bind_eq_bind, Option.bind_some]
  dsimp only
  rw [hs]
  rfl

theorem feedAll_bounded {bytes : List UInt8} (h : p.length.toNat ≤ maxFrame) :
    ∃ r p', p.feedAll bytes = some (r, p') ∧ p'.length.toNat ≤ maxFrame := by
  induction bytes generalizing p with
  | nil => exact ⟨[], p, rfl, h⟩
  | cons byte bytes ih =>
    obtain ⟨r, p₁, hr, h₁⟩ := @feed_bounded p byte h
    obtain ⟨rs, p₂, hrs, h₂⟩ := ih h₁
    exact ⟨r :: rs, p₂, feedAll_cons hr hrs, h₂⟩

theorem feedAll_append {bytes bytes' : List UInt8} {r r' : List (Option Message)}
    {p₁ p₂ : StreamParser} (h : p.feedAll bytes = some (r, p₁))
    (h' : p₁.feedAll bytes' = some (r', p₂)) :
    p.feedAll (bytes ++ bytes') = some (r ++ r', p₂) := by
  induction bytes generalizing p r with
  | nil =>
    cases h
    exact h'
  | cons byte bytes ih =>
    rw [feedAll, Option.bind_eq_bind, Option.bind_eq_some_iff] at h
    obtain ⟨⟨x, q⟩, hx, h⟩ := h
    rw [Option.bind_eq_bind, Option.bind_eq_some_iff] at h
    obtain ⟨⟨xs, q'⟩, hxs, h⟩ := h
    cases h
    exact feedAll_cons hx (ih hxs)

-- The parser has these bytes of a frame.
structure Loaded (p : StreamParser) (loaded : List UInt8) : Prop where
  length : p.length.toNat = loaded.length
  data : p.data.toList.take loaded.length = loaded

theorem Loaded.split (h : p.Loaded loaded) :
    p.data.toList = loaded ++ p.data.toList.drop loaded.length := by
  conv_lhs => rw [← List.take_append_drop loaded.length p.data.toList, h.data]

theorem Loaded.stored (h : p.Loaded loaded) (hl : loaded.length < maxFrame) :
    ∃ p', p.store p.length.toNat byte = some p' ∧ p'.length = p.length ∧
      Loaded { p' with length := p'.length + 1 } (loaded ++ [byte]) := by
  have hlt : p.length.toNat < maxFrame := h.length ▸ hl
  refine ⟨_, dif_pos hlt, rfl, ?_, ?_⟩
  · have h170 : maxFrame = 170 := rfl
    rw [List.length_append, ← h.length]
    dsimp only
    rw [UInt16.toNat_add]
    exact Nat.mod_eq_of_lt (show _ + 1 < 65536 by omega)
  · dsimp only
    rw [Vector.toList_set, h.length, List.length_append, List.length_singleton]
    conv_lhs => rw [h.split]
    rw [List.set_append_right _ _ (Nat.le_refl _), Nat.sub_self, List.take_append,
      List.take_of_length_le (Nat.le_succ _), Nat.add_sub_cancel_left]
    have hpos : 0 < (p.data.toList.drop loaded.length).length := by
      rw [List.length_drop, data_length]
      omega
    generalize p.data.toList.drop loaded.length = behind at hpos
    cases behind with
    | nil      => exact absurd hpos (Nat.lt_irrefl 0)
    | cons _ _ => rfl

-- A byte of a frame that is not the first one is appended.
theorem Loaded.feed_eq (h : p.Loaded loaded) (hn : loaded ≠ [])
    (hs : frameBytes m = loaded ++ byte :: rest) : p.feed byte = p.append byte := by
  have hpos := List.length_pos_iff.mpr hn
  have h0 : p.length ≠ 0 := by
    intro he
    have hz := h.length
    rw [he] at hz
    exact absurd hz.symm (Nat.ne_of_gt hpos)
  have h1 : ¬(p.length = 1 ∧ byte ≠ 0x4B) := by
    rintro ⟨he, hb⟩
    have hl := h.length
    rw [he] at hl
    match loaded with
    | []         => exact hn rfl
    | [first]    => exact hb (List.cons.inj (List.cons.inj hs).right).left.symm
    | _ :: _ :: _ => exact absurd hl (by simp)
  rw [feed, if_neg fun hz => h0 hz.left, if_neg h1]

-- The frame's length is known when it is needed.
theorem Loaded.expected (h : p.Loaded loaded) (hs : frameBytes m = loaded ++ rest)
    (h8 : 8 ≤ loaded.length) : readU16 p.data.toList 6 = some (.ofNat m.payload.length) := by
  have hf : readU16 (frameBytes m) 6 = some (.ofNat m.payload.length) := by
    rw [← List.append_nil (frameBytes m)]
    exact readU16_length
  rw [h.split, readU16_append h8, ← hf, hs, readU16_append h8]

theorem Loaded.feed (h : p.Loaded loaded) (hf : Fits m) (hn : loaded ≠ [])
    (hs : frameBytes m = loaded ++ byte :: rest) :
    ∃ p', p.feed byte = some (if rest = [] then some m else none, p') ∧
      (rest = [] → p'.length = 0) ∧ (rest ≠ [] → p'.Loaded (loaded ++ [byte])) := by
  have hlen := congrArg List.length hs
  have hle := Fits.frame_le hf
  rw [List.length_append, List.length_cons] at hlen
  have hlt : loaded.length < maxFrame := by omega
  have hs' : frameBytes m = (loaded ++ [byte]) ++ rest := by rw [hs, List.append_assoc]; rfl
  have hfull : ¬p.length.toNat ≥ maxFrame := by rw [h.length]; omega
  obtain ⟨p₁, hst, hl₁, h₁⟩ := @Loaded.stored p byte loaded h hlt
  have hto := h₁.length
  dsimp only at hto
  have hs8 : ((8 : UInt16)).toNat = 8 := rfl
  rw [h.feed_eq hn hs, append, if_neg hfull, hst, Option.bind_eq_bind, Option.bind_some]
  dsimp only
  have hmin : rest = [] → 8 ≤ (loaded ++ [byte]).length := by
    rintro rfl
    rw [frameBytes_length, frameOverhead] at hlen
    simp only [List.length_append, List.length_singleton]
    simp only [List.length_nil] at hlen
    omega
  split
  case isTrue h8 =>
    rw [UInt16.lt_iff_toNat_lt, hto, hs8] at h8
    have hr : rest ≠ [] := fun he => absurd (hmin he) (Nat.not_le.mpr h8)
    rw [if_neg hr]
    exact ⟨_, rfl, fun he => absurd he hr, fun _ => h₁⟩
  case isFalse h8 =>
    rw [UInt16.lt_iff_toNat_lt, hto, hs8, Nat.not_lt] at h8
    have hx := h₁.expected hs' h8
    dsimp only at hx
    have he := Fits.expected_toNat hf
    rw [hx, Option.bind_eq_bind, Option.bind_some, if_neg (by rw [he]; omega)]
    have hcmp := congrArg List.length hs'
    rw [List.length_append] at hcmp
    by_cases hr : rest = []
    case neg =>
      have hpos := List.length_pos_iff.mpr hr
      rw [if_pos (UInt16.lt_iff_toNat_lt.mpr (by rw [hto, he]; omega)), if_neg hr]
      exact ⟨_, rfl, fun he => absurd he hr, fun _ => h₁⟩
    case pos =>
      subst hr
      have heq : p₁.length + 1 = UInt16.ofNat m.payload.length + .ofNat frameOverhead :=
        UInt16.toNat_inj.mp (by rw [hto, he, hcmp, List.length_nil, Nat.add_zero])
      rw [if_neg (by rw [heq]; exact UInt16.lt_irrefl _), if_pos heq, he, frameBytes_length]
      have hd := h₁.split
      rw [List.append_nil] at hs'
      rw [← hs'] at hd
      dsimp only at hd
      rw [hd, Fits.frameDecode hf]
      exact ⟨_, rfl, fun _ => rfl, fun hn => absurd rfl hn⟩

theorem Loaded.feedAll (h : p.Loaded loaded) (hf : Fits m) (hn : loaded ≠ [])
    (hs : frameBytes m = loaded ++ rest) (hr : rest ≠ []) : ∃ p', p.feedAll rest =
      some (.replicate (rest.length - 1) none ++ [some m], p') ∧ p'.length = 0 := by
  induction rest generalizing p loaded with
  | nil => exact absurd rfl hr
  | cons byte rest ih =>
    obtain ⟨p₁, hfeed, hend, hnext⟩ := h.feed hf hn hs
    cases rest with
    | nil => exact ⟨p₁, feedAll_cons hfeed rfl, hend rfl⟩
    | cons byte' rest' =>
      have hs' : frameBytes m = (loaded ++ [byte]) ++ byte' :: rest' := by simp [hs]
      obtain ⟨p', hall, hz⟩ := ih (hnext (List.cons_ne_nil _ _)) (by simp) hs'
        (List.cons_ne_nil _ _)
      exact ⟨p', feedAll_cons hfeed hall, hz⟩

-- Between two frames, the parser may have what could be the first byte of one.
def Idle (p : StreamParser) : Prop :=
  p.length = 0 ∨ p.Loaded [0x48]

theorem Loaded.length_eq_one (h : p.Loaded [0x48]) : p.length = 1 :=
  UInt16.toNat_inj.mp h.length

theorem feed_first (h : p.Idle) : ∃ p', p.feed 0x48 = some (none, p') ∧ p'.Loaded [0x48] := by
  rcases h with hz | h
  · have hl : p.Loaded [] := ⟨by rw [hz]; rfl, rfl⟩
    obtain ⟨p₁, hst, hl₁, h₁⟩ := @Loaded.stored p 0x48 [] hl (show 0 < maxFrame by decide)
    refine ⟨{ p₁ with length := p₁.length + 1 }, ?_, h₁⟩
    rw [hz] at hl₁
    rw [feed, if_neg fun hn => hn.right rfl,
      if_neg fun hn => absurd (hz.symm.trans hn.left) (by decide), append, if_neg (by rw [hz]; decide), hst, Option.bind_eq_bind, Option.bind_some]
    dsimp only
    rw [hl₁, if_pos (by decide)]
    rfl
  · have h0 := h.length_eq_one
    have hne : p.length ≠ 0 := by rw [h0]; decide
    have hlt : 0 < maxFrame := by decide
    rw [feed, if_neg fun hn => hne hn.left, if_pos ⟨h0, by decide⟩, store, dif_pos hlt]
    refine ⟨_, rfl, rfl, ?_⟩
    dsimp only
    rw [Vector.toList_set]
    conv_lhs => rw [h.split]
    rfl

-- Noise does not have both of the bytes that frames begin with next to each other.
def Noise (noise : List UInt8) : Prop :=
  ¬[0x48, 0x4B] <:+: noise

theorem Noise.tail {noise : List UInt8} (h : Noise (byte :: noise)) : Noise noise :=
  fun hi => h (hi.trans (List.suffix_cons _ _).isInfix)

theorem Noise.head {noise : List UInt8} (h : Noise (0x48 :: noise)) : noise.head? ≠ some 0x4B := by
  intro hh
  obtain ⟨rest, rfl⟩ := List.head?_eq_some_iff.mp hh
  exact h ⟨[], rest, rfl⟩

theorem feed_noise (h : p.Idle) (hb : p.length = 1 → byte ≠ 0x4B) :
    ∃ p', p.feed byte = some (none, p') ∧ p'.Idle ∧ (byte ≠ 0x48 → p'.length = 0) := by
  by_cases hh : byte = 0x48
  case pos =>
    subst hh
    obtain ⟨p', hf, hl⟩ := feed_first h
    exact ⟨p', hf, .inr hl, fun hn => absurd rfl hn⟩
  case neg =>
    rcases h with hz | h
    · exact ⟨p, by rw [feed, if_pos ⟨hz, hh⟩]; rfl, .inl hz, fun _ => hz⟩
    · have h1 := h.length_eq_one
      have hlt : 0 < maxFrame := by decide
      refine ⟨{ p with data := p.data.set 0 byte hlt, length := 0 }, ?_, .inl rfl, fun _ => rfl⟩
      rw [feed, if_neg fun hn => absurd (h1.symm.trans hn.left) (by decide),
        if_pos ⟨h1, hb h1⟩, store, dif_pos hlt, if_neg hh]
      rfl

theorem feedAll_noise {noise : List UInt8} (h : p.Idle) (hn : Noise noise)
    (hb : p.length = 1 → noise.head? ≠ some 0x4B) :
    ∃ p', p.feedAll noise = some (.replicate noise.length none, p') ∧ p'.Idle := by
  induction noise generalizing p with
  | nil => exact ⟨p, rfl, h⟩
  | cons byte noise ih =>
    obtain ⟨p₁, hf, h₁, hz⟩ := feed_noise h fun hl he => hb hl (congrArg some he)
    have hb₁ : p₁.length = 1 → noise.head? ≠ some 0x4B := by
      intro hl
      by_cases hh : byte = 0x48
      case pos =>
        subst hh
        exact hn.head
      case neg => exact absurd (hl.symm.trans (hz hh)) (by decide)
    obtain ⟨p', ha, h'⟩ := ih h₁ hn.tail hb₁
    exact ⟨p', feedAll_cons hf ha, h'⟩

-- A frame with noise in front of it.
structure Segment where
  noise : List UInt8
  message : Message

namespace Segment

def Valid (segment : Segment) : Prop :=
  Noise segment.noise ∧ Fits segment.message

def bytes (segment : Segment) : List UInt8 :=
  segment.noise ++ (frameEncode segment.message maxFrame).getD []

-- The message comes with the last byte of its frame.
def replies (segment : Segment) : List (Option Message) :=
  .replicate (segment.bytes.length - 1) none ++ [some segment.message]

end Segment

theorem feedAll_segment {segment : Segment} (h : p.length = 0) (hv : segment.Valid) :
    ∃ p', p.feedAll segment.bytes = some (segment.replies, p') ∧ p'.length = 0 := by
  obtain ⟨hnoise, hfit⟩ := hv
  have hcap : segment.message.payload.length + frameOverhead ≤ maxFrame :=
    Nat.add_le_add_right hfit _
  have hne : p.length ≠ 1 := by rw [h]; decide
  obtain ⟨p₁, hn, h₁⟩ := feedAll_noise (.inl h) hnoise fun hl => absurd hl hne
  obtain ⟨p₂, hf, h₂⟩ := feed_first h₁
  obtain ⟨rest, hs, hr⟩ : ∃ rest, frameBytes segment.message = [0x48] ++ rest ∧ rest ≠ [] :=
    ⟨_, rfl, List.cons_ne_nil _ _⟩
  obtain ⟨p₃, ha, h₃⟩ := h₂.feedAll hfit (List.cons_ne_nil _ _) hs hr
  refine ⟨p₃, ?_, h₃⟩
  have hpos := List.length_pos_iff.mpr hr
  have hb : segment.bytes = segment.noise ++ 0x48 :: rest := by
    rw [Segment.bytes, hfit.frameEncode hcap, Option.getD_some, hs]
    rfl
  have hlen : segment.bytes.length - 1 = segment.noise.length + ((rest.length - 1) + 1) := by
    rw [hb, List.length_append, List.length_cons]
    omega
  have hrep : segment.replies = .replicate segment.noise.length none ++
      (none :: (.replicate (rest.length - 1) none ++ [some segment.message])) := by
    rw [Segment.replies, hlen, List.replicate_add, List.replicate_succ, List.append_assoc]
    rfl
  rw [hb, hrep]
  exact feedAll_append hn (feedAll_cons hf ha)

theorem feedAll_segments {segments : List Segment} {noise : List UInt8} (h : p.length = 0)
    (hv : ∀ segment ∈ segments, segment.Valid) (hn : Noise noise) :
    ∃ p', p.feedAll (segments.flatMap Segment.bytes ++ noise) =
      some (segments.flatMap Segment.replies ++ .replicate noise.length none, p') := by
  induction segments generalizing p with
  | nil =>
    have hne : p.length ≠ 1 := by rw [h]; decide
    obtain ⟨p', ha, _⟩ := feedAll_noise (.inl h) hn fun hl => absurd hl hne
    exact ⟨p', ha⟩
  | cons segment segments ih =>
    obtain ⟨hs, hv⟩ := List.forall_mem_cons.mp hv
    obtain ⟨p₁, h₁, hz⟩ := feedAll_segment h hs
    obtain ⟨p', h'⟩ := ih hz hv
    refine ⟨p', ?_⟩
    rw [List.flatMap_cons, List.flatMap_cons, List.append_assoc, List.append_assoc]
    exact feedAll_append h₁ h'

end StreamParser

-- Messages come back from their frames, and from a stream of frames and noise. Whatever the stream
-- is, the parser stays within its buffer.
theorem link_frames :
    (∀ m capacity, m.payload.length ≤ maxPayload → m.payload.length + frameOverhead ≤ capacity →
      ∃ frame, frameEncode m capacity = some frame ∧
        frameDecode frame frame.length = some (some m)) ∧
    (∀ (p : StreamParser) (segments : List StreamParser.Segment) noise, p.length = 0 →
      (∀ segment ∈ segments, segment.Valid) → StreamParser.Noise noise →
      ∃ p', p.feedAll (segments.flatMap StreamParser.Segment.bytes ++ noise) =
        some (segments.flatMap StreamParser.Segment.replies ++ .replicate noise.length none, p')) ∧
    ∀ (p : StreamParser) bytes, p.length.toNat ≤ maxFrame →
      ∃ r p', p.feedAll bytes = some (r, p') ∧ p'.length.toNat ≤ maxFrame := by
  refine ⟨fun m capacity hm hc => ⟨frameBytes m, Fits.frameEncode hm hc, ?_⟩,
    fun p segments noise => StreamParser.feedAll_segments,
    fun p bytes => StreamParser.feedAll_bounded⟩
  have hd : frameDecode (frameBytes m ++ []) _ = some (some m) := Fits.frameDecode hm
  rw [List.append_nil] at hd
  rw [frameBytes_length, hd]

end ExternalLink
