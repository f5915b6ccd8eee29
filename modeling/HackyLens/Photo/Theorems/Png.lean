import HackyLens.Photo.Png
import HackyLens.Storage.Theorems.Fat32

namespace Png

open Core Fat32

variable {v : Volume} {entry : Entry} {buf : Memory} {c c' c₂ : Collect}

-- The chunks whose headers the walk reads.
inductive Reached (v : Volume) (entry : Entry) (buf : Memory) : Collect → Prop
  | start {c : Collect} : checkSig v entry buf = .inr c → Reached v entry buf c
  | pass {c c' : Collect} :
    Reached v entry buf c → pass v entry c = .inr c' → Reached v entry buf c'

namespace Collect

-- The state once the header of the chunk has been read.
def headed (v : Volume) (entry : Entry) (c : Collect) : Collect :=
  { c with buf := fill c.buf (v.readAt entry c.offset 8).snd, offset := c.offset + 8 }

def len (c : Collect) : UInt32 :=
  rd32be c.buf

def type (c : Collect) : List UInt8 :=
  c.buf.read 4 4

def handled (v : Volume) (entry : Entry) (c : Collect) : Step :=
  let c := c.headed v entry
  handleChunk v entry c.type c.len c

end Collect

@[simp]
theorem Collect.headed_offset : (c.headed v entry).offset = c.offset + 8 :=
  rfl

theorem fill_read {bytes : List UInt8} {addr n : Nat} (h : addr + n ≤ bytes.length) :
    (fill buf bytes).read addr n = Memory.read (bytes.getD · 0) addr n :=
  Memory.read_overlay (Nat.zero_le _) (by omega)

theorem rd32be_fill {bytes : List UInt8} (h : 4 ≤ bytes.length) :
    rd32be (fill buf bytes) = rd32be (bytes.getD · 0) := by
  have hf (i : Nat) (hi : i < 4) : fill buf bytes i = bytes.getD i 0 :=
    if_pos ⟨Nat.zero_le _, by omega⟩
  rw [rd32be, hf 0 (by decide), hf 1 (by decide), hf 2 (by decide), hf 3 (by decide)]
  rfl

-- The tests that a chunk passes before its type is looked at.
structure Admitted (v : Volume) (entry : Entry) (c : Collect) : Prop where
  room : c.offset + 12 ≤ entry.size
  read : (v.readAt entry c.offset 8).fst
  fits : (c.headed v entry).offset + (c.headed v entry).len + 4 ≤ entry.size

theorem pass_inr (h : pass v entry c = .inr c') :
    Admitted v entry c ∧ ∃ c₂, c.handled v entry = .inr c₂ ∧
      c' = { c₂ with offset := c₂.offset + ((c.headed v entry).len + 4) } := by
  rw [pass] at h
  split at h
  case isTrue => cases h
  case isFalse hr =>
  dsimp only at h
  split at h
  case isTrue => cases h
  case isFalse ho =>
  split at h
  case isTrue => cases h
  case isFalse hf =>
  split at h
  case h_1 => cases h
  case h_2 c₂ hc =>
    cases h
    exact ⟨⟨not_not.mp hr, by simpa using ho, UInt32.not_lt.mp hf⟩, c₂, hc, rfl⟩

theorem pass_eq (h : Admitted v entry c) :
    pass v entry c =
      (c.handled v entry).elim .inl
        fun c₂ => .inr { c₂ with offset := c₂.offset + ((c.headed v entry).len + 4) } := by
  rw [pass, if_neg (not_not.mpr h.room)]
  dsimp only
  rw [if_neg (by simp [h.read])]
  refine (if_neg (UInt32.not_lt.mpr h.fits)).trans ?_
  generalize hx : c.handled v entry = x
  split
  case h_1 hr => cases hr.symm.trans hx; rfl
  case h_2 hr => cases hr.symm.trans hx; rfl

theorem copyLoop_offset (v : Volume) (entry : Entry) (rounds : Nat) (remain chunkOffset : UInt32)
    (c : Collect) :
    (copyLoop v entry rounds remain chunkOffset c).snd.offset = c.offset := by
  induction rounds generalizing remain chunkOffset c with
  | zero           => rfl
  | succ rounds ih =>
    rw [copyLoop]
    split
    case isTrue => rfl
    case isFalse =>
      extract_lets take
      dsimp only
      split
      case isTrue  => rfl
      case isFalse => exact ih ..

theorem handleChunk_offset {type : List UInt8} {len : UInt32}
    (h : handleChunk v entry type len c = .inr c') :
    c'.offset = c.offset := by
  rw [handleChunk] at h
  split at h
  case isTrue =>
    rw [readIhdr] at h
    dsimp only at h
    repeat' split at h
    all_goals first | cases h; rfl | cases h
  case isFalse =>
  split at h
  case isTrue =>
    rw [copyIdat] at h
    dsimp only at h
    split at h
    case isTrue => cases h
    case isFalse =>
      split at h
      case isTrue  => cases h; exact copyLoop_offset ..
      case isFalse => cases h
  case isFalse =>
  split at h
  case isTrue  => cases h
  case isFalse => cases h; rfl

-- The sum of a chunk's place and length wraps around, and not behind the place again.
structure Overflows (v : Volume) (entry : Entry) (c : Collect) : Prop where
  admitted : Admitted v entry c
  handled : (c.handled v entry).isRight
  wraps : 2 ^ 32 ≤ c.offset.toNat + 12 + (c.headed v entry).len.toNat
  back : (c.headed v entry).len.toNat ≤ 2 ^ 32 - 12 ∨
    2 ^ 33 ≤ c.offset.toNat + 12 + (c.headed v entry).len.toNat

-- Every pass of the loop that is reached returns or increases the offset, and one returns.
def Terminates (v : Volume) (entry : Entry) (buf : Memory) : Prop :=
  (∃ rounds r, collectIdat v entry rounds buf = some r) ∧
  ∀ c c', Reached v entry buf c → pass v entry c = .inr c' → c.offset < c'.offset

theorem pass_offset (h : pass v entry c = .inr c') :
    c'.offset.toNat = (c.offset.toNat + 12 + (c.headed v entry).len.toNat) % 2 ^ 32 := by
  obtain ⟨-, c₂, hc, rfl⟩ := pass_inr h
  have ho := handleChunk_offset hc
  simp only [ho, Collect.headed, UInt32.toNat_add, UInt32.reduceToNat]
  omega

-- A pass that goes on moves the offset forward unless the chunk overflows.
theorem pass_increases (h : pass v entry c = .inr c') :
    c.offset < c'.offset ↔ ¬Overflows v entry c := by
  have ho := pass_offset h
  obtain ⟨ha, c₂, hc, -⟩ := pass_inr h
  have hs := c.offset.toNat_lt
  have hl := (c.headed v entry).len.toNat_lt
  rw [UInt32.lt_iff_toNat_lt, ho]
  refine ⟨fun hi h => ?_, fun hn => ?_⟩
  · have hw := h.wraps
    have hb := h.back
    omega
  · by_contra hi
    exact hn ⟨ha, by rw [hc]; rfl, by omega, by omega⟩

theorem chunkLoop_isSome
    (h : ∀ c c', Reached v entry buf c → pass v entry c = .inr c' → c.offset < c'.offset)
    (hc : Reached v entry buf c) : ∃ rounds r, chunkLoop v entry rounds c = some r := by
  induction hn : 2 ^ 32 - c.offset.toNat using Nat.strong_induction_on generalizing c with
  | _ n ih =>
    cases hp : pass v entry c with
    | inl r  => exact ⟨1, r, by rw [chunkLoop, hp]⟩
    | inr c' =>
      have hi := UInt32.lt_iff_toNat_lt.mp (h c c' hc hp)
      have hl := c'.offset.toNat_lt
      obtain ⟨rounds, r, hr⟩ := ih _ (by omega) (hc.pass hp) rfl
      exact ⟨rounds + 1, r, by rw [chunkLoop, hp]; exact hr⟩

-- The walk over the chunks ends, exactly as long as no chunk that it steps over overflows.
theorem terminates_iff :
    Terminates v entry buf ↔ ∀ c, Reached v entry buf c → ¬Overflows v entry c := by
  refine ⟨fun h c hc ho => ?_, fun h => ?_⟩
  · obtain ⟨c₂, hh⟩ := Sum.isRight_iff.mp ho.handled
    have hp := pass_eq ho.admitted
    rw [hh] at hp
    exact (pass_increases hp).mp (h.right _ _ hc hp) ho
  · have hi c c' (hc : Reached v entry buf c) (hp : pass v entry c = .inr c') :
        c.offset < c'.offset :=
      (pass_increases hp).mpr (h c hc)
    refine ⟨?_, hi⟩
    cases hs : checkSig v entry buf with
    | inl r => exact ⟨0, r, by rw [collectIdat, hs]⟩
    | inr c =>
      obtain ⟨rounds, r, hr⟩ := chunkLoop_isSome hi (.start hs)
      exact ⟨rounds, r, by rw [collectIdat, hs]; exact hr⟩

-- A volume with a file of one sector.
def oneSector (content : List UInt8) : Volume :=
  ⟨⟨0, 32, 1, single_mounted⟩, fun lba => some fun i => if lba = 32 then content.getD i 0 else 0xFF⟩

-- A signature, and the header of a chunk of a type of its own, which announces 2 ^ 32 - 12 bytes.
def endless : List UInt8 :=
  sig ++ [0xFF, 0xFF, 0xFF, 0xF4, 0x74, 0x45, 0x58, 0x74]

theorem endless_pass (h : c.offset = 8) :
    ∃ c', pass (oneSector endless) ⟨2, 33⟩ c = .inr c' ∧ c'.offset = 8 := by
  have hr : (oneSector endless).readAt ⟨2, 33⟩ 8 8 = (true, endless.drop 8) := by decide
  have hl : (c.headed (oneSector endless) ⟨2, 33⟩).len = 0xFFFFFFF4 := by
    rw [Collect.headed, h, hr]
    exact (rd32be_fill (by decide)).trans (by decide)
  have ht : (c.headed (oneSector endless) ⟨2, 33⟩).type = [0x74, 0x45, 0x58, 0x74] := by
    rw [Collect.headed, h, hr]
    exact (fill_read (by decide)).trans (by decide)
  have ho : (c.headed (oneSector endless) ⟨2, 33⟩).offset = 16 := by
    rw [Collect.headed, h]
    rfl
  have ha : Admitted (oneSector endless) ⟨2, 33⟩ c :=
    ⟨by rw [h]; decide, by rw [h, hr], by rw [ho, hl]; decide⟩
  have hp := pass_eq ha
  rw [Collect.handled, ht] at hp
  refine ⟨_, hp, ?_⟩
  rw [hl, ho]
  rfl

theorem endless_never_returns :
    ¬∃ rounds r, collectIdat (oneSector endless) ⟨2, 33⟩ rounds (fun _ => 0) = some r := by
  have loops (rounds : Nat) : ∀ c : Collect, c.offset = 8 →
      chunkLoop (oneSector endless) ⟨2, 33⟩ rounds c = none := by
    induction rounds with
    | zero           => exact fun _ _ => rfl
    | succ rounds ih =>
      intro c hc
      obtain ⟨c', hp, hc'⟩ := endless_pass hc
      rw [chunkLoop, hp]
      exact ih c' hc'
  rintro ⟨rounds, r, h⟩
  cases (loops rounds _ rfl).symm.trans h

end Png
