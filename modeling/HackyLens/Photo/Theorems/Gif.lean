import HackyLens.Lib.Run
import HackyLens.Photo.Gif

namespace Gif

open Core Fat32 Prog

-- The calls that the decoder is allowed to make. A row is of the frame, and its indices are of the
-- palette.
def Call.Safe : Call → Prop
  | outOfRange => False
  | renderIndexedRow frame frameRow indices _ paletteSize =>
    frameRow < frame.frameH ∧ indices.length = frame.frameW ∧ paletteSize ≤ paletteMax ∧
      ∀ index ∈ indices, index.toNat < paletteSize
  | _ => True

-- Whatever the card and the sink answer, no loop may use up its rounds.
abbrev env : Env Call Call.Reply Unit ((c : Call) → c.Reply) :=
  .total Call.Reply Call.Safe

variable {g : Geometry} {s s' s'' : Globals} {w : Unit} {α : Type} {len n : Nat}

-- How many bytes of the file there are behind the stream.
def Globals.left (s : Globals) : Nat :=
  s.gif.entry.size.toNat - s.gif.stream.fileOffset.toNat

-- The stream has been read from.
structure Moved (s s' : Globals) : Prop where
  eq : s' = { s with gif := { s.gif with stream := s'.gif.stream }, sectorData := s'.sectorData }
  left : s'.left ≤ s.left

theorem Moved.refl : Moved s s :=
  ⟨rfl, Nat.le_refl _⟩

theorem Moved.trans (h : Moved s s') (h' : Moved s' s'') : Moved s s'' := by
  refine ⟨?_, h'.left.trans h.left⟩
  rw [h'.eq, h.eq]

theorem Moved.entry (h : Moved s s') : s'.gif.entry = s.gif.entry := by
  rw [h.eq]

theorem wp_check {Q : Unit → Globals → Unit → Prop} {i size : Nat} (h : i < size) (hq : Q () s w) :
    wp env (check i size) Q s w := by
  rw [check, if_pos h]
  exact hq

theorem wp_readBlock {Q : Bool → Globals → Unit → Prop} {lba : UInt32}
    (ht : ∀ sectorData, Q true { s with sectorData } w) (hf : Q false s w) :
    wp env (readBlock lba) Q s w := by
  rw [readBlock, wp_bind, wp_call]
  refine ⟨trivial, fun d _ => ?_⟩
  change wp env _ Q s w
  generalize (env.handler d (Call.readBlock lba) w).fst = answer
  cases answer
  case none            => exact hf
  case some sectorData => exact ht sectorData

theorem wp_nextCluster {Q : UInt32 → Globals → Unit → Prop} {cluster : UInt32}
    (hq : ∀ cluster sectorData, Q cluster { s with sectorData } w) :
    wp env (nextCluster g cluster) Q s w := by
  rw [nextCluster, wp_bind]
  exact wp_readBlock (fun sectorData => hq _ sectorData) (hq _ s.sectorData)

theorem wp_fetch {Q : Bool → Globals → Unit → Prop} {lba : UInt32}
    (hq : ∀ ok s', Moved s s' → s'.gif.stream.fileOffset = s.gif.stream.fileOffset → Q ok s' w) :
    wp env (fetch lba) Q s w := by
  rw [fetch, wp_bind, wp_get]
  beta_reduce
  rw [wp_ite]
  split
  case isTrue =>
    rw [wp_bind]
    exact wp_readBlock (fun sectorData => hq _ _ ⟨rfl, Nat.le_refl _⟩ rfl) (hq _ _ .refl rfl)
  case isFalse => exact hq _ _ .refl rfl

theorem wp_advance {Q : Unit → Globals → Unit → Prop} {take : UInt32}
    (h : s.gif.stream.fileOffset.toNat + take.toNat ≤ s.gif.entry.size.toNat)
    (hq : ∀ s', Moved s s' →
      s'.gif.stream.fileOffset.toNat = s.gif.stream.fileOffset.toNat + take.toNat → Q () s' w) :
    wp env (advance g take) Q s w := by
  have ho : (s.gif.stream.fileOffset + take).toNat =
      s.gif.stream.fileOffset.toNat + take.toNat := by
    rw [UInt32.toNat_add]
    exact Nat.mod_eq_of_lt (h.trans_lt s.gif.entry.size.toNat_lt)
  rw [advance, wp_bind, modifyGif, wp_modify, wp_bind, wp_get]
  beta_reduce
  rw [wp_ite]
  split
  case isTrue =>
    rw [wp_bind]
    refine wp_nextCluster fun cluster sectorData => hq _ ⟨rfl, ?_⟩ ho
    exact Nat.sub_le_sub_left (ho ▸ Nat.le_add_right ..) _
  case isFalse => exact hq _ ⟨rfl, Nat.sub_le_sub_left (ho ▸ Nat.le_add_right ..) _⟩ ho

-- What holds in the loop of `fat_stream_read`, of whose bytes `len'` are left.
structure Reading (s : Globals) (len n : Nat) (b : List UInt8 × Nat) (s' : Globals) : Prop where
  count : n = b.snd
  moved : Moved s s'
  range : s'.gif.stream.fileOffset.toNat ≤ s.gif.entry.size.toNat
  read : s'.left + len = s.left + b.snd

theorem wp_streamRound {b : List UInt8 × Nat} (h : Reading s len n b s') :
    wp env (streamRound g b)
      (fun r s' _ => r.elim
        (fun r => Moved s s' ∧ (r.fst → s'.left + len = s.left))
        fun b => ∃ m < n, Reading s len m b s') s' w := by
  obtain ⟨bytes, left⟩ := b
  have hc : n = left := h.count
  have hr := h.read
  rw [streamRound]
  dsimp only
  rw [wp_ite]
  split
  case isTrue hz =>
    refine ⟨h.moved, fun _ => ?_⟩
    rw [hr, hz]
    rfl
  case isFalse hz =>
  rw [wp_bind, wp_get]
  beta_reduce
  rw [wp_ite]
  split
  case isTrue => exact ⟨h.moved, nofun⟩
  case isFalse ho =>
  have ho := UInt32.lt_iff_toNat_lt.mp (UInt32.not_le.mp (not_or.mp ho).left)
  have ht : 0 < min (min (sdBlockSize - (s'.gif.stream.clusterOffset % 512).toNat) left)
      (s'.gif.entry.size - s'.gif.stream.fileOffset).toNat := by
    have hm : (s'.gif.stream.clusterOffset % 512).toNat < sdBlockSize := by
      rw [UInt32.toNat_mod]
      exact Nat.mod_lt _ (by decide)
    rw [UInt32.toNat_sub_of_le _ _ (UInt32.le_iff_toNat_le.mpr ho.le)]
    omega
  have hl : min (min (sdBlockSize - (s'.gif.stream.clusterOffset % 512).toNat) left)
      (s'.gif.entry.size - s'.gif.stream.fileOffset).toNat ≤
      min left (s'.gif.entry.size.toNat - s'.gif.stream.fileOffset.toNat) := by
    rw [UInt32.toNat_sub_of_le _ _ (UInt32.le_iff_toNat_le.mpr ho.le)]
    omega
  generalize min (min (sdBlockSize - (s'.gif.stream.clusterOffset % 512).toNat) left)
      (s'.gif.entry.size - s'.gif.stream.fileOffset).toNat = take at ht hl
  rw [wp_bind]
  refine wp_fetch fun ok s₁ hm hf => ?_
  rw [wp_ite]
  split
  case isFalse => exact ⟨h.moved.trans hm, nofun⟩
  case isTrue =>
  rw [wp_bind, wp_get]
  beta_reduce
  rw [wp_bind]
  have hs := s'.gif.entry.size.toNat_lt
  have hn : (UInt32.ofNat take).toNat = take :=
    UInt32.toNat_ofNat_of_lt' (show take < 2 ^ 32 by omega)
  refine wp_advance (by rw [hm.entry, hf, hn]; omega) fun s₂ hm₂ hf₂ => ?_
  have hm' := hm.trans hm₂
  have hr' : s₂.left + take = s'.left := by
    rw [Globals.left, Globals.left, hm'.entry, hf₂, hf, hn]
    omega
  refine ⟨left - take, by omega, rfl, h.moved.trans hm', ?_, ?_⟩
  · rw [hf₂, hf, hn, ← h.moved.entry]
    omega
  · dsimp only at hr ⊢
    omega

theorem wp_streamRead {Q : Bool × List UInt8 → Globals → Unit → Prop}
    (h : s.gif.stream.fileOffset.toNat ≤ s.gif.entry.size.toNat)
    (hq : ∀ (ok : Bool) bytes s', Moved s s' → (ok → s'.left + len = s.left) → Q (ok, bytes) s' w) :
    wp env (streamRead g len) Q s w := by
  refine wp_mono (wp_loop_of_lt (fun n b s' _ => Reading s len n b s')
    (Q := fun r s' _ => Moved s s' ∧ (r.fst → s'.left + len = s.left)) ?_ (Nat.lt_succ_self len)
    ⟨rfl, .refl, h, rfl⟩) fun r s' _ hr => hq r.fst r.snd s' hr.left hr.right
  exact fun n b s' w h => wp_streamRound h

theorem wp_read {Q : FileResult × List UInt8 → Globals → Unit → Prop}
    (hq : ∀ result bytes s', Moved s s' → (result = .ok → s'.left + len = s.left) →
      Q (result, bytes) s' w) : wp env (read g len) Q s w := by
  rw [read, wp_bind, wp_get]
  beta_reduce
  rw [wp_ite]
  split
  case isTrue => exact hq _ _ _ .refl nofun
  case isFalse h =>
  rw [wp_bind]
  have h := UInt32.le_iff_toNat_le.mp (UInt32.not_lt.mp (not_or.mp h).left)
  refine wp_streamRead h fun ok bytes s' hm hl => ?_
  cases ok
  case false => exact hq _ _ _ hm nofun
  case true  => exact hq _ _ _ hm fun _ => hl rfl

-- How many bytes the blocks can still give out without reading.
def Subblocks.left (blocks : Subblocks) : Nat :=
  if blocks.finished ∨ blocks.failure ≠ .ok then 0 else blocks.size - blocks.position

-- The bytes that are left at most, in the blocks and in the file.
def Subblocks.total (blocks : Subblocks) (s : Globals) : Nat :=
  blocks.left + s.left

theorem wp_takeByte {Q : Option UInt8 × Subblocks → Globals → Unit → Prop} {blocks : Subblocks}
    (hs : blocks.size ≤ 255) (hp : blocks.position < blocks.size)
    (hq : ∀ value, Q (some value, { blocks with position := blocks.position + 1 }) s w) :
    wp env (takeByte blocks) Q s w := by
  rw [takeByte, wp_bind]
  exact wp_check (by omega) (hq _)

theorem wp_subblockByte {Q : Option UInt8 × Subblocks → Globals → Unit → Prop} {blocks : Subblocks}
    (hs : blocks.size ≤ 255)
    (hn : ∀ blocks' s', Moved s s' → blocks'.size ≤ 255 → blocks'.total s' ≤ blocks.total s →
      Q (none, blocks') s' w)
    (hq : ∀ value blocks' s', Moved s s' → blocks'.size ≤ 255 →
      blocks'.total s' < blocks.total s → Q (some value, blocks') s' w) :
    wp env (subblockByte g blocks) Q s w := by
  rw [subblockByte, wp_ite]
  split
  case isTrue => exact hn _ _ .refl hs (Nat.le_refl _)
  case isFalse hf =>
  rw [wp_ite]
  split
  case isFalse hp =>
    refine wp_takeByte hs (by omega) fun value => hq _ _ _ .refl hs ?_
    rw [Subblocks.total, Subblocks.total, Subblocks.left, Subblocks.left, if_neg hf, if_neg hf]
    dsimp only
    omega
  case isTrue hp =>
  rw [wp_bind]
  refine wp_read fun result bytes s₁ hm₁ hl₁ => ?_
  dsimp only
  rw [wp_ite]
  split
  case isTrue hr =>
    refine hn _ _ hm₁ hs ?_
    have hl := hm₁.left
    rw [Subblocks.total, Subblocks.left, if_pos (.inr hr)]
    exact (Nat.zero_add _).trans_le (hl.trans (Nat.le_add_left ..))
  case isFalse hr =>
  have hl₁ := hl₁ (not_not.mp hr)
  have hz : blocks.left = 0 := by
    rw [Subblocks.left, if_neg hf]
    omega
  have hb := (bytes.getD 0 0).toNat_lt
  generalize (bytes.getD 0 0).toNat = size at hb
  rw [wp_ite]
  split
  case isTrue =>
    refine hn _ _ hm₁ (by dsimp only; omega) ?_
    rw [Subblocks.total, Subblocks.left, if_pos (.inl rfl)]
    exact (Nat.zero_add _).trans_le (hm₁.left.trans (Nat.le_add_left ..))
  case isFalse hp =>
  rw [wp_bind]
  refine wp_read fun result bytes s₂ hm₂ hl₂ => ?_
  dsimp only
  rw [wp_ite]
  split
  case isTrue hr =>
    refine hn _ _ (hm₁.trans hm₂) (by dsimp only; omega) ?_
    rw [Subblocks.total, Subblocks.left, if_pos (.inr hr)]
    exact (Nat.zero_add _).trans_le ((hm₁.trans hm₂).left.trans (Nat.le_add_left ..))
  case isFalse hr =>
  have hl₂ := hl₂ (not_not.mp hr)
  refine wp_takeByte (by dsimp only; omega) (Nat.pos_of_ne_zero hp) fun value => ?_
  refine hq _ _ _ (hm₁.trans hm₂) (by dsimp only; omega) ?_
  rw [Subblocks.total, Subblocks.total, hz, Subblocks.left, if_neg hf]
  dsimp only
  omega

theorem wp_drain {Q : Subblocks → Globals → Unit → Prop} {blocks : Subblocks}
    (hs : blocks.size ≤ 255) (hq : ∀ blocks s', Moved s s' → Q blocks s' w) :
    wp env (drain g blocks) Q s w := by
  rw [drain, wp_bind, wp_get]
  beta_reduce
  refine wp_mono (wp_loop_of_lt
    (fun n blocks s' _ => n = blocks.total s' ∧ blocks.size ≤ 255 ∧ Moved s s')
    (Q := fun _ s' _ => Moved s s') ?_ ?_ ⟨rfl, hs, .refl⟩) fun blocks s' _ hm => hq _ _ hm
  case refine_1 =>
    rintro n blocks s' w ⟨rfl, hs, hm⟩
    rw [wp_bind]
    refine wp_subblockByte hs (fun _ _ hm' _ _ => hm.trans hm') fun _ blocks' s'' hm' hs' ht => ?_
    exact ⟨_, ht, rfl, hs', hm.trans hm'⟩
  case refine_2 =>
    rw [Subblocks.total, Subblocks.left, Globals.left]
    split <;> omega

-- The bits that are left at most.
def Bits.total (b : Bits) (s : Globals) : Nat :=
  8 * b.blocks.total s + b.bitCount

theorem wp_readCode {Q : Option Nat × Bits → Globals → Unit → Prop} {b : Bits} {width : Nat}
    (hs : b.blocks.size ≤ 255)
    (hn : ∀ b' s', Moved s s' → b'.blocks.size ≤ 255 → Q (none, b') s' w)
    (hq : ∀ code b' s', Moved s s' → b'.blocks.size ≤ 255 → code < 2 ^ width →
      b'.total s' + width ≤ b.total s → Q (some code, b') s' w) :
    wp env (readCode g width b) Q s w := by
  rw [readCode, wp_bind]
  refine wp_mono (wp_loop_of_lt
    (fun n b' s' _ => n = width - b'.bitCount ∧ Moved s s' ∧ b'.blocks.size ≤ 255 ∧
      b'.total s' ≤ b.total s)
    (Q := fun r s' _ => Moved s s' ∧ r.snd.blocks.size ≤ 255 ∧
      (r.fst → width ≤ r.snd.bitCount ∧ r.snd.total s' ≤ b.total s)) ?_
    (Nat.lt_succ_of_le (Nat.sub_le ..)) ⟨rfl, .refl, hs, Nat.le_refl _⟩) ?_
  case refine_1 =>
    rintro n b' s' w ⟨rfl, hm, hs, ht⟩
    rw [bitsRound, wp_ite]
    split
    case isFalse hw => exact ⟨hm, hs, fun _ => ⟨Nat.le_of_not_lt hw, ht⟩⟩
    case isTrue hw =>
    rw [wp_bind]
    refine wp_subblockByte hs (fun _ _ hm' hs' _ => ⟨hm.trans hm', hs', nofun⟩) ?_
    intro value blocks s'' hm' hs' hl
    refine ⟨_, ?_, rfl, hm.trans hm', hs', ?_⟩
    · dsimp only
      omega
    · rw [Bits.total] at ht ⊢
      dsimp only
      omega
  case refine_2 =>
    rintro ⟨ok, b'⟩ s' _ ⟨hm, hs, hk⟩
    dsimp only
    rw [wp_ite]
    split
    case isTrue => exact hn _ _ hm hs
    case isFalse ho =>
      obtain ⟨hw, ht⟩ := hk (by simpa using ho)
      refine hq _ _ _ hm hs (Nat.mod_lt _ (Nat.two_pow_pos width)) ?_
      rw [Bits.total] at ht ⊢
      dsimp only at hw ht ⊢
      omega

-- The stream has been read from, and the frame's pixels have been worked on.
structure Forward (s s' : Globals) : Prop where
  gif : s'.gif = { s.gif with stream := s'.gif.stream }
  left : s'.left ≤ s.left

theorem Forward.refl : Forward s s :=
  ⟨rfl, Nat.le_refl _⟩

theorem Forward.of_gif (h : s'.gif = s.gif) : Forward s s' :=
  ⟨by rw [h], by rw [Globals.left, Globals.left, h]⟩

theorem Forward.trans (h : Forward s s') (h' : Forward s' s'') : Forward s s'' := by
  refine ⟨?_, h'.left.trans h.left⟩
  rw [h'.gif, h.gif]

theorem Moved.forward (h : Moved s s') : Forward s s' :=
  ⟨congrArg Globals.gif h.eq, h.left⟩

section Pixels

variable {frame : Frame} {palette : Nat → UInt16} {paletteSize pixelCount rowUsed : Nat}
variable {interlaced : Bool}

-- What the counts of `gif_decode_lzw` say about the pixels that have been emitted.
structure Counts (frame : Frame) (paletteSize pixelCount rowUsed : Nat) (s : Globals) : Prop where
  emitted : s.emitted = pixelCount
  pixels : pixelCount ≤ frame.frameW * frame.frameH
  used : rowUsed < frame.frameW
  row : ∀ i < rowUsed, (s.row i).toNat < paletteSize

theorem Counts.congr (h : Counts frame paletteSize pixelCount rowUsed s)
    (he : s'.emitted = s.emitted) (hr : s'.row = s.row) :
    Counts frame paletteSize pixelCount rowUsed s' :=
  ⟨he.trans h.emitted, h.pixels, h.used, hr ▸ h.row⟩

theorem Counts.moved (h : Counts frame paletteSize pixelCount rowUsed s) (hm : Moved s s') :
    Counts frame paletteSize pixelCount rowUsed s' :=
  h.congr (by rw [hm.eq]) (by rw [hm.eq])

theorem Counts.emitted_le (h : Counts frame paletteSize pixelCount rowUsed s) :
    s.emitted ≤ frame.frameW * frame.frameH :=
  h.emitted.trans_le h.pixels

variable (hw : frame.frameW ≤ Files.photoRowMaxBytes) (hp : paletteSize ≤ paletteMax)

include hw in
theorem wp_storeRow {Q : Unit → Globals → Unit → Prop} {index : UInt8}
    (h : rowUsed < frame.frameW)
    (hq : Q () { s with row := Function.update s.row rowUsed index, emitted := s.emitted + 1 } w) :
    wp env (storeRow rowUsed index) Q s w := by
  rw [storeRow, wp_bind]
  exact wp_check (h.trans_le hw) hq

include hw hp in
theorem wp_emitIndex {Q : FileResult × Nat × Nat → Globals → Unit → Prop} {index : UInt8}
    (h : Counts frame paletteSize pixelCount rowUsed s)
    (hq : ∀ result pixelCount rowUsed s', s'.gif = s.gif →
      s'.emitted ≤ frame.frameW * frame.frameH →
      (result = .ok → Counts frame paletteSize pixelCount rowUsed s') →
      Q (result, pixelCount, rowUsed) s' w) :
    wp env (emitIndex frame palette paletteSize interlaced index pixelCount rowUsed) Q s w := by
  rw [emitIndex, wp_ite]
  split
  case isTrue => exact hq _ _ _ _ rfl h.emitted_le nofun
  case isFalse hi =>
  rw [wp_ite]
  split
  case isTrue => exact hq _ _ _ _ rfl h.emitted_le nofun
  case isFalse hc =>
  rw [wp_bind]
  refine wp_storeRow hw h.used ?_
  have he : s.emitted + 1 ≤ frame.frameW * frame.frameH := by
    have he := h.emitted
    omega
  have hr : ∀ i < rowUsed + 1, (Function.update s.row rowUsed index i).toNat < paletteSize := by
    intro i hi'
    by_cases hx : i = rowUsed
    case pos =>
      rw [hx, Function.update_self]
      exact Nat.lt_of_not_le hi
    case neg =>
      rw [Function.update_of_ne hx]
      exact h.row i (by omega)
  have hu := h.used
  dsimp only
  rw [wp_ite]
  split
  case isTrue hn =>
    exact hq _ _ _ _ rfl he fun _ => ⟨congrArg (· + 1) h.emitted, by omega, by omega, hr⟩
  case isFalse hn =>
  have hn := not_not.mp hn
  generalize (if interlaced then _ else _) = rowIndex
  rw [wp_ite]
  split
  case isTrue => exact hq _ _ _ _ rfl he nofun
  case isFalse hl =>
  rw [wp_bind, wp_get]
  beta_reduce
  rw [wp_bind, wp_call]
  refine ⟨⟨Nat.lt_of_not_le hl, by simp, hp, ?_⟩, fun _ _ => ?_⟩
  · intro index' hi
    obtain ⟨i, hm, rfl⟩ := List.mem_map.mp hi
    exact hr i (hn ▸ List.mem_range.mp hm)
  · exact hq _ _ _ _ rfl he fun _ =>
      ⟨congrArg (· + 1) h.emitted, by omega, by omega, by rintro _ ⟨⟩⟩

include hw hp in
theorem wp_emitStack {Q : FileResult × Nat × Nat → Globals → Unit → Prop} {stackSize : Nat}
    (hz : stackSize ≤ lzwTableSize) (h : Counts frame paletteSize pixelCount rowUsed s)
    (hq : ∀ result pixelCount rowUsed s', s'.gif = s.gif →
      s'.emitted ≤ frame.frameW * frame.frameH →
      (result = .ok → Counts frame paletteSize pixelCount rowUsed s') →
      Q (result, pixelCount, rowUsed) s' w) :
    wp env (emitStack frame palette paletteSize interlaced stackSize pixelCount rowUsed) Q s w := by
  induction stackSize generalizing s pixelCount rowUsed with
  | zero             => exact hq _ _ _ _ rfl h.emitted_le fun _ => h
  | succ stackSize ih =>
    rw [emitStack, wp_bind]
    refine wp_check (by omega) ?_
    rw [wp_bind, wp_get]
    beta_reduce
    rw [wp_bind]
    refine wp_emitIndex hw hp h fun result pixelCount' rowUsed' s' hg he hc => ?_
    dsimp only
    rw [wp_ite]
    split
    case isTrue hr => exact hq _ _ _ _ hg he fun h => absurd h hr
    case isFalse hr =>
      exact ih (by omega) (hc (not_not.mp hr)) fun _ _ _ s'' hg' => hq _ _ _ _ (hg'.trans hg)

theorem wp_push {Q : Unit → Globals → Unit → Prop} {stackSize : Nat} {index : UInt8}
    (hz : stackSize < lzwTableSize)
    (hq : Q () { s with lzwStack := Function.update s.lzwStack stackSize index } w) :
    wp env (push stackSize index) Q s w := by
  rw [push, wp_bind]
  exact wp_check hz hq

-- The tables and the stack have been written to.
structure Tabled (s s' : Globals) : Prop where
  gif : s'.gif = s.gif
  emitted : s'.emitted = s.emitted
  row : s'.row = s.row

theorem Tabled.trans (h : Tabled s s') (h' : Tabled s' s'') : Tabled s s'' :=
  ⟨h'.gif.trans h.gif, h'.emitted.trans h.emitted, h'.row.trans h.row⟩

theorem Counts.tabled (h : Counts frame paletteSize pixelCount rowUsed s) (ht : Tabled s s') :
    Counts frame paletteSize pixelCount rowUsed s' :=
  h.congr ht.emitted ht.row

-- The stack grows in every round, so that it bounds their number whatever the prefixes are.
theorem wp_walk {Q : Option (Nat × Nat) → Globals → Unit → Prop} {clearCode nextCode : Nat}
    {b : Nat × Nat} (hn : nextCode ≤ lzwTableSize) (hb : b.snd ≤ lzwTableSize)
    (hq : ∀ r s', Tabled s s' → Q r s' w) :
    wp env (loop (walkRound clearCode nextCode) (lzwTableSize + 1) b) Q s w := by
  refine wp_mono (wp_loop_of_lt
    (fun n b s' _ => n = lzwTableSize - b.snd ∧ b.snd ≤ lzwTableSize ∧ Tabled s s')
    (Q := fun _ s' _ => Tabled s s') ?_ (Nat.lt_succ_of_le (Nat.sub_le ..))
    ⟨rfl, hb, rfl, rfl, rfl⟩) fun r s' _ => hq r s'
  rintro n ⟨code, stackSize⟩ s' w ⟨rfl, hb, ht⟩
  rw [walkRound, wp_ite]
  split
  case isFalse => exact ht
  case isTrue =>
  rw [wp_ite]
  split
  case isTrue => exact ht
  case isFalse hc =>
  dsimp only at hb
  rw [wp_bind]
  refine wp_check (by omega) ?_
  rw [wp_bind, wp_get]
  beta_reduce
  rw [wp_bind]
  refine wp_push (by omega) ?_
  exact ⟨_, by dsimp only; omega, rfl, by dsimp only; omega, ht.trans ⟨rfl, rfl, rfl⟩⟩

-- What holds in the main loop of `gif_decode_lzw`.
structure Decoding (frame : Frame) (paletteSize : Nat) (l : Lzw) (s : Globals) : Prop where
  counts : Counts frame paletteSize l.pixelCount l.rowUsed s
  next : l.nextCode ≤ lzwTableSize
  width : 3 ≤ l.codeWidth ∧ l.codeWidth ≤ 12
  blocks : l.bits.blocks.size ≤ 255

theorem wp_addEntry {Q : Lzw → Globals → Unit → Prop} {first : UInt8} {l : Lzw}
    (h : Decoding frame paletteSize l s)
    (hq : ∀ l' s', Tabled s s' → l'.bits = l.bits → Decoding frame paletteSize l' s' → Q l' s' w) :
    wp env (addEntry first l) Q s w := by
  rw [addEntry]
  split
  case h_2 => exact hq _ _ ⟨rfl, rfl, rfl⟩ rfl h
  case h_1 =>
  rw [wp_ite]
  split
  case isFalse => exact hq _ _ ⟨rfl, rfl, rfl⟩ rfl h
  case isTrue hl =>
  rw [wp_bind]
  refine wp_check hl ?_
  have ht : Tabled s { s with
      lzwPrefix := Function.update s.lzwPrefix l.nextCode ‹Nat›
      lzwSuffix := Function.update s.lzwSuffix l.nextCode first } := ⟨rfl, rfl, rfl⟩
  refine hq _ _ ht rfl ⟨h.counts.tabled ht, hl, ?_, h.blocks⟩
  have hw := h.width
  dsimp only
  split <;> omega

theorem wp_walkStart {Q : Nat × Nat → Globals → Unit → Prop} {code : Nat} {l : Lzw}
    (hq : ∀ start s', Tabled s s' → start.snd ≤ lzwTableSize → Q start s' w) :
    wp env (walkStart code l) Q s w := by
  rw [walkStart, wp_ite]
  split
  case isTrue =>
    rw [wp_bind]
    exact wp_push (by decide) (hq (_, 1) _ ⟨rfl, rfl, rfl⟩ (Nat.le_add_left 1 4095))
  case isFalse => exact hq _ _ ⟨rfl, rfl, rfl⟩ (Nat.zero_le _)

include hw hp in
theorem wp_emitCode {Q : FileResult ⊕ Lzw → Globals → Unit → Prop} {code last stackSize : Nat}
    {l : Lzw} (h : Decoding frame paletteSize l s)
    (hr : ∀ result s', s'.gif = s.gif → s'.emitted ≤ frame.frameW * frame.frameH →
      Q (.inl result) s' w)
    (hq : ∀ l' s', s'.gif = s.gif → l'.bits = l.bits → Decoding frame paletteSize l' s' →
      Q (.inr l') s' w) :
    wp env (emitCode frame palette paletteSize interlaced code last stackSize l) Q s w := by
  rw [emitCode]
  dsimp only
  rw [wp_ite]
  split
  case isTrue => exact hr _ _ rfl h.counts.emitted_le
  case isFalse hz =>
  have hz := Nat.lt_of_not_le hz
  rw [wp_bind]
  refine wp_push hz ?_
  rw [wp_bind]
  refine wp_emitStack hw hp hz (h.counts.tabled ⟨rfl, rfl, rfl⟩) fun result _ _ s₁ hg he hc => ?_
  dsimp only
  rw [wp_ite]
  split
  case isTrue  => exact hr _ _ hg he
  case isFalse ho =>
  rw [wp_bind]
  refine wp_addEntry ⟨hc (not_not.mp ho), h.next, h.width, h.blocks⟩ fun l' s₂ ht hb hd => ?_
  exact hq _ _ (ht.gif.trans hg) hb ⟨hd.counts, hd.next, hd.width, hd.blocks⟩

include hw hp in
theorem wp_decodeCode {Q : FileResult ⊕ Lzw → Globals → Unit → Prop} {clearCode code : Nat}
    {l : Lzw} (h : Decoding frame paletteSize l s)
    (hr : ∀ result s', s'.gif = s.gif → s'.emitted ≤ frame.frameW * frame.frameH →
      Q (.inl result) s' w)
    (hq : ∀ l' s', s'.gif = s.gif → l'.bits = l.bits → Decoding frame paletteSize l' s' →
      Q (.inr l') s' w) :
    wp env (decodeCode frame palette paletteSize interlaced clearCode code l) Q s w := by
  rw [decodeCode, wp_ite]
  split
  case isTrue => exact hr _ _ rfl h.counts.emitted_le
  case isFalse =>
  rw [wp_bind]
  refine wp_walkStart fun start s₁ ht₁ hz => ?_
  rw [wp_bind]
  refine wp_walk h.next hz fun r s₂ ht₂ => ?_
  have ht := ht₁.trans ht₂
  have hd : Decoding frame paletteSize l s₂ := { h with counts := h.counts.tabled ht }
  cases r
  case none => exact hr _ _ ht.gif hd.counts.emitted_le
  case some r =>
    exact wp_emitCode hw hp hd (fun _ _ hg => hr _ _ (hg.trans ht.gif))
      fun _ _ hg => hq _ _ (hg.trans ht.gif)

variable {minimumCodeSize : Nat}

-- A round that goes on has used up at least three bits.
include hw hp in
theorem wp_lzwRound {l : Lzw} (hm : 2 ≤ minimumCodeSize ∧ minimumCodeSize ≤ 8)
    (h : Decoding frame paletteSize l s) :
    wp env (lzwRound frame palette paletteSize interlaced g minimumCodeSize l)
      (fun r s' _ => Forward s s' ∧ s'.emitted ≤ frame.frameW * frame.frameH ∧ r.elim
        (fun r => ∀ l, r = .inr l → l.snd.bits.blocks.size ≤ 255)
        fun l' => l'.bits.total s' < l.bits.total s ∧ Decoding frame paletteSize l' s') s w := by
  rw [lzwRound]
  dsimp only
  rw [wp_bind]
  refine wp_readCode h.blocks ?_ ?_
  case refine_1 =>
    intro b s' hm hs
    refine ⟨hm.forward, (h.counts.moved hm).emitted_le, ?_⟩
    rintro _ ⟨⟩
    exact hs
  case refine_2 =>
    intro code b s₁ hm₁ hs hc ht
    have hd : Decoding frame paletteSize { l with bits := b } s₁ :=
      ⟨h.counts.moved hm₁, h.next, h.width, hs⟩
    have ht : b.total s₁ < l.bits.total s := by
      have hw := h.width.left
      omega
    have hf := hm₁.forward
    dsimp only
    rw [wp_ite]
    split
    case isTrue =>
      refine ⟨hf, hd.counts.emitted_le, ht, hd.counts, ?_, ?_, hs⟩
      · have := Nat.pow_le_pow_right (n := 2) (by decide) hm.right
        dsimp only
        rw [lzwTableSize]
        omega
      · dsimp only
        omega
    case isFalse =>
    rw [wp_ite]
    split
    case isTrue =>
      refine ⟨hf, hd.counts.emitted_le, ?_⟩
      rintro _ ⟨⟩
      exact hs
    case isFalse =>
    rw [wp_bind]
    refine wp_decodeCode hw hp hd ?_ ?_
    case refine_1 =>
      intro result s' hg he
      exact ⟨hf.trans (.of_gif hg), he, nofun⟩
    case refine_2 =>
      intro l' s' hg hb hd'
      have hb' : l'.bits.total s' = b.total s₁ := by
        rw [hb, Bits.total, Bits.total, Subblocks.total, Subblocks.total, Globals.left,
          Globals.left, hg]
      exact ⟨hf.trans (.of_gif hg), hd'.counts.emitted_le, hb' ▸ ht, hd'⟩

-- For any frame, and whatever the globals are when it is entered, `gif_decode_lzw` ends before its
-- rounds are used up, and has stored at most an index for each of the frame's pixels.
include hp in
theorem wp_decodeLzw {Q : FileResult → Globals → Unit → Prop} (hz : frame.frameW ≠ 0)
    (hq : ∀ result s', Forward s s' → s'.emitted ≤ frame.frameW * frame.frameH → Q result s' w) :
    wp env (decodeLzw frame palette paletteSize interlaced g) Q s w := by
  rw [decodeLzw, wp_bind, wp_modify, wp_bind]
  refine wp_read fun result bytes s₁ hm₁ _ => ?_
  have he₁ : s₁.emitted = 0 := by rw [hm₁.eq]
  have hf₁ : Forward s s₁ := ⟨hm₁.forward.gif, hm₁.left⟩
  have hl₁ : s₁.emitted ≤ frame.frameW * frame.frameH := he₁ ▸ Nat.zero_le _
  dsimp only
  rw [wp_ite]
  split
  case isTrue => exact hq _ _ hf₁ hl₁
  case isFalse =>
  generalize (bytes.getD 0 0).toNat = minimumCodeSize
  rw [wp_ite]
  split
  case isTrue => exact hq _ _ hf₁ hl₁
  case isFalse hn =>
  have hk : 2 ≤ minimumCodeSize ∧ minimumCodeSize ≤ 8 := by omega
  have hw : frame.frameW ≤ Files.photoRowMaxBytes := by omega
  have hc : 2 ^ minimumCodeSize ≤ 256 := Nat.pow_le_pow_right (n := 2) (by decide) hk.right
  rw [wp_bind]
  refine wp_check (by rw [lzwTableSize]; omega) ?_
  rw [wp_bind, wp_modify, wp_bind, wp_get]
  beta_reduce
  rw [wp_bind]
  refine wp_mono (wp_loop_of_lt
    (fun n l s' _ => n = l.bits.total s' ∧ Decoding frame paletteSize l s' ∧ Forward s s')
    (Q := fun r s' _ => Forward s s' ∧ s'.emitted ≤ frame.frameW * frame.frameH ∧
      ∀ l, r = .inr l → l.snd.bits.blocks.size ≤ 255) ?_ ?_ ⟨rfl, ?_, hf₁.gif, hf₁.left⟩) ?_
  case refine_1 =>
    rintro _ l s' w ⟨rfl, hd, hf⟩
    refine wp_mono (wp_lzwRound hw hp hk hd) fun r s'' _ hr => ?_
    obtain ⟨hf', he, hr⟩ := hr
    cases r
    case inl => exact ⟨hf.trans hf', he, hr⟩
    case inr => exact ⟨_, hr.left, rfl, hr.right, hf.trans hf'⟩
  case refine_2 =>
    change 8 * (0 + s₁.left) + 0 < 8 * (s₁.gif.entry.size.toNat + 256)
    rw [Globals.left]
    omega
  case refine_3 =>
    refine ⟨⟨he₁, Nat.zero_le _, Nat.pos_of_ne_zero hz, by rintro _ ⟨⟩⟩, ?_, ?_, Nat.zero_le _⟩
    · change 2 ^ minimumCodeSize + 2 ≤ 4096
      omega
    · dsimp only
      omega
  case refine_4 =>
    rintro r s₂ _ ⟨hf₂, he₂, hb⟩
    cases r
    case inl => exact hq _ _ hf₂ he₂
    case inr r =>
    rw [wp_bind]
    refine wp_drain (hb r rfl) fun blocks s₃ hm₃ => ?_
    have hf₃ := hf₂.trans hm₃.forward
    have he₃ : s₃.emitted ≤ frame.frameW * frame.frameH := by
      rw [hm₃.eq]
      exact he₂
    rw [wp_ite]
    split
    case isTrue => exact hq _ _ hf₃ he₃
    case isFalse =>
    rw [wp_ite]
    split
    case isTrue  => exact hq _ _ hf₃ he₃
    case isFalse => exact hq _ _ hf₃ he₃

end Pixels

-- The size of the global palette is one that its array has.
def Globals.Sized (s : Globals) : Prop :=
  s.gif.globalPaletteSize ≤ paletteMax

-- The stream has been read from, and what an extension or a palette says has been stored.
structure Kept (s s' : Globals) : Prop where
  entry : s'.gif.entry = s.gif.entry
  left : s'.left ≤ s.left
  frames : s'.gif.framesInCycle = s.gif.framesInCycle
  size : s'.gif.globalPaletteSize = s.gif.globalPaletteSize

theorem Kept.refl : Kept s s :=
  ⟨rfl, Nat.le_refl _, rfl, rfl⟩

theorem Kept.trans (h : Kept s s') (h' : Kept s' s'') : Kept s s'' :=
  ⟨h'.entry.trans h.entry, h'.left.trans h.left, h'.frames.trans h.frames, h'.size.trans h.size⟩

theorem Kept.sized (h : Kept s s') (hs : s.Sized) : s'.Sized :=
  h.size.trans_le hs

theorem Forward.kept (h : Forward s s') : Kept s s' :=
  ⟨by rw [h.gif], h.left, by rw [h.gif], by rw [h.gif]⟩

theorem Moved.kept (h : Moved s s') : Kept s s' :=
  h.forward.kept

theorem wp_skipSubblocks {Q : FileResult → Globals → Unit → Prop}
    (hq : ∀ result s', Kept s s' → Q result s' w) : wp env (skipSubblocks g) Q s w := by
  rw [skipSubblocks, wp_bind]
  exact wp_drain (Nat.zero_le _) fun _ _ hm => hq _ _ hm.kept

section Session

variable {put : Nat → UInt16 → M Unit} {count : Nat}

-- What a function that stores a colour is to do.
def Puts (put : Nat → UInt16 → M Unit) : Prop :=
  ∀ {i colour s w} {Q : Unit → Globals → Unit → Prop},
    (∀ s', Kept s s' → Q () s' w) → wp env (put i colour) Q s w

theorem putGlobal_puts : Puts putGlobal :=
  fun hq => hq _ ⟨rfl, Nat.le_refl _, rfl, rfl⟩

theorem putLocal_puts : Puts putLocal :=
  fun hq => hq _ ⟨rfl, Nat.le_refl _, rfl, rfl⟩

theorem wp_readColours {Q : FileResult → Globals → Unit → Prop} {i : Nat} (hp : Puts put)
    (hi : i + count ≤ paletteMax) (hq : ∀ result s', Kept s s' → Q result s' w) :
    wp env (readColours g put count i) Q s w := by
  induction count generalizing s i with
  | zero          => exact hq _ _ .refl
  | succ count ih =>
    rw [readColours, wp_bind]
    refine wp_read fun result rgb s₁ hm₁ _ => ?_
    dsimp only
    rw [wp_ite]
    split
    case isTrue => exact hq _ _ hm₁.kept
    case isFalse =>
    rw [wp_bind]
    refine wp_check (by omega) ?_
    rw [wp_bind]
    refine hp fun s₂ hk₂ => ?_
    exact ih (by omega) fun _ _ hk => hq _ _ ((hm₁.kept.trans hk₂).trans hk)

theorem wp_readPalette {Q : FileResult → Globals → Unit → Prop} (hp : Puts put)
    (hq : ∀ result s', Kept s s' → Q result s' w) : wp env (readPalette g put count) Q s w := by
  rw [readPalette, wp_ite]
  split
  case isTrue    => exact hq _ _ .refl
  case isFalse h => exact wp_readColours hp (by omega) hq

theorem wp_readGraphicsControl {Q : FileResult → Globals → Unit → Prop}
    (hq : ∀ result s', Kept s s' → Q result s' w) : wp env (readGraphicsControl g) Q s w := by
  rw [readGraphicsControl, wp_bind]
  refine wp_read fun result data s₁ hm₁ _ => ?_
  dsimp only
  rw [wp_ite]
  split
  case isTrue => exact hq _ _ hm₁.kept
  case isFalse =>
  rw [wp_ite]
  split
  case isTrue  => exact hq _ _ hm₁.kept
  case isFalse => exact hq _ _ (hm₁.kept.trans ⟨rfl, Nat.le_refl _, rfl, rfl⟩)

theorem wp_readApplicationExtension {Q : FileResult → Globals → Unit → Prop}
    (hq : ∀ result s', Kept s s' → Q result s' w) : wp env (readApplicationExtension g) Q s w := by
  rw [readApplicationExtension, wp_bind]
  refine wp_read fun result bytes s₁ hm₁ _ => ?_
  dsimp only
  rw [wp_ite]
  split
  case isTrue => exact hq _ _ hm₁.kept
  case isFalse =>
  rw [wp_ite]
  split
  case isTrue => exact hq _ _ hm₁.kept
  case isFalse =>
  rw [wp_bind]
  refine wp_read fun result app s₂ hm₂ _ => ?_
  have hk₂ := hm₁.kept.trans hm₂.kept
  dsimp only
  rw [wp_ite]
  split
  case isTrue => exact hq _ _ hk₂
  case isFalse =>
  rw [wp_ite]
  split
  case isTrue =>
    refine wp_skipSubblocks fun _ _ hk => hq _ _ (hk₂.trans (.trans ?_ hk))
    exact ⟨rfl, Nat.le_refl _, rfl, rfl⟩
  case isFalse => exact wp_skipSubblocks fun _ _ hk => hq _ _ (hk₂.trans hk)

theorem wp_skipExtensionHeader {Q : FileResult → Globals → Unit → Prop}
    (hq : ∀ result s', Kept s s' → Q result s' w) : wp env (skipExtensionHeader g) Q s w := by
  rw [skipExtensionHeader, wp_bind]
  refine wp_read fun result bytes s₁ hm₁ _ => ?_
  dsimp only
  rw [wp_ite]
  split
  case isTrue => exact hq _ _ hm₁.kept
  case isFalse =>
  rw [wp_ite]
  split
  case isFalse => exact wp_skipSubblocks fun _ _ hk => hq _ _ (hm₁.kept.trans hk)
  case isTrue =>
  rw [wp_bind]
  refine wp_read fun result _ s₂ hm₂ _ => ?_
  have hk₂ := hm₁.kept.trans hm₂.kept
  dsimp only
  rw [wp_ite]
  split
  case isTrue  => exact hq _ _ hk₂
  case isFalse => exact wp_skipSubblocks fun _ _ hk => hq _ _ (hk₂.trans hk)

-- An extension is behind a byte for its label.
theorem wp_readExtension {Q : FileResult → Globals → Unit → Prop}
    (hq : ∀ result s', Kept s s' → Q result s' w) : wp env (readExtension g) Q s w := by
  rw [readExtension, wp_bind]
  refine wp_read fun result bytes s₁ hm₁ _ => ?_
  have hq' (result s') (hk : Kept s₁ s') : Q result s' w := hq _ _ (hm₁.kept.trans hk)
  dsimp only
  rw [wp_ite]
  split
  case isTrue => exact hq _ _ hm₁.kept
  case isFalse =>
  rw [wp_ite]
  split
  case isTrue => exact wp_readGraphicsControl hq'
  case isFalse =>
  rw [wp_ite]
  split
  case isTrue => exact wp_readApplicationExtension hq'
  case isFalse =>
  rw [wp_ite]
  split
  case isTrue  => exact wp_skipExtensionHeader hq'
  case isFalse => exact wp_skipSubblocks hq'

-- The bits that give the size of a palette.
theorem two_mul_two_pow_le (packed : UInt8) : 2 * 2 ^ (packed &&& 7).toNat ≤ paletteMax := by
  have h : (packed &&& 7).toNat ≤ 7 := by
    rw [UInt8.toNat_and]
    exact Nat.and_le_right
  have := Nat.pow_le_pow_right (n := 2) (by decide) h
  rw [paletteMax]
  omega

theorem wp_framePalette {Q : FileResult × (Nat → UInt16) × Nat → Globals → Unit → Prop}
    {packed : UInt8} (hs : s.Sized)
    (hq : ∀ result palette paletteSize s', Kept s s' → paletteSize ≤ paletteMax →
      Q (result, palette, paletteSize) s' w) : wp env (framePalette g packed) Q s w := by
  rw [framePalette, wp_ite]
  split
  case isTrue =>
    dsimp only
    rw [wp_bind]
    refine wp_readPalette putLocal_puts fun result s₁ hk₁ => ?_
    exact hq _ _ _ _ hk₁ (two_mul_two_pow_le packed)
  case isFalse =>
    rw [wp_bind, wp_get]
    beta_reduce
    rw [wp_ite]
    split
    case isTrue  => exact hq _ _ _ _ .refl (Nat.zero_le _)
    case isFalse => exact hq _ _ _ _ .refl hs

theorem wp_showFrame {Q : FileResult → Globals → Unit → Prop} {frame : Frame}
    {palette : Nat → UInt16} {paletteSize : Nat} {interlaced : Bool} (hz : frame.frameW ≠ 0)
    (hp : paletteSize ≤ paletteMax) (hs : s.Sized) (hq : ∀ result s', s'.Sized → Q result s' w) :
    wp env (showFrame g frame palette paletteSize interlaced) Q s w := by
  rw [showFrame, wp_bind, wp_call]
  refine ⟨trivial, fun d _ => ?_⟩
  rw [wp_ite]
  split
  case isTrue => exact hq _ _ hs
  case isFalse =>
  rw [wp_bind]
  refine wp_decodeLzw hp hz fun result s₁ hf₁ _ => ?_
  have hs₁ := hf₁.kept.sized hs
  rw [wp_ite]
  split
  case isTrue => exact hq _ _ hs₁
  case isFalse =>
  rw [wp_bind, wp_call]
  refine ⟨trivial, fun d _ => ?_⟩
  rw [wp_ite]
  split
  case isTrue  => exact hq _ _ hs₁
  case isFalse => exact hq _ _ hs₁

theorem wp_decodeFrame {Q : FileResult → Globals → Unit → Prop} (hs : s.Sized)
    (hq : ∀ result s', s'.Sized → Q result s' w) : wp env (decodeFrame g) Q s w := by
  rw [decodeFrame, wp_bind]
  refine wp_read fun result descriptor s₁ hm₁ _ => ?_
  have hs₁ := hm₁.kept.sized hs
  dsimp only
  rw [wp_ite]
  split
  case isTrue => exact hq _ _ hs₁
  case isFalse =>
  rw [wp_bind, wp_get]
  beta_reduce
  rw [wp_ite]
  split
  case isTrue => exact hq _ _ hs₁
  case isFalse hf =>
  rw [wp_ite]
  split
  case isTrue => exact hq _ _ hs₁
  case isFalse =>
  rw [wp_bind]
  refine wp_framePalette hs₁ fun result palette paletteSize s₂ hk₂ hp => ?_
  have hs₂ := hk₂.sized hs₁
  dsimp only
  rw [wp_ite]
  split
  case isTrue  => exact hq _ _ hs₂
  case isFalse => exact wp_showFrame (not_or.mp hf).left hp hs₂ hq

theorem wp_skipClusters {Q : UInt32 → Globals → Unit → Prop} {cluster : UInt32}
    (hq : ∀ cluster sectorData, Q cluster { s with sectorData } w) :
    wp env (skipClusters g n cluster) Q s w := by
  induction n generalizing s cluster with
  | zero     => exact hq _ s.sectorData
  | succ n ih =>
    rw [skipClusters, wp_ite]
    split
    case isFalse => exact hq _ s.sectorData
    case isTrue =>
      rw [wp_bind]
      exact wp_nextCluster fun _ _ => ih hq

-- What a restart keeps.
structure Restarted (s s' : Globals) : Prop where
  entry : s'.gif.entry = s.gif.entry
  sized : s.Sized → s'.Sized

theorem Kept.restarted (h : Kept s s') : Restarted s s' :=
  ⟨h.entry, h.sized⟩

theorem Restarted.trans (h : Restarted s s') (h' : Restarted s' s'') : Restarted s s'' :=
  ⟨h'.entry.trans h.entry, h'.sized ∘ h.sized⟩

theorem wp_streamOpen {Q : Bool → Globals → Unit → Prop} {offset : UInt32}
    (hq : ∀ ok s', Restarted s s' → Q ok s' w) : wp env (streamOpen g offset) Q s w := by
  rw [streamOpen, wp_bind, wp_get]
  beta_reduce
  rw [wp_ite]
  split
  case isTrue => exact hq _ _ ⟨rfl, id⟩
  case isFalse =>
  rw [wp_bind]
  refine wp_skipClusters fun cluster sectorData => ?_
  rw [wp_ite]
  split
  case isTrue  => exact hq _ _ ⟨rfl, id⟩
  case isFalse => exact hq _ _ ⟨rfl, id⟩

theorem wp_headerPalette {Q : FileResult → Globals → Unit → Prop} {packed backgroundIndex : UInt8}
    (hq : ∀ result s', Restarted s s' → Q result s' w) :
    wp env (headerPalette g packed backgroundIndex) Q s w := by
  rw [headerPalette, wp_bind, modifyGif, wp_modify, wp_ite]
  split
  case isFalse => exact hq _ _ ⟨rfl, fun _ => Nat.zero_le _⟩
  case isTrue =>
  dsimp only
  rw [wp_bind, modifyGif, wp_modify, wp_bind]
  refine wp_readPalette putGlobal_puts fun result s₁ hk₁ => ?_
  have hr₁ : Restarted s s₁ :=
    ⟨hk₁.entry, fun _ => hk₁.size.trans_le (two_mul_two_pow_le packed)⟩
  rw [wp_ite]
  split
  case isTrue => exact hq _ _ hr₁
  case isFalse =>
  rw [wp_ite]
  split
  case isTrue  => exact hq _ _ ⟨hr₁.entry, hr₁.sized⟩
  case isFalse => exact hq _ _ hr₁

theorem wp_parseHeader {Q : FileResult → Globals → Unit → Prop} {resetCanvas : Bool}
    (hq : ∀ result s', Restarted s s' → (result = .ok → s'.gif.framesInCycle = 0) →
      Q result s' w) : wp env (parseHeader g resetCanvas) Q s w := by
  rw [parseHeader, wp_bind]
  refine wp_streamOpen fun ok s₁ hr₁ => ?_
  rw [wp_ite]
  split
  case isFalse => exact hq _ _ hr₁ nofun
  case isTrue =>
  rw [wp_bind]
  refine wp_read fun result header s₂ hm₂ _ => ?_
  have hr₂ := hr₁.trans hm₂.kept.restarted
  dsimp only
  rw [wp_ite]
  split
  case isTrue hn => exact hq _ _ hr₂ fun h => absurd h hn
  case isFalse =>
  rw [wp_ite]
  split
  case isTrue => exact hq _ _ hr₂ nofun
  case isFalse =>
  rw [wp_bind, modifyGif, wp_modify, wp_ite]
  split
  case isTrue => exact hq _ _ ⟨hr₂.entry, hr₂.sized⟩ nofun
  case isFalse =>
  rw [wp_bind]
  refine wp_headerPalette fun result s₃ hr₃ => ?_
  have hr : Restarted s s₃ := hr₂.trans ⟨hr₃.entry, hr₃.sized⟩
  rw [wp_ite]
  split
  case isTrue hn => exact hq _ _ hr fun h => absurd h hn
  case isFalse =>
  rw [wp_bind, resetGraphicsControl, modifyGif, wp_modify, wp_bind, modifyGif, wp_modify, wp_ite]
  split
  case isFalse => exact hq _ _ ⟨hr.entry, hr.sized⟩ fun _ => rfl
  case isTrue =>
  rw [wp_bind, wp_get]
  beta_reduce
  rw [wp_bind, wp_call]
  exact ⟨trivial, fun d _ => hq _ _ ⟨hr.entry, hr.sized⟩ fun _ => rfl⟩

-- The rounds that are left at most. A restart takes place only after a frame, and there is none yet
-- when the file has been restarted.
def Globals.rounds (allowRestart : Bool) (s : Globals) : Nat :=
  s.left + if allowRestart ∧ s.gif.framesInCycle ≠ 0 then s.gif.entry.size.toNat + 1 else 0

theorem Globals.left_le : s.left ≤ s.gif.entry.size.toNat :=
  Nat.sub_le ..

variable {allowRestart : Bool}

theorem wp_atTrailer (hs : s.Sized) :
    wp env (atTrailer g allowRestart)
      (fun r s' _ => s'.Sized ∧ r.elim (fun _ => True)
        fun _ => s'.gif.entry = s.gif.entry ∧ s'.rounds allowRestart < s.rounds allowRestart)
      s w := by
  rw [atTrailer, wp_bind, wp_get]
  beta_reduce
  rw [wp_ite]
  split
  case isTrue => exact ⟨hs, trivial⟩
  case isFalse hf =>
  rw [wp_ite]
  split
  case isTrue => exact ⟨hs, trivial⟩
  case isFalse =>
  rw [wp_ite]
  split
  case isTrue => exact ⟨hs, trivial⟩
  case isFalse ha =>
  rw [wp_bind]
  refine wp_parseHeader fun result s' hr hc => ?_
  refine ⟨hr.sized hs, ?_⟩
  split
  case isTrue => trivial
  case isFalse ho =>
    refine ⟨hr.entry, ?_⟩
    have hl : s'.left ≤ s.gif.entry.size.toNat := hr.entry ▸ Globals.left_le
    rw [Globals.rounds, Globals.rounds, if_neg (fun h => h.right (hc (not_not.mp ho))),
      if_pos ⟨by simpa using ha, hf⟩]
    dsimp only
    omega

theorem wp_nextRound {u : Unit} (hs : s.Sized) :
    wp env (nextRound g allowRestart u)
      (fun r s' _ => s'.Sized ∧ r.elim (fun _ => True)
        fun _ => s'.gif.entry = s.gif.entry ∧ s'.rounds allowRestart < s.rounds allowRestart)
      s w := by
  rw [nextRound, wp_bind]
  refine wp_read fun result bytes s₁ hm₁ hl₁ => ?_
  have hs₁ := hm₁.kept.sized hs
  dsimp only
  rw [wp_ite]
  split
  case isTrue => exact ⟨hs₁, trivial⟩
  case isFalse ho =>
  have hk₁ := hm₁.kept
  have hr₁ : s₁.rounds allowRestart < s.rounds allowRestart := by
    have hl := hl₁ (not_not.mp ho)
    rw [Globals.rounds, Globals.rounds, hk₁.frames, hk₁.entry]
    omega
  rw [wp_ite]
  split
  case isTrue =>
    rw [wp_bind]
    exact wp_decodeFrame hs₁ fun _ _ hs => ⟨hs, trivial⟩
  case isFalse =>
  rw [wp_ite]
  split
  case isTrue =>
    refine wp_mono (wp_atTrailer hs₁) fun r s' _ hr => ⟨hr.left, ?_⟩
    cases r
    case inl => trivial
    case inr => exact ⟨hr.right.left.trans hk₁.entry, hr.right.right.trans hr₁⟩
  case isFalse =>
  rw [wp_ite]
  split
  case isFalse => exact ⟨hs₁, trivial⟩
  case isTrue =>
  rw [wp_bind]
  refine wp_readExtension fun result s' hk => ⟨hk.sized hs₁, ?_⟩
  split
  case isTrue => trivial
  case isFalse =>
    refine ⟨hk.entry.trans hk₁.entry, ?_⟩
    have hl := hk.left
    rw [Globals.rounds] at hr₁ ⊢
    dsimp only
    rw [hk.frames, hk.entry]
    omega

theorem wp_decodeNext {Q : FileResult → Globals → Unit → Prop} (hs : s.Sized)
    (hq : ∀ result s', s'.Sized → Q result s' w) : wp env (decodeNext g allowRestart) Q s w := by
  rw [decodeNext, wp_bind, wp_get]
  beta_reduce
  refine wp_mono (wp_loop_of_lt
    (fun n _ s' _ => n = s'.rounds allowRestart ∧ s'.Sized ∧ s'.gif.entry = s.gif.entry)
    (Q := fun _ s' _ => s'.Sized) ?_ ?_ ⟨rfl, hs, rfl⟩) fun result s' _ => hq result s'
  case refine_1 =>
    rintro _ _ s' w ⟨rfl, hs', he⟩
    refine wp_mono (wp_nextRound hs') fun r s'' _ hr => ?_
    cases r
    case inl => exact hr.left
    case inr => exact ⟨_, hr.right.right, rfl, hr.left, hr.right.left.trans he⟩
  case refine_2 =>
    have hl := s.left_le
    rw [Globals.rounds]
    split <;> omega

theorem wp_close {Q : Unit → Globals → Unit → Prop}
    (hq : ∀ s', s'.Sized → Q () s' w) : wp env close Q s w := by
  have hz : Globals.Sized { s with gif := .zero } := Nat.zero_le _
  rw [close, wp_bind, wp_get]
  beta_reduce
  rw [wp_ite]
  split
  case isTrue =>
    rw [wp_bind, wp_call]
    exact ⟨trivial, fun _ _ => hq _ hz⟩
  case isFalse => exact hq _ hz

theorem wp_openFirst {Q : FileResult → Globals → Unit → Prop} (hs : s.Sized)
    (hq : ∀ result s', s'.Sized → Q result s' w) : wp env (openFirst g) Q s w := by
  rw [openFirst, wp_bind]
  refine wp_parseHeader fun result s₁ hr₁ _ => ?_
  rw [wp_ite]
  split
  case isTrue  => exact wp_decodeNext (hr₁.sized hs) hq
  case isFalse => exact hq _ _ (hr₁.sized hs)

theorem wp_openGif {Q : FileResult → Globals → Unit → Prop} {entry : Option Entry}
    {sink : Option Sink} (hq : ∀ result s', s'.Sized → Q result s' w) :
    wp env (openGif g entry sink) Q s w := by
  unfold openGif
  rw [wp_bind]
  refine wp_close fun s₁ hs₁ => ?_
  split
  case h_2 => exact hq _ _ hs₁
  case h_1 =>
  rw [wp_ite]
  split
  case isTrue => exact hq _ _ hs₁
  case isFalse =>
  rw [wp_bind, modifyGif, wp_modify, wp_bind]
  refine wp_openFirst (Nat.zero_le _) fun result s₂ hs₂ => ?_
  rw [wp_ite]
  split
  case isTrue =>
    rw [wp_bind]
    exact wp_close fun s₃ hs₃ => hq _ _ hs₃
  case isFalse => exact hq _ _ hs₂

theorem wp_tick {Q : FileResult → Globals → Unit → Prop} {nowUs : UInt64} (hs : s.Sized)
    (hq : ∀ result s', s'.Sized → Q result s' w) : wp env (tick g nowUs) Q s w := by
  rw [tick, wp_bind, wp_get]
  beta_reduce
  rw [wp_ite]
  split
  case isTrue => exact hq _ _ hs
  case isFalse =>
  rw [wp_ite]
  split
  case isTrue => exact hq _ _ hs
  case isFalse =>
  rw [wp_ite]
  split
  case isTrue => exact hq _ _ hs
  case isFalse =>
  rw [wp_bind, modifyGif, wp_modify, wp_bind]
  refine wp_decodeNext hs fun result s₁ hs₁ => ?_
  rw [wp_ite]
  split
  case isTrue =>
    rw [wp_bind]
    exact wp_close fun s₂ hs₂ => hq _ _ hs₂
  case isFalse => exact hq _ _ hs₁

theorem wp_togglePause {Q : Unit → Globals → Unit → Prop} {nowUs : UInt64} (hs : s.Sized)
    (hq : ∀ s', s'.Sized → Q () s' w) : wp env (togglePause nowUs) Q s w := by
  rw [togglePause, wp_bind, wp_get]
  beta_reduce
  rw [wp_ite]
  split
  case isFalse => exact hq _ hs
  case isTrue =>
  rw [wp_ite]
  split
  case isTrue  => exact hq _ hs
  case isFalse => exact hq _ hs

theorem wp_run {op : Op} (hs : s.Sized) : wp env op.run (fun _ s' _ => s'.Sized) s w := by
  cases op with
  | openGif         => exact wp_openGif fun _ _ => id
  | tick            => exact wp_tick hs fun _ _ => id
  | togglePause     =>
    rw [Op.run, wp_bind]
    exact wp_togglePause hs fun _ => id
  | close           =>
    rw [Op.run, wp_bind]
    exact wp_close fun _ => id
  | others          => exact hs

end Session

variable {s₀ : Globals} {es : List (Op × Option FileResult)} {calls : List Call}

-- A run of the operations, from a cleared session on, that have all returned.
abbrev Reached (s₀ : Globals) : List (Op × Option FileResult) → Globals → List Call → Prop :=
  Run answering Op.run none (fun _ _ _ _ => True) s₀ []

theorem Reached.sized (h₀ : s₀.gif = .zero) (hr : Reached s₀ es s calls) :
    s.Sized ∧ ∀ c ∈ calls, c.Safe := by
  refine hr.invariant (fun _ s calls => s.Sized ∧ ∀ c ∈ calls, c.Safe) ?_ ?_
  case refine_1 =>
    refine ⟨?_, by rintro _ ⟨⟩⟩
    rw [Globals.Sized, h₀]
    exact Nat.zero_le _
  case refine_2 =>
    rintro es s calls op answers _ ⟨hs, hc⟩
    have hw : wp env op.run (fun _ s _ => s.Sized) s () := wp_run hs
    have hm : (op.run.run answering s answers calls).Meets _ _ :=
      run_meets (fun _ _ => trivial) (wp_answering hw hc)
    revert hm
    cases op.run.run answering s answers calls
    case done a calls => exact id
    case cut          => exact fun _ => by rintro _ ⟨⟩
    case hung         => exact False.elim

-- From every state that is reached every operation returns after finitely many answers, and makes
-- no access that is out of range on the way. Within `gif_decode_lzw` this holds in every state, and
-- there are no more indices than the frame has pixels.
theorem stays_in_bounds (h₀ : s₀.gif = .zero) (hr : Reached s₀ es s calls) :
    (∀ op : Op,
      (∀ answers, ∀ c ∈ (op.run.run answering s answers calls).world, c.Safe) ∧
      ∀ answers : Nat → (c : Call) → c.Reply, ∃ n result s' calls',
        op.run.run answering s ((List.range n).map answers) calls =
          .done (result, s') calls') ∧
    ∀ frame palette paletteSize interlaced g s, frame.frameW ≠ 0 → paletteSize ≤ paletteMax →
      (∀ answers, ∀ c ∈ ((decodeLzw frame palette paletteSize interlaced g).run answering s answers
        []).world, c.Safe) ∧
      ∀ answers : Nat → (c : Call) → c.Reply, ∃ n result s' calls',
        (decodeLzw frame palette paletteSize interlaced g).run answering s
          ((List.range n).map answers) [] = .done (result, s') calls' ∧
        s'.emitted ≤ frame.frameW * frame.frameH := by
  refine ⟨fun op => ?_, fun frame palette paletteSize interlaced g s hz hp => ?_⟩
  · obtain ⟨hs, hc⟩ := hr.sized h₀
    have hw : wp env op.run (fun _ s _ => s.Sized) s () := wp_run hs
    refine ⟨fun answers => answering_ok hw hc, fun answers => ?_⟩
    obtain ⟨n, result, s', calls', hd, _⟩ :=
      exists_done answers (fun _ => trivial) (fun _ => id) (wp_answering hw hc)
    exact ⟨n, result, s', calls', hd⟩
  · have hw : wp env (decodeLzw frame palette paletteSize interlaced g)
        (fun _ s' _ => s'.emitted ≤ frame.frameW * frame.frameH) s () :=
      wp_decodeLzw hp hz fun _ _ _ => id
    have hn : ∀ c ∈ ([] : List Call), c.Safe := by rintro _ ⟨⟩
    refine ⟨fun answers => answering_ok hw hn, fun answers => ?_⟩
    obtain ⟨n, result, s', calls', hd, he, _⟩ :=
      exists_done answers (fun _ => trivial) (fun _ => id) (wp_answering hw hn)
    exact ⟨n, result, s', calls', hd, he⟩

-- A file with one pixel, which is shown and stays.
def onePixel : List UInt8 :=
  [0x47, 0x49, 0x46, 0x38, 0x39, 0x61, 1, 0, 1, 0, 0x80, 0, 0, 1, 2, 3, 4, 5, 6,
    0x2C, 0, 0, 0, 0, 1, 0, 1, 0, 0, 2, 2, 0x44, 1, 0, 0x3B]

def onePixelOpen : Op :=
  .openGif ⟨0, 0, 1, by decide⟩ (some ⟨2, 35⟩) (some ⟨true, true, true, true, false⟩)

def onePixelAnswer : (c : Call) → c.Reply
  | .readBlock _ => some fun i => onePixel.getD i 0
  | .animationBegin .. | .frameBegin _ | .frameEnd => true
  | .renderIndexedRow .. | .animationEnd | .outOfRange => ()

def cleared : Globals :=
  ⟨.zero, fun _ => 0, fun _ => 0, fun _ => 0, fun _ => 0, fun _ => 0, 0⟩

theorem onePixel_opened : ∃ es s calls, Reached cleared es s calls ∧
    es.map Prod.snd = [some .ok] ∧ s.emitted = 1 ∧ calls.length = 5 :=
  exists_run (P := fun (es : List (Op × Option FileResult)) (s : Globals) (calls : List Call) =>
      es.map Prod.snd = [some .ok] ∧ s.emitted = 1 ∧ calls.length = 5)
    [(onePixelOpen, .replicate 5 onePixelAnswer)] (by decide +kernel)

theorem stays_in_bounds_onePixel : ∃ es s calls, Reached cleared es s calls ∧
    es.map Prod.snd = [some .ok] ∧ s.emitted = 1 ∧
    ∀ c ∈ ((Op.tick ⟨0, 0, 1, by decide⟩ 20000).run.run answering s [onePixelAnswer] calls).world,
      c.Safe := by
  obtain ⟨es, s, calls, hr, he, hp, _⟩ := onePixel_opened
  exact ⟨es, s, calls, hr, he, hp, ((stays_in_bounds rfl hr).left _).left _⟩

end Gif
