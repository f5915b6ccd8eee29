import HackyLens.Lib.BitStream
import HackyLens.Storage.Theorems.Fat32
import HackyLens.Photo.Theorems.Gif

-- What the decoder reads of a file that the card holds.

namespace Gif

open Core Fat32 Prog

-- The card answers with its blocks, and the sink takes every row.
def delivering (v : Volume) : Handler Call Call.Reply (List Call) Unit
  | _, .readBlock lba, rows      => (v.readBlock lba, rows)
  | _, .animationBegin .., rows  => (true, rows)
  | _, .frameBegin _, rows       => (true, rows)
  | _, .frameEnd, rows           => (true, rows)
  | _, .animationEnd, rows       => ((), rows)
  | _, .outOfRange, rows         => ((), rows)
  | _, .renderIndexedRow frame frameRow indices palette paletteSize, rows =>
    ((), rows ++ [.renderIndexedRow frame frameRow indices palette paletteSize])

-- Loops may hang here, as they are known not to.
def card (v : Volume) : Env Call Call.Reply (List Call) Unit where
  handler  := delivering v
  admits _ := True
  call _ _ := True
  hung _   := True

-- The stream is at the `n`th byte of the file.
structure Positioned (v : Volume) (n : Nat) (s : Globals) : Prop where
  offset : s.gif.stream.fileOffset.toNat = n
  range : n ≤ s.gif.entry.size.toNat
  cluster : s.gif.stream.cluster = v.nextCluster^[n / v.clusterSize.toNat] s.gif.entry.cluster
  clusterOffset : s.gif.stream.clusterOffset.toNat = n % v.clusterSize.toNat
  cache : s.gif.stream.cacheValid → v.readBlock s.gif.stream.cacheLba = some s.sectorData

theorem Positioned.congr {v : Volume} {n : Nat} {s s' : Globals} (h : Positioned v n s)
    (hg : s'.gif = s.gif) (hs : s'.sectorData = s.sectorData) : Positioned v n s' := by
  refine ⟨?_, ?_, ?_, ?_, ?_⟩ <;> rw [hg]
  · exact h.offset
  · exact h.range
  · exact h.cluster
  · exact h.clusterOffset
  · exact hs ▸ h.cache

-- Nothing but the stream and the scratch sector are different.
def Streamed (s s' : Globals) : Prop :=
  s' = { s with gif := { s.gif with stream := s'.gif.stream }, sectorData := s'.sectorData }

variable {v : Volume} {s s' s'' : Globals} {rows : List Call} {len n take : Nat}

theorem Streamed.refl : Streamed s s :=
  rfl

theorem Streamed.trans (h : Streamed s s') (h' : Streamed s' s'') : Streamed s s'' := by
  rw [Streamed] at *
  rw [h', h]

theorem Streamed.entry (h : Streamed s s') : s'.gif.entry = s.gif.entry := by
  rw [h]

theorem wp_card_check {Q : Unit → Globals → List Call → Prop} {i size : Nat} (hq : Q () s rows) :
    wp (card v) (check i size) Q s rows := by
  rw [check, wp_ite]
  split
  case isTrue  => exact hq
  case isFalse => exact ⟨trivial, fun _ _ => trivial⟩

theorem wp_card_readBlock {Q : Bool → Globals → List Call → Prop} {lba : UInt32}
    (ht : ∀ sectorData, v.readBlock lba = some sectorData → Q true { s with sectorData } rows)
    (hf : v.readBlock lba = none → Q false s rows) : wp (card v) (readBlock lba) Q s rows := by
  rw [readBlock, wp_bind, wp_call]
  refine ⟨trivial, fun x _ => ?_⟩
  have ha : ((card v).handler x (Call.readBlock lba) rows).1 = v.readBlock lba := rfl
  rw [ha]
  cases hb : v.readBlock lba
  case none            => exact hf hb
  case some sectorData => exact ht sectorData hb

theorem wp_card_nextCluster {Q : UInt32 → Globals → List Call → Prop} {cluster : UInt32}
    (hq : ∀ sectorData, Q (v.nextCluster cluster) { s with sectorData } rows) :
    wp (card v) (nextCluster v.toGeometry cluster) Q s rows := by
  rw [nextCluster, wp_bind]
  refine wp_card_readBlock (fun sectorData hb => ?_) fun hb => ?_
  · have hq := hq sectorData
    rw [Volume.nextCluster, hb] at hq
    exact hq
  · have hq := hq s.sectorData
    rw [Volume.nextCluster, hb] at hq
    exact hq

theorem wp_card_skipClusters {Q : UInt32 → Globals → List Call → Prop} {cluster : UInt32}
    (hq : ∀ sectorData, Q (v.skipClusters n cluster) { s with sectorData } rows) :
    wp (card v) (skipClusters v.toGeometry n cluster) Q s rows := by
  induction n generalizing s cluster with
  | zero      => exact hq s.sectorData
  | succ n ih =>
    rw [skipClusters]
    rw [Volume.skipClusters] at hq
    rw [wp_ite]
    split
    case isFalse hc =>
      rw [if_neg hc] at hq
      exact hq s.sectorData
    case isTrue hc =>
      rw [if_pos hc] at hq
      rw [wp_bind]
      exact wp_card_nextCluster fun _ => ih hq

-- A stream that has been opened is at its offset.
theorem wp_card_streamOpen {offset : UInt32} (ho : offset ≤ s.gif.entry.size)
    (hr : v.Readable s.gif.entry.cluster (offset.toNat + 1)) :
    wp (card v) (streamOpen v.toGeometry offset)
      (fun ok s' rows' => ok ∧ Positioned v offset.toNat s' ∧ rows' = rows) s rows := by
  have hd := Nat.div_add_mod offset.toNat v.clusterSize.toNat
  rw [← UInt32.toNat_div, ← UInt32.toNat_mod] at hd
  have hr' := hr
  rw [← hd, Nat.add_assoc] at hr'
  have hk := hr'.skipClusters (Nat.succ_pos _)
  have hc := hr'.after.inChain (Nat.succ_pos _)
  rw [streamOpen, wp_bind, wp_get]
  beta_reduce
  rw [wp_ite, if_neg (UInt32.not_lt.mpr ho), wp_bind]
  refine wp_card_skipClusters fun sectorData => ?_
  rw [hk, hc, wp_ite, if_neg (by decide)]
  refine ⟨rfl, ⟨rfl, UInt32.le_iff_toNat_le.mp ho, ?_, UInt32.toNat_mod ..,
    (by intros; contradiction)⟩, rfl⟩
  rw [← UInt32.toNat_div]

-- The block that holds the byte at a position.
theorem Positioned.lba (h : Positioned v n s) :
    v.clusterLba s.gif.stream.cluster + s.gif.stream.clusterOffset / 512 =
      v.clusterLba (v.nextCluster^[n / v.clusterSize.toNat] s.gif.entry.cluster) +
        .ofNat (n % v.clusterSize.toNat / sdBlockSize) := by
  rw [h.cluster, ← h.clusterOffset]
  congr 1
  refine UInt32.toNat_inj.mp ?_
  rw [UInt32.toNat_div]
  have := s.gif.stream.clusterOffset.toNat_lt
  exact (UInt32.toNat_ofNat_of_lt' (show _ / 512 < 2 ^ 32 by omega)).symm

theorem wp_card_fetch {Q : Bool → Globals → List Call → Prop} {lba : UInt32} {sectorData : Memory}
    (h : Positioned v n s) (hb : v.readBlock lba = some sectorData)
    (hq : ∀ s', Streamed s s' → Positioned v n s' → s'.sectorData = sectorData →
      s'.gif.stream.clusterOffset = s.gif.stream.clusterOffset → Q true s' rows) :
    wp (card v) (fetch lba) Q s rows := by
  rw [fetch, wp_bind, wp_get]
  beta_reduce
  rw [wp_ite]
  split
  case isTrue =>
    rw [wp_bind]
    refine wp_card_readBlock (fun sectorData' hb' => ?_) fun hn => ?_
    · cases hb.symm.trans hb'
      exact hq _ rfl ⟨h.offset, h.range, h.cluster, h.clusterOffset, fun _ => hb⟩ rfl rfl
    · cases hb.symm.trans hn
  case isFalse hc =>
    simp only [Bool.or_eq_true, Bool.not_eq_true', decide_eq_true_eq, not_or,
      Bool.not_eq_false, not_not] at hc
    have hs := h.cache hc.left
    rw [hc.right] at hs
    exact hq _ rfl h (Option.some_inj.mp (hs.symm.trans hb)) rfl

-- As far as the cluster goes.
theorem wp_card_advance {Q : Unit → Globals → List Call → Prop} (h : Positioned v n s)
    (hc : n % v.clusterSize.toNat + take ≤ v.clusterSize.toNat)
    (hs : n + take ≤ s.gif.entry.size.toNat)
    (hq : ∀ s', Streamed s s' → Positioned v (n + take) s' → Q () s' rows) :
    wp (card v) (advance v.toGeometry (.ofNat take)) Q s rows := by
  have hl := v.clusterSize.toNat_lt
  have hz := s.gif.entry.size.toNat_lt
  have ht : (UInt32.ofNat take).toNat = take :=
    UInt32.toNat_ofNat_of_lt' (show take < 2 ^ 32 by omega)
  have hf : (s.gif.stream.fileOffset + .ofNat take).toNat = n + take := by
    rw [UInt32.toNat_add, ht, h.offset]
    omega
  have ho : (s.gif.stream.clusterOffset + .ofNat take).toNat =
      n % v.clusterSize.toNat + take := by
    rw [UInt32.toNat_add, ht, h.clusterOffset]
    omega
  have hn : n + take =
      v.clusterSize.toNat * (n / v.clusterSize.toNat) + (n % v.clusterSize.toNat + take) := by
    rw [← Nat.add_assoc, Nat.div_add_mod]
  have hp := v.clusterSize_pos
  rw [advance, wp_bind, modifyGif, wp_modify, wp_bind, wp_get]
  beta_reduce
  rw [wp_ite]
  split
  case isTrue hg =>
    have hg := UInt32.le_iff_toNat_le.mp hg
    dsimp only at hg
    have he : n % v.clusterSize.toNat + take = v.clusterSize.toNat := by
      rw [ho] at hg
      omega
    rw [he, ← Nat.mul_succ] at hn
    rw [wp_bind]
    refine wp_card_nextCluster fun sectorData => hq _ rfl ⟨hf, hs, ?_, ?_, (by intros; contradiction)⟩
    · rw [hn, Nat.mul_div_cancel_left _ hp, Function.iterate_succ_apply', ← h.cluster]
    · rw [hn, Nat.mul_mod_right]
      rfl
  case isFalse hg =>
    have hg : n % v.clusterSize.toNat + take < v.clusterSize.toNat :=
      ho ▸ UInt32.lt_iff_toNat_lt.mp (UInt32.not_le.mp hg)
    refine hq _ rfl ⟨hf, hs, ?_, ?_, h.cache⟩
    · rw [hn, Nat.mul_add_div hp, Nat.div_eq_of_lt hg, Nat.add_zero]
      exact h.cluster
    · rw [hn, Nat.mul_add_mod, Nat.mod_eq_of_lt hg]
      exact ho

-- The bytes of a block are those of the file.
theorem sectorData_read {entry : Entry} {sectorData : Memory}
    (hb : v.readBlock (v.clusterLba (v.nextCluster^[n / v.clusterSize.toNat] entry.cluster) +
      .ofNat (n % v.clusterSize.toNat / sdBlockSize)) = some sectorData)
    (ht : n % v.clusterSize.toNat % sdBlockSize + take ≤ sdBlockSize)
    (hc : n % v.clusterSize.toNat + take ≤ v.clusterSize.toNat) :
    sectorData.read (n % v.clusterSize.toNat % sdBlockSize) take =
      (v.fileByte entry).read n take := by
  rw [Volume.sectorsByte_read hb ht, Nat.mul_comm, Nat.div_add_mod, Volume.chainByte_read hc]
  refine List.map_congr_left fun i _ => ?_
  rw [← Volume.chainByte_add, ← Nat.add_assoc, Nat.div_add_mod, Volume.fileByte]

-- The rest of a block does not go beyond the cluster.
theorem block_in_cluster (h : n % v.clusterSize.toNat % sdBlockSize + take ≤ sdBlockSize) :
    n % v.clusterSize.toNat + take ≤ v.clusterSize.toNat := by
  have hl := Nat.mod_lt n v.clusterSize_pos
  have hd := Nat.div_add_mod (n % v.clusterSize.toNat) sdBlockSize
  rw [v.clusterSize_toNat] at *
  simp only [sdBlockSize] at *
  omega

-- What holds in the loop of `fat_stream_read`, which has been started at `n` for `len` bytes.
structure Gathering (v : Volume) (s : Globals) (n len : Nat) (b : List UInt8 × Nat)
    (s' : Globals) : Prop where
  left : b.snd ≤ len
  bytes : b.fst = (v.fileByte s.gif.entry).read n (len - b.snd)
  streamed : Streamed s s'
  positioned : Positioned v (n + (len - b.snd)) s'

theorem wp_card_streamRound {b : List UInt8 × Nat} (hs : n + len ≤ s.gif.entry.size.toNat)
    (hr : v.Readable s.gif.entry.cluster (n + len)) (h : Gathering v s n len b s') :
    wp (card v) (streamRound v.toGeometry b)
      (fun r s' rows' => rows' = rows ∧ r.elim
        (fun r => r = (true, (v.fileByte s.gif.entry).read n len) ∧ Streamed s s' ∧
          Positioned v (n + len) s')
        fun b => Gathering v s n len b s') s' rows := by
  obtain ⟨bytes, left⟩ := b
  obtain ⟨hl, hb, hm, hp⟩ := h
  dsimp only at hl hb hp
  rw [streamRound]
  dsimp only
  rw [wp_ite]
  split
  case isTrue hz =>
    rw [hz, Nat.sub_zero] at hb hp
    exact ⟨rfl, congrArg (true, ·) hb, hm, hp⟩
  case isFalse hz =>
  rw [wp_bind, wp_get]
  beta_reduce
  obtain ⟨hi, hk⟩ := hr (n + (len - left)) (by omega)
  rw [← hm.entry] at hs hi hk
  rw [wp_ite, if_neg]
  case hnc =>
    rw [hp.cluster, hi, not_or]
    refine ⟨UInt32.not_le.mpr (UInt32.lt_iff_toNat_lt.mpr ?_), by decide⟩
    rw [hp.offset]
    omega
  obtain ⟨sectorData, hk⟩ := Option.isSome_iff_exists.mp hk
  have ho : (s'.gif.stream.clusterOffset % 512).toNat =
      (n + (len - left)) % v.clusterSize.toNat % sdBlockSize := by
    rw [UInt32.toNat_mod, hp.clusterOffset]
    rfl
  have hf : (s'.gif.entry.size - s'.gif.stream.fileOffset).toNat =
      s'.gif.entry.size.toNat - (n + (len - left)) := by
    rw [UInt32.toNat_sub_of_le _ _ (UInt32.le_iff_toNat_le.mpr (hp.offset.trans_le hp.range)),
      hp.offset]
  rw [ho, hf]
  have ht : min (min (sdBlockSize - (n + (len - left)) % v.clusterSize.toNat % sdBlockSize) left)
      (s'.gif.entry.size.toNat - (n + (len - left))) ≤
      min left (sdBlockSize - (n + (len - left)) % v.clusterSize.toNat % sdBlockSize) := by
    omega
  generalize min (min (sdBlockSize - (n + (len - left)) % v.clusterSize.toNat % sdBlockSize) left)
      (s'.gif.entry.size.toNat - (n + (len - left))) = take at ht
  have hb₁ : (n + (len - left)) % v.clusterSize.toNat % sdBlockSize + take ≤ sdBlockSize := by
    have := Nat.mod_lt ((n + (len - left)) % v.clusterSize.toNat) (show 0 < sdBlockSize by decide)
    omega
  have hc := block_in_cluster hb₁
  rw [wp_bind]
  refine wp_card_fetch hp (hp.lba ▸ hk) fun s₁ hm₁ hp₁ hs₁ _ => ?_
  rw [wp_ite, if_pos rfl, wp_bind, wp_get]
  beta_reduce
  rw [wp_bind]
  have hz₁ : n + (len - left) + take ≤ s₁.gif.entry.size.toNat := by
    rw [hm₁.entry]
    omega
  refine wp_card_advance hp₁ hc hz₁ fun s₂ hm₂ hp₂ => ?_
  have hl' : len - (left - take) = len - left + take := by omega
  refine ⟨rfl, by dsimp only; omega, ?_, (hm.trans hm₁).trans hm₂, ?_⟩
  · dsimp only
    rw [hs₁, sectorData_read hk hb₁ hc, hb, hl', hm.entry, Memory.read_append]
  · dsimp only
    rw [hl', ← Nat.add_assoc]
    exact hp₂

-- A read returns the bytes of the file, and moves the stream behind them.
theorem wp_card_read {Q : FileResult × List UInt8 → Globals → List Call → Prop}
    (hp : Positioned v n s) (hs : n + len ≤ s.gif.entry.size.toNat)
    (hr : v.Readable s.gif.entry.cluster (n + len))
    (hq : ∀ s', Streamed s s' → Positioned v (n + len) s' →
      Q (.ok, (v.fileByte s.gif.entry).read n len) s' rows) :
    wp (card v) (read v.toGeometry len) Q s rows := by
  have hf : (s.gif.entry.size - s.gif.stream.fileOffset).toNat = s.gif.entry.size.toNat - n := by
    rw [UInt32.toNat_sub_of_le _ _ (UInt32.le_iff_toNat_le.mpr (hp.offset.trans_le hp.range)),
      hp.offset]
  rw [read, wp_bind, wp_get]
  beta_reduce
  rw [wp_ite, if_neg]
  case hnc =>
    rw [hf, not_or]
    refine ⟨UInt32.not_lt.mpr (UInt32.le_iff_toNat_le.mpr (hp.offset.trans_le hp.range)), ?_⟩
    omega
  rw [wp_bind, streamRead]
  refine wp_mono (wp_loop (fun b s' rows' => rows' = rows ∧ Gathering v s n len b s')
    (fun _ _ _ _ => trivial)
    (Q := fun r s' rows' => rows' = rows ∧ r = (true, (v.fileByte s.gif.entry).read n len) ∧
      Streamed s s' ∧ Positioned v (n + len) s') ?_ ?_) ?_
  case refine_1 =>
    rintro b s' _ ⟨rfl, hb⟩
    refine wp_mono (wp_card_streamRound hs hr hb) fun r s'' rows' hr => ?_
    cases r <;> exact hr
  case refine_2 =>
    refine ⟨rfl, Nat.le_refl _, ?_, .refl, ?_⟩
    · rw [Nat.sub_self]
      rfl
    · rw [Nat.sub_self]
      exact hp
  case refine_3 =>
    rintro _ s' _ ⟨rfl, rfl, hm, hp⟩
    exact hq s' hm hp

-- The data that the stream is in front of.
def Ahead (v : Volume) (data : List UInt8) (s : Globals) : Prop :=
  ∃ n, Positioned v n s ∧ n + data.length ≤ s.gif.entry.size.toNat ∧
    v.Readable s.gif.entry.cluster (n + data.length) ∧
    (v.fileByte s.gif.entry).read n data.length = data

variable {data data' bytes tail : List UInt8} {blocks : Subblocks}

theorem Ahead.congr (h : Ahead v data s) (hg : s'.gif = s.gif) (hs : s'.sectorData = s.sectorData) :
    Ahead v data s' := by
  obtain ⟨n, hp, hn⟩ := h
  refine ⟨n, hp.congr hg hs, ?_⟩
  rw [hg]
  exact hn

theorem wp_card_read_ahead {Q : FileResult × List UInt8 → Globals → List Call → Prop}
    (h : Ahead v (data ++ data') s)
    (hq : ∀ s', Streamed s s' → Ahead v data' s' → Q (.ok, data) s' rows) :
    wp (card v) (read v.toGeometry data.length) Q s rows := by
  obtain ⟨n, hp, hs, hr, hd⟩ := h
  rw [List.length_append, ← Nat.add_assoc] at hs hr
  rw [List.length_append, ← Memory.read_append] at hd
  obtain ⟨hl, hd⟩ := List.append_inj hd Memory.read_length
  refine wp_card_read hp (Nat.le_of_add_right_le hs) (fun p hp => hr p (by omega)) ?_
  intro s' hm hp'
  rw [hl]
  refine hq s' hm ⟨n + data.length, hp', ?_, ?_, ?_⟩
  · rw [hm.entry]
    exact hs
  · rw [hm.entry]
    exact hr
  · rw [hm.entry]
    exact hd

-- Blocks of at most 255 bytes as a file has them, with the terminator.
def framed (blocks : List (List UInt8)) : List UInt8 :=
  blocks.flatMap (fun block => .ofNat block.length :: block) ++ [0]

theorem framed_cons {block : List UInt8} {behind : List (List UInt8)} :
    framed (block :: behind) = [.ofNat block.length] ++ (block ++ framed behind) := by
  simp only [framed, List.flatMap_cons, List.cons_append, List.append_assoc, List.nil_append]

def Framable (blocks : List (List UInt8)) : Prop :=
  ∀ block ∈ blocks, 1 ≤ block.length ∧ block.length ≤ 255

-- The bytes that are still to be given out, from the current block and from those behind it. In the
-- file they are followed by `tail`.
structure Source (v : Volume) (tail : List UInt8) (blocks : Subblocks) (bytes : List UInt8)
    (s : Globals) : Prop where
  unfinished : blocks.finished = false
  ok : blocks.failure = .ok
  range : blocks.position ≤ blocks.size
  bytes : ∃ behind, Framable behind ∧ Ahead v (framed behind ++ tail) s ∧
    Memory.read blocks.data blocks.position (blocks.size - blocks.position) ++ behind.flatten =
      bytes

theorem wp_card_takeByte {Q : Option UInt8 × Subblocks → Globals → List Call → Prop}
    (hq : Q (some (blocks.data blocks.position), { blocks with position := blocks.position + 1 })
      s rows) : wp (card v) (takeByte blocks) Q s rows := by
  rw [takeByte, wp_bind]
  exact wp_card_check hq

theorem wp_card_subblockByte {Q : Option UInt8 × Subblocks → Globals → List Call → Prop}
    (h : Source v tail blocks bytes s)
    (hn : ∀ blocks' s', bytes = [] → Streamed s s' → blocks'.failure = .ok → Ahead v tail s' →
      Q (none, blocks') s' rows)
    (hq : ∀ byte bytes' blocks' s', bytes = byte :: bytes' → Streamed s s' →
      Source v tail blocks' bytes' s' → Q (some byte, blocks') s' rows) :
    wp (card v) (subblockByte v.toGeometry blocks) Q s rows := by
  obtain ⟨hu, ho, hr, behind, hf, ha, hb⟩ := h
  rw [subblockByte, wp_ite, if_neg (by rw [hu, ho]; decide), wp_ite]
  split
  case isFalse hp =>
    refine wp_card_takeByte
      (hq _ _ _ _ ?_ .refl ⟨hu, ho, by dsimp only; omega, behind, hf, ha, rfl⟩)
    have hl : blocks.size - blocks.position = blocks.size - (blocks.position + 1) + 1 := by omega
    rw [hl, Memory.read_succ] at hb
    exact hb.symm
  case isTrue hp =>
  have hz : blocks.size - blocks.position = 0 := by omega
  rw [hz] at hb
  rw [wp_bind]
  cases behind
  case nil =>
    have ha₀ : Ahead v ([0] ++ tail) s := ha
    refine wp_card_read_ahead ha₀ fun s₁ hm₁ ha₁ => ?_
    exact hn _ _ hb.symm hm₁ ho ha₁
  case cons block behind =>
  obtain ⟨⟨hl, hg⟩, hf'⟩ := List.forall_mem_cons.mp hf
  rw [framed_cons, List.append_assoc, List.append_assoc] at ha
  refine wp_card_read_ahead ha fun s₁ hm₁ ha₁ => ?_
  have hs : (UInt8.ofNat block.length).toNat = block.length :=
    UInt8.toNat_ofNat_of_lt' (show block.length < 2 ^ 8 by omega)
  dsimp only
  rw [wp_ite, if_neg (by decide), List.getD_cons_zero, hs, wp_ite, if_neg (by omega), wp_bind]
  refine wp_card_read_ahead ha₁ fun s₂ hm₂ ha₂ => ?_
  dsimp only
  rw [wp_ite, if_neg (by decide)]
  have hd : Memory.read (fun i => block.getD i 0) 0 block.length = block :=
    Memory.read_eq rfl fun i hi => by rw [Nat.zero_add, List.getD_eq_getElem _ _ hi]
  obtain ⟨byte, block, rfl⟩ := List.exists_cons_of_length_pos hl
  refine wp_card_takeByte (hq _ (block ++ behind.flatten) _ _ ?_ (hm₁.trans hm₂)
    ⟨hu, ho, hl, behind, hf', ha₂, ?_⟩)
  · exact hb.symm
  · rw [List.length_cons, Memory.read_succ] at hd
    exact congrArg (· ++ behind.flatten) (List.cons_inj_right _ |>.mp hd)

theorem wp_card_drain {Q : Subblocks → Globals → List Call → Prop}
    (h : Source v tail blocks bytes s)
    (hq : ∀ blocks' s', Streamed s s' → blocks'.failure = .ok → Ahead v tail s' →
      Q blocks' s' rows) :
    wp (card v) (drain v.toGeometry blocks) Q s rows := by
  rw [drain, wp_bind, wp_get]
  beta_reduce
  refine wp_mono (wp_loop
    (fun blocks s' rows' => rows' = rows ∧ Streamed s s' ∧ ∃ bytes, Source v tail blocks bytes s')
    (fun _ _ _ _ => trivial)
    (Q := fun blocks s' rows' => rows' = rows ∧ Streamed s s' ∧ blocks.failure = .ok ∧
      Ahead v tail s')
    ?_ ⟨rfl, .refl, bytes, h⟩) ?_
  case refine_1 =>
    rintro blocks s' _ ⟨rfl, hm, bytes, hs⟩
    rw [wp_bind]
    refine wp_card_subblockByte hs ?_ ?_
    · exact fun _ _ _ hm' ho ha => ⟨rfl, hm.trans hm', ho, ha⟩
    · exact fun _ bytes' _ _ _ hm' hs' => ⟨rfl, hm.trans hm', bytes', hs'⟩
  case refine_2 =>
    rintro blocks' s' _ ⟨rfl, hm, ho, ha⟩
    exact hq blocks' s' hm ho ha

-- The bits that are still to be given out.
def Feeds (v : Volume) (tail : List UInt8) (b : Bits) (stream : List Bool) (s : Globals) : Prop :=
  ∃ bytes, Source v tail b.blocks bytes s ∧ b.bits < 2 ^ b.bitCount ∧
    BitStream.ofNat b.bitCount b.bits ++ BitStream.ofBytes bytes = stream

theorem Feeds.congr {b : Bits} {stream : List Bool} (h : Feeds v tail b stream s)
    (hg : s'.gif = s.gif) (hs : s'.sectorData = s.sectorData) : Feeds v tail b stream s' := by
  obtain ⟨bytes, ⟨hu, ho, hr, behind, hf, ha, hb⟩, he⟩ := h
  exact ⟨bytes, ⟨hu, ho, hr, behind, hf, ha.congr hg hs, hb⟩, he⟩

-- In front of the blocks nothing has been given out yet.
theorem Feeds.start {blocks : List (List UInt8)} (hf : Framable blocks)
    (ha : Ahead v (framed blocks ++ tail) s) :
    Feeds v tail ⟨.zero, 0, 0⟩ (BitStream.ofBytes blocks.flatten) s :=
  ⟨blocks.flatten, ⟨rfl, rfl, Nat.le_refl 0, blocks, hf, ha, rfl⟩, Nat.one_pos, rfl⟩

theorem wp_card_readCode {Q : Option Nat × Bits → Globals → List Call → Prop} {b : Bits}
    {width code : Nat} {stream : List Bool} (hc : code < 2 ^ width)
    (h : Feeds v tail b (BitStream.ofNat width code ++ stream) s)
    (hq : ∀ b' s', Streamed s s' → Feeds v tail b' stream s' → Q (some code, b') s' rows) :
    wp (card v) (readCode v.toGeometry width b) Q s rows := by
  rw [readCode, wp_bind]
  refine wp_mono (wp_loop
    (fun b' s' rows' => rows' = rows ∧ Streamed s s' ∧
      Feeds v tail b' (BitStream.ofNat width code ++ stream) s')
    (fun _ _ _ _ => trivial)
    (Q := fun r s' rows' => rows' = rows ∧ Streamed s s' ∧ r.fst ∧ width ≤ r.snd.bitCount ∧
      Feeds v tail r.snd (BitStream.ofNat width code ++ stream) s')
    ?_ ⟨rfl, .refl, h⟩) ?_
  case refine_1 =>
    rintro b' s' _ ⟨rfl, hm, hf⟩
    rw [bitsRound, wp_ite]
    split
    case isFalse hw => exact ⟨rfl, hm, rfl, Nat.le_of_not_lt hw, hf⟩
    case isTrue hw =>
    obtain ⟨bytes, hs, hb, he⟩ := hf
    rw [wp_bind]
    refine wp_card_subblockByte hs ?_ ?_
    case refine_1 =>
      rintro _ _ rfl _ _ _
      have hl := congrArg List.length he
      simp only [BitStream.ofBytes_nil, List.append_nil, List.length_append,
        BitStream.ofNat_length] at hl
      omega
    case refine_2 =>
      rintro byte bytes' blocks' s'' rfl hm' hs'
      refine ⟨rfl, hm.trans hm', bytes', hs', ?_, ?_⟩
      · exact BitStream.or_shiftLeft_lt hb byte.toNat_lt
      · rw [← he, BitStream.ofBytes_cons, ← List.append_assoc]
        exact congrArg (· ++ _) (BitStream.ofNat_or_shiftLeft hb)
  case refine_2 =>
    rintro ⟨ok, b'⟩ s' _ ⟨rfl, hm, rfl, hw, bytes, hs, hb, he⟩
    dsimp only
    obtain ⟨hv, hr⟩ := BitStream.take_eq hw hc he
    rw [wp_ite, if_neg (by decide), hv]
    refine hq _ _ hm ⟨bytes, hs, ?_, hr⟩
    rw [Nat.shiftRight_eq_div_pow]
    refine Nat.div_lt_of_lt_mul ?_
    rw [← Nat.pow_add]
    dsimp only at hw ⊢
    rwa [Nat.add_sub_of_le hw]

end Gif
