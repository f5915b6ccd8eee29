import HackyLens.Photo.Theorems.GifLzw

-- What is called while a frame is decoded: the card and the sink's rows, but not the functions that
-- begin and end a frame or an animation.

namespace Gif

open Core Fat32 Prog

def Call.Inner : Call → Prop
  | readBlock _ | renderIndexedRow .. | outOfRange => True
  | _ => False

-- Whatever the answers are, these are the only calls.
def Inner {α : Type} (p : M α) : Prop :=
  ∀ s, Ensures Call.Inner p (fun _ _ => True) s

variable {α β γ : Type} {p p' : M α} {c : Call}

namespace Inner

theorem pure {a : α} : Inner (pure a : M α) :=
  fun _ => trivial

theorem get : Inner (get : M Globals) :=
  fun _ => trivial

theorem modify {f : Globals → Globals} : Inner (modify f : M PUnit) :=
  fun _ => trivial

theorem hang : Inner (hang : M α) :=
  fun _ => trivial

theorem call (h : c.Inner) : Inner (Prog.call c : M c.Reply) :=
  fun _ => ⟨h, fun _ _ => trivial⟩

theorem bind {f : α → M β} (hp : Inner p) (hf : ∀ a, Inner (f a)) : Inner (p >>= f) :=
  fun s => (hp s).seq fun a s _ => hf a s

theorem ite {b : Prop} [Decidable b] (h : Inner p) (h' : Inner p') :
    Inner (if b then p else p') := by
  split
  · exact h
  · exact h'

theorem loop {body : β → M (α ⊕ β)} {fuel : Nat} {b : β} (h : ∀ b, Inner (body b)) :
    Inner (.loop body fuel b) :=
  fun s => .loop (fun _ _ => True)
    (fun b s _ => (h b s).mono fun r _ _ => by cases r <;> trivial) trivial

end Inner

variable {g : Geometry}

theorem check_inner {i size : Nat} : Inner (check i size) := by
  rw [check]
  exact .ite .pure (.bind (.call trivial) fun _ => .hang)

theorem readBlock_inner {lba : UInt32} : Inner (readBlock lba) := by
  rw [readBlock]
  refine .bind (.call trivial) fun answer => ?_
  cases answer
  · exact .pure
  · exact .bind .modify fun _ => .pure

theorem nextCluster_inner {cluster : UInt32} : Inner (nextCluster g cluster) := by
  rw [nextCluster]
  exact .bind readBlock_inner fun _ => .ite (.bind .get fun _ => .pure) .pure

theorem skipClusters_inner {n : Nat} {cluster : UInt32} : Inner (skipClusters g n cluster) := by
  induction n generalizing cluster with
  | zero      => exact .pure
  | succ n ih =>
    rw [skipClusters]
    exact .ite (.bind nextCluster_inner fun _ => ih) .pure

theorem streamOpen_inner {offset : UInt32} : Inner (streamOpen g offset) := by
  rw [streamOpen]
  refine .bind .get fun s => .ite .pure (.bind skipClusters_inner fun cluster => ?_)
  exact .ite .pure (.bind .modify fun _ => .pure)

theorem fetch_inner {lba : UInt32} : Inner (fetch lba) := by
  rw [fetch]
  refine .bind .get fun s => .ite (.bind readBlock_inner fun _ => ?_) .pure
  exact .ite (.bind .modify fun _ => .pure) .pure

theorem advance_inner {take : UInt32} : Inner (advance g take) := by
  rw [advance]
  refine .bind .modify fun _ => .bind .get fun s => ?_
  exact .ite (.bind nextCluster_inner fun _ => .modify) .pure

theorem read_inner {len : Nat} : Inner (read g len) := by
  rw [read]
  refine .bind .get fun s => .ite .pure (.bind (.loop fun b => ?_) fun r => ?_)
  · rw [streamRound]
    refine .ite .pure (.bind .get fun s => .ite .pure (.bind fetch_inner fun _ => ?_))
    exact .ite (.bind .get fun _ => .bind advance_inner fun _ => .pure) .pure
  · exact .ite .pure .pure

theorem readColours_inner {put : Nat → UInt16 → M Unit} (h : ∀ i colour, Inner (put i colour))
    {left i : Nat} : Inner (readColours g put left i) := by
  induction left generalizing i with
  | zero => exact .pure
  | succ left ih =>
    rw [readColours]
    refine .bind read_inner fun r => .ite .pure ?_
    exact .bind check_inner fun _ => .bind (h _ _) fun _ => ih

theorem readPalette_inner {put : Nat → UInt16 → M Unit} (h : ∀ i colour, Inner (put i colour))
    {count : Nat} : Inner (readPalette g put count) := by
  rw [readPalette]
  exact .ite .pure (readColours_inner h)

theorem subblockByte_inner {blocks : Subblocks} : Inner (subblockByte g blocks) := by
  have take {blocks : Subblocks} : Inner (takeByte blocks) := .bind check_inner fun _ => .pure
  rw [subblockByte]
  refine .ite .pure (.ite (.bind read_inner fun r => .ite .pure (.ite .pure ?_)) take)
  exact .bind read_inner fun r => .ite .pure take

theorem drain_inner {blocks : Subblocks} : Inner (drain g blocks) := by
  rw [drain]
  refine .bind .get fun s => .loop fun blocks => .bind subblockByte_inner fun r => ?_
  obtain ⟨_ | byte, blocks⟩ := r
  · exact .pure
  · exact .pure

theorem skipSubblocks_inner : Inner (skipSubblocks g) :=
  .bind drain_inner fun _ => .pure

theorem readCode_inner {width : Nat} {b : Bits} : Inner (readCode g width b) := by
  rw [readCode]
  refine .bind (.loop fun b => ?_) fun r => .ite .pure .pure
  rw [bitsRound]
  refine .ite (.bind subblockByte_inner fun r => ?_) .pure
  obtain ⟨_ | byte, blocks⟩ := r
  · exact .pure
  · exact .pure

section Pixels

variable {frame : Frame} {palette : Nat → UInt16} {paletteSize : Nat} {interlaced : Bool}

theorem emitIndex_inner {index : UInt8} {pixelCount rowUsed : Nat} :
    Inner (emitIndex frame palette paletteSize interlaced index pixelCount rowUsed) := by
  rw [emitIndex]
  refine .ite .pure (.ite .pure (.bind (.bind check_inner fun _ => .modify) fun _ => ?_))
  refine .ite .pure (.ite .pure (.bind .get fun s => .bind (.call trivial) fun _ => .pure))

theorem emitStack_inner {stackSize pixelCount rowUsed : Nat} :
    Inner (emitStack frame palette paletteSize interlaced stackSize pixelCount rowUsed) := by
  induction stackSize generalizing pixelCount rowUsed with
  | zero => exact .pure
  | succ stackSize ih =>
    rw [emitStack]
    refine .bind check_inner fun _ => .bind .get fun s => .bind emitIndex_inner fun r => ?_
    exact .ite .pure ih

theorem push_inner {stackSize : Nat} {index : UInt8} : Inner (push stackSize index) :=
  .bind check_inner fun _ => .modify

theorem addEntry_inner {first : UInt8} {l : Lzw} : Inner (addEntry first l) := by
  rw [addEntry]
  cases l.previous
  · exact .pure
  · exact .ite (.bind check_inner fun _ => .bind .modify fun _ => .pure) .pure

theorem decodeCode_inner {clearCode code : Nat} {l : Lzw} :
    Inner (decodeCode frame palette paletteSize interlaced clearCode code l) := by
  have start {l : Lzw} : Inner (walkStart code l) := by
    rw [walkStart]
    exact .ite (.bind push_inner fun _ => .pure) .pure
  have walk {nextCode : Nat} (b : Nat × Nat) : Inner (walkRound clearCode nextCode b) := by
    rw [walkRound]
    refine .ite (.ite .pure (.bind check_inner fun _ => .bind .get fun s => ?_)) .pure
    exact .bind push_inner fun _ => .pure
  rw [decodeCode]
  refine .ite .pure (.bind start fun b => .bind (.loop walk) fun r => ?_)
  obtain _ | ⟨last, stackSize⟩ := r
  · exact .pure
  · change Inner (emitCode frame palette paletteSize interlaced code last stackSize l)
    rw [emitCode]
    refine .ite .pure (.bind push_inner fun _ => .bind emitStack_inner fun r => ?_)
    exact .ite .pure (.bind addEntry_inner fun _ => .pure)

theorem lzwRound_inner {minimumCodeSize : Nat} {l : Lzw} :
    Inner (lzwRound frame palette paletteSize interlaced g minimumCodeSize l) := by
  rw [lzwRound]
  refine .bind readCode_inner fun r => ?_
  obtain ⟨_ | code, bits⟩ := r
  · exact .pure
  · refine .ite .pure (.ite .pure (.bind decodeCode_inner fun r => ?_))
    cases r
    · exact .pure
    · exact .pure

-- The sink is asked to begin and to end a frame outside of `gif_decode_lzw`.
theorem decodeLzw_inner : Inner (decodeLzw frame palette paletteSize interlaced g) := by
  rw [decodeLzw]
  refine .bind .modify fun _ => .bind read_inner fun r => .ite .pure (.ite .pure ?_)
  refine .bind check_inner fun _ => .bind .modify fun _ => .bind .get fun s => ?_
  refine .bind (.loop fun l => lzwRound_inner) fun r => ?_
  obtain result | ⟨sawEnd, l⟩ := r
  · exact .pure
  · exact .bind drain_inner fun blocks => .ite .pure (.ite .pure .pure)

end Pixels

theorem putColour_inner {i : Nat} {colour : UInt16} :
    Inner (putGlobal i colour) ∧ Inner (putLocal i colour) :=
  ⟨.modify, .modify⟩

theorem readGraphicsControl_inner : Inner (readGraphicsControl g) := by
  rw [readGraphicsControl]
  exact .bind read_inner fun r => .ite .pure (.ite .pure (.bind .modify fun _ => .pure))

theorem readApplicationExtension_inner : Inner (readApplicationExtension g) := by
  rw [readApplicationExtension]
  refine .bind read_inner fun r => .ite .pure (.ite .pure (.bind read_inner fun r => ?_))
  exact .ite .pure (.ite (.bind .modify fun _ => skipSubblocks_inner) skipSubblocks_inner)

theorem skipExtensionHeader_inner : Inner (skipExtensionHeader g) := by
  rw [skipExtensionHeader]
  refine .bind read_inner fun r => .ite .pure (.ite ?_ skipSubblocks_inner)
  exact .bind read_inner fun r => .ite .pure skipSubblocks_inner

theorem readExtension_inner : Inner (readExtension g) := by
  rw [readExtension]
  refine .bind read_inner fun r => .ite .pure (.ite readGraphicsControl_inner ?_)
  exact .ite readApplicationExtension_inner (.ite skipExtensionHeader_inner skipSubblocks_inner)

theorem framePalette_inner {packed : UInt8} : Inner (framePalette g packed) := by
  rw [framePalette]
  refine .ite (.bind (readPalette_inner fun _ _ => putColour_inner.right) fun _ => ?_) ?_
  · exact .bind .get fun s => .pure
  · exact .bind .get fun s => .ite .pure .pure

theorem headerPalette_inner {packed backgroundIndex : UInt8} :
    Inner (headerPalette g packed backgroundIndex) := by
  rw [headerPalette]
  refine .bind .modify fun _ => .ite (.bind .modify fun _ => ?_) .pure
  refine .bind (readPalette_inner fun _ _ => putColour_inner.left) fun _ => .ite .pure ?_
  exact .ite (.bind .modify fun _ => .pure) .pure

end Gif
