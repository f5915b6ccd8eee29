import HackyLens.Photo.Theorems.GifCalls

-- GIF files, and what is read of their parts.

namespace Gif

open Core Fat32 Prog LittleEndian

abbrev Colour := UInt8 × UInt8 × UInt8

def Colour.rgb565 (c : Colour) : UInt16 :=
  Files.rgb565 c.1 c.2.1 c.2.2

def colourBytes (colours : List Colour) : List UInt8 :=
  colours.flatMap fun c => [c.1, c.2.1, c.2.2]

-- The number of colours that is packed into a byte.
def paletteLength (packed : UInt8) : Nat :=
  if packed &&& 0x80 ≠ 0 then 2 * 2 ^ (packed &&& 7).toNat else 0

def paletteColour (colours : List Colour) (i : Nat) : UInt16 :=
  (colours.getD i (0, 0, 0)).rgb565

-- An image with its own palette, if it has one, and the codes of its pixels. The indices are by the
-- columns and rows of the image.
structure Image where
  x : UInt16
  y : UInt16
  w : UInt16
  h : UInt16
  packed : UInt8
  colours : List Colour
  index : Nat → Nat → UInt8
  codeSize : Nat
  blocks : List (List UInt8)

namespace Image

variable (image : Image)

def interlaced : Bool :=
  image.packed &&& 0x40 ≠ 0

def descriptor : List UInt8 :=
  bytes16 image.x ++ bytes16 image.y ++ bytes16 image.w ++ bytes16 image.h ++ [image.packed]

def bytes : List UInt8 :=
  image.descriptor ++ (colourBytes image.colours ++ lzwData image.codeSize image.blocks)

-- The pixels in the order in which they are stored.
def pixels : List UInt8 :=
  (rowOrder image.interlaced image.h.toNat).flatMap fun row =>
    (List.range image.w.toNat).map fun x => image.index x row

end Image

-- What a file consists of behind its header. A plain text extension has a header of its own.
inductive Block
  | control (packed : UInt8) (delay : UInt16) (transparent : UInt8)
  | application (app : List UInt8) (blocks : List (List UInt8))
  | plainText (header : List UInt8) (blocks : List (List UInt8))
  | other (label : UInt8) (blocks : List (List UInt8))
  | image (image : Image)

def Block.marker : Block → UInt8
  | image _ => 0x2C
  | _       => 0x21

def Block.body : Block → List UInt8
  | control packed delay transparent =>
    [0xF9] ++ ([4, packed] ++ bytes16 delay ++ [transparent, 0])
  | application app blocks  => [0xFF] ++ ([.ofNat app.length] ++ (app ++ framed blocks))
  | plainText header blocks => [0x01] ++ ([.ofNat header.length] ++ (header ++ framed blocks))
  | other label blocks      => [label] ++ framed blocks
  | image i                 => i.bytes

def Block.bytes (block : Block) : List UInt8 :=
  [block.marker] ++ block.body

structure File where
  version : List UInt8
  canvasW : UInt16
  canvasH : UInt16
  packed : UInt8
  backgroundIndex : UInt8
  aspect : UInt8
  colours : List Colour
  blocks : List Block

namespace File

variable (file : File)

def header : List UInt8 :=
  file.version ++ (bytes16 file.canvasW ++ bytes16 file.canvasH ++
    [file.packed, file.backgroundIndex, file.aspect])

def blockBytes (blocks : List Block) : List UInt8 :=
  blocks.flatMap Block.bytes ++ [0x3B]

def bytes : List UInt8 :=
  file.header ++ (colourBytes file.colours ++ blockBytes file.blocks)

def background : UInt16 :=
  if file.backgroundIndex.toNat < paletteLength file.packed then
    paletteColour file.colours file.backgroundIndex.toNat
  else
    0

def paletteSize (image : Image) : Nat :=
  if image.packed &&& 0x80 ≠ 0 then paletteLength image.packed else paletteLength file.packed

def palette (image : Image) : Nat → UInt16 :=
  paletteColour (if image.packed &&& 0x80 ≠ 0 then image.colours else file.colours)

end File

-- An image on the canvas whose pixels have been compressed in some way.
structure Image.Valid (image : Image) (file : File) : Prop where
  width    : 0 < image.w.toNat
  height   : 0 < image.h.toNat
  right    : image.x.toNat + image.w.toNat ≤ file.canvasW.toNat
  bottom   : image.y.toNat + image.h.toNat ≤ file.canvasH.toNat
  colours  : image.colours.length = paletteLength image.packed
  indices  : ∀ x < image.w.toNat, ∀ y < image.h.toNat,
    (image.index x y).toNat < file.paletteSize image
  codeSize : 2 ≤ image.codeSize ∧ image.codeSize ≤ 8
  blocks   : Framable image.blocks
  encoded  : ∃ codes pad, LZW.Encodes image.codeSize [] image.pixels codes ∧
    BitStream.ofBytes image.blocks.flatten = LZW.bits codes ++ pad

def Block.Valid (file : File) : Block → Prop
  | control ..              => True
  | application app blocks  => 0 < app.length ∧ app.length ≤ 255 ∧ Framable blocks
  | plainText header blocks => header.length ≤ 255 ∧ Framable blocks
  | other label blocks      => label ≠ 0xF9 ∧ label ≠ 0xFF ∧ label ≠ 0x01 ∧ Framable blocks
  | image i                 => i.Valid file

structure File.Valid (file : File) : Prop where
  version : file.version = gif87a ∨ file.version = gif89a
  width   : 0 < file.canvasW.toNat ∧ file.canvasW.toNat ≤ Files.photoViewMaxW
  height  : 0 < file.canvasH.toNat ∧ file.canvasH.toNat ≤ Files.photoViewMaxH
  colours : file.colours.length = paletteLength file.packed
  blocks  : ∀ block ∈ file.blocks, block.Valid file

-- What the extensions tell about the next image.
structure Control where
  delayMs : Nat
  transparentIndex : Int
  disposal : Nat

def Control.none : Control :=
  ⟨minDelayMs, -1, 0⟩

def Control.read (packed : UInt8) (delay : UInt16) (transparent : UInt8) : Control where
  delayMs          := if delay.toNat < 2 then minDelayMs else delay.toNat * 10
  transparentIndex := if packed &&& 1 ≠ 0 then transparent.toNat else -1
  disposal         :=
    if ((packed >>> 2) &&& 7).toNat > 3 then 0 else ((packed >>> 2) &&& 7).toNat

def Control.next (control : Control) : Block → Control
  | .control packed delay transparent => .read packed delay transparent
  | .image _                          => .none
  | _                                 => control

-- The frame that an image is shown as.
def File.frame (file : File) (control : Control) (image : Image) : Frame where
  canvasW          := file.canvasW.toNat
  canvasH          := file.canvasH.toNat
  frameX           := image.x.toNat
  frameY           := image.y.toNat
  frameW           := image.w.toNat
  frameH           := image.h.toNat
  backgroundRgb565 := file.background
  delayMs          := control.delayMs
  transparentIndex :=
    if control.transparentIndex ≥ file.paletteSize image then -1 else control.transparentIndex
  disposal         := control.disposal

section Reading

variable {v : Volume} {s s' : Globals} {rows : List Call} {data tail : List UInt8}

theorem Ahead.of_stream (h : Ahead v data s) (he : s'.gif.entry = s.gif.entry)
    (hs : s'.gif.stream = s.gif.stream) (hd : s'.sectorData = s.sectorData) : Ahead v data s' := by
  obtain ⟨n, ⟨ho, hr, hc, hco, hcache⟩, hn⟩ := h
  refine ⟨n, ⟨?_, ?_, ?_, ?_, ?_⟩, ?_⟩
  · rw [hs]
    exact ho
  · rw [he]
    exact hr
  · rw [hs, he]
    exact hc
  · rw [hs]
    exact hco
  · rw [hs, hd]
    exact hcache
  · rw [he]
    exact hn

-- One of the two palettes of a session.
inductive PaletteKind
  | shared | own

def Session.palette : PaletteKind → Session → Nat → UInt16
  | .shared, gif => gif.globalPalette
  | .own,    gif => gif.localPalette

def Session.withPalette (colours : Nat → UInt16) : PaletteKind → Session → Session
  | .shared, gif => { gif with globalPalette := colours }
  | .own,    gif => { gif with localPalette := colours }

def putColour : PaletteKind → Nat → UInt16 → M Unit
  | .shared => putGlobal
  | .own    => putLocal

-- A palette in which some colours are replaced.
def filled (colours : Nat → UInt16) (i : Nat) (read : List Colour) (j : Nat) : UInt16 :=
  if i ≤ j ∧ j < i + read.length then paletteColour read (j - i) else colours j

theorem filled_nil {colours : Nat → UInt16} {i : Nat} : filled colours i [] = colours := by
  funext j
  exact if_neg (by rw [List.length_nil]; omega)

theorem filled_cons {colours : Nat → UInt16} {i : Nat} {c : Colour} {read : List Colour} :
    filled (Function.update colours i c.rgb565) (i + 1) read = filled colours i (c :: read) := by
  funext j
  rw [filled, filled, List.length_cons]
  by_cases hj : j = i
  case pos =>
    subst hj
    rw [if_neg (by omega), if_pos (by omega), Function.update_self, Nat.sub_self]
    rfl
  case neg =>
    rw [Function.update_of_ne hj]
    by_cases h : i ≤ j ∧ j < i + (read.length + 1)
    case pos =>
      have hs : j - i = j - (i + 1) + 1 := by omega
      rw [if_pos (by omega), if_pos h, hs]
      rfl
    case neg => rw [if_neg (by omega), if_neg h]

-- A session whose palette has been filled.
def Globals.withColours (s : Globals) (kind : PaletteKind) (i : Nat) (read : List Colour) :
    Globals :=
  { s with gif := s.gif.withPalette (filled (s.gif.palette kind) i read) kind }

theorem withColours_nil {kind : PaletteKind} {i : Nat} : s.withColours kind i [] = s := by
  rw [Globals.withColours, filled_nil]
  cases kind <;> rfl

theorem streamed_withColours {kind : PaletteKind} {i : Nat} {c : Colour} {read : List Colour}
    {s₁ : Globals} (h : Streamed s s₁)
    (h' : Streamed (Globals.withColours { s₁ with
      gif := s₁.gif.withPalette (Function.update (s₁.gif.palette kind) i c.rgb565) kind }
        kind (i + 1) read) s') : Streamed (s.withColours kind i (c :: read)) s' := by
  rw [Streamed, h'] at *
  rw [h]
  cases kind <;> simp only [Globals.withColours, Session.withPalette, Session.palette, filled_cons]

theorem wp_card_readColours {Q : FileResult → Globals → List Call → Prop} {kind : PaletteKind}
    {colours : List Colour} {i : Nat} (ha : Ahead v (colourBytes colours ++ tail) s)
    (hq : ∀ s', Streamed (s.withColours kind i colours) s' → Ahead v tail s' → Q .ok s' rows) :
    wp (card v) (readColours v.toGeometry (putColour kind) colours.length i) Q s rows := by
  induction colours generalizing s i with
  | nil =>
    rw [withColours_nil] at hq
    exact hq s .refl ha
  | cons c colours ih =>
    rw [List.length_cons, readColours, wp_bind]
    have ha₀ : Ahead v ([c.1, c.2.1, c.2.2] ++ (colourBytes colours ++ tail)) s := ha
    refine wp_card_read_ahead ha₀ fun s₁ hm₁ ha₁ => ?_
    dsimp only
    rw [wp_ite, if_neg (by decide), wp_bind]
    refine wp_card_check ?_
    rw [wp_bind]
    cases kind
    all_goals
      refine ih (ha₁.of_stream rfl rfl rfl) fun s' hs' => ?_
      exact hq s' (streamed_withColours hm₁ hs')

theorem paletteLength_range {packed : UInt8} (h : packed &&& 0x80 ≠ 0) :
    paletteLength packed = 2 * 2 ^ (packed &&& 7).toNat ∧ paletteLength packed ≠ 0 ∧
      paletteLength packed ≤ paletteMax := by
  have hp : 2 ^ (packed &&& 7).toNat ≤ 2 ^ 7 := by
    refine Nat.pow_le_pow_right (by decide) ?_
    rw [UInt8.toNat_and]
    exact Nat.and_le_right
  have hz : 0 < 2 ^ (packed &&& 7).toNat := Nat.two_pow_pos _
  rw [paletteLength, if_pos h]
  refine ⟨rfl, by omega, ?_⟩
  rw [paletteMax]
  omega

theorem paletteLength_le {packed : UInt8} : paletteLength packed ≤ paletteMax := by
  by_cases hp : packed &&& 0x80 ≠ 0
  case pos => exact (paletteLength_range hp).right.right
  case neg =>
    rw [paletteLength, if_neg hp]
    exact Nat.zero_le _

theorem wp_card_readPalette {Q : FileResult → Globals → List Call → Prop} {kind : PaletteKind}
    {colours : List Colour} {packed : UInt8} (hp : packed &&& 0x80 ≠ 0)
    (hl : colours.length = paletteLength packed)
    (ha : Ahead v (colourBytes colours ++ tail) s)
    (hq : ∀ s', Streamed (s.withColours kind 0 colours) s' → Ahead v tail s' → Q .ok s' rows) :
    wp (card v) (readPalette v.toGeometry (putColour kind) (2 * 2 ^ (packed &&& 7).toNat)) Q s
      rows := by
  obtain ⟨he, hz, hm⟩ := paletteLength_range hp
  rw [← he, ← hl] at *
  rw [readPalette, wp_ite, if_neg (by omega)]
  exact wp_card_readColours ha hq

theorem wp_card_skipSubblocks {Q : FileResult → Globals → List Call → Prop}
    {blocks : List (List UInt8)} (hb : Framable blocks) (ha : Ahead v (framed blocks ++ tail) s)
    (hq : ∀ s', Streamed s s' → Ahead v tail s' → Q .ok s' rows) :
    wp (card v) (skipSubblocks v.toGeometry) Q s rows := by
  have hs : Source v tail .zero blocks.flatten s :=
    ⟨rfl, rfl, Nat.le_refl 0, blocks, hb, ha, rfl⟩
  rw [skipSubblocks, wp_bind]
  refine wp_card_drain hs fun blocks' s' hm ho ha => ?_
  rw [ho]
  exact hq s' hm ha

def Session.control (gif : Session) : Control :=
  ⟨gif.delayMs, gif.transparentIndex, gif.disposal⟩

-- What reading on in a cycle does not change.
def Advanced (s s' : Globals) : Prop :=
  s'.gif = { s.gif with
    stream := s'.gif.stream, localPalette := s'.gif.localPalette, delayMs := s'.gif.delayMs
    transparentIndex := s'.gif.transparentIndex, disposal := s'.gif.disposal
    netscapeExtension := s'.gif.netscapeExtension }

theorem Streamed.advanced (h : Streamed s s') : Advanced s s' := by
  rw [Advanced, h]

theorem Advanced.trans {s'' : Globals} (h : Advanced s s') (h' : Advanced s' s'') :
    Advanced s s'' := by
  rw [Advanced] at *
  rw [h', h]

theorem Streamed.control (h : Streamed s s') : s'.gif.control = s.gif.control := by
  rw [h]
  rfl

theorem rd16At_bytes16 (before after : List UInt8) (value : UInt16) :
    rd16At (before ++ bytes16 value ++ after) before.length = value.toNat :=
  congrArg UInt16.toNat (u16_bytes16 before value after)

theorem wp_card_readGraphicsControl {Q : FileResult → Globals → List Call → Prop}
    {packed transparent : UInt8} {delay : UInt16}
    (ha : Ahead v ([4, packed] ++ bytes16 delay ++ [transparent, 0] ++ tail) s)
    (hq : ∀ s', Advanced s s' → s'.gif.control = .read packed delay transparent →
      Ahead v tail s' → Q .ok s' rows) :
    wp (card v) (readGraphicsControl v.toGeometry) Q s rows := by
  have hd := rd16At_bytes16 [4, packed] [transparent, 0] delay
  rw [readGraphicsControl, wp_bind]
  refine wp_card_read_ahead ha fun s₁ hm₁ ha₁ => ?_
  dsimp only
  rw [wp_ite, if_neg (by decide), wp_ite, if_neg (by simp [bytes16]), wp_bind, modifyGif, wp_modify]
  refine hq _ (hm₁.advanced.trans rfl) ?_ (ha₁.of_stream rfl rfl rfl)
  rw [Session.control, Control.read, ← hd]
  rfl

theorem wp_card_readApplicationExtension {Q : FileResult → Globals → List Call → Prop}
    {app : List UInt8} {blocks : List (List UInt8)} (hl : 0 < app.length ∧ app.length ≤ 255)
    (hb : Framable blocks) (ha : Ahead v ([.ofNat app.length] ++ (app ++ framed blocks) ++ tail) s)
    (hq : ∀ s', Advanced s s' → s'.gif.control = s.gif.control → Ahead v tail s' →
      Q .ok s' rows) :
    wp (card v) (readApplicationExtension v.toGeometry) Q s rows := by
  have hn : (UInt8.ofNat app.length).toNat = app.length :=
    UInt8.toNat_ofNat_of_lt' (show app.length < 2 ^ 8 by omega)
  rw [List.append_assoc, List.append_assoc] at ha
  rw [readApplicationExtension, wp_bind]
  refine wp_card_read_ahead ha fun s₁ hm₁ ha₁ => ?_
  dsimp only
  rw [wp_ite, if_neg (by decide), List.getD_cons_zero, hn, wp_ite, if_neg (by omega), wp_bind]
  refine wp_card_read_ahead ha₁ fun s₂ hm₂ ha₂ => ?_
  dsimp only
  rw [wp_ite, if_neg (by decide), wp_ite]
  have hm := hm₁.trans hm₂
  split
  case isFalse =>
    refine wp_card_skipSubblocks hb ha₂ fun s₃ hm₃ ha₃ => ?_
    exact hq s₃ (hm.trans hm₃).advanced (hm.trans hm₃).control ha₃
  case isTrue =>
    rw [wp_bind, modifyGif, wp_modify]
    refine wp_card_skipSubblocks hb (ha₂.of_stream rfl rfl rfl) fun s₃ hm₃ ha₃ => ?_
    refine hq s₃ ((hm.advanced.trans rfl).trans hm₃.advanced) ?_ ha₃
    exact hm₃.control.trans hm.control

theorem wp_card_skipExtensionHeader {Q : FileResult → Globals → List Call → Prop}
    {header : List UInt8} {blocks : List (List UInt8)} (hl : header.length ≤ 255)
    (hb : Framable blocks)
    (ha : Ahead v ([.ofNat header.length] ++ (header ++ framed blocks) ++ tail) s)
    (hq : ∀ s', Streamed s s' → Ahead v tail s' → Q .ok s' rows) :
    wp (card v) (skipExtensionHeader v.toGeometry) Q s rows := by
  have hn : (UInt8.ofNat header.length).toNat = header.length :=
    UInt8.toNat_ofNat_of_lt' (show header.length < 2 ^ 8 by omega)
  rw [List.append_assoc, List.append_assoc] at ha
  rw [skipExtensionHeader, wp_bind]
  refine wp_card_read_ahead ha fun s₁ hm₁ ha₁ => ?_
  dsimp only
  rw [wp_ite, if_neg (by decide), List.getD_cons_zero, hn, wp_ite]
  split
  case isTrue =>
    rw [wp_bind]
    refine wp_card_read_ahead ha₁ fun s₂ hm₂ ha₂ => ?_
    dsimp only
    rw [wp_ite, if_neg (by decide)]
    refine wp_card_skipSubblocks hb ha₂ fun s₃ hm₃ ha₃ => ?_
    exact hq s₃ ((hm₁.trans hm₂).trans hm₃) ha₃
  case isFalse hz =>
    rw [List.length_eq_zero_iff.mp (not_not.mp hz)] at ha₁
    refine wp_card_skipSubblocks hb ha₁ fun s₂ hm₂ ha₂ => ?_
    exact hq s₂ (hm₁.trans hm₂) ha₂

theorem wp_card_readExtension {Q : FileResult → Globals → List Call → Prop} {file : File}
    {block : Block} (hv : block.Valid file) (hm : block.marker = 0x21)
    (ha : Ahead v (block.body ++ tail) s)
    (hq : ∀ s', Advanced s s' → s'.gif.control = s.gif.control.next block → Ahead v tail s' →
      Q .ok s' rows) :
    wp (card v) (readExtension v.toGeometry) Q s rows := by
  rw [readExtension, wp_bind]
  cases block with
  | control packed delay transparent =>
    rw [Block.body, List.append_assoc] at ha
    refine wp_card_read_ahead ha fun s₁ hm₁ ha₁ => ?_
    dsimp only
    rw [wp_ite, if_neg (by decide), List.getD_cons_zero, wp_ite, if_pos rfl]
    refine wp_card_readGraphicsControl ha₁ fun s₂ hm₂ hc ha₂ => ?_
    exact hq s₂ (hm₁.advanced.trans hm₂) hc ha₂
  | application app blocks =>
    obtain ⟨hl, hl', hb⟩ := hv
    rw [Block.body, List.append_assoc] at ha
    refine wp_card_read_ahead ha fun s₁ hm₁ ha₁ => ?_
    dsimp only
    rw [wp_ite, if_neg (by decide), List.getD_cons_zero, wp_ite, if_neg (by decide), wp_ite,
      if_pos rfl]
    refine wp_card_readApplicationExtension ⟨hl, hl'⟩ hb ha₁ fun s₂ hm₂ hc ha₂ => ?_
    exact hq s₂ (hm₁.advanced.trans hm₂) (hc.trans hm₁.control) ha₂
  | plainText header blocks =>
    obtain ⟨hl, hb⟩ := hv
    rw [Block.body, List.append_assoc] at ha
    refine wp_card_read_ahead ha fun s₁ hm₁ ha₁ => ?_
    dsimp only
    rw [wp_ite, if_neg (by decide), List.getD_cons_zero, wp_ite, if_neg (by decide), wp_ite,
      if_neg (by decide), wp_ite, if_pos rfl]
    refine wp_card_skipExtensionHeader hl hb ha₁ fun s₂ hm₂ ha₂ => ?_
    exact hq s₂ (hm₁.trans hm₂).advanced (hm₁.trans hm₂).control ha₂
  | other label blocks =>
    obtain ⟨h₁, h₂, h₃, hb⟩ := hv
    rw [Block.body, List.append_assoc] at ha
    refine wp_card_read_ahead ha fun s₁ hm₁ ha₁ => ?_
    dsimp only
    rw [wp_ite, if_neg (by decide), List.getD_cons_zero, wp_ite, if_neg h₁, wp_ite, if_neg h₂,
      wp_ite, if_neg h₃]
    refine wp_card_skipSubblocks hb ha₁ fun s₂ hm₂ ha₂ => ?_
    exact hq s₂ (hm₁.trans hm₂).advanced (hm₁.trans hm₂).control ha₂
  | image i => cases hm

-- What the session holds of the header.
structure Parsed (file : File) (entry : Entry) (s : Globals) : Prop where
  entry      : s.gif.entry = entry
  width      : s.gif.canvasW = file.canvasW.toNat
  height     : s.gif.canvasH = file.canvasH.toNat
  size       : s.gif.globalPaletteSize = paletteLength file.packed
  colours    : ∀ i < paletteLength file.packed,
    s.gif.globalPalette i = paletteColour file.colours i
  background : s.gif.backgroundRgb565 = file.background

theorem Parsed.advanced {file : File} {entry : Entry} (h : Parsed file entry s)
    (ha : Advanced s s') : Parsed file entry s' := by
  refine ⟨?_, ?_, ?_, ?_, ?_, ?_⟩
  all_goals rw [ha]
  · exact h.entry
  · exact h.width
  · exact h.height
  · exact h.size
  · exact h.colours
  · exact h.background

theorem wp_card_framePalette {Q : FileResult × (Nat → UInt16) × Nat → Globals → List Call → Prop}
    {file : File} {entry : Entry} {image : Image} (hp : Parsed file entry s)
    (hv : image.Valid file) (ha : Ahead v (colourBytes image.colours ++ tail) s)
    (hq : ∀ palette s', (∀ i < file.paletteSize image, palette i = file.palette image i) →
      Advanced s s' → s'.gif.control = s.gif.control → Ahead v tail s' →
      Q (.ok, palette, file.paletteSize image) s' rows) :
    wp (card v) (framePalette v.toGeometry image.packed) Q s rows := by
  have hc := hv.colours
  rw [framePalette, wp_ite]
  split
  case isTrue h =>
    have hz : file.paletteSize image = 2 * 2 ^ (image.packed &&& 7).toNat := by
      rw [File.paletteSize, if_pos h]
      exact (paletteLength_range h).left
    rw [wp_bind]
    change wp (card v) (readPalette v.toGeometry (putColour .own) _) _ s rows
    refine wp_card_readPalette h hc ha fun s₁ hm₁ ha₁ => ?_
    rw [wp_bind, wp_get]
    beta_reduce
    rw [← hz]
    refine hq _ _ (fun i hi => ?_) ?_ ?_ ha₁
    · rw [hm₁]
      change filled _ 0 image.colours i = _
      rw [File.paletteSize, if_pos h, ← hc] at hi
      rw [filled, if_pos ⟨Nat.zero_le i, by omega⟩, File.palette, if_pos h, Nat.sub_zero]
    · exact Advanced.trans rfl hm₁.advanced
    · exact hm₁.control
  case isFalse h =>
    have hw := hv.width
    have hh := hv.height
    have hz : file.paletteSize image = paletteLength file.packed := if_neg h
    have hn := hv.indices 0 hw 0 hh
    rw [hz] at hn
    rw [paletteLength, if_neg h] at hc
    rw [List.length_eq_zero_iff.mp hc] at ha
    rw [wp_bind, wp_get]
    change wp (card v) (if s.gif.globalPaletteSize = 0 then _ else _) Q s rows
    rw [hp.size, wp_ite, if_neg (by omega), ← hz]
    refine hq _ _ (fun i hi => ?_) rfl rfl ha
    rw [hp.colours i (hz ▸ hi), File.palette, if_neg h]

-- The file at an entry begins with the data.
structure Holds (v : Volume) (entry : Entry) (data : List UInt8) : Prop where
  size     : data.length ≤ entry.size.toNat
  readable : v.Readable entry.cluster data.length
  bytes    : (v.fileByte entry).read 0 data.length = data

theorem wp_card_start {Q : Bool → Globals → List Call → Prop} (hh : Holds v s.gif.entry data)
    (hn : 0 < data.length) (hq : ∀ s', Streamed s s' → Ahead v data s' → Q true s' rows) :
    wp (card v) (streamOpen v.toGeometry 0) Q s rows := by
  have hc := hh.readable.inChain hn
  rw [streamOpen, wp_bind, wp_get]
  beta_reduce
  have hz : 0 / v.clusterSize = 0 := UInt32.zero_div
  rw [wp_ite, if_neg (UInt32.not_lt.mpr (UInt32.zero_le ..)), wp_bind, hz]
  refine wp_card_skipClusters fun sectorData => ?_
  rw [show v.skipClusters (UInt32.toNat 0) s.gif.entry.cluster = s.gif.entry.cluster from rfl, hc,
    wp_ite, if_neg (by decide)]
  refine hq _ rfl ⟨0, ⟨rfl, Nat.zero_le _, ?_, ?_, (by intros; contradiction)⟩, ?_, ?_, hh.bytes⟩
  · rw [Nat.zero_div]
    rfl
  · rw [Nat.zero_mod, UInt32.toNat_mod]
    exact Nat.zero_mod _
  · rw [Nat.zero_add]
    exact hh.size
  · rw [Nat.zero_add]
    exact hh.readable

-- What a header replaces.
def Headed (s s' : Globals) : Prop :=
  s'.gif = { s.gif with
    stream := s'.gif.stream, globalPalette := s'.gif.globalPalette, canvasW := s'.gif.canvasW
    canvasH := s'.gif.canvasH, globalPaletteSize := s'.gif.globalPaletteSize
    backgroundRgb565 := s'.gif.backgroundRgb565, delayMs := s'.gif.delayMs
    framesInCycle := s'.gif.framesInCycle, transparentIndex := s'.gif.transparentIndex
    disposal := s'.gif.disposal }

theorem Headed.trans {s'' : Globals} (h : Headed s s') (h' : Headed s' s'') : Headed s s'' := by
  rw [Headed] at *
  rw [h', h]

theorem Streamed.headed (h : Streamed s s') : Headed s s' := by
  rw [Headed, h]

theorem wp_card_headerPalette {Q : FileResult → Globals → List Call → Prop} {file : File}
    (hc : file.colours.length = paletteLength file.packed)
    (ha : Ahead v (colourBytes file.colours ++ tail) s)
    (hq : ∀ s', Headed s s' → s'.gif.canvasW = s.gif.canvasW → s'.gif.canvasH = s.gif.canvasH →
      s'.gif.globalPaletteSize = paletteLength file.packed →
      (∀ i < paletteLength file.packed, s'.gif.globalPalette i = paletteColour file.colours i) →
      s'.gif.backgroundRgb565 = file.background → Ahead v tail s' → Q .ok s' rows) :
    wp (card v) (headerPalette v.toGeometry file.packed file.backgroundIndex) Q s rows := by
  rw [headerPalette, wp_bind, modifyGif, wp_modify, wp_ite]
  split
  case isTrue h =>
    obtain ⟨he, hz, hm⟩ := paletteLength_range h
    rw [wp_bind, modifyGif, wp_modify, wp_bind]
    change wp (card v) (readPalette v.toGeometry (putColour .shared) _) _ _ rows
    refine wp_card_readPalette h hc (ha.of_stream rfl rfl rfl) fun s₁ hm₁ ha₁ => ?_
    have hp : ∀ i < paletteLength file.packed,
        s₁.gif.globalPalette i = paletteColour file.colours i := by
      intro i hi
      rw [hm₁]
      change filled _ 0 file.colours i = _
      rw [filled, if_pos ⟨Nat.zero_le i, by omega⟩, Nat.sub_zero]
    have hs : s₁.gif.globalPaletteSize = paletteLength file.packed := by
      rw [hm₁, he]
      rfl
    have hh : Headed s s₁ := Headed.trans rfl hm₁.headed
    have hw : s₁.gif.canvasW = s.gif.canvasW ∧ s₁.gif.canvasH = s.gif.canvasH := by
      rw [hm₁]
      exact ⟨rfl, rfl⟩
    rw [wp_ite, if_neg (by decide), ← he, wp_ite]
    split
    case isTrue hb =>
      rw [wp_bind, modifyGif, wp_modify]
      refine hq _ (hh.trans rfl) hw.left hw.right hs hp ?_ (ha₁.of_stream rfl rfl rfl)
      rw [File.background, if_pos hb]
      exact hp _ hb
    case isFalse hb =>
      refine hq _ hh hw.left hw.right hs hp ?_ ha₁
      rw [File.background, if_neg hb, hm₁]
      rfl
  case isFalse h =>
    have hz : paletteLength file.packed = 0 := if_neg h
    rw [hz] at hc
    rw [List.length_eq_zero_iff.mp hc] at ha
    refine hq _ rfl rfl rfl hz.symm ?_ ?_ (ha.of_stream rfl rfl rfl)
    · intro i hi
      omega
    · rw [File.background, if_neg (by omega)]

end Reading
end Gif
