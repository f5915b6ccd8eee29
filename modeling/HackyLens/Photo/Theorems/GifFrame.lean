import HackyLens.Photo.Theorems.Animation
import HackyLens.Photo.Theorems.GifFile

-- What the page shows when the header and the images of a GIF file are read.

namespace Gif

open Core Fat32 Prog Composition Animation LittleEndian
open Files (Screen)

variable {v : Volume} {willing : Prop} {s s' : Globals} {page page' : Page} {α : Type} {p : M α}

-- The display lends its workspace, has a surface and presents it.
def Willing (answer : Answer) : Prop :=
  answer.workspace.isSome ∧ answer.acquired ∧ answer.presented

-- The page and the card, where the display may be known to be willing. Loops may hang here, as they
-- are known not to.
def watching (v : Volume) (willing : Prop) : Env Call Call.Reply Page Answer where
  handler       := Animation.sink v
  admits answer := willing → Willing answer
  call _ _      := True
  hung _        := True

section Rows

def takeRow (view : View) : Call → View
  | .renderIndexedRow frame frameRow indices palette paletteSize =>
    view.renderIndexedRow frame frameRow indices palette paletteSize
  | _ => view

def deliver (page : Page) (rows : List Call) : Page :=
  { page with view := rows.foldl takeRow page.view }

-- What the card is asked for by a program can be told without the page, which gets the rows.
theorem wp_watching {Q : α → Globals → Page → Prop} (hi : Inner p)
    (h : wp (card v) p (fun a s' rows => Q a s' (deliver page rows)) s []) :
    wp (watching v willing) p Q s page := by
  refine wp_mono (wp_transport (fun rows page' => page' = deliver page rows) ?_
    (fun _ _ _ _ => trivial) (hi s) h rfl) ?_
  case refine_1 =>
    rintro c rows _ hc rfl _
    refine ⟨trivial, fun answer _ => ⟨(), trivial, ?_⟩⟩
    cases c with
    | readBlock lba => exact ⟨rfl, rfl⟩
    | renderIndexedRow frame frameRow indices palette paletteSize =>
      refine ⟨rfl, ?_⟩
      change _ = { page with view := (rows ++ [_]).foldl takeRow page.view }
      rw [List.foldl_append]
      rfl
    | outOfRange => exact ⟨rfl, rfl⟩
    | animationBegin | frameBegin | frameEnd | animationEnd => exact hc.elim
  case refine_2 =>
    rintro a s' _ ⟨rows, rfl, hq⟩
    exact hq

variable {β : Type} {f : β → List UInt8} {l : List β} {m i : Nat} {b : β}

theorem block_flatMap (hf : ∀ b, (f b).length = m) (hb : l[i]? = some b) :
    ((l.flatMap f).drop (m * i)).take m = f b := by
  induction l generalizing i with
  | nil => cases hb
  | cons a l ih =>
    rw [List.flatMap_cons]
    cases i
    case zero =>
      cases hb
      rw [Nat.mul_zero, List.drop_zero, List.take_left' (hf _)]
    case succ i =>
      rw [Nat.mul_succ, Nat.add_comm, ← List.drop_drop, List.drop_left' (hf a)]
      exact ih hb

variable {image : Image} {frame : Frame} {palette : Nat → UInt16} {paletteSize : Nat}

-- The indices of a row.
def Image.row (image : Image) (row : Nat) : List UInt8 :=
  (List.range image.w.toNat).map (image.index · row)

theorem Image.pixels_length : image.pixels.length = image.w.toNat * image.h.toNat := by
  have hl {row : Nat} : (image.row row).length = image.w.toNat := by
    rw [Image.row, List.length_map, List.length_range]
  rw [pixels, List.length_flatMap]
  change ((rowOrder image.interlaced image.h.toNat).map fun row => (image.row row).length).sum = _
  rw [List.map_congr_left fun row _ => hl, List.map_const', List.sum_replicate,
    (rowOrder_perm _ _).length_eq, List.length_range, smul_eq_mul, Nat.mul_comm]

theorem deliver_delivered (hw : frame.frameW = image.w.toNat) (hh : frame.frameH = image.h.toNat) :
    deliver page (delivered frame palette paletteSize image.interlaced image.pixels) =
      { page with
        view := renderRows frame image.row palette paletteSize
          (rowOrder image.interlaced image.h.toNat) page.view } := by
  have hd : delivered frame palette paletteSize image.interlaced image.pixels =
      (rowOrder image.interlaced image.h.toNat).map fun row =>
        .renderIndexedRow frame row (image.row row) palette paletteSize := by
    refine List.ext_getElem? fun j => ?_
    rw [delivered, hh, List.getElem?_mapIdx, List.getElem?_map]
    cases hj : (rowOrder image.interlaced image.h.toNat)[j]? with
    | none     => rfl
    | some row =>
      have hl (row : Nat) : (image.row row).length = image.w.toNat := by
        rw [Image.row, List.length_map, List.length_range]
      rw [Option.map_some, Option.map_some, hw, Image.pixels]
      exact congrArg
        (fun indices => some (Call.renderIndexedRow frame row indices palette paletteSize))
        (block_flatMap hl hj)
  rw [hd, deliver, List.foldl_map]
  rfl

end Rows

-- The images of a file, each with what it is shown as.
def Block.shots (file : File) (control : Control) : Block → List (Frame × Image)
  | .image i => [(file.frame control i, i)]
  | _        => []

def File.shots (file : File) : Control → List Block → List (Frame × Image)
  | _,       []              => []
  | control, block :: blocks => block.shots file control ++ file.shots (control.next block) blocks

namespace File

variable (file : File)

def loop : List (Frame × Image) :=
  file.shots .none file.blocks

def pictured (shot : Frame × Image) : Picture (Nat × Nat) UInt16 :=
  picture shot.fst shot.snd.index (file.palette shot.snd)

-- What is on the canvas while the `i`th frame is shown, what is on the display, and for how long.
def canvas (i : Nat) : Nat × Nat → UInt16 :=
  shown (fun _ => file.background)
    ((file.loop.take (i % file.loop.length + 1)).reverse.map file.pictured)

def screen (i : Nat) : Screen :=
  fun p => ((place file.canvasW.toNat file.canvasH.toNat p).map (file.canvas i)).getD 0

def delayMs (i : Nat) : Nat :=
  (file.loop[i % file.loop.length]?.map fun shot => shot.fst.delayMs).getD 0

end File

section Frames

variable {file : File} {entry : Entry} {image : Image} {frame : Frame}
variable {pictures : List (Picture (Nat × Nat) UInt16)} {tail : List UInt8} {palette : Nat → UInt16}

theorem File.paletteSize_le : file.paletteSize image ≤ paletteMax := by
  rw [File.paletteSize]
  split
  · exact paletteLength_le
  · exact paletteLength_le

-- The indices of a valid image are those of its palette.
theorem picture_palette (hv : image.Valid file)
    (hp : ∀ i < file.paletteSize image, palette i = file.palette image i)
    (hw : frame.frameW = image.w.toNat) (hh : frame.frameH = image.h.toNat) :
    picture frame image.index palette = picture frame image.index (file.palette image) := by
  rw [picture, picture]
  refine congrArg (Picture.mk _ · _) (funext fun c => ?_)
  split
  case isFalse   => rfl
  case isTrue hc =>
    simp only [within, Bool.and_eq_true, decide_eq_true_eq] at hc
    have hi := hp _ (hv.indices (c.fst - frame.frameX) (by omega) (c.snd - frame.frameY) (by omega))
    dsimp only
    rw [hi]

-- What is different when an image has been shown.
def Shot (frame : Frame) (s s' : Globals) : Prop :=
  s'.gif = { s.gif with
    stream := s'.gif.stream, localPalette := s'.gif.localPalette
    netscapeExtension := s'.gif.netscapeExtension
    framesInCycle  := s.gif.framesInCycle + 1
    knownAnimated  := s.gif.knownAnimated || s.gif.framesInCycle + 1 ≥ 2
    currentDelayMs := frame.delayMs, delayMs := minDelayMs, transparentIndex := -1, disposal := 0 }

theorem Advanced.shot {s₁ : Globals} (h : Advanced s s₁) (h' : Shot frame s₁ s') :
    Shot frame s s' := by
  rw [Advanced] at h
  rw [Shot] at *
  rw [h', h]

theorem wp_watching_showFrame {Q : FileResult → Globals → Page → Prop} (hv : image.Valid file)
    (hv' : file.Valid) (hp : ∀ i < file.paletteSize image, palette i = file.palette image i)
    (hw : frame.frameW = image.w.toNat) (hh : frame.frameH = image.h.toNat)
    (hs : page.view.Shows frame.canvasW frame.canvasH file.background pictures)
    (ha : Ahead v (lzwData image.codeSize image.blocks ++ tail) s)
    (hq : ∀ s' page', Shot frame s s' → Ahead v tail s' →
      page'.view.Shows frame.canvasW frame.canvasH file.background
        (picture frame image.index (file.palette image) :: pictures) →
      page'.presented = page.presented ++
        [shown (ground frame.canvasW frame.canvasH file.background)
          (sampled frame.canvasW frame.canvasH
            (picture frame image.index (file.palette image) :: pictures))] → Q .ok s' page')
    (hf : ¬willing → ∀ s' page', page'.presented = page.presented → Q .readError s' page') :
    wp (watching v willing) (showFrame v.toGeometry frame palette (file.paletteSize image)
      image.interlaced) Q s page := by
  have hl : frame.frameW ≤ Files.photoRowMaxBytes := by
    have := hv.right
    have := hv'.width.right
    have : Files.photoViewMaxW ≤ Files.photoRowMaxBytes := by decide
    omega
  have hz : 0 < frame.frameW := hw ▸ hv.width
  obtain ⟨codes, pad, he, hbits⟩ := hv.encoded
  rw [showFrame, wp_bind, wp_call]
  refine ⟨trivial, fun answer hadm => ?_⟩
  change wp (watching v willing) (if !(page.view.frameBegin answer frame).fst then _ else _) Q s
    { page with view := (page.view.frameBegin answer frame).snd }
  by_cases hacq : answer.acquired
  case neg =>
    have hb : (page.view.frameBegin answer frame).fst = false := by
      rw [View.frameBegin, if_pos (by simp [hacq])]
    rw [hb, wp_ite, if_pos (Bool.not_false)]
    exact hf (fun hw => hacq (hadm hw).right.left) _ _ rfl
  case pos =>
  obtain ⟨hb, hd, hsf⟩ := frameBegin_draws hs rfl rfl hacq
  rw [hb, wp_ite, if_neg (by decide), wp_bind]
  have hg : Ensures Call.Safe
      (decodeLzw frame palette (file.paletteSize image) image.interlaced v.toGeometry)
      (fun _ s' => Forward s s') s :=
    .of_total (wp_decodeLzw File.paletteSize_le (Nat.ne_of_gt hz) fun _ _ hm _ => hm)
  have hi : ∀ index ∈ image.pixels, index.toNat < file.paletteSize image := by
    intro index hm
    obtain ⟨row, hr, hm⟩ := List.mem_flatMap.mp hm
    obtain ⟨x, hx, rfl⟩ := List.mem_map.mp hm
    have hr := (rowOrder_perm _ _).mem_iff.mp hr
    exact hv.indices x (List.mem_range.mp hx) row (List.mem_range.mp hr)
  have hpl : image.pixels.length = frame.frameW * frame.frameH := by
    rw [Image.pixels_length, hw, hh]
  refine wp_mono (hg.and_wp (wp_watching decodeLzw_inner
    (Q := fun result s' page' => result = .ok ∧ Ahead v tail s' ∧ page' = { page with
      view := renderRows frame image.row palette (file.paletteSize image)
        (rowOrder image.interlaced image.h.toNat) (page.view.frameBegin answer frame).snd })
    (wp_card_decodeLzw_ahead hz hpl hi hv.codeSize hl he hv.blocks hbits ha fun s' ha' => ?_))) ?_
  case refine_1 =>
    refine ⟨rfl, ha', ?_⟩
    rw [List.nil_append, deliver_delivered hw hh]
  case refine_2 =>
  rintro _ s₁ _ ⟨hg₁, rfl, ha₁, rfl⟩
  have hm (row : Nat) : row ∈ rowOrder image.interlaced image.h.toNat ↔ row < frame.frameH := by
    rw [hh, (rowOrder_perm _ _).mem_iff, List.mem_range]
  have hx : ∀ row < frame.frameH, ∀ x < frame.frameW,
      (image.row row).getD x 0 = image.index x row := by
    intro row _ x hx
    rw [Image.row, List.getD_eq_getElem?_getD, List.getElem?_map, List.getElem?_range (hw ▸ hx)]
    rfl
  have hin : ∀ row < frame.frameH, ∀ x < frame.frameW,
      (image.index x row).toNat < file.paletteSize image :=
    fun row hr x hx => hv.indices x (hw ▸ hx) row (hh ▸ hr)
  have hall := @renderRows_all _ _ _ _ _ _ _ _ palette _ _ hd hm hx hin
  revert hall
  generalize renderRows frame image.row palette (file.paletteSize image)
    (rowOrder image.interlaced image.h.toNat) (page.view.frameBegin answer frame).snd = view
  rintro ⟨hd₁, hsf₁⟩
  rw [hsf, picture_palette hv hp hw hh] at hsf₁
  rw [wp_ite, if_neg (by decide), wp_bind, wp_call]
  refine ⟨trivial, fun answer hadm => ?_⟩
  obtain ⟨hpr, hsf₂, hd₂⟩ := @frameEnd_shows _ _ _ _ _ answer _ _ _ hd₁ hsf₁
  change wp (watching v willing) (if !(view.frameEnd answer).fst then _ else _) Q s₁
    ⟨(view.frameEnd answer).snd, if (view.frameEnd answer).fst then
      page.presented ++ [(view.frameEnd answer).snd.surface] else page.presented⟩
  rw [hpr, hsf₂, hsf₁]
  cases hap : answer.presented
  case false =>
    rw [wp_ite, if_pos (Bool.not_false)]
    refine hf (fun hw => ?_) _ _ rfl
    exact absurd (hap.symm.trans (hadm hw).right.right) (by decide)
  case true =>
    rw [wp_ite, if_neg (by decide), wp_bind, modifyGif, wp_modify, resetGraphicsControl, wp_bind,
      modifyGif, wp_modify]
    refine hq _ _ ?_ (ha₁.of_stream rfl rfl rfl) hd₂ rfl
    rw [Shot, hg₁.gif]

-- The fields of a descriptor.
theorem descriptor_fields : image.descriptor.length = 9 ∧
    rd16At image.descriptor 0 = image.x.toNat ∧ rd16At image.descriptor 2 = image.y.toNat ∧
    rd16At image.descriptor 4 = image.w.toNat ∧ rd16At image.descriptor 6 = image.h.toNat ∧
    image.descriptor.getD 8 0 = image.packed :=
  ⟨rfl,
    rd16At_bytes16 [] (bytes16 image.y ++ bytes16 image.w ++ bytes16 image.h ++ [image.packed]) _,
    rd16At_bytes16 (bytes16 image.x) (bytes16 image.w ++ bytes16 image.h ++ [image.packed]) _,
    rd16At_bytes16 (bytes16 image.x ++ bytes16 image.y) (bytes16 image.h ++ [image.packed]) _,
    rd16At_bytes16 (bytes16 image.x ++ bytes16 image.y ++ bytes16 image.w) [image.packed] _, rfl⟩

theorem wp_watching_decodeFrame {Q : FileResult → Globals → Page → Prop} (hp : Parsed file entry s)
    (hv : image.Valid file) (hv' : file.Valid)
    (hs : page.view.Shows file.canvasW.toNat file.canvasH.toNat file.background pictures)
    (ha : Ahead v (image.bytes ++ tail) s)
    (hq : ∀ s' page', Shot (file.frame s.gif.control image) s s' → Ahead v tail s' →
      page'.view.Shows file.canvasW.toNat file.canvasH.toNat file.background
        (file.pictured (file.frame s.gif.control image, image) :: pictures) →
      page'.presented = page.presented ++ [shown
        (ground file.canvasW.toNat file.canvasH.toNat file.background)
        (sampled file.canvasW.toNat file.canvasH.toNat
          (file.pictured (file.frame s.gif.control image, image) :: pictures))] → Q .ok s' page')
    (hf : ¬willing → ∀ s' page', page'.presented = page.presented → Q .readError s' page') :
    wp (watching v willing) (decodeFrame v.toGeometry) Q s page := by
  have hw := hv.width
  have hh := hv.height
  have hr := hv.right
  have hb := hv.bottom
  have hcw := hv'.width.right
  have hch := hv'.height.right
  obtain ⟨hl, hx₀, hx₂, hx₄, hx₆, hx₈⟩ := @descriptor_fields image
  rw [Image.bytes, List.append_assoc, List.append_assoc] at ha
  rw [decodeFrame, wp_bind, ← hl]
  refine wp_watching read_inner (wp_card_read_ahead ha fun s₁ hm₁ ha₁ => ?_)
  dsimp only
  have hp₁ := hp.advanced hm₁.advanced
  rw [wp_ite, if_neg (by decide), wp_bind, wp_get]
  dsimp only
  rw [hx₀, hx₂, hx₄, hx₆, hx₈, hp₁.width, hp₁.height, hp₁.background]
  rw [wp_ite, if_neg (by omega), wp_ite, if_neg (by omega), wp_bind]
  refine wp_watching framePalette_inner
    (wp_card_framePalette hp₁ hv ha₁ fun palette s₂ hpal hm₂ hc₂ ha₂ => ?_)
  dsimp only
  rw [wp_ite, if_neg (by decide)]
  rw [← hm₁.control] at hq
  change wp (watching v willing) (showFrame v.toGeometry (file.frame s₁.gif.control image) palette
    (file.paletteSize image) image.interlaced) Q s₂ page
  refine wp_watching_showFrame hv hv' hpal rfl rfl hs ha₂ (fun s' page' hm' ha' hs' hpr => ?_) hf
  exact hq s' page' ((hm₁.advanced.trans hm₂).shot hm') ha' hs' hpr

theorem header_fields (hv : file.Valid) : file.header.length = 13 ∧
    (file.header.take 6 = gif87a ∨ file.header.take 6 = gif89a) ∧
    rd16At file.header 6 = file.canvasW.toNat ∧ rd16At file.header 8 = file.canvasH.toNat ∧
    file.header.getD 10 0 = file.packed ∧ file.header.getD 11 0 = file.backgroundIndex := by
  have hb (version : List UInt8) (hl : version.length = 6) :
      rd16At (version ++ (bytes16 file.canvasW ++ bytes16 file.canvasH ++
        [file.packed, file.backgroundIndex, file.aspect])) 6 = file.canvasW.toNat := by
    have h := rd16At_bytes16 version (bytes16 file.canvasH ++
      [file.packed, file.backgroundIndex, file.aspect]) file.canvasW
    rwa [hl, List.append_assoc, ← List.append_assoc (bytes16 file.canvasW)] at h
  have hb' (version : List UInt8) (hl : version.length = 6) :
      rd16At (version ++ (bytes16 file.canvasW ++ bytes16 file.canvasH ++
        [file.packed, file.backgroundIndex, file.aspect])) 8 = file.canvasH.toNat := by
    have h := rd16At_bytes16 (version ++ bytes16 file.canvasW)
      [file.packed, file.backgroundIndex, file.aspect] file.canvasH
    rwa [List.length_append, hl, List.append_assoc, List.append_assoc,
      ← List.append_assoc (bytes16 file.canvasW)] at h
  rcases hv.version with h | h
  · rw [File.header, h]
    exact ⟨rfl, .inl rfl, hb _ rfl, hb' _ rfl, rfl, rfl⟩
  · rw [File.header, h]
    exact ⟨rfl, .inr rfl, hb _ rfl, hb' _ rfl, rfl, rfl⟩

theorem wp_watching_parseHeader {Q : FileResult → Globals → Page → Prop} (hv : file.Valid)
    (hh : Holds v s.gif.entry file.bytes)
    (hq : ∀ s' page', Headed s s' → Parsed file s.gif.entry s' → s'.gif.control = .none →
      s'.gif.framesInCycle = 0 → Ahead v (File.blockBytes file.blocks) s' →
      page'.view.Shows file.canvasW.toNat file.canvasH.toNat file.background [] →
      page'.presented = page.presented → Q .ok s' page')
    (hf : ¬willing → ∀ s' page', page'.presented = page.presented → Q .readError s' page') :
    wp (watching v willing) (parseHeader v.toGeometry true) Q s page := by
  obtain ⟨hl, ht, hx₆, hx₈, hx₁₀, hx₁₁⟩ := header_fields hv
  have hw := hv.width
  have hht := hv.height
  have hn : 0 < file.bytes.length := by
    rw [File.bytes, List.length_append, hl]
    omega
  rw [parseHeader, wp_bind]
  refine wp_watching streamOpen_inner (wp_card_start hh hn fun s₁ hm₁ ha₁ => ?_)
  rw [wp_ite, if_pos rfl, wp_bind, ← hl]
  refine wp_watching read_inner (wp_card_read_ahead ha₁ fun s₂ hm₂ ha₂ => ?_)
  dsimp only
  rw [wp_ite, if_neg (by decide), wp_ite, if_neg (by tauto), wp_bind, modifyGif, wp_modify, hx₆,
    hx₈, hx₁₀, hx₁₁, wp_ite, if_neg (by omega), wp_bind]
  refine wp_watching headerPalette_inner (wp_card_headerPalette hv.colours
    (ha₂.of_stream rfl rfl rfl) fun s₃ hm₃ hcw hch hz hc hb ha₃ => ?_)
  rw [wp_ite, if_neg (by decide), resetGraphicsControl, wp_bind, modifyGif, wp_modify, wp_bind,
    modifyGif, wp_modify, wp_ite, if_pos rfl, wp_bind, wp_get]
  dsimp only
  have hm : Headed s s₃ := ((hm₁.trans hm₂).headed.trans rfl).trans hm₃
  have he : s₃.gif.entry = s.gif.entry := by
    rw [hm]
  rw [wp_bind, wp_call]
  refine ⟨trivial, fun answer hadm => ?_⟩
  change wp (watching v willing)
    (pure (if (page.view.begin answer s₃.gif.canvasW s₃.gif.canvasH
      s₃.gif.backgroundRgb565).fst then .ok else .readError)) Q _
    { page with
      view := (page.view.begin answer s₃.gif.canvasW s₃.gif.canvasH s₃.gif.backgroundRgb565).snd }
  rw [hcw, hch, hb]
  dsimp only
  cases hws : answer.workspace with
  | none =>
    have hfst : (page.view.begin answer file.canvasW.toNat file.canvasH.toNat
        file.background).fst = false := by
      rw [View.begin, if_neg (by omega), hws]
    rw [hfst]
    refine hf (fun hwl => ?_) _ _ rfl
    exact absurd (congrArg Option.isSome hws ▸ (hadm hwl).left) (by decide)
  | some workspace =>
    obtain ⟨hfst, hfit, hpend, hopen⟩ :=
      @begin_fitted _ _ file.background page.view answer workspace hw.left hht.left hws
    rw [hfst]
    refine hq _ _ (hm.trans rfl) ⟨he, rfl, rfl, hz, hc, rfl⟩ rfl rfl (ha₃.of_stream rfl rfl rfl)
      ⟨hfit, hopen, fun _ => hpend, ?_⟩ rfl
    intro p earlier he
    cases he

end Frames

end Gif
