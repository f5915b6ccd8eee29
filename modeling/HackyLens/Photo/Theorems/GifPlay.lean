import HackyLens.Photo.Theorems.GifFrame

-- A GIF file as it is played on the page: its frames are composed on the canvas one after the
-- other, from the start again behind the last one, and samples of the canvas are shown.

namespace Gif

open Core Fat32 Prog Composition Animation
open Files (Screen)

variable {v : Volume} {willing : Prop} {s s' : Globals} {page page' : Page} {α : Type} {p : M α}

section Loop

variable {file : File} {entry : Entry} {base : List Screen} {blocks : List Block} {block : Block}
variable {shot : Frame × Image} {earlier : List (Frame × Image)} {k : Nat} {allowRestart : Bool}

section Next

variable {rest : List (Frame × Image)} {cycles : Nat}
variable (hl : (shot :: earlier).reverse ++ rest = file.loop)
variable (hk : k = cycles * file.loop.length + earlier.length)

include hl

theorem File.loop_length_lt : earlier.length < file.loop.length := by
  rw [← hl, List.length_append, List.length_reverse, List.length_cons]
  omega

include hk

theorem File.next_mod : k % file.loop.length = earlier.length := by
  rw [hk, Nat.mul_comm, Nat.mul_add_mod, Nat.mod_eq_of_lt (File.loop_length_lt hl)]

theorem File.screen_eq :
    shown (ground file.canvasW.toNat file.canvasH.toNat file.background)
      (sampled file.canvasW.toNat file.canvasH.toNat ((shot :: earlier).map file.pictured)) =
        file.screen k := by
  have hm := File.next_mod hl hk
  have ht : file.loop.take (k % file.loop.length + 1) = (shot :: earlier).reverse := by
    rw [hm, ← hl]
    exact List.take_left' List.length_reverse
  funext q
  rw [File.screen, File.canvas, ht, List.reverse_reverse]
  cases hp : place file.canvasW.toNat file.canvasH.toNat q with
  | none =>
    refine (shown_sample_none hp).trans (if_neg fun hq => ?_)
    rw [place, if_pos hq] at hp
    cases hp
  | some c =>
    refine shown_sample hp (if_pos ?_)
    by_contra hq
    rw [place, if_neg hq] at hp
    cases hp

theorem File.delayMs_eq : file.delayMs k = shot.fst.delayMs := by
  rw [File.delayMs, File.next_mod hl hk, ← hl, List.reverse_cons, List.append_assoc,
    List.getElem?_append_right (Nat.le_of_eq List.length_reverse), List.length_reverse,
    Nat.sub_self]
  rfl

end Next

-- In front of some of the file's blocks, when `k` frames have been presented in all, and `earlier`
-- in the cycle, the latest first.
structure Standing (file : File) (base : List Screen) (blocks : List Block)
    (earlier : List (Frame × Image)) (k : Nat) (s : Globals) (page : Page) : Prop where
  valid     : ∀ block ∈ blocks, block.Valid file
  loop      : earlier.reverse ++ file.shots s.gif.control blocks = file.loop
  count     : ∃ cycles, k = cycles * file.loop.length + earlier.length
  single    : file.loop.length = 1 → k = earlier.length
  frames    : s.gif.framesInCycle = .ofNat earlier.length
  animated  : 2 ≤ earlier.length → s.gif.knownAnimated
  many      : s.gif.knownAnimated → 2 ≤ file.loop.length
  shows     : page.view.Shows file.canvasW.toNat file.canvasH.toNat file.background
    (earlier.map file.pictured)
  presented : page.presented = base ++ (List.range k).map file.screen

def Within (v : Volume) (file : File) (entry : Entry) (base : List Screen) (k : Nat) (s : Globals)
    (page : Page) : Prop :=
  Parsed file entry s ∧ ∃ blocks earlier, Ahead v (File.blockBytes blocks) s ∧
    Standing file base blocks earlier k s page

-- What the user and the clock control.
def Session.controls (gif : Session) : Sink × Bool × Bool × Bool × UInt64 × UInt64 × Bool :=
  (gif.sink, gif.active, gif.playing, gif.paused, gif.deadlineUs, gif.pauseRemainingUs,
    gif.deadlineArmed)

-- What comes of reading on: the next frame, the end of a file with one image, or a failure.
inductive Answered (v : Volume) (willing : Prop) (file : File) (entry : Entry) (base : List Screen)
    (k : Nat) (s : Globals) (page : Page) : FileResult → Globals → Page → Prop
  | shown {s' : Globals} {page' : Page} : Within v file entry base (k + 1) s' page' →
    s'.gif.controls = s.gif.controls → s'.gif.currentDelayMs = file.delayMs k →
    Answered v willing file entry base k s page .ok s' page'
  | still {s' : Globals} {page' : Page} : file.loop.length = 1 → k = 1 → s'.gif.playing = false →
    page'.presented = page.presented → Answered v willing file entry base k s page .ok s' page'
  | failed {result : FileResult} {s' : Globals} {page' : Page} : result ≠ .ok →
    ¬willing ∨ file.loop.length % 65536 = 0 →
    page'.presented = page.presented → Answered v willing file entry base k s page result s' page'

theorem Standing.image {image : Image} {s' : Globals} {page' : Page}
    (h : Standing file base (.image image :: blocks) earlier k s page)
    (hs : Shot (file.frame s.gif.control image) s s')
    (hv : page'.view.Shows file.canvasW.toNat file.canvasH.toNat file.background
      (file.pictured (file.frame s.gif.control image, image) :: earlier.map file.pictured))
    (hp : page'.presented = page.presented ++ [shown
      (ground file.canvasW.toNat file.canvasH.toNat file.background)
      (sampled file.canvasW.toNat file.canvasH.toNat
        (file.pictured (file.frame s.gif.control image, image) :: earlier.map file.pictured))]) :
    Standing file base blocks ((file.frame s.gif.control image, image) :: earlier) (k + 1) s'
        page' ∧
      s'.gif.currentDelayMs = file.delayMs k := by
  obtain ⟨hb, hbs⟩ := List.forall_mem_cons.mp h.valid
  obtain ⟨cycles, hk⟩ := h.count
  have hl : ((file.frame s.gif.control image, image) :: earlier).reverse ++
      file.shots .none blocks = file.loop := by
    rw [List.reverse_cons, List.append_assoc]
    exact h.loop
  have hc : s'.gif.control = .none := by
    rw [hs]
    rfl
  have hlt := File.loop_length_lt hl
  refine ⟨⟨hbs, hc ▸ hl, ⟨cycles, congrArg Nat.succ hk⟩, fun h₁ => ?_, ?_, fun hn => ?_,
    fun hn => ?_, hv, ?_⟩, ?_⟩
  · rw [h.single h₁]
    rfl
  · rw [hs]
    exact (congrArg (· + 1) h.frames).trans (UInt16.ofNat_add _ 1).symm
  · rw [hs]
    change (s.gif.knownAnimated || decide (s.gif.framesInCycle + 1 ≥ 2)) = true
    by_cases h₂ : 2 ≤ earlier.length
    case pos => rw [h.animated h₂, Bool.true_or]
    case neg =>
      have h₁ : earlier.length = 1 := by
        rw [List.length_cons] at hn
        omega
      rw [h.frames, h₁, Bool.or_eq_true]
      exact .inr rfl
  · rw [hs] at hn
    rcases (Bool.or_eq_true _ _).mp hn with hn | hn
    · exact h.many hn
    · by_contra hlt'
      have h₀ : earlier.length = 0 := by omega
      rw [h.frames, h₀] at hn
      exact absurd hn (by decide)
  · rw [hp, h.presented, ← List.map_cons, File.screen_eq hl hk, List.range_succ, List.map_append,
      List.append_assoc]
    rfl
  · rw [hs, File.delayMs_eq hl hk]

theorem Standing.other {s' : Globals} (hm : block.marker = 0x21)
    (h : Standing file base (block :: blocks) earlier k s page) (ha : Advanced s s')
    (hc : s'.gif.control = s.gif.control.next block) :
    Standing file base blocks earlier k s' page := by
  obtain ⟨hb, hbs⟩ := List.forall_mem_cons.mp h.valid
  have hl := h.loop
  have hn : file.shots s.gif.control (block :: blocks) = file.shots s'.gif.control blocks := by
    rw [hc]
    cases block with
    | image => cases hm
    | control | application | plainText | other => rfl
  rw [hn] at hl
  refine ⟨hbs, hl, h.count, h.single, ?_, ?_, ?_, h.shows, h.presented⟩
  all_goals rw [ha]
  · exact h.frames
  · exact h.animated
  · exact h.many

theorem Standing.streamed {s' : Globals} (h : Standing file base blocks earlier k s page)
    (hm : Streamed s s') : Standing file base blocks earlier k s' page := by
  refine ⟨h.valid, ?_, h.count, h.single, ?_, ?_, ?_, h.shows, h.presented⟩
  all_goals rw [hm]
  · exact h.loop
  · exact h.frames
  · exact h.animated
  · exact h.many

-- From the start again, when all has been shown.
theorem Standing.restart {s' : Globals} {page' : Page} (h : Standing file base [] earlier k s page)
    (hv : file.Valid) (hm : Headed s s') (hc : s'.gif.control = .none)
    (hf : s'.gif.framesInCycle = 0) (hn : file.loop.length ≠ 1)
    (hs : page'.view.Shows file.canvasW.toNat file.canvasH.toNat file.background [])
    (hp : page'.presented = page.presented) :
    Standing file base file.blocks [] k s' page' := by
  obtain ⟨cycles, hk⟩ := h.count
  have hl : earlier.length = file.loop.length := by
    rw [← h.loop, File.shots, List.append_nil, List.length_reverse]
  refine ⟨hv.blocks, ?_, ⟨cycles + 1, ?_⟩, fun h₁ => absurd h₁ hn, hf, fun h₂ => ?_, ?_, hs,
    hp.trans h.presented⟩
  · rw [hc]
    rfl
  · rw [hk, hl, Nat.succ_mul]
    rfl
  · exact absurd h₂ (by decide)
  · rw [hm]
    exact h.many

theorem Headed.controls (h : Headed s s') : s'.gif.controls = s.gif.controls := by
  rw [h]
  rfl

theorem Advanced.controls (h : Advanced s s') : s'.gif.controls = s.gif.controls := by
  rw [h]
  rfl

theorem Shot.controls {frame : Frame} (h : Shot frame s s') :
    s'.gif.controls = s.gif.controls := by
  rw [h]
  rfl

theorem Parsed.of_shot {frame : Frame} (h : Parsed file entry s) (hs : Shot frame s s') :
    Parsed file entry s' := by
  refine ⟨?_, ?_, ?_, ?_, ?_, ?_⟩
  all_goals rw [hs]
  · exact h.entry
  · exact h.width
  · exact h.height
  · exact h.size
  · exact h.colours
  · exact h.background

theorem Answered.congr {s₁ : Globals} {page₁ : Page} {result : FileResult}
    (h : Answered v willing file entry base k s₁ page₁ result s' page')
    (hc : s₁.gif.controls = s.gif.controls) (hp : page₁.presented = page.presented) :
    Answered v willing file entry base k s page result s' page' := by
  cases h with
  | shown hw hc' hd      => exact .shown hw (hc'.trans hc) hd
  | still hn hk hpl hp'  => exact .still hn hk hpl (hp'.trans hp)
  | failed hne hw hp'    => exact .failed hne hw (hp'.trans hp)

-- Reading on is not finished yet.
def Going (v : Volume) (file : File) (entry : Entry) (base : List Screen) (k : Nat) (s : Globals)
    (page : Page) (s' : Globals) (page' : Page) : Prop :=
  Within v file entry base k s' page' ∧ s'.gif.controls = s.gif.controls ∧
    page'.presented = page.presented

theorem wp_watching_atTrailer (hv : file.Valid) (hh : Holds v entry file.bytes)
    (hp : Parsed file entry s) (hs : Standing file base [] earlier k s page)
    (hr : allowRestart = false → k = 0) :
    wp (watching v willing) (atTrailer v.toGeometry allowRestart)
      (fun r s' page' => r.elim
        (fun result => Answered v willing file entry base k s page result s' page')
        fun _ => Going v file entry base k s page s' page') s page := by
  have hl : earlier.length = file.loop.length := by
    rw [← hs.loop, File.shots, List.append_nil, List.length_reverse]
  obtain ⟨cycles, hk⟩ := hs.count
  rw [atTrailer, wp_bind, wp_get]
  beta_reduce
  rw [wp_ite, hs.frames]
  split
  case isTrue hz =>
    have hz := congrArg UInt16.toNat hz
    rw [UInt16.toNat_ofNat', hl] at hz
    exact .failed (by decide) (.inr hz) rfl
  case isFalse hz =>
  have hpos : earlier.length ≠ 0 := fun h₀ => hz (by rw [h₀]; rfl)
  rw [wp_ite]
  split
  case isTrue h₁ =>
    have hn : earlier.length = 1 := by
      have := hs.animated
      simp only [Bool.not_eq_true'] at h₁
      rw [h₁.left] at this
      have : ¬2 ≤ earlier.length := fun h => absurd (this h) (by decide)
      omega
    have hk₁ := hs.single (hl ▸ hn)
    exact .still (hl ▸ hn) (hk₁.trans hn) rfl rfl
  case isFalse h₁ =>
  rw [wp_ite]
  split
  case isTrue ha =>
    have := hr (by simpa using ha)
    omega
  case isFalse ha =>
    have hn : file.loop.length ≠ 1 := by
      intro hn
      refine h₁ ⟨?_, by rw [hl, hn]; rfl⟩
      have := hs.many
      cases hkn : s.gif.knownAnimated
      case false => rfl
      case true  =>
        have := this hkn
        omega
    have he := hp.entry
    rw [wp_bind]
    refine wp_watching_parseHeader hv (he.symm ▸ hh) (fun s' page' hm hp' hc hf ha' hs' hpr => ?_)
      fun hw s' page' hpr => ?_
    · rw [he] at hp'
      exact ⟨⟨hp', _, _, ha', hs.restart hv hm hc hf hn hs' hpr⟩, hm.controls, hpr⟩
    · exact .failed (by decide) (.inl hw) hpr

theorem wp_watching_nextRound (hv : file.Valid) (hh : Holds v entry file.bytes)
    (h : Within v file entry base k s page) (hr : allowRestart = false → k = 0) :
    wp (watching v willing) (nextRound v.toGeometry allowRestart ())
      (fun r s' page' => r.elim
        (fun result => Answered v willing file entry base k s page result s' page')
        fun _ => Going v file entry base k s page s' page') s page := by
  obtain ⟨hp, blocks, earlier, ha, hs⟩ := h
  rw [nextRound, wp_bind]
  cases blocks with
  | nil =>
    have ha₀ : Ahead v ([0x3B] ++ []) s := ha
    refine wp_watching read_inner (wp_card_read_ahead ha₀ fun s₁ hm₁ _ => ?_)
    change wp (watching v willing) _ _ s₁ page
    dsimp only
    rw [wp_ite, if_neg (by decide), List.getD_cons_zero, wp_ite, if_neg (by decide), wp_ite,
      if_pos rfl]
    refine wp_mono (wp_watching_atTrailer hv hh (hp.advanced hm₁.advanced) (hs.streamed hm₁) hr)
      fun r s' page' hr' => ?_
    cases r with
    | inl result => exact hr'.congr hm₁.advanced.controls rfl
    | inr        => exact ⟨hr'.left, hr'.right.left.trans hm₁.advanced.controls, hr'.right.right⟩
  | cons block blocks =>
    have ha₀ : Ahead v ([block.marker] ++ (block.body ++ File.blockBytes blocks)) s := by
      rwa [File.blockBytes, List.flatMap_cons, Block.bytes, List.append_assoc,
        List.append_assoc] at ha
    refine wp_watching read_inner (wp_card_read_ahead ha₀ fun s₁ hm₁ ha₁ => ?_)
    change wp (watching v willing) _ _ s₁ page
    dsimp only
    rw [wp_ite, if_neg (by decide), List.getD_cons_zero]
    have hp₁ := hp.advanced hm₁.advanced
    have hs₁ := hs.streamed hm₁
    have hb := hs.valid block List.mem_cons_self
    by_cases hx : block.marker = 0x21
    case pos =>
      rw [hx, wp_ite, if_neg (by decide), wp_ite, if_neg (by decide), wp_ite, if_pos rfl, wp_bind]
      refine wp_watching readExtension_inner
        (wp_card_readExtension hb hx ha₁ fun s₂ hm₂ hc ha₂ => ?_)
      change Going v file entry base k s page s₂ page
      exact ⟨⟨hp₁.advanced hm₂, _, _, ha₂, hs₁.other hx hm₂ hc⟩,
        hm₂.controls.trans hm₁.advanced.controls, rfl⟩
    case neg =>
    cases block with
    | image i =>
      rw [wp_ite, if_pos (show (Block.image i).marker = 0x2C from rfl), wp_bind]
      refine wp_watching_decodeFrame hp₁ hb hv hs₁.shows ha₁ (fun s' page' hm' ha' hs' hpr => ?_)
        fun hw s' page' hpr => ?_
      · obtain ⟨hst, hd⟩ := hs₁.image hm' hs' hpr
        exact .shown ⟨hp₁.of_shot hm', _, _, ha', hst⟩
          (hm'.controls.trans hm₁.advanced.controls) hd
      · exact .failed (by decide) (.inl hw) hpr
    | control | application | plainText | other => exact absurd rfl hx

theorem wp_watching_decodeNext (hv : file.Valid) (hh : Holds v entry file.bytes)
    (h : Within v file entry base k s page) (hr : allowRestart = false → k = 0) :
    wp (watching v willing) (decodeNext v.toGeometry allowRestart)
      (Answered v willing file entry base k s page) s page := by
  rw [decodeNext, wp_bind, wp_get]
  beta_reduce
  refine wp_loop (fun _ s' page' => Going v file entry base k s page s' page')
    (fun _ _ _ _ => trivial) ?_ ⟨h, rfl, rfl⟩
  rintro _ s₁ page₁ ⟨hw, hc, hp⟩
  refine wp_mono (wp_watching_nextRound hv hh hw hr) fun r s' page' hr' => ?_
  cases r with
  | inl result => exact hr'.congr hc hp
  | inr        => exact ⟨hr'.left, hr'.right.left.trans hc, hr'.right.right.trans hp⟩

end Loop

section Clock

variable {file : File} {entry : Entry} {base : List Screen} {k : Nat} {nowUs : UInt64}

-- The scratch sector is used by others meanwhile.
def uncached (s : Globals) : Globals :=
  { s with gif := { s.gif with stream := { s.gif.stream with cacheValid := false } } }

theorem Within.uncached (h : Within v file entry base k s page)
    (hg : s'.gif = { s.gif with
      stream := { s.gif.stream with cacheValid := false }, currentDelayMs := s'.gif.currentDelayMs
      deadlineUs := s'.gif.deadlineUs, pauseRemainingUs := s'.gif.pauseRemainingUs
      active := s'.gif.active, playing := s'.gif.playing, paused := s'.gif.paused
      deadlineArmed := s'.gif.deadlineArmed }) : Within v file entry base k s' page := by
  obtain ⟨hp, blocks, earlier, ⟨n, ⟨ho, hr, hc, hco, _⟩, hn⟩, hs⟩ := h
  refine ⟨⟨?_, ?_, ?_, ?_, ?_, ?_⟩, blocks, earlier, ⟨n, ⟨?_, ?_, ?_, ?_, ?_⟩, ?_⟩, hs.valid, ?_,
    hs.count, hs.single, ?_, ?_, ?_, hs.shows, hs.presented⟩
  all_goals rw [hg]
  · exact hp.entry
  · exact hp.width
  · exact hp.height
  · exact hp.size
  · exact hp.colours
  · exact hp.background
  · exact ho
  · exact hr
  · exact hc
  · exact hco
  · intro h
    cases h
  · exact hn
  · exact hs.loop
  · exact hs.frames
  · exact hs.animated
  · exact hs.many

theorem Within.presented (h : Within v file entry base k s page) :
    page.presented = base ++ (List.range k).map file.screen := by
  obtain ⟨_, _, _, _, hs⟩ := h
  exact hs.presented

theorem Within.single (h : Within v file entry base k s page) (hn : file.loop.length = 1) :
    k ≤ 1 := by
  obtain ⟨_, _, earlier, _, hs⟩ := h
  have hl := congrArg List.length hs.loop
  rw [List.length_append, List.length_reverse, hn] at hl
  rw [hs.single hn]
  omega

-- The frames up to the `k`th one have been presented, and more may follow.
structure Live (v : Volume) (file : File) (entry : Entry) (base : List Screen) (k : Nat)
    (s : Globals) (page : Page) : Prop where
  within   : Within v file entry base k (uncached s) page
  positive : 0 < k
  active   : s.gif.active
  playing  : s.gif.playing

theorem Live.congr (h : Live v file entry base k s page) (ha : s'.gif.active)
    (hp : s'.gif.playing)
    (hg : s'.gif = { s.gif with
      currentDelayMs := s'.gif.currentDelayMs
      deadlineUs := s'.gif.deadlineUs, pauseRemainingUs := s'.gif.pauseRemainingUs
      active := s'.gif.active, playing := s'.gif.playing, paused := s'.gif.paused
      deadlineArmed := s'.gif.deadlineArmed }) :
    Live v file entry base k s' page :=
  ⟨h.within.uncached (congrArg
    (fun gif : Session => { gif with stream := { gif.stream with cacheValid := false } }) hg),
    h.positive, ha, hp⟩

def Due (gif : Session) (nowUs : UInt64) : Prop :=
  gif.paused = false ∧ gif.deadlineArmed ∧ gif.deadlineUs ≤ nowUs

-- What comes of a tick.
inductive Ticked (v : Volume) (willing : Prop) (file : File) (entry : Entry) (base : List Screen)
    (k : Nat) (nowUs : UInt64) (s : Globals) (page : Page) : FileResult → Globals → Page → Prop
  | waiting {s' : Globals} : ¬Due s.gif nowUs → Live v file entry base k s' page →
    Ticked v willing file entry base k nowUs s page .ok s' page
  | shown {s' : Globals} {page' : Page} : Due s.gif nowUs →
    Live v file entry base (k + 1) s' page' → s'.gif.deadlineArmed →
    s'.gif.deadlineUs = nowUs + .ofNat (file.delayMs k) * 1000 →
    Ticked v willing file entry base k nowUs s page .ok s' page'
  | still {s' : Globals} {page' : Page} : file.loop.length = 1 → s'.gif.playing = false →
    page'.presented = page.presented →
    Ticked v willing file entry base k nowUs s page .ok s' page'
  | failed {result : FileResult} {s' : Globals} {page' : Page} :
    result ≠ .ok → ¬willing ∨ file.loop.length % 65536 = 0 → s'.gif.active = false →
    page'.presented = page.presented →
    Ticked v willing file entry base k nowUs s page result s' page'

theorem wp_watching_close {Q : Unit → Globals → Page → Prop}
    (hq : ∀ page', page'.presented = page.presented → Q () { s with gif := .zero } page') :
    wp (watching v willing) close Q s page := by
  rw [close, wp_bind, wp_get]
  beta_reduce
  rw [wp_ite]
  split
  case isTrue =>
    rw [wp_bind, wp_call]
    exact ⟨trivial, fun answer _ => hq _ rfl⟩
  case isFalse => exact hq _ rfl

theorem wp_watching_tick (hv : file.Valid) (hh : Holds v entry file.bytes)
    (h : Live v file entry base k s page) :
    wp (watching v willing) (tick v.toGeometry nowUs)
      (Ticked v willing file entry base k nowUs s page) s page := by
  have ha := h.active
  have hp := h.playing
  rw [tick, wp_bind, wp_get]
  beta_reduce
  rw [wp_ite]
  split
  case isTrue hx =>
    refine .waiting (fun hd => ?_) h
    rw [ha, hp, hd.left] at hx
    exact absurd hx (by decide)
  case isFalse hx =>
  have hpaused : s.gif.paused = false := by
    simp only [ha, hp] at hx
    simpa using hx
  rw [wp_ite]
  split
  case isTrue hx =>
    refine .waiting (fun hd => ?_) (h.congr ha hp rfl)
    rw [hd.right.left] at hx
    exact absurd hx (by decide)
  case isFalse harmed =>
  rw [wp_ite]
  split
  case isTrue hx => exact .waiting (fun hd => UInt64.not_le.mpr hx hd.right.right) h
  case isFalse hx =>
  have hdue : Due s.gif nowUs := ⟨hpaused, by simpa using harmed, UInt64.not_lt.mp hx⟩
  rw [wp_bind, modifyGif, wp_modify, wp_bind]
  refine wp_mono (wp_watching_decodeNext hv hh h.within (by intros; contradiction))
    fun result s₁ page₁ ha₁ => ?_
  cases ha₁ with
  | shown hw hc hd =>
    have hc' : s₁.gif.active = s.gif.active ∧ s₁.gif.playing = s.gif.playing := by
      simp only [Session.controls, Prod.mk.injEq] at hc
      exact ⟨hc.right.left, hc.right.right.left⟩
    rw [wp_ite, if_neg (by decide), wp_bind, modifyGif, wp_modify]
    have hd' : nowUs + .ofNat s₁.gif.currentDelayMs * 1000 =
        nowUs + .ofNat (file.delayMs k) * 1000 := by
      rw [hd]
    refine .shown hdue ⟨?_, Nat.succ_pos k, hc'.left.trans ha, hc'.right.trans hp⟩ rfl hd'
    exact hw.uncached rfl
  | still hn _ hpl hpr =>
    rw [wp_ite, if_neg (by decide), wp_bind, modifyGif, wp_modify]
    exact .still hn hpl hpr
  | failed hne hw hpr =>
    rw [wp_ite, if_pos hne, wp_bind]
    exact wp_watching_close fun page' hpr' => .failed hne hw rfl (hpr'.trans hpr)

def Sink.Complete (sink : Sink) : Prop :=
  sink.animationBegin ∧ sink.frameBegin ∧ sink.renderIndexedRow ∧ sink.frameEnd

-- What comes of opening a file.
inductive Begun (v : Volume) (willing : Prop) (file : File) (entry : Entry) (sink : Sink)
    (page : Page) : FileResult → Globals → Page → Prop
  | shown {s' : Globals} {page' : Page} : Live v file entry page.presented 1 s' page' →
    Begun v willing file entry sink page .ok s' page'
  | failed {result : FileResult} {s' : Globals} {page' : Page} :
    (sink.Complete → ¬willing ∨ file.loop.length % 65536 = 0) → s'.gif.active = false →
    page'.presented = page.presented → Begun v willing file entry sink page result s' page'

theorem wp_watching_openGif {sink : Sink} (hv : file.Valid) (hh : Holds v entry file.bytes) :
    wp (watching v willing) (openGif v.toGeometry (some entry) (some sink))
      (Begun v willing file entry sink page) s page := by
  rw [openGif, wp_bind]
  refine wp_watching_close fun page₁ hpr₁ => ?_
  dsimp only
  rw [wp_ite]
  split
  case isTrue hx =>
    refine .failed (fun hc => absurd hx ?_) rfl hpr₁
    rw [hc.left, hc.right.left, hc.right.right.left, hc.right.right.right]
    decide
  case isFalse =>
  rw [wp_bind, modifyGif, wp_modify, wp_bind, openFirst, wp_bind]
  refine wp_watching_parseHeader hv hh (fun s₂ page₂ hm hp hc hf ha hs hpr => ?_)
    fun hw s₂ page₂ hpr => ?_
  case refine_2 =>
    rw [wp_ite, if_neg (by decide), wp_pure, wp_ite, if_pos (by decide), wp_bind]
    exact wp_watching_close fun page₃ hpr₃ =>
      .failed (fun _ => .inl hw) rfl (hpr₃.trans (hpr.trans hpr₁))
  case refine_1 =>
  have hk : s₂.gif.knownAnimated = false := by
    rw [hm]
    rfl
  have hstand : Standing file page.presented file.blocks [] 0 s₂ page₂ := by
    refine ⟨hv.blocks, ?_, ⟨0, ?_⟩, fun _ => rfl, hf, fun h₂ => absurd h₂ (by decide), fun h => ?_,
      hs, ?_⟩
    · rw [hc]
      rfl
    · rw [Nat.zero_mul]
      rfl
    · rw [hk] at h
      cases h
    · rw [hpr, hpr₁]
      exact (List.append_nil _).symm
  rw [wp_ite, if_pos rfl]
  refine wp_mono (wp_watching_decodeNext hv hh ⟨hp, _, _, ha, hstand⟩ fun _ => rfl)
    fun result s₃ page₃ hans => ?_
  cases hans with
  | shown hw hc' _ =>
    rw [hm.controls] at hc'
    simp only [Session.controls, Prod.mk.injEq] at hc'
    rw [wp_ite, if_neg (by decide)]
    exact .shown ⟨hw.uncached rfl, Nat.one_pos, hc'.right.left, hc'.right.right.left⟩
  | still _ hk' => cases hk'
  | failed hne hw hpr₃ =>
    rw [wp_ite, if_pos hne, wp_bind]
    exact wp_watching_close fun page₄ hpr₄ =>
      .failed (fun _ => hw) rfl (hpr₄.trans (hpr₃.trans (hpr.trans hpr₁)))

end Clock

-- A pixel in the first of two colours, and then the same pixel for half a second.
def dot : Image where
  x := 0
  y := 0
  w := 1
  h := 1
  packed := 0
  colours := []
  index _ _ := 0
  codeSize := 2
  blocks := [[0x44, 1]]

def blink : File where
  version := gif89a
  canvasW := 1
  canvasH := 1
  packed := 0x80
  backgroundIndex := 0
  aspect := 0
  colours := [(1, 2, 3), (4, 5, 6)]
  blocks := [.image dot, .control 0x0C 50 0, .image dot]

def blinkVolume : Volume where
  toGeometry  := ⟨0, 0, 1, single_mounted⟩
  readBlock _ := some fun i => blink.bytes.getD i 0

theorem dot_valid : dot.Valid blink where
  width    := by decide
  height   := by decide
  right    := by decide
  bottom   := by decide
  colours  := rfl
  indices  := fun _ _ _ _ => show (0 : UInt8).toNat < blink.paletteSize dot by decide
  codeSize := by decide
  blocks   := by
    unfold Framable
    decide
  encoded  := by
    have hd : LZW.Denotes 2 [] 0 [0] := .literal (by decide)
    exact ⟨_, .replicate 7 false, .clear (.code hd .finish), by decide⟩

theorem blink_valid : blink.Valid where
  version := .inr rfl
  width   := by decide
  height  := by decide
  colours := rfl
  blocks  := by
    intro block hb
    rcases List.mem_cons.mp hb with rfl | hb
    · exact dot_valid
    rcases List.mem_cons.mp hb with rfl | hb
    · exact trivial
    rcases List.mem_cons.mp hb with rfl | hb
    · exact dot_valid
    · cases hb

theorem blink_holds : Holds blinkVolume ⟨2, 58⟩ blink.bytes where
  size     := by decide
  readable := by
    intro p hp
    have hp : p < 58 := hp
    have hd : p / blinkVolume.clusterSize.toNat = 0 := Nat.div_eq_of_lt (hp.trans (by decide))
    refine ⟨?_, rfl⟩
    rw [hd]
    rfl
  bytes    := by decide

-- The frames up to the `k`th one have been presented, whether or not more follow.
structure Watched (v : Volume) (file : File) (entry : Entry) (base : List Screen) (k : Nat)
    (s : Globals) (page : Page) : Prop where
  presented : page.presented = base ++ (List.range k).map file.screen
  single    : file.loop.length = 1 → k ≤ 1
  live      : s.gif.active → s.gif.playing → Live v file entry base k s page

section Watching

variable {file : File} {entry : Entry} {base : List Screen} {k : Nat} {op : Op}

theorem Live.watched (h : Live v file entry base k s page) : Watched v file entry base k s page :=
  ⟨h.within.presented, h.within.single, fun _ _ => h⟩

-- Nothing more is presented once a file has been closed or has come to its end.
theorem Watched.over (h : Watched v file entry base k s page)
    (hp : page'.presented = page.presented) (ho : s'.gif.active = false ∨ s'.gif.playing = false) :
    Watched v file entry base k s' page' := by
  refine ⟨hp.trans h.presented, h.single, fun ha hpl => ?_⟩
  rcases ho with ho | ho
  · exact absurd (ho.symm.trans ha) (by decide)
  · exact absurd (ho.symm.trans hpl) (by decide)

-- What is done while a file is played, on the volume that it is on.
def Op.Plays (v : Volume) : Op → Prop
  | openGif ..  => False
  | tick g _    => g = v.toGeometry
  | _           => True

theorem wp_watching_run (hv : file.Valid) (hh : Holds v entry file.bytes)
    (hw : Watched v file entry base k s page) (ho : op.Plays v) :
    wp (watching v willing) op.run
      (fun _ s' page' => ∃ k', Watched v file entry base k' s' page') s page := by
  cases op with
  | openGif => exact ho.elim
  | tick g nowUs =>
    cases ho
    by_cases hl : s.gif.active ∧ s.gif.playing
    case neg =>
      have hx : (!s.gif.active) = true ∨ (!s.gif.playing) = true ∨ s.gif.paused = true := by
        simp only [Bool.not_eq_true']
        rcases Decidable.not_and_iff_or_not.mp hl with ha | hpl
        · exact .inl (Bool.eq_false_of_not_eq_true ha)
        · exact .inr (.inl (Bool.eq_false_of_not_eq_true hpl))
      rw [Op.run, tick, wp_bind, wp_get]
      beta_reduce
      rw [wp_ite, if_pos hx]
      exact ⟨k, hw⟩
    case pos =>
      refine wp_mono (wp_watching_tick hv hh (hw.live hl.left hl.right))
        fun result s' page' ht => ?_
      cases ht with
      | waiting _ hl'        => exact ⟨k, hl'.watched⟩
      | shown _ hl'          => exact ⟨k + 1, hl'.watched⟩
      | still _ hpl hpr      => exact ⟨k, hw.over hpr (.inr hpl)⟩
      | failed _ _ ha hpr    => exact ⟨k, hw.over hpr (.inl ha)⟩
  | togglePause nowUs =>
    rw [Op.run, wp_bind, togglePause, wp_bind, wp_get]
    beta_reduce
    rw [wp_ite]
    split
    case isFalse => exact ⟨k, hw⟩
    case isTrue hl =>
      rw [Bool.and_eq_true] at hl
      have hl' := hw.live hl.left hl.right
      rw [wp_ite]
      split
      · refine ⟨k, Live.watched ?_⟩
        exact hl'.congr hl.left hl.right rfl
      · refine ⟨k, Live.watched ?_⟩
        exact hl'.congr hl.left hl.right rfl
  | close =>
    rw [Op.run, wp_bind]
    exact wp_watching_close fun page' hpr => ⟨k, hw.over hpr (.inl rfl)⟩
  | others sectorData row =>
    refine ⟨k, hw.presented, hw.single, fun ha hpl => ⟨?_, ?_, ha, hpl⟩⟩
    · exact (hw.live ha hpl).within.uncached rfl
    · exact (hw.live ha hpl).positive

variable {sink : Sink} {s₀ : Globals} {page₀ : Page} {answers : List Answer} {result : FileResult}
variable {es : List (Op × Option FileResult)}

-- A run of the operations while a file is played, that have all returned.
abbrev Played (v : Volume) (s₀ : Globals) (page₀ : Page) :
    List (Op × Option FileResult) → Globals → Page → Prop :=
  Run (Animation.sink v) Op.run none (fun op _ _ _ => op.Plays v) s₀ page₀

theorem Played.watched (hv : file.Valid) (hh : Holds v entry file.bytes)
    (ho : (openGif v.toGeometry (some entry) (some sink)).run (Animation.sink v) s₀ answers page₀ =
      .done (result, s) page) (hr : Played v s page es s' page') :
    ∃ k, Watched v file entry page₀.presented k s' page' := by
  refine hr.invariant (fun _ s' page' => ∃ k, Watched v file entry page₀.presented k s' page')
    ?_ ?_
  case refine_1 =>
    have hm := run_meets (E := watching v False) (fun d (_ : d ∈ answers) h => h.elim)
      (@wp_watching_openGif v False s₀ page₀ file entry sink hv hh)
    rw [show (watching v False).handler = Animation.sink v from rfl, ho] at hm
    cases hm with
    | shown hl         => exact ⟨1, hl.watched⟩
    | failed _ ha hpr  =>
      refine ⟨0, hpr.trans (List.append_nil _).symm, fun _ => Nat.zero_le _, fun ha' => ?_⟩
      exact absurd (ha.symm.trans ha') (by decide)
  case refine_2 =>
    rintro es s page op ds ho ⟨k, hw⟩
    have hm := run_meets (E := watching v False) (fun d (_ : d ∈ ds) h => h.elim)
      (wp_watching_run hv hh hw ho)
    rw [show (watching v False).handler = Animation.sink v from rfl] at hm
    revert hm
    cases op.run.run (Animation.sink v) s ds page
    case done a page => exact id
    case cut         => exact fun _ => by rintro _ ⟨⟩
    case hung        => exact fun _ => by rintro _ ⟨⟩

theorem Live.sized (h : Live v file entry base k s page) : s.Sized :=
  (show s.gif.globalPaletteSize = _ from h.within.left.size).trans_le paletteLength_le

theorem exists_watched {P : α → Globals → Prop} {Q : α → Globals → Page → Prop}
    (ht : wp env p (fun a s' _ => P a s') s ()) (h : wp (watching v True) p Q s page)
    (answers : Nat → Answer) (ha : ∀ n, Willing (answers n)) :
    ∃ n a s' page', p.run (Animation.sink v) s ((List.range n).map answers) page =
      .done (a, s') page' ∧ Q a s' page' :=
  exists_done (E := { watching v True with hung := fun _ => False }) answers (fun n _ => ha n)
    (fun _ => id) (wp_of_total ht h)

-- Whatever the display answers and whatever is asked of the decoder in whatever order, the pictures
-- that are presented are those of the loop, from its first frame on, with none left out, repeated
-- or shown before its turn. A file with one image is shown once.
theorem presents_in_order (hv : file.Valid) (hh : Holds v entry file.bytes)
    (ho : (openGif v.toGeometry (some entry) (some sink)).run (Animation.sink v) s₀ answers page₀ =
      .done (result, s) page) (hr : Played v s page es s' page') :
    ∃ k, page'.presented = page₀.presented ++ (List.range k).map file.screen ∧
      (file.loop.length = 1 → k ≤ 1) := by
  obtain ⟨k, hw⟩ := Played.watched hv hh ho hr
  exact ⟨k, hw.presented, hw.single⟩

theorem presents_in_order_blink : ∃ n result s page k,
    (openGif blinkVolume.toGeometry (some ⟨2, 58⟩) (some ⟨true, true, true, true, true⟩)).run
      (Animation.sink blinkVolume) cleared
      ((List.range n).map fun _ => ⟨some fun _ => 0, true, true⟩) ⟨.boot fun _ => 0, []⟩ =
        .done (result, s) page ∧
    page.presented = [] ++ (List.range k).map blink.screen := by
  have ht : wp env (openGif blinkVolume.toGeometry (some ⟨2, 58⟩)
      (some ⟨true, true, true, true, true⟩)) (fun _ _ _ => True) cleared () :=
    wp_openGif fun _ _ _ => trivial
  obtain ⟨n, result, s, page, hr, _⟩ := exists_watched ht
    (wp_watching_openGif blink_valid blink_holds : wp _ _ _ _ ⟨.boot fun _ => 0, []⟩)
    (fun _ => ⟨some fun _ => 0, true, true⟩) fun _ => ⟨rfl, rfl, rfl⟩
  obtain ⟨k, hk, _⟩ := presents_in_order blink_valid blink_holds hr .start
  exact ⟨n, result, s, page, k, hr, hk⟩

-- With a willing display a file is opened with its first frame, and whenever a frame is due the
-- next one is presented and stays for its own delay.
theorem presents_when_due (hv : file.Valid) (hh : Holds v entry file.bytes) (hc : sink.Complete)
    (hn : file.loop.length % 65536 ≠ 0) {given : Nat → Answer} (hg : ∀ n, Willing (given n)) :
    (∃ n s page, (openGif v.toGeometry (some entry) (some sink)).run (Animation.sink v) s₀
        ((List.range n).map given) page₀ = .done (.ok, s) page ∧
      page.presented = page₀.presented ++ [file.screen 0]) ∧
    ∀ answers result s page es s' page' nowUs,
      (openGif v.toGeometry (some entry) (some sink)).run (Animation.sink v) s₀ answers page₀ =
        .done (result, s) page →
      Played v s page es s' page' → s'.gif.active → s'.gif.playing → Due s'.gif nowUs →
      ∃ n s'' page'', (tick v.toGeometry nowUs).run (Animation.sink v) s'
          ((List.range n).map given) page' = .done (.ok, s'') page'' ∧
        ∃ k, page'.presented = page₀.presented ++ (List.range k).map file.screen ∧
          if file.loop.length = 1 then page''.presented = page'.presented
          else page''.presented = page'.presented ++ [file.screen k] ∧
            s''.gif.deadlineUs = nowUs + .ofNat (file.delayMs k) * 1000 := by
  constructor
  case left =>
    have ht : wp env (openGif v.toGeometry (some entry) (some sink)) (fun _ _ _ => True) s₀ () :=
      wp_openGif fun _ _ _ => trivial
    obtain ⟨n, result, s, page, hr, hb⟩ :=
      exists_watched ht (wp_watching_openGif hv hh : wp _ _ _ s₀ page₀) given hg
    cases hb with
    | shown hl         => exact ⟨n, s, page, hr, hl.within.presented⟩
    | failed hf        => exact absurd (hf hc) (by rw [not_or, not_not]; exact ⟨trivial, hn⟩)
  case right =>
    intro answers result s page es s' page' nowUs ho hr ha hp hd
    obtain ⟨k, hw⟩ := Played.watched hv hh ho hr
    have hl := hw.live ha hp
    have ht : wp env (tick v.toGeometry nowUs) (fun _ _ _ => True) s' () :=
      wp_tick hl.sized fun _ _ _ => trivial
    obtain ⟨n, result, s'', page'', hr, ht⟩ :=
      exists_watched ht (wp_watching_tick hv hh hl) given hg
    cases ht with
    | waiting hnd              => exact absurd hd hnd
    | failed _ hf              => exact absurd hf (by rw [not_or, not_not]; exact ⟨trivial, hn⟩)
    | still hn₁ _ hpr          => exact ⟨n, s'', page'', hr, k, hw.presented, by rwa [if_pos hn₁]⟩
    | shown _ hl' _ hdeadline  =>
      have hn₁ : file.loop.length ≠ 1 := by
        intro hn₁
        have := hl'.within.single hn₁
        have := hl.positive
        omega
      refine ⟨n, s'', page'', hr, k, hw.presented, ?_⟩
      rw [if_neg hn₁, hl'.within.presented, hw.presented, List.range_succ, List.map_append,
        List.append_assoc]
      exact ⟨rfl, hdeadline⟩

theorem presents_when_due_blink : ∃ n s page,
    (openGif blinkVolume.toGeometry (some ⟨2, 58⟩) (some ⟨true, true, true, true, true⟩)).run
      (Animation.sink blinkVolume) cleared
      ((List.range n).map fun _ => ⟨some fun _ => 0, true, true⟩) ⟨.boot fun _ => 0, []⟩ =
        .done (.ok, s) page ∧
    page.presented = [] ++ [blink.screen 0] :=
  (presents_when_due blink_valid blink_holds ⟨rfl, rfl, rfl, rfl⟩ (by decide)
    fun _ => ⟨rfl, rfl, rfl⟩).left

end Watching

end Gif
