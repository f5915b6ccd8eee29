import HackyLens.Lib.Composition
import HackyLens.Lib.Layers
import HackyLens.Photo.Animation
import HackyLens.Photo.Theorems.Viewer

-- The canvas of an animation only exists on the display, where it is scaled. What is done to it there
-- is what would be done to the canvas, at the places that are shown of it.

namespace Animation

open Files Composition Scaling
open Gif (Frame)

section Loops

variable {view : Rect} {surface : Screen} {p : Nat × Nat}

theorem surfacePixel_apply {x y : Nat} {color : UInt16} (hx : x < displayWidth)
    (hy : y < displayHeight) :
    surfacePixel x y color surface p = if p = (x, y) then color else surface p := by
  rw [surfacePixel, if_neg (by omega), Function.update_apply]

theorem drawPixel_apply {x y : Nat} {color : Option UInt16} (hv : view.Placed)
    (hx : x < view.width) (hy : y < view.height) :
    drawPixel view x y surface color p =
      if p = (view.x + x, view.y + y) then color.getD (surface p) else surface p := by
  have hr := hv.right
  have hb := hv.bottom
  cases color with
  | none       => exact (ite_self _).symm
  | some color => exact surfacePixel_apply (by omega) (by omega)

theorem drawRow_apply {y : Nat} {color : Nat → Option UInt16} (hv : view.Placed)
    (hy : y < view.height) : drawRow view y color surface p =
      if p.snd = view.y + y ∧ view.x ≤ p.fst ∧ p.fst < view.x + view.width then
        (color (p.fst - view.x)).getD (surface p)
      else surface p := by
  obtain ⟨px, py⟩ := p
  rw [drawRow]
  by_cases hp : py = view.y + y ∧ view.x ≤ px
  case neg =>
    rw [if_neg fun h => hp ⟨h.left, h.right.left⟩]
    rw [Layers.foldl_range_at id view.width (fun h => absurd h (Nat.lt_irrefl _)),
      if_neg (Nat.lt_irrefl _)]
    intro x hx _ surface
    rw [drawPixel_apply hv hx hy, if_neg]
    rintro ⟨rfl, rfl⟩
    exact hp ⟨rfl, Nat.le_add_right ..⟩
  case pos =>
    obtain ⟨rfl, hle⟩ := hp
    rw [Layers.foldl_range_at (color (px - view.x)).getD (px - view.x)]
    · exact if_congr (by omega) rfl rfl
    · intro h surface
      rw [drawPixel_apply hv h hy, if_pos (by rw [Nat.add_sub_cancel' hle])]
    · intro x hx hne surface
      rw [drawPixel_apply hv hx hy, if_neg]
      rintro ⟨rfl, _⟩
      exact hne (Nat.add_sub_cancel_left ..).symm

-- Each pixel of the viewport is drawn once.
theorem drawRows_apply {color : Nat → Nat → Option UInt16} (hv : view.Placed) :
    drawRows view color surface p =
      if view.Has p then (color (p.fst - view.x) (p.snd - view.y)).getD (surface p)
      else surface p := by
  obtain ⟨px, py⟩ := p
  rw [drawRows]
  by_cases hp : (view.x ≤ px ∧ px < view.x + view.width) ∧ view.y ≤ py
  case neg =>
    rw [if_neg fun h => hp ⟨⟨h.left, h.right.left⟩, h.right.right.left⟩]
    rw [Layers.foldl_range_at id view.height (fun h => absurd h (Nat.lt_irrefl _)),
      if_neg (Nat.lt_irrefl _)]
    intro y hy _ surface
    rw [drawRow_apply hv hy, if_neg]
    rintro ⟨rfl, hx⟩
    exact hp ⟨hx, Nat.le_add_right ..⟩
  case pos =>
    obtain ⟨hx, hle⟩ := hp
    rw [Layers.foldl_range_at (color (px - view.x) (py - view.y)).getD (py - view.y)]
    · refine if_congr ?_ rfl rfl
      rw [Rect.Has]
      omega
    · intro h surface
      rw [drawRow_apply hv h, if_pos ⟨(Nat.add_sub_cancel' hle).symm, hx⟩]
    · intro y hy hne surface
      rw [drawRow_apply hv hy, if_neg]
      rintro ⟨rfl, _⟩
      exact hne (Nat.add_sub_cancel_left ..).symm

end Loops

section Canvas

variable {canvasW canvasH : Nat} {background : UInt16} {p : Nat × Nat} {v : View}

-- The place of the canvas that is shown at a place of the display.
def place (canvasW canvasH : Nat) (p : Nat × Nat) : Option (Nat × Nat) :=
  let view := imageFitViewport canvasW canvasH
  if view.Has p then
    some (source canvasW view.width (p.fst - view.x), source canvasH view.height (p.snd - view.y))
  else
    none

-- The display before anything has been drawn on the canvas.
def ground (canvasW canvasH : Nat) (background : UInt16) : Screen :=
  fun p => if (imageFitViewport canvasW canvasH).Has p then background else 0

def within (x y w h : Nat) (c : Nat × Nat) : Bool :=
  x ≤ c.fst && c.fst < x + w && y ≤ c.snd && c.snd < y + h

-- The frame as a picture on the canvas, with the indices of its pixels.
def picture (frame : Frame) (index : Nat → Nat → UInt8) (palette : Nat → UInt16) :
    Picture (Nat × Nat) UInt16 where
  area := within frame.frameX frame.frameY frame.frameW frame.frameH
  paint c :=
    if within frame.frameX frame.frameY frame.frameW frame.frameH c then
      let index := index (c.fst - frame.frameX) (c.snd - frame.frameY)
      if (index.toNat : Int) = frame.transparentIndex then none else some (palette index.toNat)
    else
      none
  disposal :=
    if frame.disposal = 2 then .background else if frame.disposal = 3 then .previous else .keep

-- The viewport has been fitted to the canvas.
structure View.Fitted (v : View) (canvasW canvasH : Nat) (background : UInt16) : Prop where
  width      : v.canvasW = canvasW
  height     : v.canvasH = canvasH
  positive   : 0 < canvasW ∧ 0 < canvasH
  view       : v.view = imageFitViewport canvasW canvasH
  background : v.background = background
  sourceX    : ∀ x < v.view.width, v.sourceX x = source canvasW v.view.width x
  sourceY    : ∀ y < v.view.height, v.sourceY y = source canvasH v.view.height y
  backup     : v.backup.isSome

theorem begin_fitted {answer : Answer} {workspace : Screen} (hw : 0 < canvasW) (hh : 0 < canvasH)
    (ha : answer.workspace = some workspace) :
    (v.begin answer canvasW canvasH background).fst ∧
      (v.begin answer canvasW canvasH background).snd.Fitted canvasW canvasH background ∧
      (v.begin answer canvasW canvasH background).snd.resetPending ∧
      (v.begin answer canvasW canvasH background).snd.frameOpen = false := by
  rw [View.begin, if_neg (by omega), ha]
  exact ⟨rfl, ⟨rfl, rfl, ⟨hw, hh⟩, rfl, rfl, fun _ h => if_pos h, fun _ h => if_pos h, rfl⟩, rfl, rfl⟩

variable (h : v.Fitted canvasW canvasH background)

include h

theorem place_of_has (hp : v.view.Has p) : place canvasW canvasH p =
    some (v.sourceX (p.fst - v.view.x), v.sourceY (p.snd - v.view.y)) := by
  obtain ⟨hx, hx', hy, hy'⟩ := hp
  rw [h.sourceX _ (by omega), h.sourceY _ (by omega), place, ← h.view, if_pos ⟨hx, hx', hy, hy'⟩]

theorem place_of_not_has (hp : ¬v.view.Has p) : place canvasW canvasH p = none := by
  rw [place, ← h.view, if_neg hp]

theorem place_inside {c : Nat × Nat} (hp : place canvasW canvasH p = some c) :
    c.fst < canvasW ∧ c.snd < canvasH := by
  rw [place, ← h.view] at hp
  split at hp
  case isFalse    => cases hp
  case isTrue hin =>
    cases hp
    obtain ⟨hx, hx', hy, hy'⟩ := hin
    exact ⟨source_lt h.positive.left (by omega), source_lt h.positive.right (by omega)⟩

theorem Fitted.placed : v.view.Placed :=
  h.view ▸ imageFitViewport_placed

-- What is drawn at a place of the display depends on the place of the canvas.
theorem drawRows_sampled {color : Nat → Nat → Option UInt16} {paint : Nat × Nat → Option UInt16}
    {surface : Screen} (hc : ∀ x y, color x y = paint (v.sourceX x, v.sourceY y)) :
    drawRows v.view color surface p = ((place canvasW canvasH p).bind paint).getD (surface p) := by
  rw [drawRows_apply (Fitted.placed h)]
  split
  case isTrue hp  => rw [place_of_has h hp, hc, Option.bind_some]
  case isFalse hp => rw [place_of_not_has h hp, Option.bind_none, Option.getD_none]

theorem fillLogicalRect_surface {x y width height : Nat} {color : UInt16} :
    (v.fillLogicalRect x y width height color).surface p =
      if (place canvasW canvasH p).any (within x y width height) then color else v.surface p := by
  rw [View.fillLogicalRect]
  dsimp only
  rw [@drawRows_sampled _ _ _ p v h _
    (fun c => if within x y width height c then some color else none)]
  · cases place canvasW canvasH p with
    | none   => rfl
    | some c =>
      rw [Option.bind_some, Option.any_some]
      cases within x y width height c <;> rfl
  · exact fun _ _ => rfl

omit h in
theorem rowColor_eq {frame : Frame} {frameRow paletteSize x y : Nat} {index : Nat → Nat → UInt8}
    {indices : List UInt8} {palette : Nat → UInt16} (hr : frameRow < frame.frameH)
    (hi : ∀ x < frame.frameW, indices.getD x 0 = index x frameRow)
    (hs : ∀ x < frame.frameW, (index x frameRow).toNat < paletteSize)
    (hy : v.sourceY y = frame.frameY + frameRow) :
    v.rowColor frame indices palette paletteSize x =
      (picture frame index palette).paint (v.sourceX x, v.sourceY y) := by
  have hin : within frame.frameX frame.frameY frame.frameW frame.frameH
      (v.sourceX x, v.sourceY y) = true ↔
      ¬(v.sourceX x < frame.frameX ∨ v.sourceX x ≥ frame.frameX + frame.frameW) := by
    simp only [within, Bool.and_eq_true, decide_eq_true_eq, hy]
    omega
  rw [View.rowColor, picture]
  dsimp only
  by_cases hx : v.sourceX x < frame.frameX ∨ v.sourceX x ≥ frame.frameX + frame.frameW
  case pos => rw [if_pos hx, if_neg fun h => hin.mp h hx]
  case neg =>
    have hx' : v.sourceX x - frame.frameX < frame.frameW := by omega
    rw [if_neg hx, if_pos (hin.mpr hx), hi _ hx', hy, Nat.add_sub_cancel_left]
    exact if_congr (or_iff_right (Nat.not_le.mpr (hs _ hx'))) rfl rfl

-- A row draws the picture in the rows of the display that show it.
theorem renderIndexedRow_surface {frame : Frame} {frameRow paletteSize : Nat}
    {index : Nat → Nat → UInt8} {indices : List UInt8} {palette : Nat → UInt16}
    (ho : v.frameOpen) (hr : frameRow < frame.frameH)
    (hi : ∀ x < frame.frameW, indices.getD x 0 = index x frameRow)
    (hs : ∀ x < frame.frameW, (index x frameRow).toNat < paletteSize) :
    (v.renderIndexedRow frame frameRow indices palette paletteSize).surface p =
      if (place canvasW canvasH p).any (·.snd == frame.frameY + frameRow) then
        ((picture frame index palette).sample (place canvasW canvasH)).draw v.surface p
      else v.surface p := by
  rw [View.renderIndexedRow, if_neg (by rw [ho]; simpa using hr)]
  dsimp only
  rw [@drawRows_sampled _ _ _ p v h _ fun c =>
    if c.snd = frame.frameY + frameRow then (picture frame index palette).paint c else none]
  · rw [Picture.draw, Picture.sample]
    dsimp only
    cases place canvasW canvasH p with
    | none   => rfl
    | some c =>
      rw [Option.bind_some, Option.any_some, Option.bind_some, beq_eq_decide]
      by_cases hc : c.snd = frame.frameY + frameRow
      · rw [if_pos hc, decide_eq_true hc, if_pos rfl]
      · rw [if_neg hc, decide_eq_false hc, if_neg Bool.false_ne_true, Option.getD_none]
  · intro x y
    dsimp only
    by_cases hy : v.sourceY y = frame.frameY + frameRow
    · rw [if_neg (not_not_intro hy), if_pos hy, rowColor_eq hr hi hs hy]
    · rw [if_pos hy, if_neg hy]

end Canvas

section Frames

variable {canvasW canvasH : Nat} {background : UInt16} {v : View} {frame : Frame} {answer : Answer}
variable {pictures earlier : List (Picture (Nat × Nat) UInt16)} {p : Picture (Nat × Nat) UInt16}

theorem View.Fitted.congr {v' : View} (h : v.Fitted canvasW canvasH background)
    (hv : v' = { v with
      surface := v'.surface, previousFrame := v'.previousFrame, currentFrame := v'.currentFrame
      backup := v'.backup, frameOpen := v'.frameOpen, resetPending := v'.resetPending
      previousValid := v'.previousValid, backupValid := v'.backupValid })
    (hb : v'.backup.isSome) : v'.Fitted canvasW canvasH background := by
  refine ⟨?_, ?_, h.positive, ?_, ?_, ?_, ?_, hb⟩
  all_goals rw [hv]
  · exact h.width
  · exact h.height
  · exact h.view
  · exact h.background
  · exact h.sourceX
  · exact h.sourceY

def sampled (canvasW canvasH : Nat) (pictures : List (Picture (Nat × Nat) UInt16)) :
    List (Picture (Nat × Nat) UInt16) :=
  pictures.map (·.sample (place canvasW canvasH))

-- What the next frame needs to know of the latest picture.
structure View.Latest (v : View) (canvasW canvasH : Nat) (background : UInt16)
    (p : Picture (Nat × Nat) UInt16) (earlier : List (Picture (Nat × Nat) UInt16)) : Prop where
  pending : v.resetPending = false
  valid   : v.previousValid
  surface : v.surface =
    Composition.shown (ground canvasW canvasH background) (sampled canvasW canvasH (p :: earlier))
  frame   : ∃ index palette, p = picture v.previousFrame index palette
  backup  : p.disposal = .previous → v.backupValid ∧
    v.backup = some (left (ground canvasW canvasH background) (sampled canvasW canvasH earlier))

-- The pictures have been shown, the latest first, and no frame is being drawn.
structure View.Shows (v : View) (canvasW canvasH : Nat) (background : UInt16)
    (pictures : List (Picture (Nat × Nat) UInt16)) : Prop where
  fitted : v.Fitted canvasW canvasH background
  closed : v.frameOpen = false
  fresh  : pictures = [] → v.resetPending
  latest : ∀ p earlier, pictures = p :: earlier → v.Latest canvasW canvasH background p earlier

-- A frame has been begun.
structure View.Draws (v : View) (canvasW canvasH : Nat) (background : UInt16)
    (pictures : List (Picture (Nat × Nat) UInt16)) (frame : Frame) : Prop where
  fitted  : v.Fitted canvasW canvasH background
  opened  : v.frameOpen
  pending : v.resetPending = false
  current : v.currentFrame = frame
  backup  : frame.disposal = 3 → v.backupValid ∧
    v.backup = some (left (ground canvasW canvasH background) (sampled canvasW canvasH pictures))

theorem resetAnimationSurface_surface (h : v.Fitted canvasW canvasH background) :
    v.resetAnimationSurface.surface = ground canvasW canvasH background := by
  have h₀ : View.Fitted { v with surface := fun _ => 0 } canvasW canvasH background :=
    h.congr rfl h.backup
  funext q
  change (View.fillLogicalRect { v with surface := fun _ => 0 } 0 0 v.canvasW v.canvasH
    v.background).surface q = _
  rw [fillLogicalRect_surface h₀, ground, h.width, h.height, h.background, ← h.view]
  by_cases hp : v.view.Has q
  case pos =>
    have hc := place_of_has h hp
    obtain ⟨hx, hy⟩ := place_inside h hc
    rw [hc, if_pos hp, Option.any_some, if_pos]
    simpa [within] using ⟨hx, hy⟩
  case neg =>
    rw [place_of_not_has h hp, if_neg hp]
    rfl

theorem applyPreviousDisposal_eq :
    v.applyPreviousDisposal = { v with surface := v.applyPreviousDisposal.surface } := by
  rw [View.applyPreviousDisposal]
  split
  case isTrue => rfl
  split
  case isTrue => rfl
  split
  case isFalse => rfl
  split <;> rfl

theorem applyPreviousDisposal_surface (h : v.Fitted canvasW canvasH background)
    (hl : v.Latest canvasW canvasH background p earlier) :
    v.applyPreviousDisposal.surface =
      left (ground canvasW canvasH background) (sampled canvasW canvasH (p :: earlier)) := by
  have hs := hl.surface
  obtain ⟨index, palette, hp⟩ := hl.frame
  have hd : p.disposal = if v.previousFrame.disposal = 2 then .background else
    if v.previousFrame.disposal = 3 then .previous else .keep := hp ▸ rfl
  rw [sampled, List.map_cons, left, Picture.dispose]
  rw [sampled, List.map_cons, Composition.shown] at hs
  rw [View.applyPreviousDisposal, if_neg (by rw [hl.valid]; decide)]
  by_cases h2 : v.previousFrame.disposal = 2
  case pos =>
    rw [if_pos h2] at hd
    rw [if_pos h2, show (p.sample (place canvasW canvasH)).disposal = .background from hd]
    funext q
    rw [fillLogicalRect_surface h, hs, h.background]
    have ha : (p.sample (place canvasW canvasH)).area q =
        (place canvasW canvasH q).any (within v.previousFrame.frameX v.previousFrame.frameY
          v.previousFrame.frameW v.previousFrame.frameH) := by
      rw [hp]
      rfl
    dsimp only
    rw [ha]
    by_cases hq : v.view.Has q
    case pos =>
      have hg : ground canvasW canvasH background q = background := by
        rw [ground, ← h.view, if_pos hq]
      rw [hg]
    case neg =>
      rw [place_of_not_has h hq]
      rfl
  case neg =>
  rw [if_neg h2] at hd ⊢
  by_cases h3 : v.previousFrame.disposal = 3
  case pos =>
    rw [if_pos h3] at hd
    obtain ⟨hb, he⟩ := hl.backup hd
    rw [if_pos ⟨h3, hb⟩, he, show (p.sample (place canvasW canvasH)).disposal = .previous from hd]
    rfl
  case neg =>
    rw [if_neg h3] at hd
    rw [if_neg fun h => h3 h.left, show (p.sample (place canvasW canvasH)).disposal = .keep from hd]
    exact hs

theorem frameBegin_draws (h : v.Shows canvasW canvasH background pictures)
    (hw : frame.canvasW = canvasW) (hh : frame.canvasH = canvasH) (ha : answer.acquired) :
    (v.frameBegin answer frame).fst ∧
      (v.frameBegin answer frame).snd.Draws canvasW canvasH background pictures frame ∧
      (v.frameBegin answer frame).snd.surface =
        left (ground canvasW canvasH background) (sampled canvasW canvasH pictures) := by
  have hb := h.fitted.backup
  -- The surface is prepared as the latest picture asks for.
  have hprepared : ∃ v' : View, v' = (if v.resetPending then
        View.resetAnimationSurface { v with frameOpen := true }
      else View.applyPreviousDisposal { v with frameOpen := true }) ∧
      v'.Fitted canvasW canvasH background ∧ v'.frameOpen ∧ v'.resetPending = false ∧
      v'.surface = left (ground canvasW canvasH background) (sampled canvasW canvasH pictures) := by
    have hopen : View.Fitted { v with frameOpen := true } canvasW canvasH background :=
      h.fitted.congr rfl hb
    refine ⟨_, rfl, ?_⟩
    cases pictures with
    | nil =>
      rw [if_pos (h.fresh rfl)]
      exact ⟨hopen.congr rfl hb, rfl, rfl, resetAnimationSurface_surface hopen⟩
    | cons p earlier =>
      have hl := h.latest p earlier rfl
      have hl' : View.Latest { v with frameOpen := true } canvasW canvasH background p earlier :=
        ⟨hl.pending, hl.valid, hl.surface, hl.frame, hl.backup⟩
      have hf := @applyPreviousDisposal_eq { v with frameOpen := true }
      rw [if_neg (by rw [hl.pending]; decide)]
      refine ⟨hopen.congr ?_ ?_, ?_, ?_, applyPreviousDisposal_surface hopen hl'⟩
      all_goals rw [hf]
      · exact hb
      · exact hl.pending
  obtain ⟨v', hv', hfit, hopen, hpending, hsurface⟩ := hprepared
  rw [View.frameBegin, if_neg]
  case hnc => simp [h.fitted.width, h.fitted.height, h.closed, hw, hh, ha]
  dsimp only
  rw [← hv']
  split
  case isTrue h3 =>
    refine ⟨rfl, ⟨hfit.congr rfl ?_, hopen, hpending, rfl, fun _ => ⟨rfl, ?_⟩⟩, hsurface⟩
    · rw [Option.isSome_map]
      exact hfit.backup
    · obtain ⟨backup, he⟩ := Option.isSome_iff_exists.mp hfit.backup
      change v'.backup.map _ = _
      rw [he, Option.map_some]
      exact congrArg some hsurface
  case isFalse h3 =>
    exact ⟨rfl, ⟨hfit.congr rfl hfit.backup, hopen, hpending, rfl, fun h => absurd h h3⟩, hsurface⟩

-- Rows do not change anything but the surface.
theorem renderIndexedRow_eq {frameRow paletteSize : Nat} {indices : List UInt8}
    {palette : Nat → UInt16} : v.renderIndexedRow frame frameRow indices palette paletteSize =
      { v with
        surface := (v.renderIndexedRow frame frameRow indices palette paletteSize).surface } := by
  rw [View.renderIndexedRow]
  split <;> rfl

theorem View.Draws.congr {v' : View} (h : v.Draws canvasW canvasH background pictures frame)
    (hv : v' = { v with surface := v'.surface }) :
    v'.Draws canvasW canvasH background pictures frame := by
  refine ⟨h.fitted.congr ?_ ?_, ?_, ?_, ?_, ?_⟩
  all_goals rw [hv]
  · exact h.fitted.backup
  · exact h.opened
  · exact h.pending
  · exact h.current
  · exact h.backup

-- The rows of a frame, with the indices of each.
def renderRows (frame : Frame) (indices : Nat → List UInt8) (palette : Nat → UInt16)
    (paletteSize : Nat) (rows : List Nat) (v : View) : View :=
  rows.foldl (fun v row => v.renderIndexedRow frame row (indices row) palette paletteSize) v

section Rows

variable {index : Nat → Nat → UInt8} {indices : Nat → List UInt8} {palette : Nat → UInt16}
variable {paletteSize : Nat} {rows : List Nat} {q : Nat × Nat}

-- Places that have been drawn already are drawn in the same way again.
theorem draw_draw {below below' : Screen} (h : below' q = p.draw below q) :
    p.draw below' q = p.draw below q := by
  simp only [Picture.draw] at h ⊢
  cases hp : p.paint q with
  | none   => rw [Option.getD_none, h, hp]
  | some _ => rfl

theorem draw_congr {below below' : Screen} (h : below' q = below q) :
    p.draw below' q = p.draw below q :=
  congrArg (p.paint q).getD h

theorem renderRows_surface (h : v.Draws canvasW canvasH background pictures frame)
    (hr : ∀ row ∈ rows, row < frame.frameH)
    (hi : ∀ row ∈ rows, ∀ x < frame.frameW, (indices row).getD x 0 = index x row)
    (hs : ∀ row ∈ rows, ∀ x < frame.frameW, (index x row).toNat < paletteSize) :
    (renderRows frame indices palette paletteSize rows v).Draws canvasW canvasH background pictures
        frame ∧
      (renderRows frame indices palette paletteSize rows v).surface q =
        if (place canvasW canvasH q).any (fun c => rows.any (frame.frameY + · == c.snd)) then
          ((picture frame index palette).sample (place canvasW canvasH)).draw v.surface q
        else v.surface q := by
  induction rows generalizing v with
  | nil =>
    refine ⟨h, ?_⟩
    cases place canvasW canvasH q <;> rfl
  | cons row rows ih =>
    obtain ⟨hr, hr'⟩ := List.forall_mem_cons.mp hr
    obtain ⟨hi, hi'⟩ := List.forall_mem_cons.mp hi
    obtain ⟨hs, hs'⟩ := List.forall_mem_cons.mp hs
    have hrow := @renderIndexedRow_surface _ _ _ q v h.fitted frame row paletteSize index
      (indices row) palette h.opened hr hi hs
    obtain ⟨hd, hsurface⟩ := ih (h.congr renderIndexedRow_eq) hr' hi' hs'
    refine ⟨hd, hsurface.trans ?_⟩
    cases hp : place canvasW canvasH q with
    | none =>
      rw [hp] at hrow
      exact hrow
    | some c =>
      rw [hp, Option.any_some] at hrow
      rw [Option.any_some, Option.any_some, List.any_cons]
      by_cases hc : c.snd = frame.frameY + row
      case pos =>
        rw [hc, beq_self_eq_true, if_pos rfl] at hrow
        rw [hc, beq_self_eq_true, Bool.true_or, if_pos rfl, draw_draw hrow, hrow, ite_self]
      case neg =>
        rw [beq_false_of_ne hc, if_neg Bool.false_ne_true] at hrow
        rw [beq_false_of_ne (Ne.symm hc), Bool.false_or, draw_congr hrow, hrow]

-- All rows together draw the picture.
theorem renderRows_all (h : v.Draws canvasW canvasH background pictures frame)
    (hm : ∀ row, row ∈ rows ↔ row < frame.frameH)
    (hi : ∀ row < frame.frameH, ∀ x < frame.frameW, (indices row).getD x 0 = index x row)
    (hs : ∀ row < frame.frameH, ∀ x < frame.frameW, (index x row).toNat < paletteSize) :
    (renderRows frame indices palette paletteSize rows v).Draws canvasW canvasH background pictures
        frame ∧
      (renderRows frame indices palette paletteSize rows v).surface =
        ((picture frame index palette).sample (place canvasW canvasH)).draw v.surface := by
  have hrows := fun q => @renderRows_surface _ _ _ v _ _ index indices palette paletteSize rows q h
    (fun row hr => (hm row).mp hr) (fun row hr => hi row ((hm row).mp hr))
    fun row hr => hs row ((hm row).mp hr)
  refine ⟨(hrows (0, 0)).left, funext fun q => (hrows q).right.trans ?_⟩
  split
  case isTrue    => rfl
  case isFalse hn =>
    -- The picture paints nothing beside its rows.
    cases hp : place canvasW canvasH q with
    | none   => exact (draw_sample_none hp).symm
    | some c =>
      rw [hp, Option.any_some, List.any_eq_true] at hn
      have hw : ¬within frame.frameX frame.frameY frame.frameW frame.frameH c := by
        intro hw
        simp only [within, Bool.and_eq_true, decide_eq_true_eq] at hw
        refine hn ⟨c.snd - frame.frameY, (hm _).mpr (by omega), beq_iff_eq.mpr (by omega)⟩
      rw [@draw_sample _ _ _ (fun _ => v.surface q) _ _ _ _ _ hp rfl]
      change _ = Option.getD (ite _ _ _) _
      rw [if_neg hw, Option.getD_none]

end Rows

theorem frameEnd_shows {index : Nat → Nat → UInt8} {palette : Nat → UInt16}
    (h : v.Draws canvasW canvasH background pictures frame)
    (hs : v.surface = ((picture frame index palette).sample (place canvasW canvasH)).draw
      (left (ground canvasW canvasH background) (sampled canvasW canvasH pictures))) :
    (v.frameEnd answer).fst = answer.presented ∧ (v.frameEnd answer).snd.surface = v.surface ∧
      (v.frameEnd answer).snd.Shows canvasW canvasH background
        (picture frame index palette :: pictures) := by
  rw [View.frameEnd, if_neg (by rw [h.opened]; decide)]
  refine ⟨rfl, rfl, h.fitted.congr rfl h.fitted.backup, rfl, fun hn => ?_, fun p earlier he => ?_⟩
  · cases hn
  · cases he
    refine ⟨h.pending, rfl, hs, ⟨index, palette, ?_⟩, fun hd => h.backup ?_⟩
    · exact congrArg (picture · index palette) h.current.symm
    · by_contra h3
      by_cases h2 : frame.disposal = 2
      · exact absurd ((if_pos h2).symm.trans hd) (by decide)
      · exact absurd ((if_neg h2).symm.trans hd) (by rw [if_neg h3]; decide)
end Frames
end Animation
