import HackyLens.Display.Theorems.Damage

-- What a call draws under a clip, next to what it draws on the whole screen.

namespace Display

open App (Result)
open Prog

-- A row of pixels after the commands that a call has added are rendered.
def State.rendered (board : Board) (s s' : State) (span : Span) (pixels : Row) : Row :=
  renderCommandsSpan board span (s'.frame.commands.drop s.frame.commands.length)
    s'.memory.stageText s'.stage.textBytes s'.stage.borrow pixels

-- `s'` is what a call makes of the batch, and `whole` what it makes of it without the clip.
def Hides (board : Board) (s s' whole : State) : Prop :=
  ∀ span pixels x, x < board.width → s.rendered board s' span pixels x =
    if s.stage.clip.Has x span.y then s.rendered board whole span pixels x else pixels x

-- What is rendered does not depend on any byte but those of the staged text and of the view.
def Contained (board : Board) (s s' : State) : Prop :=
  ∀ text data, (∀ a < s'.stage.textBytes, text a = s'.memory.stageText a) →
    (∀ a < s'.stage.borrow.sizeBytes, data a = s'.stage.borrow.data a) →
    ∀ span pixels x, x < board.width →
      renderCommandsSpan board span (s'.frame.commands.drop s.frame.commands.length) text
        s'.stage.textBytes { s'.stage.borrow with data } pixels x =
      s.rendered board s' span pixels x

-- A pixel of a rectangle is on one of its sides.
def Rect.Edge (rect : Rect) (x y : Nat) : Prop :=
  (x : Int) = rect.x ∨ (x : Int) + 1 = rect.x + rect.width ∨ (y : Int) = rect.y ∨
    (y : Int) + 1 = rect.y + rect.height

-- A bit of a text, by its column and row.
def lit (board : Board) (utf8 : List UInt8) (column row : Nat) : Prop :=
  row < fontH ∧
    inked board (codepoints (fun a => utf8.getD a 0) utf8.length utf8.length 0) column row

-- The clip of the batch does not cut through what a call draws, or it does not show. A rectangle's
-- sides are where they were, or all that is left of it is a part of them. A text begins where it
-- did, or the same bits are left of it.
def Op.Uncut (board : Board) (clip : Rect) : Op → Prop
  | .stroke _ rect _ =>
    let shown := rect.intersection (screenRect board)
    let left := rect.intersection clip
    left = shown ∨ ∀ x y, left.Has x y → shown.Edge x y
  | .text _ rect (some utf8) _ =>
    let shown := rect.intersection (screenRect board)
    let left := rect.intersection clip
    left.x = shown.x ∧ left.y = shown.y ∨ ∀ x y, left.Has x y →
      (lit board utf8 (x - left.x.toNat) (y - left.y.toNat) ↔
        lit board utf8 (x - shown.x.toNat) (y - shown.y.toNat))
  | _ => True

-- The calls that draw something.
def Op.Paints : Op → Prop
  | .clear .. | .fill .. | .stroke .. | .text .. | .blit .. => True
  | _ => False

section Text

variable {text text' : Memory} {last position fuel required offset : Nat} {codepoint : UInt32}

theorem utf8Rest_congr (h : ∀ a < position + required, text' a = text a) :
    utf8Rest text' required position codepoint = utf8Rest text required position codepoint := by
  induction required generalizing position codepoint with
  | zero => rfl
  | succ required ih =>
    rw [utf8Rest, utf8Rest, h position (by omega)]
    rw [ih fun a ha => h a (by omega)]

theorem utf8Next_congr (hp : position < last) (h : ∀ a < last, text' a = text a) :
    utf8Next text' last position = utf8Next text last position := by
  rw [utf8Next, utf8Next, h position hp]
  split
  case isTrue  => rfl
  case isFalse =>
    split
    case h_1 => rfl
    case h_2 codepoint required _ =>
      split
      case isTrue     => rfl
      case isFalse hr => exact utf8Rest_congr fun a ha => h a (by omega)

-- The bytes behind the end are not read.
theorem codepoints_congr (h : ∀ a < last, text' a = text a) :
    codepoints text' last fuel position = codepoints text last fuel position := by
  induction fuel generalizing position with
  | zero => rfl
  | succ fuel ih =>
    rw [codepoints, codepoints]
    split
    case isTrue hp =>
      rw [utf8Next_congr hp h]
      exact congrArg (List.cons _) ih
    case isFalse   => rfl

theorem utf8Rest_shift : utf8Rest text required (offset + position) codepoint =
    (utf8Rest (fun a => text (offset + a)) required position codepoint).map id (offset + ·) := by
  induction required generalizing position codepoint with
  | zero => rfl
  | succ required ih =>
    rw [utf8Rest, utf8Rest]
    split
    case isTrue  => rfl
    case isFalse => rw [Nat.add_assoc, ih]

theorem utf8Next_shift : utf8Next text (offset + last) (offset + position) =
    (utf8Next (fun a => text (offset + a)) last position).map id (offset + ·) := by
  rw [utf8Next, utf8Next]
  split
  case isTrue  => rfl
  case isFalse =>
    split
    case h_1 => rfl
    case h_2 =>
      have hr : offset + last - (offset + position + 1) = last - (position + 1) := by omega
      rw [hr]
      split
      case isTrue  => rfl
      case isFalse =>
        rw [Nat.add_assoc]
        exact utf8Rest_shift

theorem codepoints_shift : codepoints text (offset + last) fuel (offset + position) =
    codepoints (fun a => text (offset + a)) last fuel position := by
  induction fuel generalizing position with
  | zero => rfl
  | succ fuel ih =>
    rw [codepoints, codepoints, utf8Next_shift]
    dsimp only [Prod.map]
    rw [ih]
    simp only [Nat.add_lt_add_iff_left, id]

end Text

variable {board : Board} {clip : Rect} {plane : PlaneKind} {op : Op} {session : Nat}
variable {draft whole : Draft} {s s' s'' s₁ : State} {w : World}

-- What the command of a call paints at a pixel.
def State.brush (s : State) (board : Board) (draft : Draft) (x y : Nat) : Option UInt16 :=
  (draft.command.place s.stage.textBytes draft.text).paint board (s.textMemory draft.text)
    (s.stage.textBytes + draft.text.length) (draft.borrow.getD s.stage.borrow) x y

theorem rendered_apply {span : Span} {pixels : Row} {x : Nat} (ha : Appends s draft .ok s')
    (hb : draft.command.rect.empty = false → (screenRect board).Covers draft.command.rect)
    (hx : x < board.width) : s.rendered board s' span pixels x =
      if span.Has x then (s.brush board draft x span.y).getD (pixels x) else pixels x := by
  cases ha with
  | nothing hn =>
    have hp : s.brush board draft x span.y = none := by
      refine if_neg fun h => ?_
      rw [Command.place_rect] at h
      exact Bool.false_ne_true (h.nonempty.symm.trans hn)
    rw [State.rendered, List.drop_length, hp, Option.getD_none, ite_self]
    rfl
  | stored hn _ hd =>
    have hc := hb hn
    rw [State.rendered, State.append_frame, List.drop_left, renderCommandsSpan, List.foldl_cons,
      List.foldl_nil]
    refine renderCommandSpan_apply hx ?_ ?_ ?_ <;> rw [Command.place_rect]
    · exact hn
    · exact hc.2.1
    · exact hc.2.2.1

theorem eq_of_getD {α : Type} [Nontrivial α] {o o' : Option α} (h : ∀ a, o.getD a = o'.getD a) :
    o = o' := by
  cases o <;> cases o'
  case none.none => rfl
  case none.some b =>
    obtain ⟨a, ha⟩ := exists_ne b
    exact absurd (h a) ha
  case some.none b =>
    obtain ⟨a, ha⟩ := exists_ne b
    exact absurd (h a).symm ha
  case some.some a b => exact congrArg some (h a)

-- The same batch without its clip.
def State.unclipped (s : State) (board : Board) : State :=
  { s with stage.clip := screenRect board }

-- The clip hides pixels and does nothing else exactly if it does so pixel by pixel.
theorem hides_iff (ha : Appends s draft .ok s') (hw : Appends (s.unclipped board) whole .ok s'')
    (hb : draft.command.rect.empty = false → (screenRect board).Covers draft.command.rect)
    (hc : whole.command.rect.empty = false → (screenRect board).Covers whole.command.rect) :
    Hides board s s' s'' ↔ ∀ x y, x < board.width → s.brush board draft x y =
      if s.stage.clip.Has x y then s.brush board whole x y else none := by
  have hr {span : Span} {pixels : Row} {x : Nat} (hx : x < board.width) :
      s.rendered board s'' span pixels x =
        if span.Has x then (s.brush board whole x span.y).getD (pixels x) else pixels x :=
    rendered_apply (s := s.unclipped board) hw hc hx
  have : Nontrivial UInt16 := ⟨0, 1, by decide⟩
  constructor
  · intro h x y hx
    refine eq_of_getD fun color => ?_
    have hs : (⟨0, board.width, y⟩ : Span).Has x :=
      ⟨x.zero_le, (Nat.zero_add board.width).symm ▸ hx⟩
    have hp := h ⟨0, board.width, y⟩ (fun _ => color) x hx
    rw [rendered_apply ha hb hx, hr hx, if_pos hs, if_pos hs] at hp
    rw [hp]
    split <;> rfl
  · intro h span pixels x hx
    rw [rendered_apply ha hb hx, hr hx, h x span.y hx]
    split <;> split <;> rfl

section Shapes

variable {x y : Nat} {rect shown left : Rect}

-- What is left of a rectangle under a clip is what the clip leaves of it on the screen.
theorem has_left (hc : clip.empty = false → (screenRect board).Covers clip) :
    (rect.intersection clip).Has x y ↔
      (rect.intersection (screenRect board)).Has x y ∧ clip.Has x y := by
  rw [Rect.has_intersection, Rect.has_intersection, and_assoc]
  refine and_congr_right fun _ => (and_iff_right_of_imp fun h => ?_).symm
  exact (hc h.nonempty).has h

-- So all that matters is what is painted at the pixels that are left.
theorem cut_iff (hc : clip.empty = false → (screenRect board).Covers clip)
    {paint paint' : Nat → Nat → Option UInt16} :
    (∀ x y, x < board.width → (if (rect.intersection clip).Has x y then paint x y else none) =
      if clip.Has x y then
        if (rect.intersection (screenRect board)).Has x y then paint' x y else none
      else none) ↔
      ∀ x y, (rect.intersection clip).Has x y → paint x y = paint' x y := by
  constructor
  · intro h x y hl
    obtain ⟨hs, hh⟩ := (has_left hc).mp hl
    have hx : x < board.width := by
      have hs := (Rect.has_intersection.mp hs).right
      unfold Rect.Has screenRect at hs
      dsimp only at hs
      omega
    have hp := h x y hx
    rwa [if_pos hl, if_pos hh, if_pos hs] at hp
  · intro h x y _
    by_cases hl : (rect.intersection clip).Has x y
    · obtain ⟨hs, hh⟩ := (has_left hc).mp hl
      rw [if_pos hl, if_pos hh, if_pos hs, h x y hl]
    · rw [if_neg hl]
      split
      case isFalse    => rfl
      case isTrue hh  => rw [if_neg fun hs => hl ((has_left hc).mpr ⟨hs, hh⟩)]

-- Every side that is left of a rectangle is a side of what is left.
theorem Rect.Edge.of_left (hs : ∀ x y, left.Has x y → shown.Has x y) (hl : left.Has x y)
    (he : shown.Edge x y) (hn : 0 ≤ left.x ∧ 0 ≤ left.y) : left.Edge x y := by
  unfold Rect.Edge Rect.Has at *
  have h₁ := hs left.x.toNat y
  have h₂ := hs (left.x.toNat + left.width - 1) y
  have h₃ := hs x left.y.toNat
  have h₄ := hs x (left.y.toNat + left.height - 1)
  omega

-- A part of a rectangle has the same sides if it is all of it or nothing but sides.
theorem edge_iff (hs : ∀ x y, left.Has x y → shown.Has x y) (hn : 0 ≤ left.x ∧ 0 ≤ left.y)
    (hm : 0 ≤ shown.x ∧ 0 ≤ shown.y) :
    (∀ x y, left.Has x y → (left.Edge x y ↔ shown.Edge x y)) ↔
      left = shown ∨ ∀ x y, left.Has x y → shown.Edge x y := by
  constructor
  · intro h
    by_cases ha : ∀ x y, left.Has x y → shown.Edge x y
    · exact .inr ha
    push Not at ha
    obtain ⟨x, y, hl, hi⟩ := ha
    -- A pixel of the inside is in line with each of the four sides.
    have hx := hs x y hl
    have meets {x' y' : Nat} (hp : left.Has x' y') (he : left.Edge x' y') : shown.Edge x' y' :=
      (h x' y' hp).mp he
    clear h hs
    unfold Rect.Edge Rect.Has at *
    have h₁ : left.x = shown.x := by
      have he := @meets left.x.toNat y (by omega) (by omega)
      omega
    have h₂ : left.x + left.width = shown.x + shown.width := by
      have he := @meets (left.x.toNat + left.width - 1) y (by omega) (by omega)
      omega
    have h₃ : left.y = shown.y := by
      have he := @meets x left.y.toNat (by omega) (by omega)
      omega
    have h₄ : left.y + left.height = shown.y + shown.height := by
      have he := @meets x (left.y.toNat + left.height - 1) (by omega) (by omega)
      omega
    clear meets
    refine .inl (Rect.ext h₁ h₃ ?_ ?_)
    · omega
    · omega
  · rintro (rfl | h) x y hl
    · rfl
    · exact iff_of_true (.of_left hs hl (h x y hl) hn) (h x y hl)

theorem Rect.le_intersection (h : (rect.intersection clip).Has x y) :
    rect.x ≤ (rect.intersection clip).x ∧ rect.y ≤ (rect.intersection clip).y ∧
      clip.x ≤ (rect.intersection clip).x ∧ clip.y ≤ (rect.intersection clip).y := by
  have hn := h.nonempty
  rw [Rect.intersection_eq] at *
  split at hn
  case isTrue     => cases hn
  case isFalse he =>
    rw [if_neg he]
    dsimp only
    omega

-- What is left lies on the screen.
theorem left_nonneg (hc : clip.empty = false → (screenRect board).Covers clip)
    (h : (rect.intersection clip).Has x y) :
    0 ≤ (rect.intersection clip).x ∧ 0 ≤ (rect.intersection clip).y := by
  have hl := Rect.le_intersection h
  have hb := hc (Rect.has_intersection.mp h).right.nonempty
  unfold Rect.Covers screenRect at hb
  dsimp only at hb
  omega

-- The sides as they are painted.
theorem edge_iff_row (h : rect.Has x y) (hn : 0 ≤ rect.x ∧ 0 ≤ rect.y) :
    (y - rect.y.toNat = 0 ∨ y - rect.y.toNat + 1 = rect.height ∨ x - rect.x.toNat = 0 ∨
      x - rect.x.toNat + 1 = rect.width) ↔ rect.Edge x y := by
  unfold Rect.Edge Rect.Has at *
  omega

theorem ite_some_iff {p q : Prop} [Decidable p] [Decidable q] {color : UInt16} :
    (if p then some color else none) = (if q then some color else none) ↔ (p ↔ q) := by
  by_cases hp : p <;> by_cases hq : q <;> simp [hp, hq]

end Shapes

theorem Command.place_nil {command : Command} {textOffset : Nat} :
    command.place textOffset [] = command :=
  if_pos rfl

theorem codes_place {text : List UInt8} {type : CommandType} {color : UInt16} {rect : Rect} :
    ((⟨type, color, 0, 0, rect⟩ : Command).place s.stage.textBytes text).codes (s.textMemory text)
      (s.stage.textBytes + text.length) =
      codepoints (fun a => text.getD a 0) text.length text.length 0 := by
  by_cases ht : text = []
  · subst ht
    rfl
  · rw [Command.place, if_neg ht, Command.codes, if_neg (Nat.lt_irrefl _)]
    refine Eq.trans (@codepoints_shift _ _ 0 _ _) (codepoints_congr fun a ha => ?_)
    refine (if_pos ⟨Nat.le_add_right .., Nat.add_lt_add_left ha _⟩).trans ?_
    rw [Nat.add_sub_cancel_left]

theorem brush_nil {command : Command} {borrow : Option Borrow} {x y : Nat} :
    s.brush board ⟨command, [], borrow⟩ x y = command.paint board (s.textMemory [])
      s.stage.textBytes (borrow.getD s.stage.borrow) x y := by
  rw [State.brush, Command.place_nil]
  rfl

theorem brush_text {text : List UInt8} {color : UInt16} {rect : Rect} {x y : Nat} :
    s.brush board ⟨⟨.text, color, 0, 0, rect⟩, text, none⟩ x y =
      if rect.Has x y then
        if y - rect.y.toNat < fontH ∧ inked board
            (codepoints (fun a => text.getD a 0) text.length text.length 0) (x - rect.x.toNat)
            (y - rect.y.toNat) then
          some color
        else
          none
      else
        none := by
  rw [← @codes_place s text .text color rect]
  rw [State.brush, Command.paint, Command.place_rect]
  generalize hp : (⟨.text, color, 0, 0, rect⟩ : Command).place s.stage.textBytes text = placed
  have ht : placed.type = .text ∧ placed.color = color := by
    rw [← hp, Command.place]
    split <;> exact ⟨rfl, rfl⟩
  rw [ht.left, ht.right]

theorem codes_congr {command : Command} {text text' : Memory} {textBytes : Nat}
    (h : ∀ a < textBytes, text' a = text a) :
    command.codes text' textBytes = command.codes text textBytes := by
  rw [Command.codes, Command.codes]
  split
  case isTrue     => rfl
  case isFalse hl => exact codepoints_congr fun a ha => h a (by omega)

-- What is painted only depends on the text and on the pixels that are borrowed.
theorem paint_congr {command : Command} {text text' : Memory} {textBytes x y : Nat}
    {borrow borrow' : Borrow} (ht : ∀ a < textBytes, text' a = text a)
    (hb : command.type = .blit → command.rect.Has x y →
      (if borrow'.active then some (borrow'.pixel (borrow'.sourceX + (x - command.rect.x.toNat))
        (borrow'.sourceY + (y - command.rect.y.toNat))) else none) =
      if borrow.active then some (borrow.pixel (borrow.sourceX + (x - command.rect.x.toNat))
        (borrow.sourceY + (y - command.rect.y.toNat))) else none) :
    command.paint board text' textBytes borrow' x y =
      command.paint board text textBytes borrow x y := by
  rw [Command.paint, Command.paint, codes_congr ht]
  refine ite_congr rfl (fun h => ?_) fun _ => rfl
  cases hc : command.type
  case blit => exact hb hc h
  all_goals rfl

section Cuts

variable (hc : clip.empty = false → (screenRect board).Covers clip)
include hc

theorem blit_uncut {rect : Rect} {pixels : View} {x y : Nat}
    (hl : (rect.intersection clip).Has x y) :
    (blitBorrow clip rect pixels).pixel
        ((blitBorrow clip rect pixels).sourceX + (x - (rect.intersection clip).x.toNat))
        ((blitBorrow clip rect pixels).sourceY + (y - (rect.intersection clip).y.toNat)) =
      (blitBorrow clip rect pixels).pixel (x - rect.x).toNat (y - rect.y).toNat := by
  have hn := left_nonneg hc hl
  have hi := Rect.le_intersection hl
  unfold Rect.Has at hl
  rw [blitBorrow]
  congr 1
  · dsimp only
    omega
  · dsimp only
    omega

theorem edge_iff_left {rect : Rect} :
    (∀ x y, (rect.intersection clip).Has x y → ((rect.intersection clip).Edge x y ↔
      (rect.intersection (screenRect board)).Edge x y)) ↔
      rect.intersection clip = rect.intersection (screenRect board) ∨
        ∀ x y, (rect.intersection clip).Has x y →
          (rect.intersection (screenRect board)).Edge x y := by
  by_cases he : ∃ x y, (rect.intersection clip).Has x y
  · obtain ⟨x, y, hl⟩ := he
    have hs := (has_left hc).mp hl
    exact edge_iff (fun _ _ hl => ((has_left hc).mp hl).left) (left_nonneg hc hl)
      (left_nonneg (fun h => .refl h) hs.left)
  · have hn : ∀ x y, ¬(rect.intersection clip).Has x y := fun x y hl => he ⟨x, y, hl⟩
    exact iff_of_true (fun x y hl => absurd hl (hn x y)) (.inr fun x y hl => absurd hl (hn x y))

theorem uncut_iff (hd : op.Drafts clip plane session draft)
    (hw : op.Drafts (screenRect board) plane session whole) :
    (∀ x y, x < board.width → s.brush board draft x y =
      if clip.Has x y then s.brush board whole x y else none) ↔ op.Uncut board clip := by
  cases hd with
  | clear =>
    cases hw
    refine iff_of_true (fun x y _ => ?_) trivial
    rw [brush_nil, brush_nil, Command.paint, Command.paint]
    by_cases h : clip.Has x y
    · rw [if_pos h, if_pos h, if_pos ((hc h.nonempty).has h)]
    · rw [if_neg h, if_neg h]
  | fill =>
    cases hw
    simp only [brush_nil, Command.paint]
    refine (cut_iff hc).trans (iff_of_true (fun _ _ _ => rfl) trivial)
  | stroke =>
    cases hw
    simp only [brush_nil, Command.paint]
    refine (cut_iff hc).trans (Iff.trans ?_ (edge_iff_left hc))
    refine forall₂_congr fun x y => imp_congr_right fun hl => ?_
    have hs := (has_left hc).mp hl
    rw [ite_some_iff, edge_iff_row hl (left_nonneg hc hl),
      edge_iff_row hs.left (left_nonneg (fun h => .refl h) hs.left)]
  | text =>
    cases hw
    simp only [brush_text]
    refine (cut_iff hc).trans ?_
    simp only [ite_some_iff]
    refine (or_iff_right_of_imp ?_).symm
    rintro ⟨hx, hy⟩ x y -
    rw [hx, hy]
  | @blit _ rect pixels =>
    cases hw
    simp only [brush_nil, Command.paint]
    refine (cut_iff hc).trans (iff_of_true (fun x y hl => ?_) trivial)
    have hs := ((has_left hc).mp hl).left
    have hp := @blit_uncut _ _ hc rect pixels _ _ hl
    have hp' := @blit_uncut board _ (fun h => .refl h) rect pixels _ _ hs
    exact congrArg some (hp.trans hp'.symm)

theorem pixel_congr {rect : Rect} {pixels : View} {data : Memory} {x y : Nat}
    (hr : blitRequired rect pixels ≤ pixels.sizeBytes)
    (hl : (rect.intersection clip).Has x y)
    (hd : ∀ a < pixels.sizeBytes, data a = pixels.data a) :
    ({ blitBorrow clip rect pixels with data } : Borrow).pixel
        ((blitBorrow clip rect pixels).sourceX + (x - (rect.intersection clip).x.toNat))
        ((blitBorrow clip rect pixels).sourceY + (y - (rect.intersection clip).y.toNat)) =
      (blitBorrow clip rect pixels).pixel
        ((blitBorrow clip rect pixels).sourceX + (x - (rect.intersection clip).x.toNat))
        ((blitBorrow clip rect pixels).sourceY + (y - (rect.intersection clip).y.toNat)) := by
  have hn := left_nonneg hc hl
  have hi := Rect.le_intersection hl
  have hh := (Rect.has_intersection.mp hl).left
  have hw := hh.nonempty
  unfold Rect.Has at hl hh
  have hx : (blitBorrow clip rect pixels).sourceX + (x - (rect.intersection clip).x.toNat) <
      rect.width := by
    rw [blitBorrow]
    dsimp only
    omega
  have hy : (blitBorrow clip rect pixels).sourceY + (y - (rect.intersection clip).y.toNat) ≤
      rect.height - 1 := by
    rw [blitBorrow]
    dsimp only
    omega
  generalize (blitBorrow clip rect pixels).sourceX + _ = column at hx ⊢
  generalize (blitBorrow clip rect pixels).sourceY + _ = row at hy ⊢
  have hm := Nat.mul_le_mul_right pixels.strideBytes hy
  rw [blitRequired, if_neg (Rect.empty_eq_false.mp hw).right.ne'] at hr
  rw [Borrow.pixel, Borrow.pixel]
  dsimp only [blitBorrow]
  rw [hd _ (by omega), hd _ (by omega)]

-- Neither the text that is drawn nor the view are read beyond their ends.
theorem contained (hd : op.Drafts clip plane session draft) (ha : Appends s draft .ok s') :
    Contained board s s' := by
  intro text data ht hb span pixels x hx
  cases ha with
  | nothing =>
    rw [State.rendered, List.drop_length]
    rfl
  | @stored dirty hn _ ha =>
    have hs := (hc (hd.covers hn).outer_nonempty).trans (hd.covers hn)
    rw [State.rendered, State.append_frame, List.drop_left, renderCommandsSpan, renderCommandsSpan,
      List.foldl_cons, List.foldl_cons, List.foldl_nil, List.foldl_nil]
    have hn' : (draft.command.place s.stage.textBytes draft.text).rect.empty = false := by
      rw [Command.place_rect, hn]
    have hp : 0 ≤ (draft.command.place s.stage.textBytes draft.text).rect.x := by
      rw [Command.place_rect]
      exact hs.2.1
    have hq : 0 ≤ (draft.command.place s.stage.textBytes draft.text).rect.y := by
      rw [Command.place_rect]
      exact hs.2.2.1
    rw [renderCommandSpan_apply hx hn' hp hq, renderCommandSpan_apply hx hn' hp hq]
    refine ite_congr rfl (fun _ => congrArg (·.getD (pixels x)) (paint_congr ht ?_)) fun _ => rfl
    intro hk hl
    rw [Command.place_rect] at hl ⊢
    cases hd with
    | blit _ _ hr => exact congrArg some (pixel_congr hc hr hl hb)
    | clear | fill | stroke =>
      rw [Command.place_nil] at hk
      cases hk
    | text =>
      rw [Command.place] at hk
      split at hk <;> cases hk

end Cuts

variable {drawn es : List (Op × Option (Option Result))} {pixels : Nat → Nat → UInt16}
variable {ds ds' : List Decision} {w' w₁ w₁' : World}

theorem Op.Paints.draws (h : op.Paints) : op.Draws := by
  cases op <;> trivial

-- An accepted call hands a draft to the batch.
theorem Drawn.drafted (h : Drawn board s op .ok s') (ho : op.Paints) :
    ∃ plane session draft, op.Drafts s.stage.clip plane session draft ∧
      s.staged session = true ∧ s.findPlane session = some plane ∧ Appends s draft .ok s' := by
  cases h with
  | draft hd hs hf ha => exact ⟨_, _, _, hd, hs, hf, ha⟩
  | invalid hn _      => exact absurd rfl hn
  | clip | mark | surface => exact ho.elim

-- For every batch and for every accepted call: the clip only hides pixels of what is drawn, and
-- nothing is read beyond the text and the view, exactly if the clip does not cut through the sides
-- of a stroked rectangle or move the beginning of a text.
theorem clip_hides_iff (r : Run handler (Op.perform board) none (fun _ _ _ _ => True) .zero
      (.boot pixels) (drawn ++ (.begin session, some (some .ok)) :: es) s w)
    (hd : ∀ e ∈ drawn, e.fst.Draws) (ho : op.Paints)
    (hr : (op.perform board).run handler s ds w = .done (some .ok, s') w')
    (hw : (op.perform board).run handler (s.unclipped board) ds' w₁ = .done (some .ok, s'') w₁') :
    (Hides board s s' s'' ∧ Contained board s s') ↔ op.Uncut board s.stage.clip := by
  have h := Covered.of_run r hd
  obtain ⟨result, he, hs⟩ := Drawn.of_run h.rooted ho.draws hr
  obtain rfl := Option.some_inj.mp he
  have hu : (s.unclipped board).Rooted := ⟨h.rooted.1, h.rooted.2, h.rooted.3⟩
  obtain ⟨result, he, hs'⟩ := Drawn.of_run hu ho.draws hw
  obtain rfl := Option.some_inj.mp he
  obtain ⟨plane, session', draft, hd, -, hf, ha⟩ := hs.drafted ho
  obtain ⟨plane', session'', whole, hd', -, hf', ha'⟩ := hs'.drafted ho
  obtain rfl : session'' = session' :=
    Option.some_inj.mp (hd'.caller.symm.trans hd.caller)
  obtain rfl : plane' = plane := Option.some_inj.mp (hf'.symm.trans hf)
  have hb (hn : draft.command.rect.empty = false) :
      (screenRect board).Covers draft.command.rect :=
    (h.clip (hd.covers hn).outer_nonempty).trans (hd.covers hn)
  rw [hides_iff ha ha' hb hd'.covers, uncut_iff h.clip hd hd']
  exact and_iff_left (contained h.clip hd ha)

-- A batch with a clip in the middle of a square that is about to be stroked.
def clippedSteps : List (Op × List Decision) :=
  [(.open 1 (some .overlay), []), (.begin 1, [obliging]), (.clip 1 (some ⟨1, 1, 2, 2⟩), [])]

def clippedReplies : List (Op × Option (Option Result)) :=
  [(.clip 1 (some ⟨1, 1, 2, 2⟩), some (some .ok)), (.begin 1, some (some .ok)),
    (.open 1 (some .overlay), some (some .ok))]

theorem clip_hides_iff_fill : ∃ (s s' s'' : State) (w w' w₁ w₁' : World),
    ((Op.fill 1 ⟨0, 0, 4, 4⟩ 0xFFFF).perform board320).run handler s [] w =
      .done (some .ok, s') w' ∧
    ((Op.fill 1 ⟨0, 0, 4, 4⟩ 0xFFFF).perform board320).run handler (s.unclipped board320) [] w₁ =
      .done (some .ok, s'') w₁' ∧
    ((Hides board320 s s' s'' ∧ Contained board320 s s') ↔
      (Op.fill 1 ⟨0, 0, 4, 4⟩ 0xFFFF).Uncut board320 s.stage.clip) := by
  have hx : ∃ es s w, Run handler (Op.perform board320) none (fun _ _ _ _ => True) .zero
      (.boot fun _ _ => 0) es s w ∧ es = clippedReplies ∧ ∃ s' w' s'' w₁',
      ((Op.fill 1 ⟨0, 0, 4, 4⟩ 0xFFFF).perform board320).run handler s [] w =
        .done (some .ok, s') w' ∧
      ((Op.fill 1 ⟨0, 0, 4, 4⟩ 0xFFFF).perform board320).run handler (s.unclipped board320) [] w =
        .done (some .ok, s'') w₁' :=
    exists_run (P := fun es s w => es = clippedReplies ∧ ∃ s' w' s'' w₁',
      ((Op.fill 1 ⟨0, 0, 4, 4⟩ 0xFFFF).perform board320).run handler s [] w =
        .done (some .ok, s') w' ∧
      ((Op.fill 1 ⟨0, 0, 4, 4⟩ 0xFFFF).perform board320).run handler (s.unclipped board320) [] w =
        .done (some .ok, s'') w₁') clippedSteps ⟨_, rfl, rfl, _, _, _, _, rfl, rfl⟩
  obtain ⟨es, s, w, r, rfl, s', w', s'', w₁', hr, hw⟩ := hx
  have r : Run handler (Op.perform board320) none (fun _ _ _ _ => True) .zero (.boot fun _ _ => 0)
      ([(.clip 1 (some ⟨1, 1, 2, 2⟩), some (some .ok))] ++ (.begin 1, some (some .ok)) ::
        [(.open 1 (some .overlay), some (some .ok))]) s w := r
  refine ⟨s, s', s'', w, w', w, w₁', hr, hw, clip_hides_iff r (fun e he => ?_) trivial hr hw⟩
  rw [List.mem_singleton.mp he]
  trivial

-- The sides of the square are drawn along the clip.
theorem stroke_not_hidden : ∃ es s w, Run handler (Op.perform board320) none (fun _ _ _ _ => True)
      .zero (.boot fun _ _ => 0) es s w ∧ es = clippedReplies ∧ ∃ s' w' s'' w₁',
    ((Op.stroke 1 ⟨0, 0, 4, 4⟩ 0xFFFF).perform board320).run handler s [] w =
      .done (some .ok, s') w' ∧
    ((Op.stroke 1 ⟨0, 0, 4, 4⟩ 0xFFFF).perform board320).run handler (s.unclipped board320) [] w =
      .done (some .ok, s'') w₁' ∧ ¬Hides board320 s s' s'' := by
  have hx : ∃ es s w, Run handler (Op.perform board320) none (fun _ _ _ _ => True) .zero
      (.boot fun _ _ => 0) es s w ∧ es = clippedReplies ∧ ∃ s' w' s'' w₁',
      ((Op.stroke 1 ⟨0, 0, 4, 4⟩ 0xFFFF).perform board320).run handler s [] w =
        .done (some .ok, s') w' ∧
      ((Op.stroke 1 ⟨0, 0, 4, 4⟩ 0xFFFF).perform board320).run handler (s.unclipped board320) [] w =
        .done (some .ok, s'') w₁' ∧ ¬(s.rendered board320 s' ⟨0, 320, 1⟩ (fun _ => 0) 1 =
          if s.stage.clip.Has 1 1 then s.rendered board320 s'' ⟨0, 320, 1⟩ (fun _ => 0) 1 else 0) :=
    exists_run (P := fun es s w => es = clippedReplies ∧ ∃ s' w' s'' w₁',
      ((Op.stroke 1 ⟨0, 0, 4, 4⟩ 0xFFFF).perform board320).run handler s [] w =
        .done (some .ok, s') w' ∧
      ((Op.stroke 1 ⟨0, 0, 4, 4⟩ 0xFFFF).perform board320).run handler (s.unclipped board320) [] w =
        .done (some .ok, s'') w₁' ∧ ¬(s.rendered board320 s' ⟨0, 320, 1⟩ (fun _ => 0) 1 =
          if s.stage.clip.Has 1 1 then s.rendered board320 s'' ⟨0, 320, 1⟩ (fun _ => 0) 1 else 0))
      clippedSteps ⟨_, rfl, rfl, _, _, _, _, rfl, rfl, by decide⟩
  obtain ⟨es, s, w, r, he, s', w', s'', w₁', hr, hw, hn⟩ := hx
  exact ⟨es, s, w, r, he, s', w', s'', w₁', hr, hw,
    fun h => hn (h ⟨0, 320, 1⟩ (fun _ => 0) 1 (by decide))⟩

end Display
