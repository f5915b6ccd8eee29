import HackyLens.Display.Frame

-- What a command paints, pixel by pixel.

namespace Display

-- A pixel of the screen is in a rectangle.
def Rect.Has (rect : Rect) (x y : Nat) : Prop :=
  rect.x ≤ x ∧ x < rect.x + rect.width ∧ rect.y ≤ y ∧ y < rect.y + rect.height

instance {rect : Rect} {x y : Nat} : Decidable (rect.Has x y) :=
  inferInstanceAs (Decidable (_ ∧ _))

def Span.Has (span : Span) (x : Nat) : Prop :=
  span.x ≤ x ∧ x < span.x + span.width

instance {span : Span} {x : Nat} : Decidable (span.Has x) :=
  inferInstanceAs (Decidable (_ ∧ _))

-- The codepoints that are drawn for a text.
def codepoints (text : Memory) (last : Nat) : Nat → Nat → List UInt32
  | 0,        _        => []
  | fuel + 1, position =>
    if position < last then
      let next := utf8Next text last position
      next.1 :: codepoints text last fuel next.2
    else
      []

-- A bit of a line of glyphs.
def inked (board : Board) (codes : List UInt32) (column row : Nat) : Bool :=
  match codes[column / fontW]? with
  | some code => board.glyph code row (column % fontW)
  | none      => false

-- The text of a command.
def Command.codes (command : Command) (text : Memory) (textBytes : Nat) : List UInt32 :=
  let last := command.textOffset + command.textLength
  if last > textBytes then [] else codepoints text last command.textLength command.textOffset

-- The pixel of a view, by its column and row.
def Borrow.pixel (borrow : Borrow) (x y : Nat) : UInt16 :=
  let source := y * borrow.strideBytes + x * 2
  ((borrow.data source).toUInt16 <<< 8) ||| (borrow.data (source + 1)).toUInt16

-- What a command paints at a pixel, from the place of its rectangle.
def Command.paint (board : Board) (text : Memory) (textBytes : Nat) (borrow : Borrow)
    (command : Command) (x y : Nat) : Option UInt16 :=
  let column := x - command.rect.x.toNat
  let row := y - command.rect.y.toNat
  if command.rect.Has x y then
    match command.type with
    | .none          => none
    | .clear | .fill => some command.color
    | .stroke        =>
      if row = 0 ∨ row + 1 = command.rect.height ∨ column = 0 ∨ column + 1 = command.rect.width then
        some command.color
      else
        none
    | .text          =>
      if row < fontH ∧ inked board (command.codes text textBytes) column row then
        some command.color
      else
        none
    | .blit          =>
      if borrow.active then some (borrow.pixel (borrow.sourceX + column) (borrow.sourceY + row))
      else none
  else
    none

variable {board : Board} {span : Span} {command : Command} {text : Memory} {borrow : Borrow}
variable {pixels : Row} {x y x₀ x₁ glyphX textBytes last : Nat} {color : UInt16}
variable {outer inner : Rect}

theorem Rect.Covers.has (h : outer.Covers inner) (hi : inner.Has x y) : outer.Has x y := by
  unfold Rect.Has at *
  unfold Rect.Covers at h
  omega

theorem Rect.Has.nonempty (h : outer.Has x y) : outer.empty = false := by
  rw [Rect.empty_eq_false]
  unfold Rect.Has at h
  omega

theorem Rect.has_intersection :
    (outer.intersection inner).Has x y ↔ outer.Has x y ∧ inner.Has x y := by
  rw [Rect.intersection_eq]
  split
  case isTrue h  =>
    unfold Rect.Has Rect.zero
    dsimp only
    omega
  case isFalse h =>
    unfold Rect.Has
    dsimp only
    omega

theorem fillSpan_apply : fillSpan pixels span x₀ x₁ color x =
    if span.Has x ∧ x₀ ≤ x ∧ x < x₁ then color else pixels x := by
  rw [fillSpan]
  refine if_congr ?_ rfl rfl
  unfold Span.Has
  omega

-- The columns of the rectangle, for a pixel of a span.
def Command.Columns (command : Command) (span : Span) (x : Nat) : Prop :=
  span.Has x ∧ command.rect.x.toNat ≤ x ∧ x < command.rect.x.toNat + command.rect.width

instance : Decidable (command.Columns span x) :=
  inferInstanceAs (Decidable (_ ∧ _))

theorem renderGlyph_apply {code : UInt32} :
    renderGlyph board span command code glyphX pixels x =
      if command.Columns span x ∧ glyphX ≤ x ∧ x < glyphX + fontW ∧
          board.glyph code (span.y - command.rect.y.toNat) (x - glyphX) then
        command.color
      else
        pixels x := by
  rw [renderGlyph]
  generalize fontW = n
  induction n with
  | zero =>
    rw [if_neg (by omega)]
    rfl
  | succ n ih =>
    rw [List.range_succ, List.foldl_append, List.foldl_cons, List.foldl_nil]
    generalize List.foldl _ pixels (List.range n) = row at ih ⊢
    have hx : x < glyphX + (n + 1) ↔ x < glyphX + n ∨ x = glyphX + n := by omega
    split
    case isTrue hc =>
      rw [ih]
      refine if_congr ?_ rfl rfl
      rw [hx]
      unfold Command.Columns Span.Has
      constructor
      · rintro ⟨hs, hl, hu, hg⟩
        exact ⟨hs, hl, .inl hu, hg⟩
      · rintro ⟨hs, hl, hu | rfl, hg⟩
        · exact ⟨hs, hl, hu, hg⟩
        · omega
    case isFalse hc =>
      have hi : command.Columns span (glyphX + n) := by
        unfold Command.Columns Span.Has
        omega
      by_cases he : x = glyphX + n
      · subst he
        rw [Nat.add_sub_cancel_left]
        split
        case isTrue hg  =>
          rw [fillSpan_apply, if_pos ⟨hi.left, le_rfl, Nat.lt_succ_self _⟩,
            if_pos ⟨hi, Nat.le_add_right .., by omega, hg⟩]
        case isFalse hg =>
          rw [ih, if_neg (by omega), if_neg fun h => hg h.right.right.right]
      · have hk : (if board.glyph code (span.y - command.rect.y.toNat) n = true then
            fillSpan row span (glyphX + n) (glyphX + n + 1) command.color else row) x = row x := by
          split
          case isTrue  => rw [fillSpan_apply, if_neg (by omega)]
          case isFalse => rfl
        rw [hk, ih]
        refine if_congr ?_ rfl rfl
        rw [hx, or_iff_left he]

theorem inked_cons_of_lt {code : UInt32} {codes : List UInt32} {column row : Nat}
    (hc : column < fontW) :
    inked board (code :: codes) column row = board.glyph code row column := by
  rw [inked, Nat.div_eq_of_lt hc, Nat.mod_eq_of_lt hc]
  rfl

theorem inked_cons_of_le {code : UInt32} {codes : List UInt32} {column row : Nat}
    (hc : fontW ≤ column) :
    inked board (code :: codes) column row = inked board codes (column - fontW) row := by
  rw [inked, inked, Nat.div_eq_sub_div (by decide) hc, List.getElem?_cons_succ,
    Nat.mod_eq_sub_mod hc]

theorem renderGlyphs_apply {fuel position : Nat} (hx : x < board.width) :
    renderGlyphs board span command text last fuel position glyphX pixels x =
      if command.Columns span x ∧ glyphX ≤ x ∧
          inked board (codepoints text last fuel position) (x - glyphX)
            (span.y - command.rect.y.toNat) then
        command.color
      else
        pixels x := by
  induction fuel generalizing position glyphX pixels with
  | zero =>
    rw [if_neg (by simp [codepoints, inked])]
    rfl
  | succ fuel ih =>
    rw [renderGlyphs, codepoints]
    split
    case isTrue hp =>
      rw [if_pos hp.left, ih, renderGlyph_apply]
      dsimp only
      generalize utf8Next text last position = next
      by_cases hg : x < glyphX + fontW
      · rw [if_neg (by omega)]
        by_cases hl : glyphX ≤ x
        · have hc : x - glyphX < fontW := by omega
          rw [inked_cons_of_lt hc]
          simp only [hl, hg, true_and]
        · rw [if_neg (fun h => hl h.right.left), if_neg (fun h => hl h.right.left)]
      · have hc : fontW ≤ x - glyphX := by omega
        have hi : ¬(command.Columns span x ∧ glyphX ≤ x ∧ x < glyphX + fontW ∧
            board.glyph next.1 (span.y - command.rect.y.toNat) (x - glyphX) = true) :=
          fun h => hg h.right.right.left
        have hl : glyphX + fontW ≤ x ↔ glyphX ≤ x := by omega
        rw [if_neg hi, inked_cons_of_le hc, Nat.sub_sub]
        simp only [hl]
    case isFalse hp =>
      split
      case isTrue hl  => rw [if_neg (by omega)]
      case isFalse hl => rw [if_neg (by simp [inked])]

theorem renderTextSpan_apply (hx : x < board.width) (hc : command.rect.x.toNat ≤ x)
    (hy : ¬(span.y < command.rect.y.toNat ∨
      span.y ≥ command.rect.y.toNat + command.rect.height)) :
    renderTextSpan board span command text textBytes pixels x =
      if command.Columns span x ∧ span.y - command.rect.y.toNat < fontH ∧
          inked board (command.codes text textBytes) (x - command.rect.x.toNat)
            (span.y - command.rect.y.toNat) then
        command.color
      else
        pixels x := by
  rw [renderTextSpan, Command.codes]
  split
  case isTrue hn =>
    refine (if_neg fun h => ?_).symm
    obtain hl | hn := hn
    · rw [if_pos hl] at h
      simp [inked] at h
    · omega
  case isFalse hn =>
    rw [if_neg fun hl => hn (.inl hl), renderGlyphs_apply hx]
    have hr : span.y - command.rect.y.toNat < fontH := by omega
    simp only [hc, hr, true_and]

theorem renderTextSpan_outside (hx : x < board.width) (hc : ¬(command.rect.x.toNat ≤ x ∧
    x < command.rect.x.toNat + command.rect.width)) :
    renderTextSpan board span command text textBytes pixels x = pixels x := by
  rw [renderTextSpan]
  split
  case isTrue  => rfl
  case isFalse => rw [renderGlyphs_apply hx, if_neg fun h => hc h.left.right]

theorem ite_and_getD {a b : Prop} [Decidable a] [Decidable b] {p : UInt16} :
    (if a ∧ b then color else p) = if a then (if b then some color else none).getD p else p := by
  by_cases ha : a <;> by_cases hb : b <;> simp [ha, hb]

-- The sides of a stroked rectangle, in a row that is in it.
theorem strokeSpan_apply {y₀ y₁ : Nat} (hc : x₀ ≤ x ∧ x < x₁) :
    (if span.y = y₀ ∨ span.y + 1 = y₁ then fillSpan pixels span x₀ x₁ color
      else fillSpan (fillSpan pixels span x₀ (x₀ + 1) color) span (x₁ - 1) x₁ color) x =
      if span.Has x ∧ (span.y = y₀ ∨ span.y + 1 = y₁ ∨ x = x₀ ∨ x + 1 = x₁) then color
      else pixels x := by
  split
  case isTrue hy =>
    rw [fillSpan_apply]
    refine if_congr (and_congr_right fun _ => iff_of_true hc ?_) rfl rfl
    omega
  case isFalse hy =>
    rw [fillSpan_apply, fillSpan_apply]
    by_cases hs : span.Has x
    · by_cases hr : x + 1 = x₁
      · rw [if_pos ⟨hs, by omega⟩, if_pos ⟨hs, .inr (.inr (.inr hr))⟩]
      · rw [if_neg (by omega)]
        refine if_congr (and_congr_right fun _ => ?_) rfl rfl
        omega
    · rw [if_neg fun h => hs h.left, if_neg fun h => hs h.left, if_neg fun h => hs h.left]

theorem strokeSpan_outside {y₀ y₁ : Nat} (hn : x₀ < x₁) (hc : ¬(x₀ ≤ x ∧ x < x₁)) :
    (if span.y = y₀ ∨ span.y + 1 = y₁ then fillSpan pixels span x₀ x₁ color
      else fillSpan (fillSpan pixels span x₀ (x₀ + 1) color) span (x₁ - 1) x₁ color) x =
      pixels x := by
  split
  case isTrue  => rw [fillSpan_apply, if_neg fun h => hc h.right]
  case isFalse => rw [fillSpan_apply, fillSpan_apply, if_neg (by omega), if_neg (by omega)]

-- What a command paints is what is rendered of it.
theorem renderCommandSpan_apply (hx : x < board.width) (hn : command.rect.empty = false)
    (hp : 0 ≤ command.rect.x) (hq : 0 ≤ command.rect.y) :
    renderCommandSpan board span text textBytes borrow pixels command x =
      if span.Has x then (command.paint board text textBytes borrow x span.y).getD (pixels x)
      else pixels x := by
  have hh : command.rect.Has x span.y ↔ (command.rect.x.toNat ≤ x ∧
      x < command.rect.x.toNat + command.rect.width) ∧ ¬(span.y < command.rect.y.toNat ∨
        span.y ≥ command.rect.y.toNat + command.rect.height) := by
    unfold Rect.Has
    omega
  have hw := (Rect.empty_eq_false.mp hn).left
  rw [renderCommandSpan, Command.paint]
  split
  case isTrue hy =>
    rw [if_neg fun h => (hh.mp h).right hy]
    exact (ite_self _).symm
  case isFalse hy =>
    by_cases hc : command.rect.x.toNat ≤ x ∧ x < command.rect.x.toNat + command.rect.width
    · rw [if_pos (hh.mpr ⟨hc, hy⟩)]
      cases command.type
      case none => exact (ite_self _).symm
      case clear | fill =>
        dsimp only
        rw [fillSpan_apply]
        simp only [hc, and_self, and_true, Option.getD_some]
      case stroke =>
        dsimp only
        rw [strokeSpan_apply hc, ite_and_getD]
        have hr : (span.y = command.rect.y.toNat ∨
            span.y + 1 = command.rect.y.toNat + command.rect.height ∨ x = command.rect.x.toNat ∨
            x + 1 = command.rect.x.toNat + command.rect.width) ↔
            (span.y - command.rect.y.toNat = 0 ∨
              span.y - command.rect.y.toNat + 1 = command.rect.height ∨
              x - command.rect.x.toNat = 0 ∨
              x - command.rect.x.toNat + 1 = command.rect.width) := by omega
        simp only [hr]
      case text =>
        dsimp only
        rw [renderTextSpan_apply hx hc.left hy]
        simp only [Command.Columns, hc, and_self, and_true, ite_and_getD]
      case blit =>
        dsimp only
        split
        case isTrue =>
          rw [renderBlitSpan, Borrow.pixel]
          have hs : max command.rect.x.toNat span.x ≤ x ∧
              x < min (command.rect.x.toNat + command.rect.width) (span.x + span.width) ↔
              span.Has x := by
            unfold Span.Has
            omega
          have hy : borrow.sourceY + span.y - command.rect.y.toNat =
              borrow.sourceY + (span.y - command.rect.y.toNat) := by omega
          have hx : borrow.sourceX + x - command.rect.x.toNat =
              borrow.sourceX + (x - command.rect.x.toNat) := by omega
          simp only [hs, hx, hy, Option.getD_some]
        case isFalse => exact (ite_self _).symm
    · rw [if_neg fun h => hc (hh.mp h).left, Option.getD_none, ite_self]
      cases command.type
      case none         => rfl
      case clear | fill => exact fillSpan_apply.trans (if_neg fun h => hc h.right)
      case stroke       => exact strokeSpan_outside (by omega) hc
      case text         => exact renderTextSpan_outside hx hc
      case blit         =>
        dsimp only
        split
        case isTrue  => exact if_neg (by omega)
        case isFalse => rfl

theorem Command.has_of_paint (h : command.paint board text textBytes borrow x y ≠ none) :
    command.rect.Has x y := by
  by_contra hn
  exact h (if_neg hn)

end Display
