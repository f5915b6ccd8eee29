import HackyLens.Lib.Memory

-- Rectangles, lists of damaged regions, drawing commands, and what the commands paint, as in
-- `display_adapter.c`.

namespace Display

-- `hk_display_rect_t`
@[ext]
structure Rect where
  x : Int
  y : Int
  width : Nat
  height : Nat
  deriving DecidableEq

namespace Rect

def zero : Rect :=
  ⟨0, 0, 0, 0⟩

-- `rect_empty`
def empty (rect : Rect) : Bool :=
  rect.width == 0 || rect.height == 0

def intMax : Int := 0x7FFFFFFF

-- `rect_validate`
def valid (rect : Rect) : Bool :=
  rect.x + rect.width ≤ intMax && rect.y + rect.height ≤ intMax

-- `rect_intersection`
def intersection (left right : Rect) : Rect :=
  let x := max left.x right.x
  let y := max left.y right.y
  let endX := min (left.x + left.width) (right.x + right.width)
  let endY := min (left.y + left.height) (right.y + right.height)
  if endX ≤ x ∨ endY ≤ y then zero else ⟨x, y, (endX - x).toNat, (endY - y).toNat⟩

-- `rect_overlaps`
def overlaps (left right : Rect) : Bool :=
  left.x < right.x + right.width && right.x < left.x + left.width &&
    left.y < right.y + right.height && right.y < left.y + left.height

-- `rect_union`
def union (left right : Rect) : Rect :=
  let x := min left.x right.x
  let y := min left.y right.y
  let endX := max (left.x + left.width) (right.x + right.width)
  let endY := max (left.y + left.height) (right.y + right.height)
  ⟨x, y, (endX - x).toNat, (endY - y).toNat⟩

end Rect

def maxCommands : Nat := 32
def maxTextBytes : Nat := 1024
def maxDirtyRects : Nat := 8

-- The first `count` rectangles, without the one at `index`: the last one takes its place.
def dirtyRemove (dirty : List Rect) (index : Nat) : List Rect :=
  (dirty.set index (dirty.getLastD .zero)).dropLast

-- The loop of `dirty_add`: each region that overlaps the candidate is removed and united with it.
-- There are at most `fuel` regions.
def dirtyAbsorb : Nat → Rect → List Rect → Rect × List Rect
  | 0,        candidate, dirty => (candidate, dirty)
  | fuel + 1, candidate, dirty =>
    match dirty.findIdx? candidate.overlaps with
    | none       => (candidate, dirty)
    | some index =>
      dirtyAbsorb fuel (candidate.union (dirty.getD index .zero)) (dirtyRemove dirty index)

-- `dirty_add`. There is no result where the code has `HK_ERR_LIMIT`, and then nothing was changed.
def dirtyAdd (dirty : List Rect) (rect : Rect) : Option (List Rect) :=
  if rect.empty then
    some dirty
  else
    let absorbed := dirtyAbsorb dirty.length rect dirty
    if absorbed.2.length ≥ maxDirtyRects then none else some (absorbed.2 ++ [absorbed.1])

-- Adds several regions, up to the first one that is too much.
def dirtyAddAll (dirty : List Rect) (rects : List Rect) : Option (List Rect) :=
  rects.foldlM dirtyAdd dirty

-- Adds those of several regions that are not too much.
def dirtyAddAny (dirty : List Rect) (rects : List Rect) : List Rect :=
  rects.foldl (fun dirty rect => (dirtyAdd dirty rect).getD dirty) dirty

-- `DISPLAY_COMMAND_*`, where memory that was only cleared has the type 0.
inductive CommandType
  | none | clear | fill | stroke | text | blit
  deriving DecidableEq

-- `display_command_t`
structure Command where
  type : CommandType
  color : UInt16
  textOffset : Nat
  textLength : Nat
  rect : Rect
  deriving DecidableEq

def Command.zero : Command :=
  ⟨.none, 0, 0, 0, .zero⟩

-- `display_borrow_t`
structure Borrow where
  data : Memory
  sizeBytes : Nat
  strideBytes : Nat
  sourceX : Nat
  sourceY : Nat
  active : Bool

def Borrow.none : Borrow :=
  ⟨fun _ => 0, 0, 0, 0, 0, false⟩

-- The panel's size (`LCD_W`, `LCD_H`), and `hk_font_glyph` with the row and the column of a bit.
structure Board where
  width : Nat
  height : Nat
  glyph : UInt32 → Nat → Nat → Bool

def fontW : Nat := 14
def fontH : Nat := 24

-- The continuation bytes of a character. A byte that is none of them ends it.
def utf8Rest (text : Memory) : Nat → Nat → UInt32 → UInt32 × Nat
  | 0,            position, codepoint => (codepoint, position)
  | required + 1, position, codepoint =>
    if text position &&& 0xC0 ≠ 0x80 then
      ('?'.val, position)
    else
      utf8Rest text required (position + 1)
        ((codepoint <<< 6) ||| (text position &&& 0x3F).toUInt32)

-- The first byte's part of the codepoint, and the number of bytes that follow it.
def utf8First (first : UInt8) : Option (UInt32 × Nat) :=
  if first &&& 0xE0 = 0xC0 then some ((first &&& 0x1F).toUInt32, 1)
  else if first &&& 0xF0 = 0xE0 then some ((first &&& 0x0F).toUInt32, 2)
  else if first &&& 0xF8 = 0xF0 then some ((first &&& 0x07).toUInt32, 3)
  else none

-- `utf8_next`, for a position before the end
def utf8Next (text : Memory) (last position : Nat) : UInt32 × Nat :=
  let first := text position
  if first < 0x80 then
    (first.toUInt32, position + 1)
  else
    match utf8First first with
    | none                       => ('?'.val, position + 1)
    | some (codepoint, required) =>
      if required > last - (position + 1) then
        ('?'.val, last)
      else
        utf8Rest text required (position + 1) codepoint

-- A row of pixels by their position on the screen. A span is a part of a row.
abbrev Row := Nat → UInt16

structure Span where
  x : Nat
  width : Nat
  y : Nat

-- `fill_span`
def fillSpan (pixels : Row) (span : Span) (x₀ x₁ : Nat) (color : UInt16) : Row :=
  fun x => if max x₀ span.x ≤ x ∧ x < min x₁ (span.x + span.width) then color else pixels x

-- One row of one glyph.
def renderGlyph (board : Board) (span : Span) (command : Command) (codepoint : UInt32)
    (glyphX : Nat) (pixels : Row) : Row :=
  (List.range fontW).foldl (fun pixels offset =>
    let x := glyphX + offset
    if x < command.rect.x.toNat ∨ x ≥ command.rect.x.toNat + command.rect.width ∨ x < span.x ∨
        x ≥ span.x + span.width then
      pixels
    else if board.glyph codepoint (span.y - command.rect.y.toNat) offset then
      fillSpan pixels span x (x + 1) command.color
    else
      pixels) pixels

-- The loop over the text. There are at most `fuel` bytes left.
def renderGlyphs (board : Board) (span : Span) (command : Command) (text : Memory) (last : Nat) :
    Nat → Nat → Nat → Row → Row
  | 0,        _,        _,      pixels => pixels
  | fuel + 1, position, glyphX, pixels =>
    if position < last ∧ glyphX < board.width then
      let next := utf8Next text last position
      renderGlyphs board span command text last fuel next.2 (glyphX + fontW)
        (renderGlyph board span command next.1 glyphX pixels)
    else
      pixels

-- `render_text_span`
def renderTextSpan (board : Board) (span : Span) (command : Command) (text : Memory)
    (textBytes : Nat) (pixels : Row) : Row :=
  let last := command.textOffset + command.textLength
  let y := command.rect.y.toNat
  if last > textBytes ∨ span.y < y ∨ span.y ≥ y + command.rect.height ∨ span.y - y ≥ fontH then
    pixels
  else
    renderGlyphs board span command text last command.textLength command.textOffset
      command.rect.x.toNat pixels

-- The part of a span that shows the borrowed pixels.
def renderBlitSpan (span : Span) (command : Command) (borrow : Borrow) (pixels : Row) : Row :=
  let x₀ := command.rect.x.toNat
  let start := max x₀ span.x
  let last := min (x₀ + command.rect.width) (span.x + span.width)
  let sourceY := borrow.sourceY + span.y - command.rect.y.toNat
  fun x =>
    if start ≤ x ∧ x < last then
      let source := sourceY * borrow.strideBytes + (borrow.sourceX + x - x₀) * 2
      ((borrow.data source).toUInt16 <<< 8) ||| (borrow.data (source + 1)).toUInt16
    else
      pixels x

-- One round of `render_commands_span`. A layer without a borrow has an inactive one here.
def renderCommandSpan (board : Board) (span : Span) (text : Memory) (textBytes : Nat)
    (borrow : Borrow) (pixels : Row) (command : Command) : Row :=
  let x₀ := command.rect.x.toNat
  let x₁ := x₀ + command.rect.width
  let y₀ := command.rect.y.toNat
  let y₁ := y₀ + command.rect.height
  if span.y < y₀ ∨ span.y ≥ y₁ then
    pixels
  else
    match command.type with
    | .none          => pixels
    | .clear | .fill => fillSpan pixels span x₀ x₁ command.color
    | .stroke        =>
      if span.y = y₀ ∨ span.y + 1 = y₁ then
        fillSpan pixels span x₀ x₁ command.color
      else
        fillSpan (fillSpan pixels span x₀ (x₀ + 1) command.color) span (x₁ - 1) x₁ command.color
    | .text          => renderTextSpan board span command text textBytes pixels
    | .blit          =>
      if borrow.active then renderBlitSpan span command borrow pixels else pixels

-- `render_commands_span`
def renderCommandsSpan (board : Board) (span : Span) (commands : List Command) (text : Memory)
    (textBytes : Nat) (borrow : Borrow) (pixels : Row) : Row :=
  commands.foldl (renderCommandSpan board span text textBytes borrow) pixels

def sliceBytes : Nat := 128

-- The spans of one row, each of at most `sliceBytes`. There are at most `fuel` of them.
def rowSpans (y : Nat) : Nat → Nat → Nat → List Span
  | 0,        _, _         => []
  | fuel + 1, x, remaining =>
    if remaining = 0 then
      []
    else
      let count := if remaining * 2 > sliceBytes then sliceBytes / 2 else remaining
      ⟨x, count, y⟩ :: rowSpans y fuel (x + count) (remaining - count)

-- The spans in the order in which `transfer_rect` and `shadow_apply` go through a region.
def rectSpans (rect : Rect) : List Span :=
  (List.range rect.height).flatMap fun row =>
    rowSpans (rect.y.toNat + row) rect.width rect.x.toNat rect.width

end Display
