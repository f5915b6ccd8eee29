import Mathlib.Data.UInt
import Mathlib.Logic.Function.Basic

-- `terminal_buffer.c`: the history of the terminal, and the part of it that is shown. The history
-- has so few rows that nothing overflows.

namespace Terminal

abbrev historyLineCount : Nat := 64
abbrev historyLineLength : Nat := 192

-- `terminal_line_t`
abbrev Line := List UInt8

def lineRows (columns : Nat) (line : Line) : Nat :=
  if columns = 0 ∨ line.length = 0 then 1 else (line.length + columns - 1) / columns

-- The sum of `terminal_total_rows_for`.
def rowsIn (columns : Nat) (lines : List Line) : Nat :=
  (lines.map (lineRows columns)).sum

-- The line that a row belongs to, and which row of the line it is.
def locate (columns : Nat) : List Line → Nat → Option (Nat × Nat)
  | [],            _      => none
  | line :: lines, target =>
    if target < lineRows columns line then
      some (0, target)
    else
      (locate columns lines (target - lineRows columns line)).map fun (i, row) => (i + 1, row)

structure State where
  lines : Nat → Line
  head : Nat
  count : Nat
  columns : Nat
  rows : Nat
  scrollOffset : Nat
  autoFollow : Bool

namespace State

def lineAt (s : State) (index : Nat) : Line :=
  s.lines ((s.head + index) % historyLineCount)

-- All lines, in the order in which the loops go through them.
def history (s : State) : List Line :=
  (List.range s.count).map s.lineAt

def setLine (s : State) (index : Nat) (line : Line) : State :=
  { s with lines := Function.update s.lines ((s.head + index) % historyLineCount) line }

def totalRows (s : State) : Nat :=
  rowsIn s.columns s.history

def maxScrollOffset (s : State) : Nat :=
  if s.totalRows > s.rows then s.totalRows - s.rows else 0

def clampViewport (s : State) : State :=
  let offset := min s.scrollOffset s.maxScrollOffset
  { s with scrollOffset := if s.autoFollow then 0 else offset }

def noteAddedRows (s : State) (rows : Nat) : State :=
  if s.autoFollow then s else { s with scrollOffset := s.scrollOffset + rows }

def appendLine (s : State) : State :=
  if s.count < historyLineCount then
    ({ s.setLine s.count [] with count := s.count + 1 }).noteAddedRows 1
  else
    let s := { s with head := (s.head + 1) % historyLineCount }
    (s.setLine (s.count - 1) []).noteAddedRows 1

-- The end of `terminal_buffer_putc`, for a character that is shown as it is.
def put (s : State) (c : UInt8) : State :=
  let s := if (s.lineAt (s.count - 1)).length ≥ historyLineLength then s.appendLine else s
  let line := s.lineAt (s.count - 1)
  let before := lineRows s.columns line
  let after := lineRows s.columns (line ++ [c])
  let s := s.setLine (s.count - 1) (line ++ [c])
  let s := if after > before then s.noteAddedRows (after - before) else s
  s.clampViewport

def putc (s : State) (c : UInt8) : State :=
  if c = 13 then
    s
  else if c = 10 then
    s.appendLine.clampViewport
  else if c = 9 then
    (((s.put 32).put 32).put 32).put 32
  else
    s.put (if c < 32 ∨ c > 126 then 63 else c)

def init (columns rows : UInt16) : State where
  lines _      := []
  head         := 0
  count        := 1
  columns      := if columns ≠ 0 then columns.toNat else 1
  rows         := if rows ≠ 0 then rows.toNat else 1
  scrollOffset := 0
  autoFollow   := true

-- The first row that is shown.
def top (s : State) : Nat :=
  s.maxScrollOffset - min s.scrollOffset s.maxScrollOffset

def setGeometry (s : State) (columns rows : UInt16) : State :=
  let columns := if columns ≠ 0 then columns.toNat else 1
  let rows := if rows ≠ 0 then rows.toNat else 1
  if columns = s.columns ∧ rows = s.rows then
    s
  else
    let (anchorLine, anchorChar) :=
      match locate s.columns s.history s.top with
      | some (i, row) => (i, row * s.columns)
      | none          => (s.count - 1, 0)
    let s := { s with columns, rows }
    if s.autoFollow then
      { s with scrollOffset := 0 }
    else
      let desiredTop := rowsIn s.columns (s.history.take anchorLine) + anchorChar / s.columns
      { s with scrollOffset := s.maxScrollOffset - min desiredTop s.maxScrollOffset }

-- The text ends before the first 0.
def write (s : State) : List UInt8 → State
  | []        => s
  | c :: text => if c = 0 then s else (s.putc c).write text

def scrollUp (s : State) : State :=
  if s.scrollOffset < s.maxScrollOffset then
    { s with scrollOffset := s.scrollOffset + 1, autoFollow := false }
  else
    s

def scrollDown (s : State) : State :=
  let offset := s.scrollOffset - 1
  { s with scrollOffset := offset, autoFollow := s.autoFollow || offset = 0 }

def followLatest (s : State) : State :=
  { s with scrollOffset := 0, autoFollow := true }

-- The characters of a row, counted from the first row of the history.
def rowText (s : State) (target : Nat) : List UInt8 :=
  match locate s.columns s.history target with
  | some (i, row) => ((s.lineAt i).drop (row * s.columns)).take s.columns
  | none          => []

-- `terminal_buffer_visible_row`, without the final 0.
def visibleRow (s : State) (row : UInt16) (textSize : Nat) : List UInt8 :=
  let text := (s.rowText (s.top + row.toNat)).take (textSize - 1)
  text ++ .replicate (textSize - 1 - text.length) 32

end State

-- The calls that change what is shown.
inductive Op
  | write (text : List UInt8)
  | scrollUp
  | scrollDown
  | followLatest
  | setGeometry (columns rows : UInt16)

def Op.apply (s : State) : Op → State
  | write text               => s.write text
  | scrollUp                 => s.scrollUp
  | scrollDown               => s.scrollDown
  | followLatest             => s.followLatest
  | setGeometry columns rows => s.setGeometry columns rows

def run (s : State) (ops : List Op) : State :=
  ops.foldl Op.apply s

end Terminal
