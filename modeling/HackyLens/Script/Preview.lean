import HackyLens.Storage.Userfs

-- The preview of a script in `micropython_app.c`, which is shown page by page. Lines end with CR,
-- LF or both, and are read in chunks.

namespace Micropython

open Userfs (Result)

def previewLines : Nat := 9
def previewColumns : UInt32 := 19
def previewReadChunk : Nat := 128

def lf : UInt8 := 0x0A
def cr : UInt8 := 0x0D
def tab : UInt8 := 0x09

-- `userfs_read` of the selected file, from an offset into a buffer, and `userfs_stat` of it.
structure Userfs where
  read : UInt32 → Nat → Except Result (List UInt8)
  stat : Except Result UInt32

-- A line as it is shown. There are as many characters as columns, until there are too many columns.
structure Text where
  visualColumn : UInt32
  truncated : Bool
  output : List UInt8

namespace Text

def empty : Text :=
  ⟨0, false, []⟩

def put (t : Text) (c : UInt8) : Text :=
  if t.visualColumn < previewColumns then
    { t with output := t.output ++ [c], visualColumn := t.visualColumn + 1 }
  else
    { t with truncated := true, visualColumn := t.visualColumn + 1 }

-- `spaces` of them.
def putSpaces (t : Text) : (spaces : Nat) → Text
  | 0          => t
  | spaces + 1 => (t.put 0x20).putSpaces spaces

def add (t : Text) (value : UInt8) : Text :=
  if value = tab then
    t.putSpaces (4 - t.visualColumn % 4).toNat
  else
    t.put (if value ≥ 0x20 ∧ value < 0x7F then value else 0x3F)

-- A `>` marks what has been cut off.
def finish (t : Text) : List UInt8 :=
  if t.truncated then t.output.take (previewColumns.toNat - 1) ++ [0x3E] else t.output

end Text

-- `preview_reader_t`
structure Reader where
  size : UInt32
  cursor : UInt32
  data : List UInt8
  dataIndex : Nat

inductive Got
  | ended
  | byte (value : UInt8)
  | failed (result : Result)

namespace Reader

variable (fs : Userfs)

-- The next byte that has been read.
def take (r : Reader) : Got × Reader :=
  (.byte (r.data.getD r.dataIndex 0),
    { r with dataIndex := r.dataIndex + 1, cursor := r.cursor + 1 })

-- `preview_reader_get`
def get (r : Reader) : Got × Reader :=
  if r.cursor ≥ r.size then
    (.ended, r)
  else if r.dataIndex ≥ r.data.length then
    match fs.read r.cursor previewReadChunk with
    | .error result => (.failed result, r)
    | .ok data      =>
      let r := { r with data := data, dataIndex := 0 }
      if data.length = 0 then (.failed .errorIo, r) else r.take
  else
    r.take

-- `preview_reader_unget`
def unget (r : Reader) : Reader :=
  if r.dataIndex ≠ 0 ∧ r.cursor ≠ 0 then
    { r with dataIndex := r.dataIndex - 1, cursor := r.cursor - 1 }
  else
    r

-- The loop of `preview_read_line`. There are no more rounds than there are bytes left.
def lineLoop : (left : Nat) → Reader → Text → Bool → Except Result (Bool × Text) × Reader
  | 0,        r, text, consumed => (.ok (consumed, text), r)
  | left + 1, r, text, consumed =>
    if r.cursor < r.size then
      match r.get fs with
      | (.failed result, r) => (.error result, r)
      | (.ended, r)         => (.ok (consumed, text), r)
      | (.byte value, r)    =>
        if value = lf then
          (.ok (true, text), r)
        else if value = cr then
          match r.get fs with
          | (.failed result, r) => (.error result, r)
          | (.ended, r)         => (.ok (true, text), r)
          | (.byte next, r)     => (.ok (true, text), if next ≠ lf then r.unget else r)
        else
          lineLoop left r (text.add value) true
    else
      (.ok (consumed, text), r)

-- `preview_read_line`
def readLine (r : Reader) : Except Result (Bool × Text) × Reader :=
  lineLoop fs (r.size - r.cursor).toNat r .empty false

end Reader

-- What the status line says: nothing, `VIEW` and what has failed, or `VIEW short-read`.
inductive Status
  | clear
  | view (result : Result)
  | shortRead
  deriving DecidableEq

-- The rows that are shown have the numbers of their lines.
structure Preview where
  rows : List (UInt32 × List UInt8)
  line : UInt32
  hasPrevious : Bool
  hasNext : Bool
  offset : UInt32
  nextOffset : UInt32
  nextLine : UInt32
  size : UInt32
  status : Status
  deriving DecidableEq

-- The loop of `preview_load`, with the rows, the next number and what has failed.
def rowLoop (fs : Userfs) : (left : Nat) → Reader → UInt32 → List (UInt32 × List UInt8) →
    List (UInt32 × List UInt8) × UInt32 × Reader × Option Result
  | 0,        r, line, rows => (rows, line, r, none)
  | left + 1, r, line, rows =>
    if r.cursor ≥ r.size then
      (rows, line, r, none)
    else
      match r.readLine fs with
      | (.error result, r)         => (rows, line + 1, r, some result)
      | (.ok (consumed, text), r) =>
        if consumed then
          rowLoop fs left r (line + 1) (rows ++ [(line, text.finish)])
        else
          (rows, line + 1, r, none)

namespace Preview

variable (fs : Userfs)

-- `preview_load`
def load (p : Preview) (offset line : UInt32) : Preview :=
  match fs.stat with
  | .error result => { p with status := .view result, rows := [] }
  | .ok size      =>
    let p := { p with size := size, line := line, offset := offset }
    if size = 0 then
      { p with
        rows        := [(1, [0x28, 0x65, 0x6D, 0x70, 0x74, 0x79, 0x29])]
        hasPrevious := false
        hasNext     := false
        nextOffset  := 0
        nextLine    := 1
        status      := .clear }
    else
      match rowLoop fs previewLines ⟨size, offset, [], 0⟩ line [] with
      | (rows, _, _, some result)  => { p with rows := rows, status := .view result }
      | (rows, line, reader, none) =>
        { p with
          rows        := rows
          nextOffset  := reader.cursor
          nextLine    := line
          hasPrevious := offset ≠ 0
          hasNext     := reader.cursor < reader.size
          status      := .clear }

-- Where a page starts that has been found, or how many line ends there have been, and the byte after
-- the ones that have been looked at.
inductive Found
  | page (offset : UInt32)
  | passed (found : UInt32) (next : Option UInt8)

-- The bytes of a chunk, the last one first, of which as many are left as `index` says.
def scanChunk (separators start : UInt32) :
    (data : List UInt8) → (index : Nat) → UInt32 → Option UInt8 → Found
  | [],            _,     found, next => .passed found next
  | value :: data, index, found, next =>
    if value = lf ∨ (value = cr ∧ next ≠ some lf) then
      if found + 1 = separators then
        .page (start + .ofNat index)
      else
        scanChunk separators start data (index - 1) (found + 1) (some value)
    else
      scanChunk separators start data (index - 1) found (some value)

-- The loop of `preview_previous_page`, with the status where a read fails. There are no more rounds
-- than there are bytes left.
def backLoop (separators : UInt32) :
    (left : Nat) → (position found : UInt32) → Option UInt8 → Except Status (Option UInt32)
  | 0,        _,        _,     _    => .ok none
  | left + 1, position, found, next =>
    if position ≠ 0 ∧ found < separators then
      let start :=
        if position > .ofNat previewReadChunk then position - .ofNat previewReadChunk else 0
      match fs.read start (position - start).toNat with
      | .error result => .error (.view result)
      | .ok data      =>
        if data.length ≠ (position - start).toNat then
          .error .shortRead
        else
          match scanChunk separators start data.reverse data.length found next with
          | .page offset       => .ok (some offset)
          | .passed found next => backLoop separators left start found next
    else
      .ok none

-- `preview_previous_page`
def previousPage (p : Preview) : Preview :=
  let wanted := if p.line > .ofNat previewLines then .ofNat previewLines else p.line - 1
  if p.offset = 0 ∨ wanted = 0 then
    p
  else
    match backLoop fs (wanted + 1) p.offset.toNat p.offset 0 none with
    | .error status       => { p with status := status }
    | .ok (some offset)   => p.load fs offset (p.line - wanted)
    | .ok none            => p.load fs 0 1

-- The two buttons, as `handle_preview_buttons` has them.
inductive Button
  | left
  | right
  deriving DecidableEq

def press (p : Preview) : Button → Preview
  | .left  => if p.hasPrevious then p.previousPage fs else p
  | .right => if p.hasNext then p.load fs p.nextOffset p.nextLine else p

end Preview
end Micropython
