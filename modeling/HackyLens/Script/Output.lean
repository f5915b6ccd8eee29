import Mathlib.Data.UInt
import Mathlib.Logic.Function.Basic

-- The output ring of `micropython_runtime.c`, with one writer and any number of readers. Every store
-- and every load of a byte is a step of its own, as are the load and the publication of
-- `output_write`.

namespace Output

def outputBytes : Nat := 4096
def outputMask : UInt32 := 4095

-- The part of `micropython_shared_t` that the ring is made of.
structure Shared where
  output : Nat → UInt8
  outputWrite : UInt32
  outputRead : UInt32
  outputDropped : UInt32

-- `micropython_runtime_stdout_write` before it stores the next byte of `data`.
structure Writing where
  write : UInt32
  data : List UInt8

-- `micropython_runtime_read_output_since` before it loads its next byte. For each of those that it
-- has loaded there is whether the writer had left its slot alone until then.
structure Reading where
  cursor : UInt32
  write : UInt32
  lost : UInt32
  read : UInt32
  count : Nat
  destination : List UInt8
  untouched : List Bool

-- `written` is what the writer has stored from the start.
structure State where
  shared : Shared
  writing : Option Writing
  reading : Nat → Option Reading
  results : List Reading
  written : List UInt8

-- The results of the comparisons are those of the signed differences.
def negative (difference : UInt32) : Bool :=
  difference.toNat ≥ 2 ^ 31

def oldest (write : UInt32) : UInt32 :=
  if write.toNat > outputBytes then write - 4096 else 0

-- What is computed before the first byte is loaded.
def beginRead (shared : Shared) (cursor : UInt32) (capacity : Nat) : Reading :=
  let write := shared.outputWrite
  let oldest := oldest write
  let behind := negative (cursor - oldest)
  let lost := if behind then oldest - cursor else 0
  let read := if behind then oldest else cursor
  let read := if negative (write - read) then write else read
  let count := min (write - read).toNat capacity
  ⟨cursor, write, lost, read, count, [], []⟩

def Reading.slot (r : Reading) : Nat :=
  ((r.read + .ofNat r.destination.length) &&& outputMask).toNat

-- The position in the stream of the next byte.
def Reading.position (r : Reading) : Nat :=
  r.read.toNat + r.destination.length

-- The new value of the cursor.
def Reading.cursor' (r : Reading) : UInt32 :=
  r.read + .ofNat r.count

inductive Op
  | stdoutWrite (data : List UInt8)
  | store
  | publish
  | beginRead (reader : Nat) (cursor : UInt32) (capacity : Nat)
  | load (reader : Nat)
  | endRead (reader : Nat)
  | setOutputRead (outputRead : UInt32)

namespace State

-- `micropython_runtime_stdout_write` returns at once without data.
def stdoutWrite (s : State) (data : List UInt8) : Option State :=
  match s.writing with
  | some _ => none
  | none   =>
    if data = [] then
      some s
    else
      some { s with writing := some ⟨s.shared.outputWrite, data⟩ }

def store (s : State) : Option State :=
  match s.writing with
  | some ⟨write, byte :: data⟩ => some { s with
      shared := { s.shared with
        outputDropped :=
          if (write - s.shared.outputRead).toNat ≥ outputBytes then s.shared.outputDropped + 1
          else s.shared.outputDropped
        output := Function.update s.shared.output (write &&& outputMask).toNat byte }
      writing := some ⟨write + 1, data⟩
      written := s.written ++ [byte] }
  | _ => none

def publish (s : State) : Option State :=
  match s.writing with
  | some ⟨write, []⟩ => some { s with
      shared := { s.shared with outputWrite := write }
      writing := none }
  | _ => none

-- A call without room returns at once.
def beginRead (s : State) (reader : Nat) (cursor : UInt32) (capacity : Nat) : Option State :=
  match s.reading reader with
  | some _ => none
  | none   =>
    if capacity = 0 then
      some s
    else
      some { s with
        reading := Function.update s.reading reader (Output.beginRead s.shared cursor capacity) }

def load (s : State) (reader : Nat) : Option State :=
  match s.reading reader with
  | none   => none
  | some r =>
    if r.destination.length < r.count then
      some { s with
        reading := Function.update s.reading reader <| some { r with
          destination := r.destination ++ [s.shared.output r.slot]
          untouched   := r.untouched ++ [decide (s.written.length ≤ r.position + outputBytes)] } }
    else
      none

def endRead (s : State) (reader : Nat) : Option State :=
  match s.reading reader with
  | none   => none
  | some r =>
    if r.destination.length < r.count then
      none
    else
      some { s with
        reading := Function.update s.reading reader none
        results := r :: s.results }

def step (s : State) : Op → Option State
  | .stdoutWrite data                => s.stdoutWrite data
  | .store                           => s.store
  | .publish                         => s.publish
  | .beginRead reader cursor capacity => s.beginRead reader cursor capacity
  | .load reader                     => s.load reader
  | .endRead reader                  => s.endRead reader
  | .setOutputRead outputRead        => some { s with shared := { s.shared with outputRead } }

-- The steps of a run, in their order.
def run (s : State) : List Op → Option State
  | []        => some s
  | op :: ops => (s.step op).bind fun s => s.run ops

-- How a script starts, with whatever an earlier one has left in the ring.
def start (output : Nat → UInt8) : State :=
  ⟨⟨output, 0, 0, 0⟩, none, fun _ => none, [], []⟩

end State

end Output
