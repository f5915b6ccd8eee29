import HackyLens.Camera.AiTransform
import HackyLens.Detection.Region
import HackyLens.Lib.Best
import Mathlib.Order.Defs.LinearOrder

-- `object_detect_postprocess.c`, with exact arithmetic, any function for `expf` and finite values.
-- The statistics, which nothing here reads, are left out.

namespace ObjectDetect

open Detection

def inputW : Nat := 320
def inputH : Nat := 240
def gridW : Nat := 10
def gridH : Nat := 7
def gridCells : Nat := gridW * gridH
def anchorCount : Nat := 5
def classCount : Nat := 20
def outputBytes : Nat := anchorCount * (classCount + 5) * gridCells * 4
def candidateMax : Nat := anchorCount * gridCells
def resultMax : Nat := 8

-- `g_anchors`
def anchorW : Nat → Rat
  | 0 => 108 / 100
  | 1 => 342 / 100
  | 2 => 663 / 100
  | 3 => 942 / 100
  | _ => 1662 / 100

def anchorH : Nat → Rat
  | 0 => 119 / 100
  | 1 => 441 / 100
  | 2 => 1138 / 100
  | 3 => 511 / 100
  | _ => 1052 / 100

section Decode

variable (exp : Rat → Rat) (output : Nat → Rat)

-- `sigmoidf_safe`
def sigmoid (value : Rat) : Rat :=
  if value > 16 then 1 else if value < -16 then 0 else 1 / (1 + exp (-value))

-- `expf_safe`
def expSafe (value : Rat) : Rat :=
  exp (if value > 16 then 16 else if value < -16 then -16 else value)

-- The value of a class in the output.
def classValue (anchorBase cell classId : Nat) : Rat :=
  output (anchorBase + (5 + classId) * gridCells + cell)

def largest (anchorBase cell : Nat) : Rat :=
  (List.range (classCount - 1)).foldl
    (fun largest i =>
      let value := classValue output anchorBase cell (i + 1)
      if value > largest then value else largest)
    (classValue output anchorBase cell 0)

def sum (anchorBase cell : Nat) : Rat :=
  (List.range classCount).foldl
    (fun sum classId => sum + expSafe exp
      (classValue output anchorBase cell classId - largest output anchorBase cell))
    0

-- `class_probabilities`
def classProbability (anchorBase cell classId : Nat) : Rat :=
  if sum exp output anchorBase cell > 0 then
    expSafe exp (classValue output anchorBase cell classId - largest output anchorBase cell) /
      sum exp output anchorBase cell
  else
    0

def anchorBase (anchor : Nat) : Nat :=
  anchor * (classCount + 5) * gridCells

def region (anchor cell : Nat) : Region where
  x := ((cell % gridW : Nat) + sigmoid exp (output (anchorBase anchor + cell))) / gridW
  y := ((cell / gridW : Nat) + sigmoid exp (output (anchorBase anchor + gridCells + cell))) / gridH
  w := expSafe exp (output (anchorBase anchor + 2 * gridCells + cell)) * anchorW anchor / gridW
  h := expSafe exp (output (anchorBase anchor + 3 * gridCells + cell)) * anchorH anchor / gridH

def objectness (anchor cell : Nat) : Rat :=
  sigmoid exp (output (anchorBase anchor + 4 * gridCells + cell))

def probability (anchor cell classId : Nat) : Rat :=
  objectness exp output anchor cell * classProbability exp output (anchorBase anchor) cell classId

end Decode

-- `object_detect_postprocess_workspace_t`
structure Workspace where
  candidates : Nat → Region
  probabilities : Nat → Nat → Rat
  suppressed : Nat → Bool

namespace Workspace

def setProbability (ws : Workspace) (index classId : Nat) (value : Rat) : Workspace :=
  let row := Function.update (ws.probabilities index) classId value
  { ws with probabilities := Function.update ws.probabilities index row }

end Workspace

section Fill

variable (exp : Rat → Rat) (output : Nat → Rat) (threshold : Rat)

-- A class of a candidate, with whether the candidate has been accepted.
def fillClass (anchor cell : Nat) (s : Workspace × Bool) (classId : Nat) : Workspace × Bool :=
  let probability := probability exp output anchor cell classId
  if probability ≥ threshold then
    (s.1.setProbability (anchor * gridCells + cell) classId probability, true)
  else
    s

-- A cell, with the number of candidates.
def fillCell (anchor : Nat) (s : Workspace × UInt16) (cell : Nat) : Workspace × UInt16 :=
  let index := anchor * gridCells + cell
  let ws := { s.1 with
    candidates := Function.update s.1.candidates index (region exp output anchor cell) }
  let (ws, accepted) :=
    (List.range classCount).foldl (fillClass exp output threshold anchor cell) (ws, false)
  (ws, if accepted then s.2 + 1 else s.2)

def fill (ws : Workspace) : Workspace × UInt16 :=
  (List.range anchorCount).foldl
    (fun s anchor => (List.range gridCells).foldl (fillCell exp output threshold anchor) s)
    ({ ws with probabilities := fun _ _ => 0 }, 0)

end Fill

namespace Workspace

variable (threshold nms : Rat) (classId : Nat)

-- The best candidate of a class that is not suppressed.
@[irreducible]
def best (ws : Workspace) : Option Nat :=
  Best.best (fun index => ws.suppressed index = false)
    (fun index => ws.probabilities index classId) threshold (List.range candidateMax)

-- What the best candidate suppresses.
def suppressIndex (best : Nat) (ws : Workspace) (index : Nat) : Workspace :=
  if ws.suppressed index = false ∧ iou (ws.candidates best) (ws.candidates index) > nms then
    let suppressed := Function.update ws.suppressed index true
    { ws with suppressed }.setProbability index classId 0
  else
    ws

def suppress (ws : Workspace) (best : Nat) : Workspace :=
  (List.range candidateMax).foldl (suppressIndex nms classId best)
    { ws with suppressed := Function.update ws.suppressed best true }

-- The loop over the candidates of a class, unless it takes more than `rounds` rounds.
def suppressClass : (rounds : Nat) → Workspace → Option Workspace
  | 0,          _  => none
  | rounds + 1, ws =>
    match ws.best threshold classId with
    | none      => some ws
    | some best => suppressClass rounds (ws.suppress nms classId best)

-- The loop over the classes.
def suppressAll (rounds : Nat) (ws : Workspace) : Option Workspace :=
  (List.range classCount).foldlM
    (fun ws classId =>
      { ws with suppressed := fun _ => false }.suppressClass threshold nms classId rounds) ws

end Workspace

-- `object_detect_result_t`
structure Result where
  classId : UInt8
  confidence : UInt16
  box : CameraAi.Box
  deriving DecidableEq

-- `coordinate`
def coordinate (normalized : Rat) (limit : Nat) : Int16 :=
  let value := toInt32 (normalized * limit)
  if value < 0 then 0 else if value ≥ limit then .ofNat (limit - 1) else .ofInt value

def left (r : Region) : Int16 := coordinate (r.x - r.w * (1 / 2)) inputW
def top (r : Region) : Int16 := coordinate (r.y - r.h * (1 / 2)) inputH
def right (r : Region) : Int16 := coordinate (r.x + r.w * (1 / 2)) inputW
def bottom (r : Region) : Int16 := coordinate (r.y + r.h * (1 / 2)) inputH

-- The box is empty.
def Empty (r : Region) : Prop :=
  right r ≤ left r ∨ bottom r ≤ top r

instance (r : Region) : Decidable (Empty r) :=
  inferInstanceAs (Decidable (_ ∨ _))

def result (r : Region) (classId : Nat) (probability : Rat) : Result where
  classId    := .ofNat classId
  confidence :=
    let confidence : UInt16 := .ofNat (probability * 1000 + 1 / 2).floor.toNat
    if confidence > 1000 then 1000 else confidence
  box        := {
    x := left r
    y := top r
    w := .ofInt ((right r).toInt - (left r).toInt)
    h := .ofInt ((bottom r).toInt - (top r).toInt) }

-- The candidates and classes in the order of the loops.
def pairs : List (Nat × Nat) :=
  (List.range candidateMax).flatMap fun index =>
    (List.range classCount).map fun classId => (index, classId)

namespace Workspace

variable (threshold : Rat)

@[irreducible]
def bestPair (ws : Workspace) : Option (Nat × Nat) :=
  Best.best (fun _ => True) (fun pair => ws.probabilities pair.1 pair.2) threshold pairs

-- The loop that picks the results, unless it takes more than `rounds` rounds.
def pick : (rounds : Nat) → Workspace → List Result → Option (List Result)
  | 0,          _,  _       => none
  | rounds + 1, ws, results =>
    if results.length < resultMax then
      match ws.bestPair threshold with
      | none                  => some results
      | some (index, classId) =>
        let probability := ws.probabilities index classId
        let ws := ws.setProbability index classId 0
        if Empty (ws.candidates index) then
          pick rounds ws results
        else
          pick rounds ws (results ++ [result (ws.candidates index) classId probability])
    else
      some results

end Workspace

-- `object_detect_postprocess`, with the number of candidates and the results.
def postprocess (exp : Rat → Rat) (rounds : Nat) (output : Option (Nat → Rat)) (bytes : Nat)
    (confidencePercent nmsPercent : UInt8) (ws : Workspace) : Option (UInt16 × List Result) :=
  let threshold : Rat := confidencePercent.toNat / 100
  let nms : Rat := nmsPercent.toNat / 100
  match output with
  | none        => some (0, [])
  | some output =>
    if bytes ≠ outputBytes then some (0, [])
    else do
      let (ws, candidates) := fill exp output threshold ws
      let ws ← ws.suppressAll threshold nms rounds
      let results ← ws.pick threshold rounds []
      return (candidates, results)

end ObjectDetect
