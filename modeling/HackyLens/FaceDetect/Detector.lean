import HackyLens.Camera.AiTransform
import HackyLens.Detection.Region
import HackyLens.Lib.Best

-- `decode_output` of `face_detect_detector.c`, with exact arithmetic and any function for `expf`.

namespace FaceDetect

open Detection

def faceW : Nat := 320
def faceH : Nat := 240
def gridW : Nat := 20
def gridH : Nat := 15
def gridCells : Nat := gridW * gridH
def anchorCount : Nat := 5
def outputBytes : Nat := gridCells * 30 * 4
def candidateMax : Nat := 64
def boxMax : Nat := 8
def threshold : Rat := 7 / 10
def nms : Rat := 3 / 10

-- `g_anchors`
def anchorW : Nat → Rat
  | 0 => 1889 / 1000
  | 1 => 29465 / 10000
  | 2 => 399987 / 100000
  | 3 => 5155437 / 1000000
  | _ => 6718375 / 1000000

def anchorH : Nat → Rat
  | 0 => 25245 / 10000
  | 1 => 394056 / 100000
  | 2 => 53658 / 10000
  | 3 => 692275 / 100000
  | _ => 901025 / 100000

-- `face_candidate_t`, with the anchor and the cell that it is from.
structure Candidate where
  anchor : Nat
  cell : Nat
  x : Rat
  y : Rat
  w : Rat
  h : Rat
  p : Rat
  deriving DecidableEq

abbrev Box := CameraAi.Box

-- `coordinate`
def coordinate (normalized : Rat) (limit : Nat) : Int16 :=
  let value := toInt32 (normalized * limit)
  if value < 0 then 0 else if value > limit then .ofNat limit else .ofInt value

namespace Candidate

def region (c : Candidate) : Region where
  x := c.x
  y := c.y
  w := c.w
  h := c.h

def left (c : Candidate) : Int16 := coordinate (c.x - c.w * (1 / 2)) faceW
def top (c : Candidate) : Int16 := coordinate (c.y - c.h * (1 / 2)) faceH
def right (c : Candidate) : Int16 := coordinate (c.x + c.w * (1 / 2)) faceW
def bottom (c : Candidate) : Int16 := coordinate (c.y + c.h * (1 / 2)) faceH

-- The box is not empty.
def Visible (c : Candidate) : Prop :=
  c.right > c.left ∧ c.bottom > c.top

instance (c : Candidate) : Decidable c.Visible :=
  inferInstanceAs (Decidable (_ ∧ _))

def box (c : Candidate) : Box where
  x := c.left
  y := c.top
  w := .ofInt (c.right.toInt - c.left.toInt)
  h := .ofInt (c.bottom.toInt - c.top.toInt)

end Candidate

-- A box that has been kept, as it is compared with the candidates.
def kept (box : Box) : Region where
  x := (box.x.toInt + box.w.toInt * (1 / 2)) / faceW
  y := (box.y.toInt + box.h.toInt * (1 / 2)) / faceH
  w := box.w.toInt / faceW
  h := box.h.toInt / faceH

section Collect

variable (exp : Rat → Rat) (output : Nat → Rat)

-- `sigmoidf_fast`
def sigmoid (value : Rat) : Rat :=
  1 / (1 + exp (-value))

def candidateAt (anchor cell : Nat) : Candidate :=
  let base := anchor * gridCells * 6
  { anchor, cell
    x := ((cell % gridW : Nat) + sigmoid exp (output (base + cell))) / gridW
    y := ((cell / gridW : Nat) + sigmoid exp (output (base + gridCells + cell))) / gridH
    w := exp (output (base + gridCells * 2 + cell)) * anchorW anchor / gridW
    h := exp (output (base + gridCells * 3 + cell)) * anchorH anchor / gridH
    p := sigmoid exp (output (base + gridCells * 4 + cell)) }

end Collect

-- `used` and `g_boxes`, with the candidates that the boxes are of.
structure Selection where
  used : Nat → Bool
  boxes : List Box
  reported : List Candidate

namespace Selection

-- The candidate may be chosen.
def Free (s : Selection) (candidate : Candidate × Nat) : Prop :=
  s.used candidate.2 = false ∧ ∀ box ∈ s.boxes, ¬iou candidate.1.region (kept box) > nms

instance (s : Selection) (candidate : Candidate × Nat) : Decidable (s.Free candidate) :=
  inferInstanceAs (Decidable (_ ∧ _))

def best (s : Selection) (candidates : List Candidate) : Option (Candidate × Nat) :=
  Best.best s.Free (fun candidate => candidate.1.p) threshold candidates.zipIdx

def take (s : Selection) (candidate : Candidate) (index : Nat) : Selection :=
  let s := { s with used := Function.update s.used index true }
  if candidate.Visible then
    { s with boxes := s.boxes ++ [candidate.box], reported := s.reported ++ [candidate] }
  else
    s

-- The loop that chooses the boxes, unless it takes more than `rounds` rounds.
def select (candidates : List Candidate) : (rounds : Nat) → Selection → Option Selection
  | 0,          _ => none
  | rounds + 1, s =>
    if s.boxes.length < boxMax then
      match s.best candidates with
      | none                    => some s
      | some (candidate, index) => select candidates rounds (s.take candidate index)
    else
      some s

def start : Selection where
  used _   := false
  boxes    := []
  reported := []

end Selection

-- The camera input as `camera_ai_input_map_rect` finds it.
structure Input where
  owned : Bool
  width : UInt16
  height : UInt16
  rotate : UInt8

-- `camera_ai_input_map_rect`
def Input.mapRect (input : Input) (box : Box) : Option Box :=
  if input.owned then
    let (ok, box) := CameraAi.transformRect input.width input.height input.rotate box
    if ok then some box else none
  else
    none

end FaceDetect
