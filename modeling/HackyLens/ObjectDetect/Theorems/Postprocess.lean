import HackyLens.Lib.Greedy
import HackyLens.ObjectDetect.Postprocess
import Mathlib.Tactic

-- The table of probabilities before and after the suppression.

namespace ObjectDetect

open Detection

section Fill

variable {exp : Rat → Rat} {output : Nat → Rat} {threshold : Rat}

-- The place and the probability of a candidate.
def regionOf (exp : Rat → Rat) (output : Nat → Rat) (index : Nat) : Region :=
  region exp output (index / gridCells) (index % gridCells)

def probabilityOf (exp : Rat → Rat) (output : Nat → Rat) (index classId : Nat) : Rat :=
  probability exp output (index / gridCells) (index % gridCells) classId

theorem place_of_index {anchor cell : Nat} (h : cell < gridCells) :
    (anchor * gridCells + cell) / gridCells = anchor ∧
      (anchor * gridCells + cell) % gridCells = cell := by
  have hcells : gridCells = 70 := rfl
  rw [hcells] at h ⊢
  omega

theorem setProbability_probabilities (ws : Workspace) (index classId : Nat) (value : Rat)
    (i k : Nat) : (ws.setProbability index classId value).probabilities i k =
      if i = index ∧ k = classId then value else ws.probabilities i k := by
  rw [Workspace.setProbability]
  dsimp only
  by_cases hi : i = index
  case neg =>
    rw [Function.update_of_ne hi, if_neg fun h => hi h.1]
  case pos =>
    rw [hi, Function.update_self]
    by_cases hk : k = classId
    · rw [hk, Function.update_self, if_pos ⟨rfl, rfl⟩]
    · rw [Function.update_of_ne hk, if_neg fun h => hk h.2]

theorem foldl_fillClass {anchor cell : Nat} (h : cell < gridCells) (classes : List Nat)
    (s : Workspace × Bool) :
    (classes.foldl (fillClass exp output threshold anchor cell) s).1.candidates = s.1.candidates ∧
      ∀ i k, (classes.foldl (fillClass exp output threshold anchor cell) s).1.probabilities i k =
        if i = anchor * gridCells + cell ∧ k ∈ classes ∧ threshold ≤ probabilityOf exp output i k
        then probabilityOf exp output i k else s.1.probabilities i k := by
  obtain ⟨hanchor, hcell⟩ := @place_of_index anchor cell h
  induction classes using List.reverseRecOn with
  | nil => exact ⟨rfl, fun i k => (if_neg fun hmem => absurd hmem.2.1 List.not_mem_nil).symm⟩
  | append_singleton classes classId ih =>
    obtain ⟨hcandidates, hprobabilities⟩ := ih
    rw [List.foldl_append, List.foldl_cons, List.foldl_nil]
    generalize classes.foldl (fillClass exp output threshold anchor cell) s = t at *
    have hp : probabilityOf exp output (anchor * gridCells + cell) classId =
        probability exp output anchor cell classId := by
      rw [probabilityOf, hanchor, hcell]
    rw [fillClass]
    split
    case isTrue hle =>
      refine ⟨hcandidates, fun i k => ?_⟩
      rw [setProbability_probabilities, hprobabilities]
      by_cases hi : i = anchor * gridCells + cell ∧ k = classId
      · obtain ⟨rfl, rfl⟩ := hi
        rw [if_pos ⟨rfl, rfl⟩, if_pos, hp]
        rw [hp]
        exact ⟨rfl, List.mem_append_right _ (List.mem_singleton_self _), hle⟩
      · rw [if_neg hi]
        refine if_congr ?_ rfl rfl
        rw [List.mem_append, List.mem_singleton]
        tauto
    case isFalse hlt =>
      refine ⟨hcandidates, fun i k => ?_⟩
      rw [hprobabilities]
      by_cases hi : i = anchor * gridCells + cell ∧ k = classId
      · obtain ⟨rfl, rfl⟩ := hi
        rw [hp, if_neg fun h => hlt h.2.2, if_neg fun h => hlt h.2.2]
      · refine if_congr ?_ rfl rfl
        rw [List.mem_append, List.mem_singleton]
        tauto

theorem fillCell_spec {anchor cell : Nat} (h : cell < gridCells) (s : Workspace × UInt16) :
    (∀ i, (fillCell exp output threshold anchor s cell).1.candidates i =
      if i = anchor * gridCells + cell then regionOf exp output i else s.1.candidates i) ∧
    ∀ i k, (fillCell exp output threshold anchor s cell).1.probabilities i k =
      if i = anchor * gridCells + cell ∧ k < classCount ∧
        threshold ≤ probabilityOf exp output i k
      then probabilityOf exp output i k else s.1.probabilities i k := by
  obtain ⟨hanchor, hcell⟩ := @place_of_index anchor cell h
  obtain ⟨hcandidates, hprobabilities⟩ := @foldl_fillClass exp output threshold anchor cell h
    (List.range classCount) ({ s.1 with
      candidates := Function.update s.1.candidates (anchor * gridCells + cell)
        (region exp output anchor cell) }, false)
  rw [fillCell]
  refine ⟨fun i => ?_, fun i k => ?_⟩
  · dsimp only at hcandidates ⊢
    rw [hcandidates]
    by_cases hi : i = anchor * gridCells + cell
    · rw [hi, Function.update_self, if_pos rfl, regionOf, hanchor, hcell]
    · rw [Function.update_of_ne hi, if_neg hi]
  · dsimp only at hprobabilities ⊢
    rw [hprobabilities]
    simp only [List.mem_range]

-- The anchors and the cells in the order of the loops.
def places : List (Nat × Nat) :=
  (List.range anchorCount).flatMap fun anchor =>
    (List.range gridCells).map fun cell => (anchor, cell)

theorem mem_places {place : Nat × Nat} :
    place ∈ places ↔ place.1 < anchorCount ∧ place.2 < gridCells := by
  rw [places, List.mem_flatMap]
  constructor
  · intro h
    obtain ⟨anchor, hanchor, hplace⟩ := h
    obtain ⟨cell, hcell, rfl⟩ := List.mem_map.mp hplace
    exact ⟨List.mem_range.mp hanchor, List.mem_range.mp hcell⟩
  · intro h
    exact ⟨place.1, List.mem_range.mpr h.1,
      List.mem_map.mpr ⟨place.2, List.mem_range.mpr h.2, rfl⟩⟩

-- The index of a candidate.
def indexOf (place : Nat × Nat) : Nat :=
  place.1 * gridCells + place.2

theorem mem_places_map {index : Nat} (h : index < candidateMax) : index ∈ places.map indexOf := by
  have hmax : candidateMax = 350 := rfl
  have hcells : gridCells = 70 := rfl
  have hanchors : anchorCount = 5 := rfl
  refine List.mem_map.mpr ⟨(index / gridCells, index % gridCells), mem_places.mpr ⟨?_, ?_⟩, ?_⟩
  · show index / gridCells < anchorCount
    rw [hcells, hanchors]
    omega
  · show index % gridCells < gridCells
    rw [hcells]
    omega
  · exact Nat.div_add_mod' index gridCells

theorem foldl_fillCell (places : List (Nat × Nat)) (hplaces : ∀ place ∈ places, place.2 < gridCells)
    (s : Workspace × UInt16) :
    (∀ i ∈ places.map indexOf, (places.foldl (fun s place =>
      fillCell exp output threshold place.1 s place.2) s).1.candidates i =
        regionOf exp output i) ∧
    ∀ i k, (places.foldl (fun s place => fillCell exp output threshold place.1 s place.2) s
      ).1.probabilities i k = if i ∈ places.map indexOf ∧
        k < classCount ∧ threshold ≤ probabilityOf exp output i k
        then probabilityOf exp output i k else s.1.probabilities i k := by
  induction places using List.reverseRecOn with
  | nil =>
    exact ⟨fun i hi => absurd hi List.not_mem_nil,
      fun i k => (if_neg fun hmem => absurd hmem.1 List.not_mem_nil).symm⟩
  | append_singleton places place ih =>
    obtain ⟨hcandidates, hprobabilities⟩ :=
      ih fun place hplace => hplaces place (List.mem_append_left _ hplace)
    have hcell := hplaces place (List.mem_append_right _ (List.mem_singleton_self place))
    rw [List.foldl_append, List.foldl_cons, List.foldl_nil]
    generalize places.foldl (fun s place => fillCell exp output threshold place.1 s place.2) s = t
      at *
    obtain ⟨hcandidates', hprobabilities'⟩ :=
      @fillCell_spec exp output threshold place.1 place.2 hcell t
    have hmem (i : Nat) : i ∈ (places ++ [place]).map indexOf ↔
        i ∈ places.map indexOf ∨ i = place.1 * gridCells + place.2 := by
      rw [List.map_append, List.mem_append, List.map_singleton, List.mem_singleton]
      rfl
    refine ⟨fun i hi => ?_, fun i k => ?_⟩
    · rw [hcandidates']
      split
      case isTrue      => rfl
      case isFalse hne => exact hcandidates i (((hmem i).mp hi).resolve_right hne)
    · have hor : (i ∈ (places ++ [place]).map indexOf ∧ k < classCount ∧
            threshold ≤ probabilityOf exp output i k) ↔
          (i = place.1 * gridCells + place.2 ∧ k < classCount ∧
            threshold ≤ probabilityOf exp output i k) ∨
          i ∈ places.map indexOf ∧ k < classCount ∧
            threshold ≤ probabilityOf exp output i k := by
        rw [hmem]
        tauto
      rw [hprobabilities', hprobabilities]
      by_cases hlast : i = place.1 * gridCells + place.2 ∧ k < classCount ∧
          threshold ≤ probabilityOf exp output i k
      · rw [if_pos hlast, if_pos (hor.mpr (.inl hlast))]
      · rw [if_neg hlast]
        exact if_congr (hor.trans (or_iff_right hlast)).symm rfl rfl

theorem fill_spec (ws : Workspace) {i : Nat} (hi : i < candidateMax) :
    (fill exp output threshold ws).1.candidates i = regionOf exp output i ∧
    ∀ k < classCount, (fill exp output threshold ws).1.probabilities i k =
      if threshold ≤ probabilityOf exp output i k then probabilityOf exp output i k else 0 := by
  have hfold : fill exp output threshold ws =
      places.foldl (fun s place => fillCell exp output threshold place.1 s place.2)
        ({ ws with probabilities := fun _ _ => 0 }, 0) := by
    rw [fill, places, List.foldl_flatMap]
    simp only [List.foldl_map]
  obtain ⟨hcandidates, hprobabilities⟩ := @foldl_fillCell exp output threshold places
    (fun place hplace => (mem_places.mp hplace).2) ({ ws with probabilities := fun _ _ => 0 }, 0)
  have hmem := mem_places_map hi
  rw [hfold]
  refine ⟨hcandidates i hmem, fun k hk => ?_⟩
  rw [hprobabilities]
  exact if_congr ⟨fun h => h.2.2, fun h => ⟨hmem, hk, h⟩⟩ rfl rfl

end Fill
end ObjectDetect
