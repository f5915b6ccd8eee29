import HackyLens.FaceDetect.Detector
import Mathlib.Tactic

-- Which of the cells and anchors are reported.

namespace FaceDetect

open Detection

theorem coordinate_range (normalized : Rat) {limit : Nat} (h : limit ≤ 32767) :
    0 ≤ (coordinate normalized limit).toInt ∧ (coordinate normalized limit).toInt ≤ limit := by
  rw [coordinate]
  split
  case isTrue => exact ⟨le_rfl, Int.natCast_nonneg limit⟩
  case isFalse hneg =>
    split
    case isTrue =>
      have hlimit : (Int16.ofNat limit).toInt = limit := Int16.toInt_ofNat_of_lt (by omega)
      rw [hlimit]
      exact ⟨Int.natCast_nonneg limit, le_rfl⟩
    case isFalse hle =>
      rw [Int16.toInt_ofInt_of_le (by omega) (by omega)]
      exact ⟨by omega, by omega⟩

namespace Candidate

variable {c : Candidate}

end Candidate

section Collect

variable (exp : Rat → Rat) (output : Nat → Rat)

-- The anchors and the cells in the order of the loops.
def places : List (Nat × Nat) :=
  (List.range anchorCount).flatMap fun anchor =>
    (List.range gridCells).map fun cell => (anchor, cell)

-- The cells and anchors that reach the threshold.
def passing : List Candidate :=
  (places.map fun place => candidateAt exp output place.1 place.2).filter (threshold ≤ ·.p)

variable {exp output}

end Collect

namespace Selection

variable {candidates : List Candidate} {s : Selection} {c : Candidate} {i : Nat}

-- A reported box that is at least as good overlaps the candidate too much.
def Covered (s : Selection) (c : Candidate) : Prop :=
  ∃ r ∈ s.reported, c.p ≤ r.p ∧ nms < iou c.region (kept r.box)

-- All boxes so far are of candidates that are at least as good.
def Below (s : Selection) (c : Candidate) : Prop :=
  ∀ r ∈ s.reported, c.p ≤ r.p

structure Fair (candidates : List Candidate) (s : Selection) : Prop where
  boxes : s.boxes = s.reported.map Candidate.box
  length : s.reported.length ≤ boxMax
  reported : ∀ r ∈ s.reported, r ∈ candidates ∧ threshold < r.p ∧ r.Visible
  order : s.reported.Pairwise fun a b => b.p ≤ a.p
  free : ∀ c i, (c, i) ∈ candidates.zipIdx → s.used i = false → threshold < c.p →
    s.Covered c ∨ s.Below c
  used : ∀ c i, (c, i) ∈ candidates.zipIdx → s.used i = true → c ∈ s.reported ∨ ¬c.Visible

-- A candidate that is as good as all boxes is free or covered.
theorem Fair.covered_or_free (h : s.Fair candidates) (hc : (c, i) ∈ candidates.zipIdx)
    (hused : s.used i = false) (hp : threshold < c.p) :
    s.Covered c ∨ s.Free (c, i) ∧ s.Below c := by
  obtain hcovered | hbelow := h.free c i hc hused hp
  · exact .inl hcovered
  · by_cases hfree : s.Free (c, i)
    · exact .inr ⟨hfree, hbelow⟩
    · obtain ⟨box, hbox, hiou⟩ : ∃ box ∈ s.boxes, iou c.region (kept box) > nms := by
        by_contra hnone
        exact hfree ⟨hused, fun box hbox hiou => hnone ⟨box, hbox, hiou⟩⟩
      rw [h.boxes] at hbox
      obtain ⟨r, hr, rfl⟩ := List.mem_map.mp hbox
      exact .inl ⟨r, hr, hbelow r hr, hiou⟩

theorem Covered.mono {s' : Selection} (h : s.Covered c) (hr : ∀ r ∈ s.reported, r ∈ s'.reported) :
    s'.Covered c := by
  obtain ⟨r, hmem, hp, hiou⟩ := h
  exact ⟨r, hr r hmem, hp, hiou⟩

theorem best_spec (h : s.best candidates = some (c, i)) : (c, i) ∈ candidates.zipIdx ∧
    s.Free (c, i) ∧ threshold < c.p ∧
    ∀ b j, (b, j) ∈ candidates.zipIdx → s.Free (b, j) → b.p ≤ c.p := by
  obtain ⟨hmem, hfree, hp⟩ := Best.mem_of_best_eq_some h
  exact ⟨hmem, hfree, hp, fun b j hb hok => Best.le_of_best_eq_some h hb hok⟩

-- The candidate that is chosen is not better than the ones before it.
theorem Fair.below (h : s.Fair candidates) (hbest : s.best candidates = some (c, i)) :
    s.Below c := by
  obtain ⟨hmem, hfree, hp, -⟩ := best_spec hbest
  obtain ⟨r, hr, -, hiou⟩ | hbelow := h.free c i hmem hfree.1 hp
  · refine absurd hiou (hfree.2 r.box ?_)
    rw [h.boxes]
    exact List.mem_map_of_mem hr
  · exact hbelow

theorem take_used : (s.take c i).used = Function.update s.used i true := by
  rw [take]
  split <;> rfl

theorem take_reported :
    (s.take c i).reported = if c.Visible then s.reported ++ [c] else s.reported := by
  rw [take]
  split <;> rfl

theorem take_boxes :
    (s.take c i).boxes = if c.Visible then s.boxes ++ [c.box] else s.boxes := by
  rw [take]
  split <;> rfl

theorem take_reported_of_mem {r : Candidate} (h : r ∈ s.reported) :
    r ∈ (s.take c i).reported := by
  rw [take_reported]
  split
  case isTrue  => exact List.mem_append_left _ h
  case isFalse => exact h

theorem Fair.take (h : s.Fair candidates) (hroom : s.boxes.length < boxMax)
    (hbest : s.best candidates = some (c, i)) : (s.take c i).Fair candidates := by
  obtain ⟨hmem, hfree, hp, hgreatest⟩ := best_spec hbest
  have hbelow := h.below hbest
  have hzip := List.mk_mem_zipIdx_iff_getElem?.mp hmem
  have hcandidate : c ∈ candidates := List.mem_of_getElem? hzip
  rw [h.boxes, List.length_map] at hroom
  constructor
  case boxes =>
    rw [take_boxes, take_reported, h.boxes]
    split
    case isTrue  => rw [List.map_append, List.map_singleton]
    case isFalse => rfl
  case length =>
    rw [take_reported]
    split
    case isTrue  =>
      rw [List.length_append]
      exact hroom
    case isFalse => exact h.length
  case reported =>
    intro r hr
    rw [take_reported] at hr
    split at hr
    case isFalse          => exact h.reported r hr
    case isTrue hvisible  =>
      obtain hr | hr := List.mem_append.mp hr
      · exact h.reported r hr
      · rw [List.mem_singleton.mp hr]
        exact ⟨hcandidate, hp, hvisible⟩
  case order =>
    rw [take_reported]
    split
    case isFalse => exact h.order
    case isTrue  =>
      refine List.pairwise_append.mpr ⟨h.order, List.pairwise_singleton _ _, fun r hr b hb => ?_⟩
      rw [List.mem_singleton.mp hb]
      exact hbelow r hr
  case free =>
    intro b j hb hused hpb
    rw [take_used] at hused
    have hij : j ≠ i := fun hij => by
      rw [hij, Function.update_self] at hused
      cases hused
    rw [Function.update_of_ne hij] at hused
    obtain hcovered | ⟨hfreeb, hbelowb⟩ := h.covered_or_free hb hused hpb
    · exact .inl (hcovered.mono fun r hr => take_reported_of_mem hr)
    · refine .inr fun r hr => ?_
      rw [take_reported] at hr
      split at hr
      case isFalse => exact hbelowb r hr
      case isTrue  =>
        obtain hr | hr := List.mem_append.mp hr
        · exact hbelowb r hr
        · rw [List.mem_singleton.mp hr]
          exact hgreatest b j hb hfreeb
  case used =>
    intro b j hb hused
    rw [take_used] at hused
    by_cases hij : j = i
    case neg =>
      rw [Function.update_of_ne hij] at hused
      exact (h.used b j hb hused).imp_left fun hr => take_reported_of_mem hr
    case pos =>
      rw [hij] at hb
      have hsame := List.mk_mem_zipIdx_iff_getElem?.mp hb
      rw [hzip] at hsame
      cases hsame
      by_cases hvisible : c.Visible
      · refine .inl ?_
        rw [take_reported, if_pos hvisible]
        exact List.mem_append_right _ (List.mem_singleton_self c)
      · exact .inr hvisible

-- The candidates that have not been chosen.
def unused (candidates : List Candidate) (s : Selection) : Finset Nat :=
  (Finset.range candidates.length).filter (s.used · = false)

-- What the loop ends with.
structure Complete (candidates : List Candidate) (s : Selection) : Prop where
  fair : s.Fair candidates
  done : s.reported.length = boxMax ∨ s.best candidates = none

theorem Complete.answers (h : s.Complete candidates) (hc : c ∈ candidates) (hp : threshold < c.p) :
    c ∈ s.reported ∨ ¬c.Visible ∨ s.Covered c ∨ s.reported.length = boxMax ∧ s.Below c := by
  obtain ⟨i, hi⟩ := List.mem_iff_getElem?.mp hc
  have hmem := List.mk_mem_zipIdx_iff_getElem?.mpr hi
  cases hused : s.used i with
  | true  => exact (h.fair.used c i hmem hused).imp_right .inl
  | false =>
    obtain hcovered | ⟨hfree, hbelow⟩ := h.fair.covered_or_free hmem hused hp
    · exact .inr (.inr (.inl hcovered))
    · obtain hfull | hnone := h.done
      · exact .inr (.inr (.inr ⟨hfull, hbelow⟩))
      · exact absurd hp (not_lt.mpr (Best.le_of_best_eq_none hnone hmem hfree))

end Selection

section Crowded

def camera : Input where
  owned  := true
  width  := 320
  height := 240
  rotate := 0

-- A picture whose cells all have a face, the best ones with the last anchor.
def crowded (i : Nat) : Rat :=
  if i < 7200 then 0 else 1

theorem mem_places {place : Nat × Nat} : place ∈ places ↔ place.1 < 5 ∧ place.2 < 300 := by
  rw [places, List.mem_flatMap]
  constructor
  · intro h
    obtain ⟨anchor, hanchor, hplace⟩ := h
    obtain ⟨cell, hcell, rfl⟩ := List.mem_map.mp hplace
    exact ⟨List.mem_range.mp hanchor, List.mem_range.mp hcell⟩
  · intro h
    exact ⟨place.1, List.mem_range.mpr h.1, List.mem_map.mpr ⟨place.2, List.mem_range.mpr h.2, rfl⟩⟩

end Crowded
end FaceDetect
