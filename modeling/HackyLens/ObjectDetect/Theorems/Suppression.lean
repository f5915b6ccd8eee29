import HackyLens.ObjectDetect.Theorems.Postprocess

-- The loops that suppress candidates are a greedy choice.

namespace ObjectDetect

open Detection

-- The candidates of a class from the best to the worst, and the ones that are not suppressed by a
-- better one.
section Survivors

variable (region : Nat → Region) (p : Nat → Rat) (threshold nms : Rat)

-- The order of candidates of a class.
def Better (a b : Nat) : Prop :=
  p b < p a ∨ p a = p b ∧ a < b

def betterOrSame (a b : Nat) : Bool :=
  p b < p a ∨ p a = p b ∧ a ≤ b

def ranked : List Nat :=
  ((List.range candidateMax).filter (threshold < p ·)).mergeSort (betterOrSame p)

def Clash (a b : Nat) : Prop :=
  iou (region a) (region b) > nms

instance : DecidableRel (Clash region nms) := fun _ _ =>
  inferInstanceAs (Decidable (_ > _))

def survivors : List Nat :=
  Greedy.keep (Clash region nms) (ranked p threshold)

variable {region p threshold nms} {a b c : Nat}

theorem Better.asymm (h : Better p a b) : ¬Better p b a := by
  rw [Better] at h ⊢
  obtain h | ⟨h, hab⟩ := h
  · exact not_or.mpr ⟨lt_asymm h, fun hba => absurd hba.1 h.ne⟩
  · exact not_or.mpr ⟨h.not_lt, fun hba => by omega⟩

theorem betterOrSame_iff : betterOrSame p a b = true ↔ p b < p a ∨ p a = p b ∧ a ≤ b := by
  rw [betterOrSame, decide_eq_true_iff]

theorem betterOrSame_trans (h : betterOrSame p a b) (h' : betterOrSame p b c) :
    betterOrSame p a c := by
  rw [betterOrSame_iff] at *
  obtain h | ⟨h, hab⟩ := h <;> obtain h' | ⟨h', hbc⟩ := h'
  · exact .inl (h'.trans h)
  · exact .inl (h' ▸ h)
  · exact .inl (h ▸ h')
  · exact .inr ⟨h.trans h', hab.trans hbc⟩

theorem betterOrSame_total (p : Nat → Rat) (a b : Nat) :
    (betterOrSame p a b || betterOrSame p b a) = true := by
  rw [Bool.or_eq_true, betterOrSame_iff, betterOrSame_iff]
  obtain h | h | h := lt_trichotomy (p a) (p b)
  · exact .inr (.inl h)
  · exact (le_total a b).imp (fun hab => .inr ⟨h, hab⟩) fun hba => .inr ⟨h.symm, hba⟩
  · exact .inl (.inl h)

theorem mem_ranked : a ∈ ranked p threshold ↔ a < candidateMax ∧ threshold < p a := by
  rw [ranked, List.mem_mergeSort, List.mem_filter, List.mem_range, decide_eq_true_iff]

theorem ranked_pairwise : (ranked p threshold).Pairwise (Better p) := by
  have hsorted : (ranked p threshold).Pairwise fun a b => betterOrSame p a b :=
    @List.pairwise_mergeSort _ (betterOrSame p) (fun _ _ _ hab hbc => betterOrSame_trans hab hbc)
      (betterOrSame_total p) _
  have hnodup : (ranked p threshold).Nodup :=
    (List.mergeSort_perm _ _).nodup_iff.mpr (List.nodup_range.filter _)
  refine hsorted.imp₂ (fun a b hab hne => ?_) hnodup
  exact (betterOrSame_iff.mp hab).imp id fun h => ⟨h.1, lt_of_le_of_ne h.2 hne⟩

-- What is not suppressed by a better one that is not suppressed is what survives.
theorem mem_survivors_of_fixed {S : Nat → Prop}
    (hS : ∀ a, S a ↔ (a < candidateMax ∧ threshold < p a) ∧
      ∀ b, S b → Better p b a → ¬Clash region nms b a) :
    S a ↔ a ∈ survivors region p threshold nms :=
  Greedy.mem_keep_iff_of_fixed ranked_pairwise (fun _ _ => Better.asymm)
    (fun b => (hS b).trans (and_congr_left fun _ => mem_ranked.symm)) a

end Survivors

theorem overlap_comm (c₁ s₁ c₂ s₂ : Rat) : overlap c₁ s₁ c₂ s₂ = overlap c₂ s₂ c₁ s₁ := by
  have hleft (a b : Rat) : (if a > b then a else b) = if b > a then b else a := by
    split_ifs with h h' h'
    · exact absurd h' (lt_asymm h)
    · rfl
    · rfl
    · exact le_antisymm (not_lt.mp h') (not_lt.mp h)
  have hright (a b : Rat) : (if a < b then a else b) = if b < a then b else a := by
    split_ifs with h h' h'
    · exact absurd h' (lt_asymm h)
    · rfl
    · rfl
    · exact le_antisymm (not_lt.mp h) (not_lt.mp h')
  rw [overlap, overlap, hleft, hright]

theorem iou_comm (a b : Region) : iou a b = iou b a := by
  rw [iou, iou, overlap_comm a.x, overlap_comm a.y, add_comm (a.w * a.h)]

section Suppress

variable {nms threshold : Rat} {classId best : Nat} {ws : Workspace}

-- What the best candidate does to one candidate.
def Hit (nms : Rat) (best : Nat) (ws : Workspace) (i : Nat) : Prop :=
  ws.suppressed i = false ∧ iou (ws.candidates best) (ws.candidates i) > nms

instance : DecidablePred (Hit nms best ws) := fun _ =>
  inferInstanceAs (Decidable (_ ∧ _))

theorem foldl_suppressIndex (n : Nat) :
    let ws' := (List.range n).foldl (Workspace.suppressIndex nms classId best) ws
    ws'.candidates = ws.candidates ∧
      (∀ i, ws'.suppressed i = if i < n ∧ Hit nms best ws i then true else ws.suppressed i) ∧
      ∀ i k, ws'.probabilities i k =
        if (i < n ∧ Hit nms best ws i) ∧ k = classId then 0 else ws.probabilities i k := by
  induction n with
  | zero =>
    refine ⟨rfl, fun i => (if_neg fun h => ?_).symm, fun i k => (if_neg fun h => ?_).symm⟩
    · exact absurd h.1 (Nat.not_lt_zero i)
    · exact absurd h.1.1 (Nat.not_lt_zero i)
  | succ n ih =>
    obtain ⟨hcandidates, hsuppressed, hprobabilities⟩ := ih
    rw [List.range_succ, List.foldl_append, List.foldl_cons, List.foldl_nil]
    generalize (List.range n).foldl (Workspace.suppressIndex nms classId best) ws = t at *
    have hsame : t.suppressed n = ws.suppressed n := by
      rw [hsuppressed, if_neg fun h => absurd h.1 (Nat.lt_irrefl n)]
    have hlast (i : Nat) (hi : i ≠ n) : i < n + 1 ↔ i < n := by omega
    rw [Workspace.suppressIndex, hsame, hcandidates]
    split
    case isTrue hhit =>
      refine ⟨rfl, fun i => ?_, fun i k => ?_⟩
      · show Function.update t.suppressed n true i = _
        by_cases hi : i = n
        · rw [hi, Function.update_self, if_pos ⟨Nat.lt_succ_self n, hhit⟩]
        · rw [Function.update_of_ne hi, hsuppressed]
          exact if_congr (by rw [hlast i hi]) rfl rfl
      · rw [setProbability_probabilities]
        dsimp only
        rw [hprobabilities]
        by_cases hi : i = n
        · rw [hi]
          by_cases hk : k = classId
          · rw [if_pos ⟨rfl, hk⟩, if_pos ⟨⟨Nat.lt_succ_self n, hhit⟩, hk⟩]
          · rw [if_neg fun h => hk h.2, if_neg fun h => hk h.2, if_neg fun h => hk h.2]
        · rw [if_neg fun h => hi h.1]
          exact if_congr (by rw [hlast i hi]) rfl rfl
    case isFalse hmiss =>
      refine ⟨hcandidates, fun i => ?_, fun i k => ?_⟩
      · rw [hsuppressed]
        by_cases hi : i = n
        · rw [hi, if_neg fun h => absurd h.1 (Nat.lt_irrefl n), if_neg fun h => hmiss h.2]
        · exact if_congr (by rw [hlast i hi]) rfl rfl
      · rw [hprobabilities]
        by_cases hi : i = n
        · rw [hi, if_neg fun h => absurd h.1.1 (Nat.lt_irrefl n), if_neg fun h => hmiss h.1.2]
        · exact if_congr (by rw [hlast i hi]) rfl rfl

theorem suppress_spec (nms : Rat) (classId best : Nat) (ws : Workspace) :
    (ws.suppress nms classId best).candidates = ws.candidates ∧
      (∀ i < candidateMax, (ws.suppress nms classId best).suppressed i = true ↔
        i = best ∨ ws.suppressed i = true ∨ iou (ws.candidates best) (ws.candidates i) > nms) ∧
      (∀ i < candidateMax, (ws.suppress nms classId best).probabilities i classId =
        if i ≠ best ∧ Hit nms best ws i then 0 else ws.probabilities i classId) ∧
      ∀ i k, k ≠ classId →
        (ws.suppress nms classId best).probabilities i k = ws.probabilities i k := by
  have hspec := @foldl_suppressIndex nms classId best
    { ws with suppressed := Function.update ws.suppressed best true } candidateMax
  rw [Workspace.suppress]
  obtain ⟨hcandidates, hsuppressed, hprobabilities⟩ := hspec
  have hhit (i : Nat) :
      Hit nms best { ws with suppressed := Function.update ws.suppressed best true } i ↔
        i ≠ best ∧ Hit nms best ws i := by
    rw [Hit, Hit]
    dsimp only
    by_cases hi : i = best
    · rw [hi, Function.update_self]
      exact ⟨fun h => absurd h.1 Bool.true_eq_false_eq_False, fun h => absurd rfl h.1⟩
    · rw [Function.update_of_ne hi]
      exact (and_iff_right hi).symm
  refine ⟨hcandidates, fun i hi => ?_, fun i hi => ?_, fun i k hk => ?_⟩
  · rw [hsuppressed]
    by_cases hib : i = best
    · rw [hib]
      dsimp only
      rw [Function.update_self, ite_self]
      exact ⟨fun _ => .inl rfl, fun _ => rfl⟩
    · dsimp only
      rw [Function.update_of_ne hib]
      split
      case isTrue h  => exact ⟨fun _ => .inr (.inr ((hhit i).mp h.2).2.2), fun _ => rfl⟩
      case isFalse h =>
        refine ⟨fun h => .inr (.inl h), fun hor => ?_⟩
        obtain hbest | hold | hiou := hor
        · exact absurd hbest hib
        · exact hold
        · by_contra hfree
          exact h ⟨hi, (hhit i).mpr ⟨hib, Bool.eq_false_iff.mpr hfree, hiou⟩⟩
  · rw [hprobabilities]
    exact if_congr ⟨fun h => (hhit i).mp h.1.2, fun h => ⟨⟨hi, (hhit i).mpr h⟩, rfl⟩⟩ rfl rfl
  · rw [hprobabilities, if_neg fun h => hk h.2]

-- Whether a value is above the threshold, and which it is there, are as they were.
def Agrees (threshold x y : Rat) : Prop :=
  x = y ∨ x ≤ threshold ∧ y ≤ threshold

theorem Agrees.lt_iff {x y : Rat} (h : Agrees threshold x y) : threshold < x ↔ threshold < y := by
  obtain rfl | ⟨hx, hy⟩ := h
  · exact Iff.rfl
  · exact iff_of_false (not_lt.mpr hx) (not_lt.mpr hy)

theorem Agrees.eq {x y : Rat} (h : Agrees threshold x y) (hx : threshold < x) : x = y :=
  h.resolve_right fun hle => absurd hx (not_lt.mpr hle.1)

-- The loop over the candidates of a class, with the candidates that it has chosen.
structure Choosing (p : Nat → Rat) (threshold nms : Rat) (classId : Nat) (chosen : List Nat)
    (ws : Workspace) : Prop where
  taken : ∀ a ∈ chosen, a < candidateMax ∧ threshold < p a ∧ ws.suppressed a = true ∧
    ws.probabilities a classId = p a
  order : chosen.Pairwise fun a b => Better p a b ∧ ¬Clash ws.candidates nms a b
  free : ∀ a < candidateMax, ws.suppressed a = false →
    Agrees threshold (ws.probabilities a classId) (p a) ∧
      ∀ b ∈ chosen, ¬Clash ws.candidates nms b a ∧ (threshold < p a → Better p b a)
  suppressed : ∀ a < candidateMax, ws.suppressed a = true → a ∉ chosen →
    ws.probabilities a classId = 0 ∧
      ∃ b ∈ chosen, Clash ws.candidates nms b a ∧ (threshold < p a → Better p b a)

variable {p : Nat → Rat} {chosen : List Nat}

theorem best_spec (h : ws.best threshold classId = some best) :
    best < candidateMax ∧ ws.suppressed best = false ∧ threshold < ws.probabilities best classId ∧
      ∀ a < candidateMax, ws.suppressed a = false → a ≠ best →
        threshold < ws.probabilities a classId →
        Better (ws.probabilities · classId) best a := by
  unfold Workspace.best at h
  obtain ⟨before, after, hrange, hfree, hlt, hbefore, hafter⟩ := Best.best_eq_some h
  have hmem : best ∈ List.range candidateMax := by
    rw [hrange]
    exact List.mem_append_right _ List.mem_cons_self
  refine ⟨List.mem_range.mp hmem, hfree, hlt, fun a ha hafree hne _ => ?_⟩
  have hsorted := @List.pairwise_lt_range candidateMax
  rw [hrange] at hsorted
  have ha : a ∈ before ++ best :: after := hrange ▸ List.mem_range.mpr ha
  obtain ha | ha := List.mem_append.mp ha
  · exact .inl (hbefore a ha hafree)
  · obtain ha | ha := List.mem_cons.mp ha
    · exact absurd ha hne
    · have hlt := List.rel_of_pairwise_cons (List.pairwise_append.mp hsorted).2.1 ha
      exact (lt_or_eq_of_le (hafter a ha hafree)).imp id fun heq => ⟨heq.symm, hlt⟩

theorem Choosing.step (h : Choosing p threshold nms classId chosen ws)
    (hbest : ws.best threshold classId = some best) :
    Choosing p threshold nms classId (chosen ++ [best]) (ws.suppress nms classId best) := by
  obtain ⟨hlt, hfree, hp, hbetter⟩ := best_spec hbest
  obtain ⟨hcandidates, hsuppressed, hprobabilities, -⟩ :=
    suppress_spec nms classId best ws
  obtain ⟨hagrees, hchosen⟩ := h.free best hlt hfree
  have hpbest := hagrees.eq hp
  have hthis : threshold < p best := hpbest ▸ hp
  have hnew (a : Nat) (ha : a < candidateMax) (hafree : ws.suppressed a = false) (hne : a ≠ best)
      (hpa : threshold < p a) : Better p best a := by
    have hagreesa := (h.free a ha hafree).1
    have hpa' := hagreesa.lt_iff.mpr hpa
    have hb := hbetter a ha hafree hne hpa'
    rw [Better, hpbest, hagreesa.eq hpa'] at hb
    exact hb
  have hkeep (a : Nat) (ha : a < candidateMax) (hstill : a = best ∨ ws.suppressed a = true) :
      (ws.suppress nms classId best).probabilities a classId = ws.probabilities a classId := by
    rw [hprobabilities a ha, if_neg fun hhit => ?_]
    obtain hstill | hstill := hstill
    · exact hhit.1 hstill
    · rw [hhit.2.1] at hstill
      cases hstill
  constructor
  case taken =>
    intro a ha
    obtain ha | ha := List.mem_append.mp ha
    · obtain ⟨halt, hpa, hsup, hprob⟩ := h.taken a ha
      exact ⟨halt, hpa, (hsuppressed a halt).mpr (.inr (.inl hsup)),
        (hkeep a halt (.inr hsup)).trans hprob⟩
    · rw [List.mem_singleton.mp ha]
      exact ⟨hlt, hthis, (hsuppressed best hlt).mpr (.inl rfl),
        (hkeep best hlt (.inl rfl)).trans hpbest⟩
  case order =>
    rw [hcandidates]
    refine List.pairwise_append.mpr ⟨h.order, List.pairwise_singleton _ _, fun a ha b hb => ?_⟩
    rw [List.mem_singleton.mp hb]
    exact ⟨(hchosen a ha).2 hthis, (hchosen a ha).1⟩
  case free =>
    intro a ha hafree
    have hnot := mt (hsuppressed a ha).mpr (Bool.eq_false_iff.mp hafree)
    obtain ⟨hne, hnot⟩ := not_or.mp hnot
    obtain ⟨hold, hiou⟩ := not_or.mp hnot
    have hold := Bool.eq_false_iff.mpr hold
    obtain ⟨hagreesa, hchosena⟩ := h.free a ha hold
    rw [hprobabilities a ha, if_neg fun hhit => hiou hhit.2.2, hcandidates]
    refine ⟨hagreesa, fun b hb => ?_⟩
    obtain hb | hb := List.mem_append.mp hb
    · exact hchosena b hb
    · rw [List.mem_singleton.mp hb]
      exact ⟨hiou, hnew a ha hold hne⟩
  case suppressed =>
    intro a ha hasup hnot
    obtain ⟨hnotchosen, hnotbest⟩ := not_or.mp (mt List.mem_append.mpr hnot)
    have hne : a ≠ best := fun hab => hnotbest (hab ▸ List.mem_singleton_self best)
    rw [hcandidates]
    cases hold : ws.suppressed a with
    | true  =>
      obtain ⟨hzero, b, hb, hclash⟩ := h.suppressed a ha hold hnotchosen
      exact ⟨(hkeep a ha (.inr hold)).trans hzero, b, List.mem_append_left _ hb, hclash⟩
    | false =>
      have hiou := ((hsuppressed a ha).mp hasup).resolve_left hne |>.resolve_left
        (Bool.eq_false_iff.mp hold)
      refine ⟨?_, best, List.mem_append_right _ (List.mem_singleton_self best), hiou,
        hnew a ha hold hne⟩
      rw [hprobabilities a ha, if_pos ⟨hne, hold, hiou⟩]

-- The candidates that are neither chosen nor suppressed yet.
def undecided (ws : Workspace) : Finset Nat :=
  (Finset.range candidateMax).filter (ws.suppressed · = false)

theorem undecided_suppress (h : best < candidateMax) (hfree : ws.suppressed best = false) :
    (undecided (ws.suppress nms classId best)).card < (undecided ws).card := by
  obtain ⟨-, hsuppressed, -, -⟩ := suppress_spec nms classId best ws
  refine Finset.card_lt_card (Finset.ssubset_iff_of_subset (fun a ha => ?_) |>.mpr
    ⟨best, Finset.mem_filter.mpr ⟨Finset.mem_range.mpr h, hfree⟩, fun hin => ?_⟩)
  · obtain ⟨hrange, hafree⟩ := Finset.mem_filter.mp ha
    have hnot := mt (hsuppressed a (Finset.mem_range.mp hrange)).mpr (Bool.eq_false_iff.mp hafree)
    refine Finset.mem_filter.mpr ⟨hrange, Bool.eq_false_iff.mpr fun hold => ?_⟩
    exact hnot (.inr (.inl hold))
  · have hin := (Finset.mem_filter.mp hin).2
    rw [(hsuppressed best h).mpr (.inl rfl)] at hin
    cases hin

theorem suppressClass_spec {rounds : Nat} (h : Choosing p threshold nms classId chosen ws)
    (hrounds : (undecided ws).card < rounds) :
    ∃ ws' chosen', ws.suppressClass threshold nms classId rounds = some ws' ∧
      Choosing p threshold nms classId chosen' ws' ∧ ws'.best threshold classId = none ∧
      ws'.candidates = ws.candidates ∧
      ∀ i k, k ≠ classId → ws'.probabilities i k = ws.probabilities i k := by
  induction rounds generalizing ws chosen with
  | zero => exact absurd hrounds (Nat.not_lt_zero _)
  | succ rounds ih =>
    rw [Workspace.suppressClass]
    cases hbest : ws.best threshold classId with
    | none      => exact ⟨ws, chosen, rfl, h, hbest, rfl, fun _ _ _ => rfl⟩
    | some best =>
      obtain ⟨hlt, hfree, -, -⟩ := best_spec hbest
      obtain ⟨hcandidates, -, -, hframe⟩ := suppress_spec nms classId best ws
      have hless := @undecided_suppress nms classId best ws hlt hfree
      have hrounds' : (undecided (ws.suppress nms classId best)).card < rounds :=
        lt_of_lt_of_le hless (Nat.le_of_lt_succ hrounds)
      obtain ⟨ws', chosen', hrun, hchoosing, hnone, hcandidates', hframe'⟩ :=
        ih (h.step hbest) hrounds'
      refine ⟨ws', chosen', hrun, hchoosing, hnone, hcandidates'.trans hcandidates,
        fun i k hk => ?_⟩
      rw [hframe' i k hk, hframe i k hk]

-- What is left of a class: the survivors.
def Settled (region : Nat → Region) (p : Nat → Rat) (threshold nms : Rat) (column : Nat → Rat) :
    Prop :=
  ∀ a < candidateMax, (threshold < column a ↔ a ∈ survivors region p threshold nms) ∧
    (threshold < column a → column a = p a)

theorem Choosing.settled {region : Nat → Region}
    (h : Choosing p threshold nms classId chosen ws) (hthreshold : 0 ≤ threshold)
    (hnone : ws.best threshold classId = none)
    (hregion : ∀ a < candidateMax, ws.candidates a = region a) :
    Settled region p threshold nms (ws.probabilities · classId) := by
  have hclash (a b : Nat) (ha : a < candidateMax) (hb : b < candidateMax) :
      Clash ws.candidates nms a b ↔ Clash region nms a b := by
    rw [Clash, Clash, hregion a ha, hregion b hb]
  unfold Workspace.best at hnone
  -- what is neither chosen nor suppressed is not above the threshold
  have hrest (a : Nat) (ha : a < candidateMax) (hfree : ws.suppressed a = false) :
      ws.probabilities a classId ≤ threshold :=
    Best.le_of_best_eq_none hnone (List.mem_range.mpr ha) hfree
  have hchosen (a : Nat) (ha : a < candidateMax) :
      threshold < ws.probabilities a classId ↔ a ∈ chosen := by
    constructor
    · intro hlt
      cases hsup : ws.suppressed a with
      | false => exact absurd hlt (not_lt.mpr (hrest a ha hsup))
      | true  =>
        by_contra hnot
        rw [(h.suppressed a ha hsup hnot).1] at hlt
        exact absurd hlt (not_lt.mpr hthreshold)
    · intro hmem
      obtain ⟨-, hlt, -, hprob⟩ := h.taken a hmem
      rw [hprob]
      exact hlt
  -- a better candidate has been chosen before
  have horder : ∀ b ∈ chosen, ∀ a ∈ chosen, Better p b a → ¬Clash ws.candidates nms b a :=
    List.Pairwise.forall_of_forall_of_flip (fun a _ haa => absurd haa haa.asymm)
      (h.order.imp fun hab _ => hab.2) (h.order.imp fun hab hba => absurd hba hab.1.asymm)
  have hfixed (a : Nat) : a ∈ chosen ↔ (a < candidateMax ∧ threshold < p a) ∧
      ∀ b, b ∈ chosen → Better p b a → ¬Clash region nms b a := by
    constructor
    · intro hmem
      obtain ⟨halt, hpa, -, -⟩ := h.taken a hmem
      refine ⟨⟨halt, hpa⟩, fun b hb hba => ?_⟩
      rw [← hclash b a (h.taken b hb).1 halt]
      exact horder b hb a hmem hba
    · intro hall
      obtain ⟨⟨halt, hpa⟩, hall⟩ := hall
      cases hsup : ws.suppressed a with
      | false =>
        have hagrees := (h.free a halt hsup).1
        exact absurd (hagrees.lt_iff.mpr hpa) (not_lt.mpr (hrest a halt hsup))
      | true  =>
        by_contra hnot
        obtain ⟨-, b, hb, hba, hbetter⟩ := h.suppressed a halt hsup hnot
        exact hall b hb (hbetter hpa) ((hclash b a (h.taken b hb).1 halt).mp hba)
  refine fun a ha => ⟨(hchosen a ha).trans (mem_survivors_of_fixed hfixed), fun hlt => ?_⟩
  exact (h.taken a ((hchosen a ha).mp hlt)).2.2.2

end Suppress
end ObjectDetect
