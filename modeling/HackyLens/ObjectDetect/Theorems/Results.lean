import HackyLens.ObjectDetect.Theorems.Suppression

-- The results, in the order in which they are picked.

namespace ObjectDetect

open Detection

section Classes

variable {exp : Rat → Rat} {output : Nat → Rat} {threshold nms : Rat} {ws : Workspace}
  {region : Nat → Region} {p : Nat → Nat → Rat} {rounds : Nat}

theorem card_undecided (ws : Workspace) : (undecided ws).card ≤ candidateMax := by
  refine (Finset.card_filter_le _ _).trans ?_
  rw [Finset.card_range]

theorem Choosing.start {classId : Nat}
    (h : ∀ a < candidateMax, Agrees threshold (ws.probabilities a classId) (p a classId)) :
    Choosing (p · classId) threshold nms classId []
      { ws with suppressed := fun _ => false } where
  taken _ ha           := absurd ha List.not_mem_nil
  order                := List.Pairwise.nil
  free a ha _          := ⟨h a ha, fun _ hb => absurd hb List.not_mem_nil⟩
  suppressed _ _ hsup  := absurd hsup Bool.false_ne_true

-- The classes one after the other.
theorem suppressAll_spec (hthreshold : 0 ≤ threshold) (hrounds : candidateMax < rounds)
    (hregion : ∀ a < candidateMax, ws.candidates a = region a) {count : Nat}
    (h : ∀ a < candidateMax, ∀ k < count, Agrees threshold (ws.probabilities a k) (p a k)) :
    ∃ ws', (List.range count).foldlM
        (fun ws classId =>
          { ws with suppressed := fun _ => false }.suppressClass threshold nms classId rounds) ws =
        some ws' ∧
      ws'.candidates = ws.candidates ∧
      (∀ k < count, Settled region (p · k) threshold nms (ws'.probabilities · k)) ∧
      ∀ a k, count ≤ k → ws'.probabilities a k = ws.probabilities a k := by
  induction count with
  | zero       => exact ⟨ws, rfl, rfl, fun k hk => absurd hk (Nat.not_lt_zero k), fun _ _ _ => rfl⟩
  | succ count ih =>
    obtain ⟨ws₁, hrun, hcandidates, hsettled, hframe⟩ :=
      ih fun a ha k hk => h a ha k (Nat.lt_succ_of_lt hk)
    have hstart : ∀ a < candidateMax,
        Agrees threshold (ws₁.probabilities a count) (p a count) := fun a ha => by
      rw [hframe a count le_rfl]
      exact h a ha count (Nat.lt_succ_self count)
    obtain ⟨ws₂, chosen, hrun₂, hchoosing, hnone, hcandidates₂, hframe₂⟩ :=
      suppressClass_spec (@Choosing.start threshold nms ws₁ p count hstart)
        ((card_undecided _).trans_lt hrounds)
    have hcandidates₂ : ws₂.candidates = ws.candidates := hcandidates₂.trans hcandidates
    have hlast := hchoosing.settled hthreshold hnone fun a ha =>
      (congrFun hcandidates₂ a).trans (hregion a ha)
    refine ⟨ws₂, ?_, hcandidates₂, fun k hk => ?_, fun a k hk => ?_⟩
    · rw [List.range_succ, List.foldlM_append, hrun]
      dsimp only [Option.bind_eq_bind, Option.bind_some]
      rw [List.foldlM_cons, hrun₂]
      rfl
    · obtain hk | rfl := Nat.lt_succ_iff_lt_or_eq.mp hk
      · have hsame : (ws₂.probabilities · k) = (ws₁.probabilities · k) :=
          funext fun a => hframe₂ a k hk.ne
        rw [hsame]
        exact hsettled k hk
      · exact hlast
    · rw [hframe₂ a k (Nat.lt_of_succ_le hk).ne', ← hframe a k (Nat.le_of_succ_le hk)]

end Classes

section Order

variable {p : Nat → Nat → Rat} {a b c : Nat × Nat}

-- A candidate and a class come before others by probability, by candidate and by class.
def before (p : Nat → Nat → Rat) (a b : Nat × Nat) : Bool :=
  p b.1 b.2 < p a.1 a.2 ∨ p a.1 a.2 = p b.1 b.2 ∧ (a.1 < b.1 ∨ a.1 = b.1 ∧ a.2 ≤ b.2)

theorem before_iff : before p a b = true ↔ p b.1 b.2 < p a.1 a.2 ∨
    p a.1 a.2 = p b.1 b.2 ∧ (a.1 < b.1 ∨ a.1 = b.1 ∧ a.2 ≤ b.2) := by
  rw [before, decide_eq_true_iff]

theorem before_trans (a b c : Nat × Nat) (h : before p a b) (h' : before p b c) :
    before p a c := by
  rw [before_iff] at *
  obtain h | ⟨h, hab⟩ := h <;> obtain h' | ⟨h', hbc⟩ := h'
  · exact .inl (h'.trans h)
  · exact .inl (h' ▸ h)
  · exact .inl (h ▸ h')
  · exact .inr ⟨h.trans h', by omega⟩

theorem before_total (a b : Nat × Nat) : (before p a b || before p b a) = true := by
  rw [Bool.or_eq_true, before_iff, before_iff]
  obtain h | h | h := lt_trichotomy (p a.1 a.2) (p b.1 b.2)
  · exact .inr (.inl h)
  · have hor : (a.1 < b.1 ∨ a.1 = b.1 ∧ a.2 ≤ b.2) ∨ (b.1 < a.1 ∨ b.1 = a.1 ∧ b.2 ≤ a.2) := by
      omega
    exact hor.imp (fun hab => .inr ⟨h, hab⟩) fun hba => .inr ⟨h.symm, hba⟩
  · exact .inl (.inl h)

theorem before_antisymm (a b : Nat × Nat) (h : before p a b) (h' : before p b a) : a = b := by
  rw [before_iff] at *
  obtain h | ⟨h, hab⟩ := h <;> obtain h' | ⟨h', hba⟩ := h'
  · exact absurd h (lt_asymm h')
  · exact absurd h' h.ne
  · exact absurd h h'.ne
  · exact Prod.ext (by omega) (by omega)

theorem pairs_pairwise : pairs.Pairwise fun a b => a.1 < b.1 ∨ a.1 = b.1 ∧ a.2 < b.2 := by
  rw [pairs, List.pairwise_flatMap]
  constructor
  · intro index _
    rw [List.pairwise_map]
    exact List.pairwise_lt_range.imp fun h => .inr ⟨rfl, h⟩
  · refine List.pairwise_lt_range.imp fun hlt x hx y hy => ?_
    obtain ⟨k, -, rfl⟩ := List.mem_map.mp hx
    obtain ⟨l, -, rfl⟩ := List.mem_map.mp hy
    exact .inl hlt

theorem pairs_nodup : pairs.Nodup :=
  pairs_pairwise.imp fun h hab => by
    rw [hab] at h
    omega

theorem mem_pairs : a ∈ pairs ↔ a.1 < candidateMax ∧ a.2 < classCount := by
  rw [pairs, List.mem_flatMap]
  constructor
  · intro h
    obtain ⟨index, hindex, ha⟩ := h
    obtain ⟨k, hk, rfl⟩ := List.mem_map.mp ha
    exact ⟨List.mem_range.mp hindex, List.mem_range.mp hk⟩
  · intro h
    exact ⟨a.1, List.mem_range.mpr h.1, List.mem_map.mpr ⟨a.2, List.mem_range.mpr h.2, rfl⟩⟩

end Order
section Pick

variable {threshold : Rat} {ws : Workspace} {p : Nat → Nat → Rat} {a b : Nat × Nat}

-- What can be picked.
def above (threshold : Rat) (ws : Workspace) : List (Nat × Nat) :=
  pairs.filter fun pair => threshold < ws.probabilities pair.1 pair.2

theorem mem_above :
    a ∈ above threshold ws ↔ a ∈ pairs ∧ threshold < ws.probabilities a.1 a.2 := by
  rw [above, List.mem_filter, decide_eq_true_iff]

theorem above_nodup : (above threshold ws).Nodup :=
  pairs_nodup.filter _

-- Above the threshold, the table has the probabilities.
def Holds (threshold : Rat) (p : Nat → Nat → Rat) (ws : Workspace) : Prop :=
  ∀ a ∈ pairs, threshold < ws.probabilities a.1 a.2 → ws.probabilities a.1 a.2 = p a.1 a.2

theorem bestPair_none (h : ws.bestPair threshold = none) : above threshold ws = [] := by
  unfold Workspace.bestPair at h
  refine List.filter_eq_nil_iff.mpr fun a ha hlt => ?_
  exact absurd (of_decide_eq_true hlt) (not_lt.mpr (Best.le_of_best_eq_none h ha trivial))

theorem bestPair_some (hholds : Holds threshold p ws) (h : ws.bestPair threshold = some a) :
    a ∈ above threshold ws ∧ ∀ b ∈ above threshold ws, before p a b := by
  unfold Workspace.bestPair at h
  obtain ⟨earlier, later, hpairs, -, hlt, hearlier, hlater⟩ := Best.best_eq_some h
  have ha : a ∈ pairs := hpairs ▸ List.mem_append_right _ List.mem_cons_self
  refine ⟨mem_above.mpr ⟨ha, hlt⟩, fun b hb => ?_⟩
  obtain ⟨hb, hltb⟩ := mem_above.mp hb
  have hsorted := pairs_pairwise
  rw [hpairs] at hsorted
  have hmem : b ∈ earlier ++ a :: later := hpairs ▸ hb
  rw [before_iff, ← hholds a ha hlt, ← hholds b hb hltb]
  obtain hmem | hmem := List.mem_append.mp hmem
  · exact .inl (hearlier b hmem trivial)
  · obtain rfl | hmem := List.mem_cons.mp hmem
    · exact .inr ⟨rfl, .inr ⟨rfl, le_rfl⟩⟩
    · have hle := List.rel_of_pairwise_cons (List.pairwise_append.mp hsorted).2.1 hmem
      obtain hlt' | heq := lt_or_eq_of_le (hlater b hmem trivial)
      · exact .inl hlt'
      · exact .inr ⟨heq.symm, hle.imp id fun h => ⟨h.1, h.2.le⟩⟩

theorem above_setProbability (hthreshold : 0 ≤ threshold) (a : Nat × Nat) :
    above threshold (ws.setProbability a.1 a.2 0) = (above threshold ws).erase a := by
  rw [above_nodup.erase_eq_filter, above, above, List.filter_filter]
  refine List.filter_congr fun b _ => ?_
  rw [Bool.eq_iff_iff, decide_eq_true_iff, Bool.and_eq_true, bne_iff_ne, decide_eq_true_iff,
    setProbability_probabilities]
  split
  case isTrue h  =>
    exact iff_of_false (not_lt.mpr hthreshold) fun hne => hne.1 (Prod.ext h.1 h.2)
  case isFalse h =>
    exact ⟨fun hlt => ⟨fun hab => h ⟨congrArg _ hab, congrArg _ hab⟩, hlt⟩, fun hne => hne.2⟩

theorem Holds.setProbability (h : Holds threshold p ws) (hthreshold : 0 ≤ threshold)
    (a : Nat × Nat) : Holds threshold p (ws.setProbability a.1 a.2 0) := by
  intro b hb
  rw [setProbability_probabilities]
  split
  case isTrue  => exact fun hlt => absurd hlt (not_lt.mpr hthreshold)
  case isFalse => exact h b hb

-- The result for a pair.
def resultOf (region : Nat → Region) (p : Nat → Nat → Rat) (a : Nat × Nat) : Result :=
  result (region a.1) a.2 (p a.1 a.2)

theorem pick_spec {rounds : Nat} {results : List Result} (hthreshold : 0 ≤ threshold)
    (hholds : Holds threshold p ws) (hrounds : (above threshold ws).length < rounds) :
    ws.pick threshold rounds results = some (results ++
      ((((above threshold ws).mergeSort (before p)).filter
        fun a => ¬Empty (ws.candidates a.1)).take (resultMax - results.length)).map
          (resultOf ws.candidates p)) := by
  induction rounds generalizing ws results with
  | zero => exact absurd hrounds (Nat.not_lt_zero _)
  | succ rounds ih =>
    rw [Workspace.pick]
    split
    case isFalse hfull =>
      rw [Nat.sub_eq_zero_of_le (not_lt.mp hfull), List.take_zero, List.map_nil, List.append_nil]
    case isTrue hroom  =>
      cases hbest : ws.bestPair threshold with
      | none   =>
        rw [bestPair_none hbest, List.mergeSort_nil, List.filter_nil, List.take_nil, List.map_nil,
          List.append_nil]
      | some a =>
        obtain ⟨hmem, hfirst⟩ := bestPair_some hholds hbest
        have hsort := Greedy.mergeSort_eq_cons before_trans before_total before_antisymm hmem hfirst
        rw [← above_setProbability hthreshold a] at hsort
        have hless : (above threshold (ws.setProbability a.1 a.2 0)).length < rounds := by
          rw [above_setProbability hthreshold, List.length_erase_of_mem hmem]
          have hpos := List.length_pos_of_mem hmem
          omega
        have hprob := hholds a (mem_above.mp hmem).1 (mem_above.mp hmem).2
        have hnext (results : List Result) :=
          @ih (ws.setProbability a.1 a.2 0) results (hholds.setProbability hthreshold a) hless
        have hsame : (ws.setProbability a.1 a.2 0).candidates = ws.candidates := rfl
        dsimp only
        rw [hsort]
        split
        case isTrue hempty  =>
          rw [hsame] at hempty
          rw [hnext, hsame, List.filter_cons_of_neg (by simpa using hempty)]
        case isFalse hseen =>
          rw [hsame] at hseen
          obtain ⟨room, hroom⟩ : ∃ room, resultMax - results.length = room + 1 :=
            ⟨resultMax - results.length - 1, by omega⟩
          have hleft : resultMax - (results.length + 1) = room := by omega
          rw [hnext, hsame, List.filter_cons_of_pos (by simpa using hseen), hroom,
            List.take_succ_cons, List.map_cons, List.length_append, List.length_singleton, hleft,
            List.append_assoc, hprob]
          rfl

end Pick
section Claim

variable (exp : Rat → Rat) (output : Nat → Rat) (threshold nms : Rat)

-- The candidates of a class that survive.
def surviving (classId : Nat) : List Nat :=
  survivors (regionOf exp output) (probabilityOf exp output · classId) threshold nms

-- The pairs that survive and whose boxes are not empty, in the order of the results.
def answers : List (Nat × Nat) :=
  (pairs.filter fun a => a.1 ∈ surviving exp output threshold nms a.2 ∧
    ¬Empty (regionOf exp output a.1)).mergeSort (before (probabilityOf exp output))

variable {exp output threshold nms}

theorem agrees_of_fill (hthreshold : 0 ≤ threshold) (ws : Workspace) {a k : Nat}
    (ha : a < candidateMax) (hk : k < classCount) :
    Agrees threshold ((fill exp output threshold ws).1.probabilities a k)
      (probabilityOf exp output a k) := by
  rw [(@fill_spec exp output threshold ws a ha).2 k hk]
  split
  case isTrue       => exact .inl rfl
  case isFalse hlow => exact .inr ⟨hthreshold, (not_le.mp hlow).le⟩

theorem answers_eq {ws : Workspace}
    (hregion : ∀ a < candidateMax, ws.candidates a = regionOf exp output a)
    (hsettled : ∀ k < classCount, Settled (regionOf exp output) (probabilityOf exp output · k)
      threshold nms (ws.probabilities · k)) :
    ((above threshold ws).mergeSort (before (probabilityOf exp output))).filter
      (fun a => ¬Empty (ws.candidates a.1)) = answers exp output threshold nms := by
  rw [Greedy.filter_mergeSort before_trans before_total before_antisymm, answers, above,
    List.filter_filter]
  congr 1
  refine List.filter_congr fun a ha => ?_
  obtain ⟨ha, hk⟩ := mem_pairs.mp ha
  rw [Bool.eq_iff_iff, Bool.and_eq_true, decide_eq_true_iff, decide_eq_true_iff,
    decide_eq_true_iff, hregion a.1 ha, and_comm]
  exact and_congr_left fun _ => (hsettled a.2 hk a.1 ha).1

theorem resultOf_congr {ws : Workspace}
    (hregion : ∀ a < candidateMax, ws.candidates a = regionOf exp output a) {as : List (Nat × Nat)}
    (has : ∀ a ∈ as, a ∈ pairs) :
    as.map (resultOf ws.candidates (probabilityOf exp output)) =
      as.map (resultOf (regionOf exp output) (probabilityOf exp output)) := by
  refine List.map_congr_left fun a ha => ?_
  rw [resultOf, resultOf, hregion a.1 (mem_pairs.mp (has a ha)).1]

theorem mem_pairs_of_mem_answers {a : Nat × Nat} (h : a ∈ answers exp output threshold nms) :
    a ∈ pairs ∧ ¬Empty (regionOf exp output a.1) := by
  rw [answers, List.mem_mergeSort, List.mem_filter, decide_eq_true_iff] at h
  exact ⟨h.1, h.2.2⟩

theorem coordinate_range (normalized : Rat) {limit : Nat} (h : 0 < limit) (h' : limit ≤ 32767) :
    0 ≤ (coordinate normalized limit).toInt ∧ (coordinate normalized limit).toInt < limit := by
  rw [coordinate]
  split
  case isTrue => exact ⟨le_rfl, Int.natCast_pos.mpr h⟩
  case isFalse hneg =>
    split
    case isTrue =>
      have hlimit : (Int16.ofNat (limit - 1)).toInt = (limit - 1 : Nat) :=
        Int16.toInt_ofNat_of_lt (by omega)
      rw [hlimit]
      omega
    case isFalse hlt =>
      rw [Int16.toInt_ofInt_of_le (by omega) (by omega)]
      omega

-- The numbers of a result.
structure InBounds (r : Result) : Prop where
  x : 0 ≤ r.box.x.toInt ∧ 0 < r.box.w.toInt ∧ r.box.x.toInt + r.box.w.toInt ≤ 319
  y : 0 ≤ r.box.y.toInt ∧ 0 < r.box.h.toInt ∧ r.box.y.toInt + r.box.h.toInt ≤ 239
  confidence : r.confidence.toNat ≤ 1000

theorem result_inBounds {region : Region} {classId : Nat} {probability : Rat}
    (h : ¬Empty region) : InBounds (result region classId probability) := by
  obtain ⟨hx, hy⟩ := not_or.mp h
  have hleft := @coordinate_range (region.x - region.w * (1 / 2)) inputW (by decide) (by decide)
  have hright := @coordinate_range (region.x + region.w * (1 / 2)) inputW (by decide) (by decide)
  have htop := @coordinate_range (region.y - region.h * (1 / 2)) inputH (by decide) (by decide)
  have hbottom := @coordinate_range (region.y + region.h * (1 / 2)) inputH (by decide) (by decide)
  have hleft : 0 ≤ (left region).toInt ∧ (left region).toInt < 320 := hleft
  have hright : 0 ≤ (right region).toInt ∧ (right region).toInt < 320 := hright
  have htop : 0 ≤ (top region).toInt ∧ (top region).toInt < 240 := htop
  have hbottom : 0 ≤ (bottom region).toInt ∧ (bottom region).toInt < 240 := hbottom
  have hx := mt Int16.le_iff_toInt_le.mpr hx
  have hy := mt Int16.le_iff_toInt_le.mpr hy
  have hw : (Int16.ofInt ((right region).toInt - (left region).toInt)).toInt =
      (right region).toInt - (left region).toInt :=
    Int16.toInt_ofInt_of_le (by omega) (by omega)
  have hh : (Int16.ofInt ((bottom region).toInt - (top region).toInt)).toInt =
      (bottom region).toInt - (top region).toInt :=
    Int16.toInt_ofInt_of_le (by omega) (by omega)
  rw [result]
  constructor
  case x =>
    dsimp only
    rw [hw]
    omega
  case y =>
    dsimp only
    rw [hh]
    omega
  case confidence =>
    dsimp only
    split
    case isTrue      => decide
    case isFalse hle => exact UInt16.le_iff_toNat_le.mp (UInt16.not_lt.mp hle)

-- Survivors do not clash.
theorem surviving_apart {classId : Nat} :
    ∀ a ∈ surviving exp output threshold nms classId,
      ∀ b ∈ surviving exp output threshold nms classId, a ≠ b →
        iou (regionOf exp output a) (regionOf exp output b) ≤ nms := by
  have hpairwise := @Greedy.keep_pairwise Nat (Clash (regionOf exp output) nms) _
    (ranked (probabilityOf exp output · classId) threshold)
  have hapart : (surviving exp output threshold nms classId).Pairwise fun a b =>
      a ≠ b → iou (regionOf exp output a) (regionOf exp output b) ≤ nms := by
    rw [surviving, survivors]
    refine hpairwise.imp fun hab _ => ?_
    exact not_lt.mp hab
  refine List.Pairwise.forall_of_forall_of_flip (fun a _ hne => absurd rfl hne) hapart
    (hapart.imp fun hab hne => ?_)
  rw [iou_comm]
  exact hab hne.symm

theorem length_pairs : pairs.length = 7000 := by
  rw [pairs, List.length_flatMap]
  simp only [List.length_map, List.length_range, List.map_const', List.sum_replicate]
  rfl

end Claim

-- The loops end, and the results are the ones of the greedy choice.
theorem postprocess_greedy (exp : Rat → Rat) (output : Nat → Rat)
    (confidencePercent nmsPercent : UInt8) (ws : Workspace) :
    let threshold : Rat := confidencePercent.toNat / 100
    let nms : Rat := nmsPercent.toNat / 100
    let results := ((answers exp output threshold nms).take resultMax).map
      (resultOf (regionOf exp output) (probabilityOf exp output))
    (∃ candidates, ∀ rounds, 7000 < rounds →
      postprocess exp rounds (some output) outputBytes confidencePercent nmsPercent ws =
        some (candidates, results)) ∧
    (∀ r ∈ results, InBounds r) ∧
    ∀ classId, ∀ a ∈ surviving exp output threshold nms classId,
      ∀ b ∈ surviving exp output threshold nms classId, a ≠ b →
        iou (regionOf exp output a) (regionOf exp output b) ≤ nms := by
  intro threshold nms results
  have hthreshold : 0 ≤ threshold := by positivity
  refine ⟨⟨(fill exp output threshold ws).2, fun rounds hrounds => ?_⟩, fun r hr => ?_, fun _ =>
    surviving_apart⟩
  · have hregion (a : Nat) (ha : a < candidateMax) :
        (fill exp output threshold ws).1.candidates a = regionOf exp output a :=
      (@fill_spec exp output threshold ws a ha).1
    have hmax : candidateMax < rounds := lt_trans (by decide) hrounds
    obtain ⟨ws', hrun, hcandidates, hsettled, -⟩ := @suppressAll_spec threshold nms
      (fill exp output threshold ws).1 (regionOf exp output) (probabilityOf exp output) rounds
      hthreshold hmax hregion classCount
      fun a ha k hk => agrees_of_fill hthreshold ws ha hk
    have hregion' (a : Nat) (ha : a < candidateMax) :
        ws'.candidates a = regionOf exp output a := (congrFun hcandidates a).trans (hregion a ha)
    have hholds : Holds threshold (probabilityOf exp output) ws' := fun a ha =>
      (hsettled a.2 (mem_pairs.mp ha).2 a.1 (mem_pairs.mp ha).1).2
    have habove : (above threshold ws').length < rounds :=
      lt_of_le_of_lt ((List.length_filter_le _ _).trans_eq length_pairs) hrounds
    have hpick := @pick_spec threshold ws' (probabilityOf exp output) rounds [] hthreshold hholds
      habove
    rw [answers_eq hregion' hsettled, List.length_nil, Nat.sub_zero, List.nil_append,
      resultOf_congr hregion' fun a ha =>
        (mem_pairs_of_mem_answers (List.mem_of_mem_take ha)).1] at hpick
    rw [postprocess]
    dsimp only
    have hall : (fill exp output threshold ws).1.suppressAll threshold nms rounds = some ws' := hrun
    rw [if_neg (not_not.mpr rfl), hall, Option.bind_eq_bind, Option.bind_some, hpick]
    rfl
  · obtain ⟨a, ha, rfl⟩ := List.mem_map.mp hr
    exact result_inBounds (mem_pairs_of_mem_answers (List.mem_of_mem_take ha)).2

end ObjectDetect
