import HackyLens.Input.State
import Mathlib.Data.List.Basic
import Mathlib.Tactic

-- What a cursor receives: all events from its opening on, or a report of those that it has missed.

namespace Input

open App (Result)

-- What a sample can do.
inductive Sampled (s : State) (timestampUs : UInt64) (rawState : UInt32) : Result → State → Prop
  | first {s'} : s.initialized = false → rawState &&& ~~~buttonAll = 0 → s'.initialized = true →
    s'.sequence = s.sequence → s'.events = s.events → s'.stableState = rawState →
    s'.candidateState = rawState → s'.candidateSinceUs = timestampUs →
    Sampled s timestampUs rawState .ok s'
  | quiet {r n} : (r = .ok → s.initialized = true ∧ rawState = s.candidateState) →
    Sampled s timestampUs rawState r { s with nextSampleUs := n }
  | candidate {n} : s.initialized = true → rawState &&& ~~~buttonAll = 0 →
    Sampled s timestampUs rawState .ok { s with
      nextSampleUs := n, candidateState := rawState, candidateSinceUs := timestampUs }
  | created {n} : s.initialized = true → rawState = s.candidateState → rawState ≠ s.stableState →
    rawState &&& ~~~buttonAll = 0 → s.candidateSinceUs.toNat + debounceIntervalUs.toNat ≤
      timestampUs.toNat → s.sequence ≠ 0xFFFFFFFFFFFFFFFF →
    Sampled s timestampUs rawState .ok
      ({ s with nextSampleUs := n }.createEvent timestampUs rawState)

section Sample

variable {s : State} {timestampUs : UInt64} {rawState : UInt32}

theorem sampled : Sampled s timestampUs rawState (s.sample timestampUs rawState).fst
    (s.sample timestampUs rawState).snd := by
  rw [State.sample]
  have refused {r : Result} (hr : r ≠ .ok) : Sampled s timestampUs rawState r s :=
    .quiet fun he => absurd he hr
  split
  case isTrue => exact refused (show Result.invalidArgument ≠ .ok by decide)
  case isFalse hv =>
    obtain ⟨_, hv⟩ := not_or.mp hv
    have hv := not_not.mp hv
    split
    case isTrue hi => exact .first (by simpa using hi) hv rfl rfl rfl rfl rfl rfl
    case isFalse hi =>
      have hi : s.initialized = true := by simpa using hi
      split
      case isTrue => exact refused (show Result.internal ≠ .ok by decide)
      case isFalse hs =>
        split
        case isTrue => exact refused (show Result.pending ≠ .ok by decide)
        case isFalse =>
          split
          case isTrue => exact refused (show Result.limit ≠ .ok by decide)
          case isFalse =>
            dsimp only
            split
            case isTrue => exact .candidate hi hv
            case isFalse hc =>
              have hc := not_not.mp hc
              split
              case isTrue => exact .quiet fun _ => ⟨hi, hc⟩
              case isFalse hd =>
                obtain ⟨hst, hd⟩ := not_or.mp hd
                split
                case isTrue =>
                  exact .quiet fun he => absurd he (show Result.limit ≠ .ok by decide)
                case isFalse hm =>
                  refine .created hi hc hst hv ?_ hm
                  have hs := UInt64.le_iff_toNat_le.mp (UInt64.not_lt.mp hs)
                  have hd := UInt64.le_iff_toNat_le.mp (UInt64.not_lt.mp hd)
                  rw [UInt64.toNat_sub_of_le _ _ (UInt64.le_iff_toNat_le.mpr hs)] at hd
                  omega

end Sample

-- The state after the first `n` events.
def stateAt (initial : UInt32) (history : List Event) : Nat → UInt32
  | 0     => initial
  | n + 1 => (history.getD n .zero).state

-- What a cursor has received since its opening, by the number of the event that it comes to next
-- and the state that it has been told. An event is the next one. An overflow stands for all that it
-- has skipped, and has the state of that time.
inductive Follows (initial : UInt32) (history : List Event) (first : Nat) :
    List (Result × Event × State) → Nat → UInt32 → Prop
  | opened : Follows initial history first [] first (stateAt initial history (first - 1))
  | event {received next state e s} : Follows initial history first received next state →
    history[next - 1]? = some e → e.sequence.toNat = next → e.state = state ^^^ e.changed →
    Follows initial history first (received ++ [(.ok, e, s)]) (next + 1) e.state
  | overflow {received next state e s skipped} : Follows initial history first received next state →
    0 < skipped → next + skipped = s.sequence.toNat + 1 → e.sequence = s.sequence →
    e.dropped.toNat = min skipped 0xFFFFFFFF → e.state = s.stableState →
    Follows initial history first (received ++ [(.overflow, e, s)]) (next + skipped) e.state

-- The buttons that have changed are those that were pressed and those that were released.
def Partitioned (e : Event) : Prop :=
  e.pressed ||| e.released = e.changed ∧ e.pressed &&& e.released = 0

-- The samples at the end of some of them have all had the state of the event, for long enough.
def Debounced (samples : List (UInt64 × UInt32)) (e : Event) : Prop :=
  ∃ front since run rest,
    samples = front ++ (since, e.state) :: run ++ (e.timestampUs, e.state) :: rest ∧
    (∀ sample ∈ run, sample.snd = e.state) ∧
    since.toNat + debounceIntervalUs.toNat ≤ e.timestampUs.toNat

section History

variable {initial : UInt32} {history history' : List Event} {n : Nat} {e : Event}

theorem stateAt_append (h : n ≤ history.length) :
    stateAt initial (history ++ history') n = stateAt initial history n := by
  cases n with
  | zero   => rfl
  | succ n =>
    rw [stateAt, stateAt, List.getD_eq_getElem?_getD, List.getD_eq_getElem?_getD,
      List.getElem?_append_left h]

theorem Debounced.append {samples samples' : List (UInt64 × UInt32)} (h : Debounced samples e) :
    Debounced (samples ++ samples') e := by
  obtain ⟨front, since, run, rest, rfl, hr, ht⟩ := h
  exact ⟨front, since, run, rest ++ samples', by simp, hr, ht⟩

theorem Follows.append {first next : Nat} {received : List (Result × Event × State)}
    {state : UInt32} (h : Follows initial history first received next state)
    (hf : first ≤ history.length + 1) :
    Follows initial (history ++ history') first received next state := by
  induction h with
  | opened =>
    rw [← stateAt_append (show first - 1 ≤ history.length by omega)]
    exact .opened
  | event _ he hs hst ih =>
    refine .event ih ?_ hs hst
    rw [List.getElem?_append_left (List.getElem?_eq_some_iff.mp he).fst]
    exact he
  | overflow _ hp hn hs hd hst ih => exact .overflow ih hp hn hs hd hst

end History

section Bits

theorem partition_pressed {raw stable : UInt32} (hr : raw &&& ~~~buttonAll = 0)
    (hs : stable &&& ~~~buttonAll = 0) :
    (raw ^^^ stable) &&& raw ||| (raw ^^^ stable) &&& ~~~raw &&& buttonAll = raw ^^^ stable ∧
      ((raw ^^^ stable) &&& raw) &&& ((raw ^^^ stable) &&& ~~~raw &&& buttonAll) = 0 := by
  have hr' (i : Nat) := congrArg (fun x => x.toBitVec.getLsbD i) hr
  have hs' (i : Nat) := congrArg (fun x => x.toBitVec.getLsbD i) hs
  constructor
  all_goals
    refine UInt32.toBitVec_inj.mp (BitVec.eq_of_getLsbD_eq fun i hi => ?_)
    have hr := hr' i
    have hs := hs' i
    simp [hi] at hr hs ⊢
    cases hra : raw.toBitVec.getLsbD i <;> cases hsa : stable.toBitVec.getLsbD i <;>
      simp_all

end Bits

namespace World

-- What is known of a cursor that is open.
def CursorInv (w : World) (i : Nat) : Prop :=
  w.opened i ≤ w.history.length + 1 ∧ ∃ next, 0 < next ∧ next ≤ w.history.length + 1 ∧
    (w.cursors i).nextSequence = .ofNat next ∧
    Follows w.initial w.history (w.opened i) (w.received i) next
      (stateAt w.initial w.history (next - 1))

structure Inv (w : World) : Prop where
  sequence : w.state.sequence.toNat = w.history.length
  ring : ∀ n < w.history.length, w.history.length ≤ n + eventCapacity →
    w.history[n]? = some (w.state.events (n % eventCapacity))
  event : ∀ n e, w.history[n]? = some e → e.sequence.toNat = n + 1 ∧ Partitioned e ∧
    Debounced w.samples e ∧ e.state = stateAt w.initial w.history n ^^^ e.changed
  stable : w.state.stableState &&& ~~~buttonAll = 0
  initial : w.state.initialized = true →
    w.state.stableState = stateAt w.initial w.history w.history.length
  fresh : w.state.initialized = false → w.history = [] ∧ w.initial = w.state.stableState ∧
    ∀ i, w.received i = [] ∧ ((w.cursors i).active = true → w.opened i = 1)
  candidate : w.state.initialized = true → ∃ front run,
    w.samples = front ++ (w.state.candidateSinceUs, w.state.candidateState) :: run ∧
    ∀ sample ∈ run, sample.snd = w.state.candidateState
  cursors : ∀ i, (w.cursors i).active = true → w.CursorInv i

variable {w : World}

theorem inv_start : Inv start where
  sequence      := rfl
  ring _ h      := absurd h (Nat.not_lt_zero _)
  event _ _ h   := absurd h (by simp [start])
  stable        := rfl
  initial h     := absurd h Bool.false_ne_true
  fresh _       := ⟨rfl, rfl, fun _ => ⟨rfl, fun h => absurd h Bool.false_ne_true⟩⟩
  candidate h   := absurd h Bool.false_ne_true
  cursors _ h   := absurd h Bool.false_ne_true

-- The first sample is the state that all cursors start from.
theorem Inv.first {s' : State} {timestampUs : UInt64} {rawState : UInt32} (h : w.Inv)
    (hi : w.state.initialized = false) (hv : rawState &&& ~~~buttonAll = 0)
    (hi' : s'.initialized = true) (hq : s'.sequence = w.state.sequence)
    (hst : s'.stableState = rawState) (hc : s'.candidateState = rawState)
    (hcs : s'.candidateSinceUs = timestampUs) : Inv { w with
      state := s', initial := rawState, samples := w.samples ++ [(timestampUs, rawState)] } := by
  obtain ⟨hhist, _, hfresh⟩ := h.fresh hi
  refine ⟨?_, ?_, ?_, ?_, ?_, ?_, ?_, ?_⟩
  · rw [hq]
    exact h.sequence
  · intro n hn
    rw [hhist] at hn
    exact absurd hn (Nat.not_lt_zero n)
  · intro n e he
    rw [hhist] at he
    exact absurd he (by simp)
  · rw [hst]
    exact hv
  · intro _
    rw [hhist, hst]
    rfl
  · exact fun hn => absurd (hn.symm.trans hi') Bool.false_ne_true
  · intro _
    exact ⟨w.samples, [], by rw [hc, hcs], nofun⟩
  · intro i hact
    obtain ⟨hr, ho⟩ := hfresh i
    obtain ⟨_, next, hpos, hle, hnext, _⟩ := h.cursors i hact
    have ho : w.opened i = 1 := ho hact
    rw [hhist, List.length_nil] at hle
    obtain rfl : next = 1 := by omega
    refine ⟨?_, 1, Nat.one_pos, ?_, hnext, ?_⟩
    · rw [ho]
      exact Nat.le_add_left 1 _
    · exact Nat.le_add_left 1 _
    · dsimp only
      rw [hr, ho]
      exact .opened

theorem Inv.quiet {r : Result} {timestampUs n : UInt64} {rawState : UInt32} (h : w.Inv)
    (hr : r = .ok → w.state.initialized = true ∧ rawState = w.state.candidateState) :
    Inv { w with
      state   := { w.state with nextSampleUs := n }
      samples := if r = .ok then w.samples ++ [(timestampUs, rawState)] else w.samples } := by
  refine ⟨h.sequence, h.ring, ?_, h.stable, h.initial, h.fresh, ?_, h.cursors⟩
  · intro n e he
    obtain ⟨hs, hp, hd, hst⟩ := h.event n e he
    refine ⟨hs, hp, ?_, hst⟩
    dsimp only
    split
    · exact hd.append
    · exact hd
  · intro hi
    obtain ⟨front, run, hsamples, hrun⟩ := h.candidate hi
    dsimp only
    split
    case isFalse   => exact ⟨front, run, hsamples, hrun⟩
    case isTrue ho =>
      refine ⟨front, run ++ [(timestampUs, rawState)], by rw [hsamples]; simp, ?_⟩
      exact List.forall_mem_append.mpr ⟨hrun, List.forall_mem_singleton.mpr (hr ho).right⟩

theorem Inv.candidateSample {timestampUs n : UInt64} {rawState : UInt32} (h : w.Inv) :
    Inv { w with
      state := { w.state with
        nextSampleUs := n, candidateState := rawState, candidateSinceUs := timestampUs }
      samples := w.samples ++ [(timestampUs, rawState)] } := by
  refine ⟨h.sequence, h.ring, ?_, h.stable, h.initial, h.fresh, ?_, h.cursors⟩
  · intro n e he
    obtain ⟨hs, hp, hd, hst⟩ := h.event n e he
    exact ⟨hs, hp, hd.append, hst⟩
  · exact fun _ => ⟨w.samples, [], rfl, nofun⟩

theorem place_succ {sequence : UInt64} (h : sequence ≠ 0xFFFFFFFFFFFFFFFF) :
    (sequence + 1).toNat = sequence.toNat + 1 ∧
      State.place (sequence + 1) = sequence.toNat % eventCapacity := by
  have hm : (0xFFFFFFFFFFFFFFFF : UInt64).toNat = 18446744073709551615 := rfl
  have hlt := sequence.toNat_lt
  have hne : sequence.toNat ≠ 18446744073709551615 :=
    fun he => h (UInt64.toNat_inj.mp (he.trans hm.symm))
  refine ⟨?_, ?_⟩
  · rw [UInt64.toNat_add]
    exact Nat.mod_eq_of_lt (show _ + 1 < 18446744073709551616 by omega)
  · rw [State.place, UInt64.add_sub_cancel]

theorem Inv.created {timestampUs n : UInt64} {rawState : UInt32} (h : w.Inv)
    (hi : w.state.initialized = true) (hc : rawState = w.state.candidateState)
    (hv : rawState &&& ~~~buttonAll = 0) (hd : w.state.candidateSinceUs.toNat +
      debounceIntervalUs.toNat ≤ timestampUs.toNat) (hm : w.state.sequence ≠ 0xFFFFFFFFFFFFFFFF)
    {s' : State} (hs' : s' = { w.state with nextSampleUs := n }.createEvent timestampUs rawState) :
    Inv { w with
      state   := s'
      samples := w.samples ++ [(timestampUs, rawState)]
      history := w.history ++ [s'.events (State.place s'.sequence)] } := by
  obtain ⟨hq, hplace⟩ := place_succ hm
  rw [h.sequence] at hq hplace
  have hseq : s'.sequence = w.state.sequence + 1 := by rw [hs']; rfl
  have hev : s'.events = Function.update w.state.events (State.place (w.state.sequence + 1))
      (s'.events (State.place s'.sequence)) := by
    rw [hs']
    simp only [State.createEvent, Function.update_self]
  have hnew : s'.events (State.place s'.sequence) = {
      sequence    := w.state.sequence + 1
      timestampUs := timestampUs
      state       := rawState
      changed     := rawState ^^^ w.state.stableState
      pressed     := (rawState ^^^ w.state.stableState) &&& rawState
      released    := (rawState ^^^ w.state.stableState) &&& ~~~rawState &&& buttonAll
      dropped     := 0 } := by
    rw [hs']
    simp only [State.createEvent, Function.update_self]
  have hstable : s'.stableState = rawState := by rw [hs']; rfl
  have hrest : s'.initialized = w.state.initialized ∧
      s'.candidateSinceUs = w.state.candidateSinceUs ∧
      s'.candidateState = w.state.candidateState := by
    rw [hs']
    exact ⟨rfl, rfl, rfl⟩
  generalize s'.events (State.place s'.sequence) = e at hev hnew
  obtain ⟨front, run, hsamples, hrun⟩ := h.candidate hi
  refine ⟨?_, ?_, ?_, ?_, ?_, ?_, ?_, ?_⟩
  · rw [hseq, hq, List.length_append]
    rfl
  · intro m hlt hle
    rw [List.length_append, List.length_singleton] at hlt hle
    dsimp only
    rw [hev, hplace]
    by_cases hml : m = w.history.length
    case pos =>
      rw [hml, List.getElem?_append_right (Nat.le_refl _), Nat.sub_self, Function.update_self]
      rfl
    case neg =>
      have hne : m % eventCapacity ≠ w.history.length % eventCapacity := by
        rw [eventCapacity] at hle ⊢
        omega
      rw [List.getElem?_append_left (by omega), Function.update_of_ne hne]
      exact h.ring m (by omega) (by omega)
  · intro m e' he'
    by_cases hml : m < w.history.length
    case pos =>
      rw [List.getElem?_append_left hml] at he'
      obtain ⟨hs, hp, hdb, hst⟩ := h.event m e' he'
      refine ⟨hs, hp, hdb.append, ?_⟩
      rw [stateAt_append (Nat.le_of_lt hml)]
      exact hst
    case neg =>
      have hme := (List.getElem?_eq_some_iff.mp he').fst
      rw [List.length_append, List.length_singleton] at hme
      obtain rfl : m = w.history.length := by omega
      rw [List.getElem?_append_right (Nat.le_refl _), Nat.sub_self] at he'
      obtain rfl : e = e' := Option.some.inj he'
      rw [stateAt_append (Nat.le_refl _), ← h.initial hi, hnew]
      refine ⟨hq, partition_pressed hv h.stable, ?_, ?_⟩
      · refine ⟨front, w.state.candidateSinceUs, run, [], ?_, ?_, hd⟩
        · rw [hsamples, hc]
        · rw [hc]
          exact hrun
      · dsimp only
        rw [UInt32.xor_comm rawState, ← UInt32.xor_assoc, UInt32.xor_self, UInt32.zero_xor]
  · rw [hstable]
    exact hv
  · intro _
    dsimp only
    rw [List.length_append, List.length_singleton, stateAt, List.getD_eq_getElem?_getD,
      List.getElem?_append_right (Nat.le_refl _), Nat.sub_self, hstable]
    simp [hnew]
  · intro hn
    exact absurd ((hn.symm.trans hrest.left).trans hi) Bool.false_ne_true
  · intro _
    refine ⟨front, run ++ [(timestampUs, rawState)], ?_, ?_⟩
    · dsimp only
      rw [hrest.right.left, hrest.right.right, hsamples]
      simp
    · dsimp only
      rw [hrest.right.right]
      exact List.forall_mem_append.mpr ⟨hrun, List.forall_mem_singleton.mpr hc⟩
  · intro i hact
    obtain ⟨ho, next, hpos, hle, hnext, hf⟩ := h.cursors i hact
    refine ⟨?_, next, hpos, ?_, hnext, ?_⟩
    · rw [List.length_append]
      exact Nat.le_trans ho (by simp)
    · rw [List.length_append]
      exact Nat.le_trans hle (by simp)
    · dsimp only
      rw [stateAt_append (by omega)]
      exact hf.append ho

theorem inv_sample {timestampUs : UInt64} {rawState : UInt32} (h : w.Inv) :
    (w.sample timestampUs rawState).Inv := by
  have hs := @sampled w.state timestampUs rawState
  rw [sample]
  generalize w.state.sample timestampUs rawState = p at hs ⊢
  obtain ⟨r, s'⟩ := p
  dsimp only at hs ⊢
  cases hs with
  | first hi hv hi' hq _ hst hc hcs =>
    rw [if_pos hq, if_pos rfl, hi, if_neg Bool.false_ne_true, hst]
    exact h.first hi hv hi' hq hst hc hcs
  | quiet hr =>
    have hinit : (if w.state.initialized then w.initial else w.state.stableState) = w.initial := by
      split
      case isTrue     => rfl
      case isFalse hi => exact (h.fresh (by simpa using hi)).right.left.symm
    dsimp only
    rw [if_pos rfl, hinit]
    exact h.quiet hr
  | candidate hi _ =>
    dsimp only
    rw [if_pos rfl, if_pos rfl, if_pos hi]
    exact h.candidateSample
  | @created n hi hc _ hv hd hm =>
    have hne : ({ w.state with nextSampleUs := n }.createEvent timestampUs rawState).sequence ≠
        w.state.sequence := by
      intro he
      have hlt := congrArg UInt64.toNat (show w.state.sequence + 1 = w.state.sequence from he)
      rw [(place_succ hm).left] at hlt
      omega
    rw [if_pos rfl, if_pos hi, if_neg hne]
    exact h.created hi hc hv hd hm rfl

theorem inv_openCursor {i : Nat} (h : w.Inv) : (w.openCursor i).Inv := by
  rw [openCursor, State.openCursor]
  by_cases hm : w.state.sequence = 0xFFFFFFFFFFFFFFFF
  case pos =>
    rw [if_pos hm]
    exact h
  case neg =>
    rw [if_neg hm]
    dsimp only
    rw [if_pos rfl]
    refine ⟨h.sequence, h.ring, h.event, h.stable, h.initial, ?_, h.candidate, ?_⟩
    · intro hi
      obtain ⟨hhist, hinit, hfresh⟩ := h.fresh hi
      refine ⟨hhist, hinit, fun j => ?_⟩
      dsimp only
      by_cases hj : j = i
      case pos =>
        subst hj
        rw [Function.update_self, h.sequence, hhist]
        exact ⟨rfl, fun _ => Function.update_self _ _ _⟩
      case neg =>
        rw [Function.update_of_ne hj, Function.update_of_ne hj, Function.update_of_ne hj]
        exact hfresh j
    · intro j hact
      rw [CursorInv]
      dsimp only at hact ⊢
      by_cases hj : j = i
      case pos =>
        subst hj
        rw [Function.update_self, Function.update_self, Function.update_self, h.sequence]
        refine ⟨Nat.le_refl _, w.history.length + 1, Nat.succ_pos _, Nat.le_refl _, ?_, .opened⟩
        rw [← h.sequence, UInt64.ofNat_add, UInt64.ofNat_toNat]
        rfl
      case neg =>
        rw [Function.update_of_ne hj] at hact ⊢
        rw [Function.update_of_ne hj, Function.update_of_ne hj]
        exact h.cursors j hact

theorem inv_closeCursor {i : Nat} (h : w.Inv) :
    Inv { w with cursors := Function.update w.cursors i .closed } := by
  refine ⟨h.sequence, h.ring, h.event, h.stable, h.initial, ?_, h.candidate, ?_⟩
  · intro hi
    obtain ⟨hhist, hinit, hfresh⟩ := h.fresh hi
    refine ⟨hhist, hinit, fun j => ⟨(hfresh j).left, fun hact => ?_⟩⟩
    dsimp only at hact
    by_cases hj : j = i
    case pos =>
      subst hj
      rw [Function.update_self] at hact
      exact absurd hact Bool.false_ne_true
    case neg =>
      rw [Function.update_of_ne hj] at hact
      exact (hfresh j).right hact
  · intro j hact
    rw [CursorInv]
    dsimp only at hact ⊢
    by_cases hj : j = i
    case pos =>
      subst hj
      rw [Function.update_self] at hact
      exact absurd hact Bool.false_ne_true
    case neg =>
      rw [Function.update_of_ne hj] at hact ⊢
      exact h.cursors j hact

-- What one more delivery is to a cursor.
theorem Inv.received {i next : Nat} {delivery : Result × Event × State} {cursor : Cursor}
    (h : w.Inv) (hi : w.state.initialized = true) (ho : w.opened i ≤ w.history.length + 1)
    (hpos : 0 < next) (hle : next ≤ w.history.length + 1) (hc : cursor.nextSequence = .ofNat next)
    (hf : Follows w.initial w.history (w.opened i) (w.received i ++ [delivery]) next
      (stateAt w.initial w.history (next - 1))) :
    Inv { w with
      cursors  := Function.update w.cursors i cursor
      received := Function.update w.received i (w.received i ++ [delivery]) } := by
  refine ⟨h.sequence, h.ring, h.event, h.stable, h.initial, ?_, h.candidate, ?_⟩
  · exact fun hn => absurd (hn.symm.trans hi) Bool.false_ne_true
  · intro j hact
    rw [CursorInv]
    dsimp only at hact ⊢
    by_cases hj : j = i
    case pos =>
      subst hj
      rw [Function.update_self, Function.update_self]
      exact ⟨ho, next, hpos, hle, hc, hf⟩
    case neg =>
      rw [Function.update_of_ne hj] at hact ⊢
      rw [Function.update_of_ne hj]
      exact h.cursors j hact

theorem oldest_toNat (h : w.Inv) : w.state.oldest.toNat =
    if eventCapacity ≤ w.history.length then w.history.length - eventCapacity + 1 else 1 := by
  have hlt := w.state.sequence.toNat_lt
  have hcap : (UInt64.ofNat eventCapacity).toNat = eventCapacity := rfl
  rw [h.sequence] at hlt
  rw [State.oldest, h.sequence]
  split
  case isFalse => rfl
  case isTrue hge =>
    have hle : UInt64.ofNat eventCapacity ≤ w.state.sequence := by
      rw [UInt64.le_iff_toNat_le, hcap, h.sequence]
      exact hge
    rw [UInt64.toNat_add, UInt64.toNat_sub_of_le _ _ hle, hcap, h.sequence]
    rw [eventCapacity] at hge ⊢
    exact Nat.mod_eq_of_lt (show _ + 1 < 18446744073709551616 by omega)

theorem inv_nextEvent {i : Nat} (h : w.Inv) : (w.nextEvent i).Inv := by
  have same {r : Result} {e : Event} (hr : r ≠ .ok ∧ r ≠ .overflow) : Inv { w with
      cursors  := Function.update w.cursors i (w.cursors i)
      received := if r = .ok ∨ r = .overflow then
        Function.update w.received i (w.received i ++ [(r, e, w.state)]) else w.received } := by
    rw [Function.update_eq_self, if_neg (not_or.mpr hr)]
    exact h
  rw [nextEvent, State.nextEvent]
  by_cases hv : (!(w.cursors i).active || (w.cursors i).nextSequence = 0) = true
  case pos =>
    rw [if_pos hv]
    exact same (show Result.invalidState ≠ .ok ∧ Result.invalidState ≠ .overflow by decide)
  case neg =>
    rw [if_neg hv]
    rw [Bool.or_eq_true, not_or] at hv
    have hact : (w.cursors i).active = true := by simpa using hv.left
    have hz : (w.cursors i).nextSequence ≠ 0 := by simpa using hv.right
    obtain ⟨ho, next, hpos, hle, hnext, hf⟩ := h.cursors i hact
    have hlt := w.state.sequence.toNat_lt
    rw [h.sequence] at hlt
    have hn : (w.cursors i).nextSequence.toNat = next := by
      rw [hnext]
      refine UInt64.toNat_ofNat_of_lt' (show next < 18446744073709551616 from ?_)
      by_contra hge
      obtain rfl : next = 18446744073709551616 := by omega
      exact hz hnext
    by_cases hp : (w.cursors i).nextSequence > w.state.sequence
    case pos =>
      rw [if_pos hp]
      exact same (show Result.pending ≠ .ok ∧ Result.pending ≠ .overflow by decide)
    case neg =>
      rw [if_neg hp]
      rw [gt_iff_lt, UInt64.lt_iff_toNat_lt, hn, h.sequence, Nat.not_lt] at hp
      have hi : w.state.initialized = true := by
        by_contra hn
        have hhist := (h.fresh (by simpa using hn)).left
        rw [hhist, List.length_nil] at hp
        omega
      by_cases hold : (w.cursors i).nextSequence < w.state.oldest
      case pos =>
        rw [if_pos hold]
        dsimp only
        rw [if_pos (.inr rfl)]
        have hsub : (w.cursors i).nextSequence ≤ w.state.sequence := by
          rw [UInt64.le_iff_toNat_le, hn, h.sequence]
          exact hp
        have hd : (w.state.sequence - (w.cursors i).nextSequence + 1).toNat =
            w.history.length + 1 - next := by
          rw [UInt64.toNat_add, UInt64.toNat_sub_of_le _ _ hsub, hn, h.sequence]
          refine (Nat.mod_eq_of_lt (show _ + 1 < 18446744073709551616 by omega)).trans ?_
          omega
        have hover : next + (w.history.length + 1 - next) = w.history.length + 1 := by omega
        have hstate : (w.state.overflowEvent (w.cursors i)).state =
            stateAt w.initial w.history w.history.length := h.initial hi
        refine @Inv.received w i (w.history.length + 1) _ _ h hi ho (Nat.succ_pos _)
          (Nat.le_refl _) ?_ ?_
        · dsimp only
          rw [← h.sequence, UInt64.ofNat_add, UInt64.ofNat_toNat]
          rfl
        · rw [Nat.add_sub_cancel, ← hstate, ← hover]
          refine .overflow hf (by omega) ?_ rfl ?_ rfl
          · rw [h.sequence]
            exact hover
          · rw [State.overflowEvent]
            dsimp only
            have hmax : (0xFFFFFFFF : UInt64).toNat = 4294967295 := rfl
            split
            case isTrue hgt =>
              rw [gt_iff_lt, UInt64.lt_iff_toNat_lt, hd, hmax] at hgt
              exact (Nat.min_eq_right (Nat.le_of_lt hgt)).symm
            case isFalse hgt =>
              rw [gt_iff_lt, UInt64.lt_iff_toNat_lt, hd, hmax, Nat.not_lt] at hgt
              rw [UInt64.toNat_toUInt32, hd, Nat.min_eq_left hgt]
              exact Nat.mod_eq_of_lt (show _ < 4294967296 by omega)
      case neg =>
        rw [if_neg hold]
        dsimp only
        rw [if_pos (.inl rfl)]
        rw [UInt64.lt_iff_toNat_lt, hn, oldest_toNat h, Nat.not_lt] at hold
        have hplace : State.place (w.cursors i).nextSequence = (next - 1) % eventCapacity := by
          have hone : (1 : UInt64) ≤ (w.cursors i).nextSequence := by
            rw [UInt64.le_iff_toNat_le, hn]
            exact hpos
          rw [State.place, UInt64.toNat_sub_of_le _ _ hone, hn]
          rfl
        have hring : w.history[next - 1]? =
            some (w.state.events (State.place (w.cursors i).nextSequence)) := by
          rw [hplace]
          refine h.ring (next - 1) (by omega) ?_
          split at hold <;> omega
        generalize w.state.events (State.place (w.cursors i).nextSequence) = e at hring
        obtain ⟨hs, _, _, hst⟩ := h.event _ e hring
        have hstate : e.state = stateAt w.initial w.history next := by
          obtain ⟨k, rfl⟩ := Nat.exists_eq_succ_of_ne_zero (Nat.ne_of_gt hpos)
          rw [Nat.succ_eq_add_one, Nat.add_sub_cancel] at hring
          rw [stateAt, List.getD_eq_getElem?_getD, hring, Option.getD_some]
        refine @Inv.received w i (next + 1) _ _ h hi ho (Nat.succ_pos _) (by omega) ?_ ?_
        · dsimp only
          rw [hnext, UInt64.ofNat_add]
          rfl
        · rw [Nat.add_sub_cancel, ← hstate]
          exact .event hf hring (by omega) hst

theorem inv_step {op : Op} (h : w.Inv) : (w.step op).Inv := by
  cases op with
  | sample _ _    => exact inv_sample h
  | openCursor _  => exact inv_openCursor h
  | closeCursor _ => exact inv_closeCursor h
  | nextEvent _   => exact inv_nextEvent h

theorem inv_run {ops : List Op} : (run ops).Inv := by
  have from_inv {w : World} (h : w.Inv) : (ops.foldl step w).Inv := by
    induction ops generalizing w with
    | nil => exact h
    | cons op ops ih => exact ih (inv_step h)
  exact from_inv inv_start

-- Whatever is sampled and read in whatever order, each cursor that is open has received all events
-- from its opening on but those that an overflow stands for, and the changes that it has been told
-- lead to the state that it has been told.
theorem cursors_follow {ops : List Op} :
    (∀ i, ((run ops).cursors i).active = true → ∃ next state,
      Follows (run ops).initial (run ops).history ((run ops).opened i) ((run ops).received i) next
        state) ∧
    (∀ n e, (run ops).history[n]? = some e → e.sequence.toNat = n + 1 ∧ Partitioned e ∧
      Debounced (run ops).samples e) ∧
    (run ops).state.sequence.toNat = (run ops).history.length ∧
    ((run ops).state.initialized = true → (run ops).state.stableState =
      stateAt (run ops).initial (run ops).history (run ops).history.length) := by
  refine ⟨fun i hact => ?_, fun n e he => ?_, inv_run.sequence, inv_run.initial⟩
  · obtain ⟨_, next, _, _, _, hf⟩ := inv_run.cursors i hact
    exact ⟨next, _, hf⟩
  · obtain ⟨hs, hp, hd, _⟩ := inv_run.event n e he
    exact ⟨hs, hp, hd⟩

end World
end Input
