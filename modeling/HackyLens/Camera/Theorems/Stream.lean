import HackyLens.Camera.Stream
import HackyLens.Lib.Run

-- Each of the camera's buffers has one user at a time.

namespace CameraStream

open FramePool (Pool Borrow cameraSlotCount)

variable {s s' : State} {i j : Index} {w : World}

-- No two users have a buffer.
structure Exclusive (s : State) : Prop where
  capturing : ∀ i, (s.slots i).state = .capturing ↔ s.captureSlot = some i
  display : ∀ i, s.captureSlot = some i → s.dvp.displayAddr = some i
  pool : s.pool.cameraReserved → s.pool.workspaceActiveGeneration = 0

structure Inv (s : State) : Prop where
  exclusive : Exclusive s
  reserved : s.running → s.pool.cameraReserved
  irq : s.dvp.irqActive → s.running
  idle : s.running = false → ∀ i, (s.slots i).state = .free
  ready : ∀ i, (s.slots i).state = .ready → (s.slots i).sequence ≤ s.nextSequence

-- Two states that differ in what the buffers do not depend on.
structure Alike (s s' : State) : Prop where
  slots : s'.slots = s.slots
  running : s'.running = s.running
  captureSlot : s'.captureSlot = s.captureSlot
  nextSequence : s'.nextSequence = s.nextSequence
  nextLeaseId : s'.nextLeaseId = s.nextLeaseId
  dvp : s'.dvp = s.dvp
  pool : s'.pool = s.pool

theorem Alike.rfl : Alike s s :=
  ⟨Eq.refl _, Eq.refl _, Eq.refl _, Eq.refl _, Eq.refl _, Eq.refl _, Eq.refl _⟩

theorem Inv.congr (h : Inv s) (a : Alike s s') : Inv s' := by
  obtain ⟨ha, hb, hc, hd, he, hf, hg⟩ := a
  refine ⟨⟨?_, ?_, ?_⟩, ?_, ?_, ?_, ?_⟩
  · rw [ha, hc]
    exact h.exclusive.capturing
  · rw [hc, hf]
    exact h.exclusive.display
  · rw [hg]
    exact h.exclusive.pool
  · rw [hb, hg]
    exact h.reserved
  · rw [hb, hf]
    exact h.irq
  · rw [ha, hb]
    exact h.idle
  · rw [ha, hd]
    exact h.ready

section Searches

variable {slots : Index → Slot} {is : List Index}

open State

-- A frame goes to a slot that nobody uses, or replaces one that nobody has asked for.
theorem captureCandidateFrom_spec {oldest : Option Index}
    (h : ∀ j ∈ oldest, (slots j).state = .ready)
    (hi : captureCandidateFrom slots oldest is = some i) :
    (slots i).state = .free ∨ (slots i).state = .ready := by
  induction is generalizing oldest with
  | nil => exact .inr (h i hi)
  | cons j is ih =>
    rw [captureCandidateFrom] at hi
    split at hi
    case isTrue hf =>
      cases hi
      exact .inl hf
    case isFalse =>
      split at hi
      case isTrue hr =>
        refine ih (fun k hk => ?_) hi
        cases hk
        exact hr.left
      case isFalse => exact ih h hi

theorem newestReadyFrom_spec {newest : Option Index} (h : ∀ j ∈ newest, (slots j).state = .ready)
    (hi : newestReadyFrom slots newest is = some i) :
    (slots i).state = .ready ∧
      (∀ j ∈ newest, (slots j).sequence ≤ (slots i).sequence) ∧
      ∀ j ∈ is, (slots j).state = .ready → (slots j).sequence ≤ (slots i).sequence := by
  induction is generalizing newest with
  | nil =>
    refine ⟨h i hi, fun j hj => ?_, nofun⟩
    cases hj.symm.trans hi
    exact UInt32.le_refl _
  | cons k is ih =>
    rw [newestReadyFrom] at hi
    split at hi
    case isTrue hk =>
      have hr (j : Index) (hj : j ∈ some k) : (slots j).state = .ready := by
        cases hj
        exact hk.left
      obtain ⟨hs, hn, hl⟩ := ih hr hi
      have hk' : (slots k).sequence ≤ (slots i).sequence := hn k rfl
      refine ⟨hs, fun j hj => ?_, fun j hj hjr => ?_⟩
      · exact UInt32.le_trans (UInt32.le_of_lt (hk.right j hj)) hk'
      · rcases List.mem_cons.mp hj with rfl | hj
        · exact hk'
        · exact hl j hj hjr
    case isFalse hk =>
      obtain ⟨hs, hn, hl⟩ := ih h hi
      refine ⟨hs, hn, fun j hj hjr => ?_⟩
      rcases List.mem_cons.mp hj with rfl | hj
      · -- It is passed over because the one that was found before is at least as new.
        simp only [not_and, not_forall] at hk
        obtain ⟨m, hm, hlt⟩ := hk hjr
        exact UInt32.le_trans (UInt32.not_lt.mp hlt) (hn m hm)
      · exact hl j hj hjr

theorem captureCandidate_spec (h : s.captureCandidate = some i) :
    (s.slots i).state = .free ∨ (s.slots i).state = .ready :=
  captureCandidateFrom_spec (by rintro _ ⟨⟩) h

theorem newestReady_spec (h : s.newestReady = some i) :
    (s.slots i).state = .ready ∧
      ∀ j, (s.slots j).state = .ready → (s.slots j).sequence ≤ (s.slots i).sequence := by
  obtain ⟨hs, _, hl⟩ := newestReadyFrom_spec (by rintro _ ⟨⟩) h
  exact ⟨hs, fun j => hl j (List.mem_finRange j)⟩

end Searches

section Steps

-- A frame that is complete, one that begins, and one that is handed out.
def captured (s : State) (i : Index) : State :=
  { s.setSlot i ⟨.ready, s.nextSequence + 1, (s.slots i).leaseId⟩ with
    nextSequence := s.nextSequence + 1
    captureSlot  := none }

def converting (s : State) (i : Index) : State :=
  { s.setSlot i { s.slots i with state := .capturing } with
    captureSlot := some i
    dvp := ⟨s.pool.cameraSlot i, s.dvp.irqActive, s.pool.cameraSlot i :: s.dvp.conversions⟩ }

def leased (s : State) (i : Index) : State :=
  { (s.freeReady (some i)).setSlot i ⟨.leased, (s.slots i).sequence, s.nextLeaseId + 1⟩ with
    nextLeaseId := s.nextLeaseId + 1 }

theorem onEvent_cases (event : Event) (status : UInt32) :
    Alike s (s.onEvent event status) ∨
    (∃ i, event = .frameFinish ∧ s.captureSlot = some i ∧ (s.slots i).state = .capturing ∧
      Alike (captured s i) (s.onEvent event status)) ∨
    (∃ i, s.running ∧ s.captureSlot = none ∧
      ((s.slots i).state = .free ∨ (s.slots i).state = .ready) ∧
      Alike (converting s i) (s.onEvent event status)) := by
  cases event
  case frameFinish =>
    simp only [State.onEvent, State.onFrameFinish]
    split
    case h_2 => exact .inl ⟨rfl, rfl, rfl, rfl, rfl, rfl, rfl⟩
    case h_1 i hi =>
      split
      case isFalse => exact .inl ⟨rfl, rfl, rfl, rfl, rfl, rfl, rfl⟩
      case isTrue hc => exact .inr <| .inl ⟨i, trivial, hi, hc, rfl, rfl, rfl, rfl, rfl, rfl, rfl⟩
  case frameStart =>
    simp only [State.onEvent, State.onFrameStart]
    split
    case isTrue => exact .inl ⟨rfl, rfl, rfl, rfl, rfl, rfl, rfl⟩
    case isFalse hr =>
      split
      case isTrue => exact .inl ⟨rfl, rfl, rfl, rfl, rfl, rfl, rfl⟩
      case isFalse =>
        split
        case h_1 => exact .inl ⟨rfl, rfl, rfl, rfl, rfl, rfl, rfl⟩
        case h_2 i hi =>
          simp only [Bool.or_eq_true, not_or, Bool.not_eq_true, Bool.not_eq_false',
            Option.isSome_eq_false_iff, Option.isNone_iff_eq_none] at hr
          refine .inr <| .inr ⟨i, hr.left.left, hr.right, captureCandidate_spec hi, ?_⟩
          exact ⟨rfl, rfl, rfl, rfl, rfl, rfl, rfl⟩

theorem acquireLatest_cases :
    s.acquireLatest = (none, s) ∨
    ∃ i, s.newestReady = some i ∧ s.nextLeaseId ≠ 0xFFFFFFFF ∧
      s.acquireLatest.fst = some ⟨s.pool.cameraSlot i, s.nextLeaseId + 1, (s.slots i).sequence⟩ ∧
      Alike (leased s i) s.acquireLatest.snd := by
  rw [State.acquireLatest]
  split
  case h_1 => exact .inl rfl
  case h_2 i hi =>
    split
    case isTrue => exact .inl rfl
    case isFalse hl =>
      refine .inr ⟨i, hi, hl, ?_, ?_⟩
      · simp [State.setSlot, State.freeReady]
      · refine ⟨?_, rfl, rfl, rfl, rfl, rfl, rfl⟩
        simp [leased, State.setSlot, State.freeReady]

theorem release_cases (leaseId : UInt32) :
    (s.release leaseId = s ∧ ∀ i, (s.slots i).state = .leased → (s.slots i).leaseId ≠ leaseId) ∨
    ∃ i, (s.slots i).state = .leased ∧ (s.slots i).leaseId = leaseId ∧
      s.release leaseId = s.setSlot i ⟨.free, (s.slots i).sequence, 0⟩ := by
  rw [State.release]
  dsimp only
  split
  case h_1 hn =>
    refine .inl ⟨rfl, fun i hs hl => ?_⟩
    simpa [hs, hl] using List.find?_eq_none.mp hn i (List.mem_finRange i)
  case h_2 i hi =>
    have hh := List.find?_some hi
    simp only [Bool.and_eq_true, decide_eq_true_eq] at hh
    exact .inr ⟨i, hh.left, hh.right, rfl⟩

end Steps

section Invariant

theorem setSlot_slots {slot : Slot} :
    (s.setSlot i slot).slots j = if j = i then slot else s.slots j :=
  Function.update_apply ..

theorem freeReady_slots {keep : Option Index} :
    (s.freeReady keep).slots j =
      if some j ≠ keep ∧ (s.slots j).state = .ready then { s.slots j with state := .free }
      else s.slots j := by
  simp [State.freeReady]

theorem Inv.zero : Inv .zero := by
  refine ⟨⟨fun i => ?_, ?_, ?_⟩, ?_, ?_, ?_, ?_⟩ <;> simp [State.zero]

theorem le_add_one {m n : UInt32} (hn : n ≠ 0xFFFFFFFF) (h : m ≤ n) : m < n + 1 := by
  have hn' : n.toNat ≠ 0xFFFFFFFF := fun he => hn (UInt32.toNat_inj.mp he)
  have hl := n.toNat_lt
  rw [UInt32.lt_iff_toNat_lt, UInt32.toNat_add, UInt32.toNat_one, Nat.mod_eq_of_lt (by omega)]
  exact Nat.lt_succ_of_le (UInt32.le_iff_toNat_le.mp h)

theorem captured_inv (h : Inv s) (hc : s.captureSlot = some i) (hn : s.nextSequence ≠ 0xFFFFFFFF) :
    Inv (captured s i) := by
  have hi := (h.exclusive.capturing i).mpr hc
  refine ⟨⟨fun j => ?_, nofun, h.exclusive.pool⟩, h.reserved, h.irq, fun hr j => ?_, fun j => ?_⟩
  · have hj := h.exclusive.capturing j
    simp only [captured, setSlot_slots]
    by_cases he : j = i
    case pos => simp [he]
    case neg => simpa [he, hj, hc] using fun h => he h.symm
  · rw [h.idle hr i] at hi
    cases hi
  · simp only [captured, setSlot_slots]
    intro hj
    by_cases he : j = i
    case pos =>
      rw [if_pos he]
      exact UInt32.le_refl _
    case neg =>
      rw [if_neg he] at hj ⊢
      exact UInt32.le_of_lt <| le_add_one hn (h.ready j hj)

theorem converting_inv (h : Inv s) (hr : s.running) (hc : s.captureSlot = none) :
    Inv (converting s i) := by
  have hp : s.pool.cameraSlot i = some i := if_pos (h.reserved hr)
  refine ⟨⟨fun j => ?_, fun j hj => ?_, h.exclusive.pool⟩, h.reserved, h.irq, fun hn j => ?_, fun j hj => ?_⟩
  · have hj := h.exclusive.capturing j
    simp only [converting, setSlot_slots]
    by_cases he : j = i
    case pos => simp [he]
    case neg => simpa [he, hj, hc] using fun h => he h.symm
  · cases hj
    exact hp
  · cases hr.symm.trans hn
  · simp only [converting, setSlot_slots] at hj ⊢
    split at hj
    case isTrue => cases hj
    case isFalse he =>
      rw [if_neg he]
      exact h.ready j hj

-- Slots that the device does not write to change hands.
theorem slots_inv {slots : Index → Slot} {nextLeaseId : UInt32} (h : Inv s)
    (hc : ∀ i, (slots i).state = .capturing ↔ (s.slots i).state = .capturing)
    (hr : ∀ i, (slots i).state = .ready → slots i = s.slots i)
    (hf : s.running = false → ∀ i, (slots i).state = .free) :
    Inv { s with slots, nextLeaseId } := by
  refine ⟨⟨fun i => ?_, h.exclusive.display, h.exclusive.pool⟩, h.reserved, h.irq, hf, fun i hi => ?_⟩
  · rw [← h.exclusive.capturing i]
    exact hc i
  · have he := hr i hi
    simp only at hi ⊢
    rw [he] at hi ⊢
    exact h.ready i hi

theorem freeReady_inv (keep : Option Index) (h : Inv s) : Inv (s.freeReady keep) := by
  refine slots_inv h (fun i => ?_) (fun i hi => ?_) (fun hr i => ?_)
  · refine (congrArg (Slot.state · = _) freeReady_slots).to_iff.trans ?_
    split
    case isTrue hc => simp [hc.right]
    case isFalse   => rfl
  · refine freeReady_slots.trans ?_
    have hi := (congrArg Slot.state freeReady_slots).symm.trans hi
    split at hi
    case isTrue     => cases hi
    case isFalse hn => exact if_neg hn
  · refine (congrArg Slot.state freeReady_slots).trans ?_
    split
    case isTrue  => rfl
    case isFalse => exact h.idle hr i

theorem not_idle {state : SlotState} (h : Inv s) (hs : (s.slots i).state = state) (hf : state ≠ .free) :
    s.running = true :=
  Bool.of_not_eq_false fun hr => hf (hs.symm.trans (h.idle hr i))

theorem setSlot_inv {slot : Slot} (nextLeaseId : UInt32) (h : Inv s)
    (hc : (s.slots i).state ≠ .capturing) (hs : slot.state = .free ∨ slot.state = .leased ∧ s.running) :
    Inv { s.setSlot i slot with nextLeaseId } := by
  show Inv { s with slots := Function.update s.slots i slot, nextLeaseId }
  have hn : slot.state ≠ .capturing ∧ slot.state ≠ .ready := by
    rcases hs with hs | ⟨hs, _⟩ <;> rw [hs] <;> exact ⟨nofun, nofun⟩
  refine slots_inv h (fun j => ?_) (fun j hj => ?_) (fun hr j => ?_)
  · by_cases he : j = i
    case pos =>
      subst he
      rw [Function.update_self]
      exact iff_of_false hn.left hc
    case neg => rw [Function.update_of_ne he]
  · by_cases he : j = i
    case pos =>
      subst he
      rw [Function.update_self] at hj
      exact absurd hj hn.right
    case neg => exact Function.update_of_ne he ..
  · by_cases he : j = i
    case pos =>
      subst he
      rw [Function.update_self]
      rcases hs with hs | ⟨_, hs⟩
      · exact hs
      · cases hr.symm.trans hs
    case neg =>
      rw [Function.update_of_ne he]
      exact h.idle hr j

theorem leased_inv (h : Inv s) (hs : (s.slots i).state = .ready) : Inv (leased s i) := by
  have hr : s.running = true := not_idle h hs nofun
  refine setSlot_inv _ (freeReady_inv (some i) h) ?_ (.inr ⟨rfl, hr⟩)
  rw [freeReady_slots, if_neg (fun hn => hn.left rfl), hs]
  exact nofun

theorem released_inv (h : Inv s) (hs : (s.slots i).state = .leased) :
    Inv (s.setSlot i ⟨.free, (s.slots i).sequence, 0⟩) :=
  setSlot_inv s.nextLeaseId h (hs ▸ nofun) (.inl rfl)

theorem stop_inv (h : Inv s) : Inv s.stop := by
  refine ⟨⟨fun i => ⟨nofun, nofun⟩, nofun, nofun⟩, nofun, fun hi => ?_, fun _ _ => rfl, nofun⟩
  by_cases hr : s.running = true
  case pos => simp [State.stop, hr] at hi
  case neg =>
    simp only [State.stop, if_neg hr] at hi
    exact absurd (h.irq hi) hr

theorem start_inv (status : UInt32) (irqStarts : Bool) (h : Inv s) :
    Inv (s.start status irqStarts).snd := by
  by_cases hp : s.pool.cameraReserved ∨ s.pool.workspaceActiveGeneration ≠ 0
  case pos =>
    have he : s.pool.cameraReserve = (false, s.pool) := if_pos hp
    rw [State.start, he]
    exact h
  case neg =>
    have he : s.pool.cameraReserve = (true, { s.pool with cameraReserved := true }) := if_neg hp
    rw [State.start, he]
    obtain ⟨hp, ha⟩ := not_or.mp hp
    have hr : s.running ≠ true := fun hr => hp (h.reserved hr)
    have hi : s.dvp.irqActive ≠ true := fun hi => hr (h.irq hi)
    cases irqStarts
    case true =>
      exact ⟨⟨fun i => ⟨nofun, nofun⟩, nofun, fun _ => not_not.mp ha⟩, fun _ => rfl, fun _ => rfl,
        nofun, nofun⟩
    case false =>
      exact ⟨⟨fun i => ⟨nofun, nofun⟩, nofun, nofun⟩, nofun, fun h => absurd h hi, fun _ _ => rfl,
        nofun⟩

end Invariant

end CameraStream
