import HackyLens.Camera.Theorems.Stream

-- Frames and buffers that are handed out, over whole runs.

namespace CameraStream

open FramePool (Pool Borrow cameraSlotCount)
open Prog

namespace Label

def delivered : Label → Option Frame
  | .access .acquireLatest reply => reply
  | _                            => none

def lent : Label → Option Borrow
  | .access (.borrow _) reply => reply
  | _                         => none

def starts : Label → Bool
  | .access .start _ => true
  | _                => false

-- The step ends the lease with this number.
def Ends : Label → UInt32 → Prop
  | .access .stop _,          _  => True
  | .access .start _,         _  => True
  | .access (.release id') _, id => id' = id
  | _,                        _  => False

end Label

-- All frames that were delivered, those of the current start, and all that was lent to others.
def frames (log : List Entry) : List Frame :=
  log.filterMap (·.label.delivered)

def sinceStart (log : List Entry) : List Frame :=
  frames (log.takeWhile (!·.label.starts))

def borrows (log : List Entry) : List Borrow :=
  log.filterMap (·.label.lent)

-- The steps follow each other.
def Linked : State → List Entry → Prop
  | s, []       => s = .zero
  | s, e :: log => e.after = s ∧ Linked e.before log

-- What is delivered is newer than what was delivered before, and no number is used twice.
def Fresh : List Entry → Prop
  | []       => True
  | e :: log =>
    (∀ f ∈ e.label.delivered, (∀ g ∈ sinceStart log, g.sequence < f.sequence) ∧
      ∀ g ∈ frames log, g.leaseId < f.leaseId) ∧
    (∀ b ∈ e.label.lent, ∀ c ∈ borrows log, c.generation < b.generation) ∧ Fresh log

-- The borrow is the one that the pool knows of.
def Current (pool : Pool) (b : Borrow) : Prop :=
  pool.workspaceActiveGeneration ≠ 0 ∧ b.generation = pool.workspaceActiveGeneration ∧
    b.data = .cameraSlot0

-- A conversion goes to a slot that is not leased, what is leased stays as it is, and what is
-- delivered is the newest frame that is ready.
structure Lawful (e : Entry) : Prop where
  converts : e.after.dvp.conversions = e.before.dvp.conversions ∨
    ∃ i, e.after.captureSlot = some i ∧ (e.before.slots i).state ≠ .leased ∧
      e.after.dvp.conversions = some i :: e.before.dvp.conversions
  leases : ∀ i, (e.before.slots i).state = .leased → ¬e.label.Ends (e.before.slots i).leaseId →
    e.after.slots i = e.before.slots i
  newest : ∀ f ∈ e.label.delivered, ∃ i, f.pixels = some i ∧ (e.before.slots i).state = .ready ∧
    (e.before.slots i).sequence = f.sequence ∧
    (∀ j, (e.before.slots j).state = .ready → (e.before.slots j).sequence ≤ f.sequence) ∧
    e.after.slots i = ⟨.leased, f.sequence, f.leaseId⟩
  staleLease : ∀ id reply, e.label = .access (.release id) reply →
    (∀ i, (e.before.slots i).state = .leased → (e.before.slots i).leaseId ≠ id) →
    e.after = e.before
  staleBorrow : ∀ b reply, e.label = .access (.giveBack b) reply → ¬Current e.before.pool b →
    e.after = e.before

-- What has been delivered, as seen from the state.
structure Traced (s : State) (log : List Entry) : Prop where
  sequences : ∀ f ∈ sinceStart log, f.sequence ≤ s.nextSequence
  newer : ∀ f ∈ sinceStart log, ∀ i, (s.slots i).state = .ready → f.sequence < (s.slots i).sequence
  ids : ∀ f ∈ frames log, f.leaseId ≤ s.nextLeaseId
  held : ∀ i, (s.slots i).state = .leased → ∃ f ∈ sinceStart log,
    f.pixels = some i ∧ f.leaseId = (s.slots i).leaseId ∧ f.sequence = (s.slots i).sequence
  generations : ∀ b ∈ borrows log, b.generation ≤ s.pool.workspaceGeneration
  lent : s.pool.workspaceActiveGeneration ≠ 0 →
    ∃ b ∈ borrows log, b.generation = s.pool.workspaceActiveGeneration

structure Good (w : World) : Prop where
  inv : Inv w.state
  traced : Traced w.state w.log
  fresh : Fresh w.log
  linked : Linked w.state w.log
  entries : ∀ e ∈ w.log, Exclusive e.before ∧ Exclusive e.after ∧ Lawful e

variable {s s' : State} {i j : Index} {w : World} {log : List Entry} {label : Label}

section Log

variable {e : Entry}

theorem frames_cons (h : e.label.delivered = none) : frames (e :: log) = frames log :=
  List.filterMap_cons_none h

theorem borrows_cons (h : e.label.lent = none) : borrows (e :: log) = borrows log :=
  List.filterMap_cons_none h

theorem sinceStart_cons (hd : e.label.delivered = none) (hs : e.label.starts = false) :
    sinceStart (e :: log) = sinceStart log := by
  rw [sinceStart, List.takeWhile_cons_of_pos (by rw [hs]; rfl), frames_cons hd, sinceStart]

theorem frames_delivered {f : Frame} (h : e.label.delivered = some f) :
    frames (e :: log) = f :: frames log :=
  List.filterMap_cons_some h

theorem sinceStart_delivered {f : Frame} (hd : e.label.delivered = some f)
    (hs : e.label.starts = false) : sinceStart (e :: log) = f :: sinceStart log := by
  rw [sinceStart, List.takeWhile_cons_of_pos (by rw [hs]; rfl), frames_delivered hd, sinceStart]

theorem sinceStart_subset : sinceStart log ⊆ frames log :=
  List.Sublist.subset <| (List.takeWhile_sublist _).filterMap _

end Log

-- A step by which nothing is handed out.
structure Proceeds (s s' : State) : Prop where
  sequence : s.nextSequence ≤ s'.nextSequence
  ready : ∀ i, (s'.slots i).state = .ready →
    s'.slots i = s.slots i ∨ s.nextSequence < (s'.slots i).sequence
  leased : ∀ i, (s'.slots i).state = .leased → s'.slots i = s.slots i
  ids : s'.nextLeaseId = s.nextLeaseId
  generation : s'.pool.workspaceGeneration = s.pool.workspaceGeneration
  active : s'.pool.workspaceActiveGeneration = s.pool.workspaceActiveGeneration ∨
    s'.pool.workspaceActiveGeneration = 0

theorem Traced.proceeds (h : Traced s log) (p : Proceeds s s') (hd : label.delivered = none)
    (hl : label.lent = none) (hs : label.starts = false) : Traced s' (⟨label, s, s'⟩ :: log) := by
  refine ⟨?_, ?_, ?_, ?_, ?_, ?_⟩
  · rw [sinceStart_cons hd hs]
    exact fun f hf => UInt32.le_trans (h.sequences f hf) p.sequence
  · rw [sinceStart_cons hd hs]
    intro f hf i hi
    rcases p.ready i hi with he | hn
    · rw [he] at hi ⊢
      exact h.newer f hf i hi
    · exact UInt32.lt_of_le_of_lt (h.sequences f hf) hn
  · rw [frames_cons hd, p.ids]
    exact h.ids
  · rw [sinceStart_cons hd hs]
    intro i hi
    have he := p.leased i hi
    rw [he] at hi ⊢
    exact h.held i hi
  · rw [borrows_cons hl, p.generation]
    exact h.generations
  · rw [borrows_cons hl]
    intro ha
    rcases p.active with he | he
    · rw [he] at ha ⊢
      exact h.lent ha
    · exact absurd he ha

namespace Proceeds

variable {t : State}

theorem rfl : Proceeds s s :=
  ⟨UInt32.le_refl _, fun _ _ => .inl (Eq.refl _), fun _ _ => Eq.refl _, Eq.refl _, Eq.refl _,
    .inl (Eq.refl _)⟩

theorem congr (p : Proceeds s t) (a : Alike t s') : Proceeds s s' := by
  refine ⟨?_, ?_, ?_, ?_, ?_, ?_⟩
  · rw [a.nextSequence]
    exact p.sequence
  · rw [a.slots]
    exact p.ready
  · rw [a.slots]
    exact p.leased
  · rw [a.nextLeaseId]
    exact p.ids
  · rw [a.pool]
    exact p.generation
  · rw [a.pool]
    exact p.active

theorem captured (hn : s.nextSequence ≠ 0xFFFFFFFF) : Proceeds s (captured s i) := by
  have hl : s.nextSequence < s.nextSequence + 1 := le_add_one hn (UInt32.le_refl _)
  refine ⟨UInt32.le_of_lt hl, fun j hj => ?_, fun j hj => ?_, Eq.refl _, Eq.refl _, .inl (Eq.refl _)⟩
  all_goals simp only [CameraStream.captured, setSlot_slots] at hj ⊢
  · by_cases he : j = i
    case pos =>
      rw [if_pos he]
      exact .inr hl
    case neg => exact .inl (if_neg he)
  · by_cases he : j = i
    case pos =>
      rw [if_pos he] at hj
      cases hj
    case neg => exact if_neg he

theorem converting : Proceeds s (converting s i) := by
  refine ⟨UInt32.le_refl _, fun j hj => .inl ?_, fun j hj => ?_, Eq.refl _, Eq.refl _, .inl (Eq.refl _)⟩
  all_goals
    simp only [CameraStream.converting, setSlot_slots] at hj ⊢
    by_cases he : j = i
    case pos =>
      rw [if_pos he] at hj
      cases hj
    case neg => exact if_neg he

end Proceeds

theorem Good.proceeds (h : Good w) (hi : Inv s') (p : Proceeds w.state s')
    (hl : Lawful ⟨label, w.state, s'⟩) (hd : label.delivered = none) (hb : label.lent = none)
    (hs : label.starts = false) : Good (w.step label s') := by
  refine ⟨hi, h.traced.proceeds p hd hb hs, ⟨?_, ?_, h.fresh⟩, ⟨rfl, h.linked⟩, ?_⟩
  · intro f hf
    cases hd.symm.trans hf
  · intro b hb'
    cases hb.symm.trans hb'
  · intro e he
    rcases List.mem_cons.mp he with rfl | he
    · exact ⟨h.inv.exclusive, hi.exclusive, hl⟩
    · exact h.entries e he

theorem Good.event {event : Event} {status : UInt32} (h : Good w)
    (hi : World.Interrupts w.state event) :
    Good (w.step (.event event status) (w.state.onEvent event status)) := by
  have lawful {t : State} (a : Alike t (w.state.onEvent event status))
      (hc : t.dvp.conversions = w.state.dvp.conversions ∨
        ∃ i, t.captureSlot = some i ∧ (w.state.slots i).state ≠ .leased ∧
          t.dvp.conversions = some i :: w.state.dvp.conversions)
      (hl : ∀ i, (w.state.slots i).state = .leased → t.slots i = w.state.slots i) :
      Lawful ⟨.event event status, w.state, w.state.onEvent event status⟩ := by
    refine ⟨?_, fun i hs _ => ?_, nofun, nofun, nofun⟩
    · simp only [a.dvp, a.captureSlot]
      exact hc
    · simp only [a.slots]
      exact hl i hs
  rcases onEvent_cases (s := w.state) event status with
    a | ⟨i, rfl, hc, hs, a⟩ | ⟨i, hr, hc, hs, a⟩
  case inl =>
    exact h.proceeds (h.inv.congr a) (.congr .rfl a) (lawful a (.inl rfl) fun _ _ => rfl) rfl rfl rfl
  case inr.inl =>
    have hn : w.state.nextSequence ≠ 0xFFFFFFFF := fun he => hi.right ⟨rfl, he⟩
    refine h.proceeds ((captured_inv h.inv hc hn).congr a) (.congr (.captured hn) a) ?_ rfl rfl rfl
    refine lawful a (.inl rfl) fun j hj => ?_
    refine setSlot_slots.trans (if_neg ?_)
    rintro rfl
    cases hs.symm.trans hj
  case inr.inr =>
    have hp : w.state.pool.cameraSlot i = some i := if_pos (h.inv.reserved hr)
    refine h.proceeds ((converting_inv h.inv hr hc).congr a) (.congr .converting a) ?_ rfl rfl rfl
    refine lawful a (.inr ⟨i, rfl, ?_, ?_⟩) fun j hj => ?_
    · rcases hs with hs | hs <;> rw [hs] <;> exact nofun
    · exact congrArg (· :: w.state.dvp.conversions) hp
    · refine setSlot_slots.trans (if_neg ?_)
      rintro rfl
      rcases hs with hs | hs <;> cases hs.symm.trans hj

-- Those events that can occur before an access.
theorem Good.events (es : List (Event × UInt32)) (h : Good w) : Good (es.foldl World.interrupt w) := by
  induction es generalizing w with
  | nil          => exact h
  | cons e es ih =>
    refine ih ?_
    rw [World.interrupt]
    split
    case isTrue hi => exact h.event hi
    case isFalse   => exact h

theorem events_of_idle {es : List (Event × UInt32)} (h : Good w) (hr : w.state.running = false) :
    es.foldl World.interrupt w = w := by
  induction es with
  | nil          => rfl
  | cons e es ih =>
    have hi : ¬World.Interrupts w.state e.fst := fun hi => by
      cases hr.symm.trans (h.inv.irq hi.left)
    rw [List.foldl_cons, World.interrupt, if_neg hi, ih]

section Access

theorem Good.idle (h : Good w) (hd : label.delivered = none) (hl : label.lent = none)
    (hs : label.starts = false) : Good (w.step label w.state) := by
  refine h.proceeds h.inv .rfl ⟨.inl rfl, fun _ _ _ => rfl, ?_, fun _ _ _ _ => rfl, fun _ _ _ _ => rfl⟩
    hd hl hs
  intro f hf
  cases hd.symm.trans hf

theorem stop_eq : s.stop.nextSequence = s.nextSequence ∧ s.stop.nextLeaseId = s.nextLeaseId ∧
    s.stop.dvp.conversions = s.dvp.conversions ∧ s.stop.pool = s.pool.cameraRelease := by
  simp only [State.stop]
  split <;> exact ⟨rfl, rfl, rfl, rfl⟩

theorem Good.stop (h : Good w) : Good (w.step (.access .stop ()) w.state.stop) := by
  obtain ⟨hn, hi, hc, hp⟩ := stop_eq (s := w.state)
  have p : Proceeds w.state w.state.stop := by
    refine ⟨hn ▸ UInt32.le_refl _, nofun, nofun, hi, ?_, .inl ?_⟩ <;> rw [hp] <;> rfl
  refine h.proceeds (stop_inv h.inv) p ?_ rfl rfl rfl
  exact ⟨.inl hc, fun _ _ he => absurd trivial he, nofun, nofun, nofun⟩

-- The stream has been stopped before, so that there are no frames of an earlier start.
theorem start_eq (status : UInt32) (irqStarts : Bool) (hf : ∀ i, (s.slots i).state = .free) :
    let s' := (s.start status irqStarts).snd
    (∀ i, (s'.slots i).state = .free) ∧ s'.nextLeaseId = s.nextLeaseId ∧
      s'.dvp.conversions = s.dvp.conversions ∧
      s'.pool.workspaceGeneration = s.pool.workspaceGeneration ∧
      s'.pool.workspaceActiveGeneration = s.pool.workspaceActiveGeneration := by
  by_cases hp : s.pool.cameraReserved ∨ s.pool.workspaceActiveGeneration ≠ 0
  case pos =>
    have he : s.pool.cameraReserve = (false, s.pool) := if_pos hp
    rw [State.start, he]
    exact ⟨hf, rfl, rfl, rfl, rfl⟩
  case neg =>
    have he : s.pool.cameraReserve = (true, { s.pool with cameraReserved := true }) := if_neg hp
    rw [State.start, he]
    cases irqStarts <;> exact ⟨fun _ => rfl, rfl, rfl, rfl, rfl⟩

theorem Good.start {status : UInt32} {irqStarts : Bool} (h : Good w) (hr : w.state.running = false) :
    Good (w.step (.access .start (w.state.start status irqStarts).fst)
      (w.state.start status irqStarts).snd) := by
  obtain ⟨hf, hi, hc, hg, ha⟩ := start_eq status irqStarts (h.inv.idle hr)
  have hs := start_inv status irqStarts h.inv
  refine ⟨hs, ⟨nofun, nofun, ?_, fun i hl => ?_, ?_, ?_⟩, ⟨nofun, nofun, h.fresh⟩, ⟨rfl, h.linked⟩, ?_⟩
  · exact hi ▸ h.traced.ids
  · cases (hf i).symm.trans hl
  · exact hg ▸ h.traced.generations
  · exact ha ▸ h.traced.lent
  · intro e he
    rcases List.mem_cons.mp he with rfl | he
    · refine ⟨h.inv.exclusive, hs.exclusive, ?_⟩
      exact ⟨.inl hc, fun _ _ he => absurd trivial he, nofun, nofun, nofun⟩
    · exact h.entries e he

theorem Good.pause (h : Good w) : Good (w.step (.access .pause ()) w.state.pause) := by
  have a : Alike w.state w.state.pause := ⟨rfl, rfl, rfl, rfl, rfl, rfl, rfl⟩
  refine h.proceeds (h.inv.congr a) (.congr .rfl a) ?_ rfl rfl rfl
  exact ⟨.inl rfl, fun _ _ _ => rfl, nofun, nofun, nofun⟩

theorem Good.resume (h : Good w) : Good (w.step (.access .resume ()) w.state.resume) := by
  by_cases hr : w.state.running = true
  case neg =>
    have he : w.state.resume = w.state := if_neg hr
    rw [he]
    exact h.idle rfl rfl rfl
  case pos =>
    have he : w.state.resume = { w.state.freeReady none with paused := false, syncPending := true } :=
      if_pos hr
    have a : Alike (w.state.freeReady none) w.state.resume := by
      rw [he]
      exact ⟨rfl, rfl, rfl, rfl, rfl, rfl, rfl⟩
    have kept (i : Index) (hs : (w.state.slots i).state ≠ .ready) :
        (w.state.freeReady none).slots i = w.state.slots i :=
      freeReady_slots.trans (if_neg fun hn => hs hn.right)
    have free (i : Index) (hs : (w.state.slots i).state = .ready) :
        ((w.state.freeReady none).slots i).state = .free :=
      congrArg Slot.state (freeReady_slots.trans (if_pos ⟨nofun, hs⟩))
    have p : Proceeds w.state (w.state.freeReady none) := by
      refine ⟨UInt32.le_refl _, fun i hi => .inl (kept i fun hs => ?_), fun i hi => kept i fun hs => ?_,
        rfl, rfl, .inl rfl⟩ <;> cases (free i hs).symm.trans hi
    refine h.proceeds ((freeReady_inv _ h.inv).congr a) (p.congr a) ?_ rfl rfl rfl
    refine ⟨.inl (congrArg Dvp.conversions a.dvp), fun i hi _ => ?_, nofun, nofun, nofun⟩
    rw [a.slots]
    refine kept i fun hs => ?_
    cases hs.symm.trans hi

-- The frames that are older than the one that is handed out are dropped.
theorem leased_slots (hj : j ≠ i) :
    (leased s i).slots j = s.slots j ∧ (s.slots j).state ≠ .ready ∨
      ((leased s i).slots j).state = .free ∧ (s.slots j).state = .ready := by
  have he : (leased s i).slots j = (s.freeReady (some i)).slots j := setSlot_slots.trans (if_neg hj)
  rw [he, freeReady_slots]
  by_cases hr : (s.slots j).state = .ready
  case pos =>
    rw [if_pos ⟨fun he => hj (Option.some_inj.mp he), hr⟩]
    exact .inr ⟨rfl, hr⟩
  case neg =>
    rw [if_neg fun hn => hr hn.right]
    exact .inl ⟨rfl, hr⟩

theorem leased_slot : (leased s i).slots i = ⟨.leased, (s.slots i).sequence, s.nextLeaseId + 1⟩ :=
  setSlot_slots.trans (if_pos rfl)

theorem Traced.leased {f : Frame} (h : Traced s log) (hq : (s.slots i).sequence ≤ s.nextSequence) (hn : s.nextLeaseId ≠ 0xFFFFFFFF)
    (hf : f = ⟨some i, s.nextLeaseId + 1, (s.slots i).sequence⟩) (a : Alike (leased s i) s') :
    Traced s' (⟨.access .acquireLatest (some f), s, s'⟩ :: log) := by
  subst hf
  have lt {n : UInt32} (h : n ≤ s.nextLeaseId) : n < s.nextLeaseId + 1 := le_add_one hn h
  refine ⟨?_, ?_, ?_, ?_, ?_, ?_⟩
  · rw [sinceStart_delivered rfl rfl, a.nextSequence]
    exact List.forall_mem_cons.mpr ⟨hq, h.sequences⟩
  · intro f _ j hj
    rw [a.slots] at hj
    by_cases he : j = i
    case pos =>
      rw [he, leased_slot] at hj
      cases hj
    case neg =>
      rcases leased_slots (s := s) he with ⟨he, hs⟩ | ⟨hs, _⟩
      · exact absurd (he ▸ hj) hs
      · cases hs.symm.trans hj
  · rw [frames_delivered rfl, a.nextLeaseId]
    exact List.forall_mem_cons.mpr ⟨UInt32.le_refl _, fun g hg => UInt32.le_of_lt (lt (h.ids g hg))⟩
  · rw [sinceStart_delivered rfl rfl, a.slots]
    intro j hj
    by_cases he : j = i
    case pos =>
      rw [he, leased_slot]
      exact ⟨_, List.mem_cons_self, rfl, rfl, rfl⟩
    case neg =>
      rcases leased_slots (s := s) he with ⟨he, _⟩ | ⟨hs, _⟩
      · rw [he] at hj ⊢
        obtain ⟨g, hg, hp⟩ := h.held j hj
        exact ⟨g, List.mem_cons_of_mem _ hg, hp⟩
      · cases hs.symm.trans hj
  · rw [borrows_cons rfl, a.pool]
    exact h.generations
  · rw [borrows_cons rfl, a.pool]
    exact h.lent

theorem Good.acquireLatest (h : Good w) :
    Good (w.step (.access .acquireLatest w.state.acquireLatest.fst) w.state.acquireLatest.snd) := by
  rcases acquireLatest_cases (s := w.state) with he | ⟨i, hi, hn, hf, a⟩
  case inl =>
    rw [he]
    exact h.idle rfl rfl rfl
  case inr =>
    obtain ⟨hr, hl⟩ := newestReady_spec hi
    have hp : w.state.pool.cameraSlot i = some i :=
      if_pos (h.inv.reserved (not_idle h.inv hr nofun))
    rw [hp] at hf
    rw [hf]
    have hi' := (leased_inv h.inv hr).congr a
    refine ⟨hi', h.traced.leased (h.inv.ready i hr) hn rfl a, ⟨?_, nofun, h.fresh⟩, ⟨rfl, h.linked⟩, ?_⟩
    · rintro _ ⟨⟩
      exact ⟨fun g hg => h.traced.newer g hg i hr, fun g hg => le_add_one hn (h.traced.ids g hg)⟩
    · intro e he
      rcases List.mem_cons.mp he with rfl | he
      · refine ⟨h.inv.exclusive, hi'.exclusive, .inl (congrArg Dvp.conversions a.dvp), ?_, ?_, nofun, nofun⟩
        · intro j hj _
          rw [a.slots]
          have he : j ≠ i := by
            rintro rfl
            cases hr.symm.trans hj
          rcases leased_slots (s := w.state) he with ⟨he, _⟩ | ⟨_, hs⟩
          · exact he
          · cases hs.symm.trans hj
        · rintro _ ⟨⟩
          exact ⟨i, rfl, hr, rfl, hl, a.slots ▸ leased_slot⟩
      · exact h.entries e he

theorem Good.release {leaseId : UInt32} (h : Good w) :
    Good (w.step (.access (.release leaseId) ()) (w.state.release leaseId)) := by
  rcases release_cases (s := w.state) leaseId with ⟨he, hn⟩ | ⟨i, hs, hl, he⟩
  case inl =>
    rw [he]
    exact h.idle rfl rfl rfl
  case inr =>
    have kept (j : Index) (hj : j ≠ i) : (w.state.release leaseId).slots j = w.state.slots j := by
      rw [he]
      exact setSlot_slots.trans (if_neg hj)
    have free : ((w.state.release leaseId).slots i).state = .free := by
      rw [he]
      exact congrArg Slot.state (setSlot_slots.trans (if_pos rfl))
    have busy (j : Index) (hj : ((w.state.release leaseId).slots j).state ≠ .free) : j ≠ i := by
      rintro rfl
      exact hj free
    have p : Proceeds w.state (w.state.release leaseId) := by
      refine ⟨?_, fun j hj => .inl (kept j (busy j ?_)), fun j hj => kept j (busy j ?_), ?_, ?_, ?_⟩
      case refine_2 | refine_3 =>
        rw [hj]
        exact nofun
      all_goals rw [he]
      · exact UInt32.le_refl _
      · rfl
      · rfl
      · exact .inl rfl
    refine h.proceeds (he ▸ released_inv h.inv hs) p ?_ rfl rfl rfl
    refine ⟨.inl (by rw [he]; rfl), fun j hj hne => kept j ?_, nofun, ?_, nofun⟩
    · rintro rfl
      exact hne hl.symm
    · rintro _ _ ⟨⟩ hn
      exact absurd hl (hn i hs)

theorem Good.borrow {minimumSize : UInt32} (h : Good w) :
    Good (w.step (.access (.borrow minimumSize) (w.state.borrow minimumSize).fst)
      (w.state.borrow minimumSize).snd) := by
  by_cases hn : minimumSize = 0 ∨ minimumSize > FramePool.cameraFrameBytes ∨
      w.state.pool.cameraReserved ∨ w.state.pool.workspaceActiveGeneration ≠ 0 ∨
      w.state.pool.workspaceGeneration = 0xFFFFFFFF
  case pos =>
    have he : w.state.pool.borrow minimumSize = (none, w.state.pool) := if_pos hn
    rw [State.borrow, he]
    exact h.idle rfl rfl rfl
  case neg =>
    have he : w.state.pool.borrow minimumSize = _ := if_neg hn
    rw [State.borrow, he]
    obtain ⟨_, hn⟩ := not_or.mp hn
    obtain ⟨_, hn⟩ := not_or.mp hn
    obtain ⟨hr, hn⟩ := not_or.mp hn
    obtain ⟨_, hg⟩ := not_or.mp hn
    have hi : Inv { w.state with pool := ⟨w.state.pool.workspaceGeneration + 1,
        w.state.pool.workspaceGeneration + 1, w.state.pool.cameraReserved⟩ } := by
      refine ⟨⟨h.inv.exclusive.capturing, h.inv.exclusive.display, fun hc => absurd hc hr⟩, ?_, h.inv.irq,
        h.inv.idle, h.inv.ready⟩
      exact h.inv.reserved
    have older (b : Borrow) (hb : b ∈ borrows w.log) :
        b.generation < w.state.pool.workspaceGeneration + 1 :=
      le_add_one hg (h.traced.generations b hb)
    refine ⟨hi, ⟨h.traced.sequences, h.traced.newer, h.traced.ids, h.traced.held, ?_, ?_⟩, ⟨nofun, ?_, h.fresh⟩,
      ⟨rfl, h.linked⟩, ?_⟩
    · exact List.forall_mem_cons.mpr ⟨UInt32.le_refl _, fun b hb => UInt32.le_of_lt (older b hb)⟩
    · exact fun _ => ⟨_, List.mem_cons_self, rfl⟩
    · rintro _ ⟨⟩ b hb
      exact older b hb
    · intro e he
      rcases List.mem_cons.mp he with rfl | he
      · exact ⟨h.inv.exclusive, hi.exclusive, .inl rfl, fun _ _ _ => rfl, nofun, nofun, nofun⟩
      · exact h.entries e he

theorem Good.giveBack {b : Borrow} (h : Good w) :
    Good (w.step (.access (.giveBack b) (w.state.giveBack b).fst) (w.state.giveBack b).snd) := by
  by_cases hb : b.generation ≠ 0 ∧ b.generation = w.state.pool.workspaceActiveGeneration ∧
      b.data = .cameraSlot0
  case neg =>
    have he : w.state.pool.release b = (false, w.state.pool) := if_neg hb
    rw [State.giveBack, he]
    exact h.idle rfl rfl rfl
  case pos =>
    have he : w.state.pool.release b = (true, { w.state.pool with workspaceActiveGeneration := 0 }) :=
      if_pos hb
    rw [State.giveBack, he]
    have hi : Inv { w.state with pool := { w.state.pool with workspaceActiveGeneration := 0 } } :=
      ⟨⟨h.inv.exclusive.capturing, h.inv.exclusive.display, fun _ => rfl⟩, h.inv.reserved, h.inv.irq,
        h.inv.idle, h.inv.ready⟩
    refine h.proceeds hi ⟨UInt32.le_refl _, fun _ _ => .inl rfl, fun _ _ => rfl, rfl, rfl, .inr rfl⟩ ?_
      rfl rfl rfl
    refine ⟨.inl rfl, fun _ _ _ => rfl, nofun, nofun, ?_⟩
    rintro _ _ ⟨⟩ hn
    exact absurd ⟨hb.right.left ▸ hb.left, hb.right⟩ hn

end Access

section Fresh

variable {f g : Frame} {b c : Borrow}

theorem Fresh.frame_unique (h : Fresh log) (hf : f ∈ frames log) (hg : g ∈ frames log)
    (he : f.leaseId = g.leaseId) : f = g := by
  induction log with
  | nil => cases hf
  | cons e log ih =>
    cases hd : e.label.delivered with
    | none =>
      rw [frames_cons hd] at hf hg
      exact ih h.right.right hf hg
    | some d =>
      rw [frames_delivered hd] at hf hg
      have hl := (h.left d hd).right
      rcases List.mem_cons.mp hf with rfl | hf' <;> rcases List.mem_cons.mp hg with rfl | hg'
      · rfl
      · exact absurd (he ▸ hl g hg') (UInt32.lt_irrefl _)
      · exact absurd (he ▸ hl f hf') (UInt32.lt_irrefl _)
      · exact ih h.right.right hf' hg'

theorem Fresh.borrow_unique (h : Fresh log) (hb : b ∈ borrows log) (hc : c ∈ borrows log)
    (he : b.generation = c.generation) : b = c := by
  induction log with
  | nil => cases hb
  | cons e log ih =>
    cases hd : e.label.lent with
    | none =>
      rw [borrows_cons hd] at hb hc
      exact ih h.right.right hb hc
    | some d =>
      have hl := h.right.left d hd
      have hm : borrows (e :: log) = d :: borrows log := List.filterMap_cons_some hd
      rw [hm] at hb hc
      rcases List.mem_cons.mp hb with rfl | hb' <;> rcases List.mem_cons.mp hc with rfl | hc'
      · rfl
      · exact absurd (he ▸ hl c hc') (UInt32.lt_irrefl _)
      · exact absurd (he ▸ hl b hb') (UInt32.lt_irrefl _)
      · exact ih h.right.right hb' hc'

end Fresh

-- The calls of the main loop, with any arguments.
inductive Op
  | start (known : Bool)
  | stop
  | pause
  | resume
  | acquireLatest (null : Bool)
  | release (leaseId : UInt32)
  | borrow (minimumSize : UInt32) (null : Bool)
  | giveBack (borrow : Option Borrow)

-- The results are found in the log.
def Op.run : Op → Driver Unit
  | start known             => Function.const _ () <$> (CameraStream.start known)
  | stop                    => CameraStream.stop
  | pause                   => CameraStream.pause
  | resume                  => CameraStream.resume
  | acquireLatest null      => Function.const _ () <$> (CameraStream.acquireLatest null)
  | release leaseId         => CameraStream.release leaseId
  | borrow minimumSize null => Function.const _ () <$> (CameraStream.borrow minimumSize null)
  | giveBack b              => Function.const _ () <$> (CameraStream.giveBack b)

section Calls

def env : Env Access Access.Reply World Decision where
  handler  := handler
  admits _ := True
  call _   := Good
  hung _   := False

theorem Good.handler {a : Access} {d : Decision} (h : Good w) (ha : a ≠ .start) :
    Good (CameraStream.handler d a w).snd := by
  have h := h.events d.events
  cases a
  case start         => exact absurd rfl ha
  case running       => exact h.idle rfl rfl rfl
  case stop          => exact h.stop
  case pause         => exact h.pause
  case resume        => exact h.resume
  case acquireLatest => exact h.acquireLatest
  case release       => exact h.release
  case borrow        => exact h.borrow
  case giveBack      => exact h.giveBack

theorem wp_access {a : Access} {Q : a.Reply → Unit → World → Prop} (h : Good w) (ha : a ≠ .start)
    (hq : ∀ r w, Good w → Q r () w) : wp env (Prog.call a) Q () w :=
  ⟨h, fun _ _ => hq _ _ (h.handler ha)⟩

theorem Good.handler_start {d : Decision} (h : Good w) (hr : w.state.running = false) :
    Good (CameraStream.handler d .start w).snd := by
  have he : d.events.foldl World.interrupt w = w := events_of_idle h hr
  simp only [CameraStream.handler, he]
  exact h.start hr

-- Between the two parts of a start there are no events.
theorem wp_start {known : Bool} (h : Good w) : wp env (start known) (fun _ _ => Good) () w := by
  rw [CameraStream.start, wp_ite]
  split
  case isTrue => exact h
  case isFalse =>
    rw [wp_bind, CameraStream.stop, wp_call]
    refine ⟨h, fun d _ => ?_⟩
    have hs : Good (CameraStream.handler d .stop w).snd := h.handler nofun
    exact ⟨hs, fun _ _ => hs.handler_start rfl⟩

-- A section that is only entered while the stream is running.
theorem wp_guarded {α : Type} {p p' : Driver α} (hp : ∀ w, Good w → wp env p (fun _ _ => Good) () w)
    (hp' : ∀ w, Good w → wp env p' (fun _ _ => Good) () w) (h : Good w) :
    wp env (do
      if !(← Prog.call Access.running) then
        p
      else
        p') (fun _ _ => Good) () w := by
  rw [wp_bind]
  refine wp_access h nofun fun r w h => ?_
  rw [wp_ite]
  split
  case isTrue  => exact hp w h
  case isFalse => exact hp' w h

theorem op_good {op : Op} (h : Good w) : wp env op.run (fun _ _ => Good) () w := by
  have access {a : Access} (ha : a ≠ .start) (w : World) (h : Good w) :
      wp env (Prog.call a) (fun _ _ => Good) () w :=
    wp_access h ha fun _ _ h => h
  cases op
  case start =>
    rw [Op.run, wp_map]
    exact wp_start h
  case stop   => exact access (a := .stop) nofun w h
  case pause  => exact wp_guarded (fun _ h => h) (access (a := .pause) nofun) h
  case resume => exact wp_guarded (fun _ h => h) (access (a := .resume) nofun) h
  case acquireLatest null =>
    rw [Op.run, wp_map, CameraStream.acquireLatest, wp_ite]
    split
    case isTrue  => exact h
    case isFalse => exact wp_guarded (fun _ h => h) (access (a := .acquireLatest) nofun) h
  case release leaseId =>
    rw [Op.run, CameraStream.release, wp_ite]
    split
    case isTrue  => exact h
    case isFalse => exact wp_guarded (fun _ h => h) (access (a := .release leaseId) nofun) h
  case borrow minimumSize null =>
    rw [Op.run, wp_map, CameraStream.borrow, wp_ite]
    split
    case isTrue  => exact h
    case isFalse => exact access (a := .borrow minimumSize) nofun w h
  case giveBack b =>
    rw [Op.run, wp_map]
    cases b
    case none   => exact h
    case some b => exact access (a := .giveBack b) nofun w h

end Calls

-- What is claimed of a run so far: no two users have a buffer, in whatever state, all steps are
-- lawful, and numbers that were handed out once are never valid for anything else.
structure OneUser (w : World) : Prop where
  linked : Linked w.state w.log
  exclusive : Exclusive w.state
  entries : ∀ e ∈ w.log, Exclusive e.before ∧ Exclusive e.after ∧ Lawful e
  fresh : Fresh w.log
  holder : ∀ f ∈ frames w.log, ∀ i, (w.state.slots i).state = .leased →
    (w.state.slots i).leaseId = f.leaseId →
    f ∈ sinceStart w.log ∧ f.pixels = some i ∧ f.sequence = (w.state.slots i).sequence
  borrower : ∀ b ∈ borrows w.log, Current w.state.pool b →
    ∀ c ∈ borrows w.log, Current w.state.pool c → c = b

theorem Good.oneUser (h : Good w) : OneUser w := by
  refine ⟨h.linked, h.inv.exclusive, h.entries, h.fresh, fun f hf i hi hl => ?_, fun b hb hcb c hc hcc => ?_⟩
  · obtain ⟨g, hg, hp, hgl, hs⟩ := h.traced.held i hi
    obtain rfl := h.fresh.frame_unique hf (sinceStart_subset hg) (hl.symm.trans hgl.symm)
    exact ⟨hg, hp, hs⟩
  · exact h.fresh.borrow_unique hc hb (hcc.right.left.trans hcb.right.left.symm)

theorem Traced.zero : Traced .zero [] := by
  have hs (i : Index) : (State.zero.slots i).state ≠ .leased := nofun
  have ha : State.zero.pool.workspaceActiveGeneration = 0 := rfl
  refine ⟨?_, ?_, ?_, fun i hi => absurd hi (hs i), ?_, fun h => absurd ha h⟩
  all_goals rintro _ ⟨⟩

theorem Good.zero : Good ⟨.zero, []⟩ := by
  refine ⟨.zero, .zero, trivial, rfl, ?_⟩
  rintro _ ⟨⟩

theorem run_good {op : Op} {ds : List Decision} {u : Unit} (h : Good w) :
    (op.run.run handler u ds w).Meets env (fun _ => Good) :=
  run_meets (E := env) (Q := fun _ _ => Good) (fun _ _ => trivial) (op_good h)

-- Wherever the events come in between, and however far the last call has got.
theorem buffers_have_one_user {es : List (Op × Option Unit)} {u : Unit} {op : Op} {ds : List Decision}
    (r : Prog.Run handler Op.run none (fun _ _ _ _ => True) () ⟨.zero, []⟩ es u w) :
    OneUser (op.run.run handler u ds w).world ∧ ∀ w', op.run.run handler u ds w ≠ .hung w' := by
  have hw : Good w := by
    refine r.invariant (fun _ _ => Good) Good.zero ?_
    intro es u w op ds _ h
    have hm : (op.run.run handler u ds w).Meets env (fun _ => Good) := run_good h
    cases ho : op.run.run handler u ds w <;> rw [ho] at hm
    case done => exact hm
    all_goals exact nofun
  have hm : (op.run.run handler u ds w).Meets env (fun _ => Good) := run_good hw
  cases ho : op.run.run handler u ds w <;> rw [ho] at hm
  case done => exact ⟨hm.oneUser, nofun⟩
  case cut =>
    obtain ⟨_, hm⟩ := hm
    exact ⟨hm.oneUser, nofun⟩
  case hung => exact hm.elim

-- A frame is taken and handed out, and then another one begins while it is given back.
theorem buffers_have_one_user_lease :
    ∃ es u w, Prog.Run handler Op.run none (fun _ _ _ _ => True) () ⟨.zero, []⟩ es u w ∧
      w.state.slots 0 = ⟨.leased, 1, 1⟩ ∧
      OneUser ((Op.release 1).run.run handler u
        [⟨[(.frameStart, 0)], 0, true⟩, ⟨[], 0, true⟩] w).world := by
  obtain ⟨es, u, w, hr, hs⟩ :
      ∃ es u w, Prog.Run handler Op.run none (fun _ _ _ _ => True) () ⟨.zero, []⟩ es u w ∧
        w.state.slots 0 = ⟨.leased, 1, 1⟩ := exists_run
    (P := fun _ (_ : Unit) (w : World) => w.state.slots 0 = ⟨.leased, 1, 1⟩)
    [(.start true, [⟨[], 0, true⟩, ⟨[], 0, true⟩]),
      (.acquireLatest false, [⟨[(.frameStart, 0), (.frameStart, 0), (.frameFinish, 0)], 0, true⟩,
        ⟨[], 0, true⟩])] ⟨_, rfl, by decide⟩
  exact ⟨es, u, w, hr, hs, (buffers_have_one_user hr).left⟩

end CameraStream
