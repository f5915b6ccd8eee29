import HackyLens.Executor.Theorems.Core1

-- The jobs that are accepted: in which order they run, and what is said of them.

namespace Executor

variable {J C : Type}

namespace State

variable {s : State J C} {d : Decision J C}

-- The jobs that have been called are the first ones that have been accepted, and the counts lag
-- behind each other by one at most.
structure Ordered (s : State J C) : Prop where
  ran : s.ran = (s.accepted.take s.ran.length).map Accepted.work
  called : s.accepted.length ≤ s.ran.length + 1
  returned : s.returned ≤ s.ran.length
  recorded : s.recorded ≤ s.returned
  lag : s.recorded ≤ s.accepted.length ∧ s.accepted.length ≤ s.recorded + 1

theorem Ordered.of_settled (hsettled : s.Settled)
    (hlag : s.recorded ≤ s.accepted.length ∧ s.accepted.length ≤ s.recorded + 1) : s.Ordered := by
  have hlength : s.ran.length = s.recorded := by
    rw [hsettled.ran, List.length_map, List.length_take]
    omega
  refine ⟨?_, ?_, ?_, hsettled.returned.ge, hlag⟩
  · rw [hlength]
    exact hsettled.ran
  · omega
  · rw [hsettled.returned, hlength]

theorem Ordered.of_called (hcalled : s.Called)
    (hreturned : s.recorded ≤ s.returned ∧ s.returned ≤ s.accepted.length) : s.Ordered := by
  have hpending := hcalled.pending.length
  have hlength : s.ran.length = s.accepted.length := by
    rw [hcalled.ran, List.length_map]
  refine ⟨?_, ?_, ?_, hreturned.1, by omega, by omega⟩
  · rw [hlength, List.take_length]
    exact hcalled.ran
  · omega
  · omega

theorem Inv.ordered (h : s.Inv) : s.Ordered := by
  obtain ⟨-, hfresh⟩ | ⟨-, hready⟩ := h
  case inl =>
    have hran := hfresh.ran
    have haccepted := hfresh.accepted
    have hreturned := hfresh.returned
    have hrecorded := hfresh.recorded
    constructor
    · rw [hran, haccepted, List.take_nil]
      rfl
    · rw [haccepted]
      exact Nat.zero_le _
    · omega
    · omega
    · rw [haccepted, hrecorded]
      exact ⟨Nat.le_refl 0, Nat.zero_le 1⟩
  case inr =>
    have hlag : s.recorded ≤ s.accepted.length ∧ s.accepted.length ≤ s.recorded + 1 := by
      obtain hlag | hpending := hready.shared.lag
      · omega
      · have hlength := hpending.length
        omega
    have hat1 := hready.shared.at1
    cases hcore1 : s.core1 <;> rw [hcore1] at hat1
    case off | setOnline =>
      have hran := hat1.ran
      have haccepted := hat1.accepted
      refine .of_settled ⟨?_, hat1.returned.trans hat1.recorded.symm⟩ hlag
      rw [hran, haccepted, List.take_nil]
      rfl
    case readRequest => exact .of_settled hat1 hlag
    case readComplete | readJob | readContext => exact .of_settled hat1.1 hlag
    case running =>
      have hlength := hat1.1.pending.length
      exact .of_called hat1.1 ⟨hat1.2.1.ge, by rw [hat1.2.1]; exact hlag.1⟩
    case writeComplete => exact .of_called hat1.1 ⟨by rw [hat1.2.1]; exact hlag.1, hat1.2.1.le⟩

-- What is known of the tickets.
theorem Inv.tickets (h : s.Inv) {i : Nat} {a : Accepted J C} (ha : s.accepted[i]? = some a) :
    a.ticket = ticketOf (i + 1) ∧ s.control.completeTicket = ticketOf s.recorded := by
  obtain ⟨-, hfresh⟩ | ⟨-, hready⟩ := h
  case inl =>
    rw [hfresh.accepted] at ha
    cases ha
  case inr => exact ⟨hready.shared.tickets i a ha, hready.shared.complete⟩

-- The jobs after the first `i + 1` ones, with one more if the counter has passed over zero.
def later (s : State J C) (i : Nat) : Nat :=
  s.accepted.length - (i + 1) + if (s.accepted.drop (i + 1)).any (·.ticket = 1) then 1 else 0

theorem complete_iff {ticket : UInt32} (control : Control J C) (h : ticket ≠ 0) :
    control.complete ticket = true ↔ 0 ≤ (control.completeTicket - ticket).toInt32 := by
  rw [Control.complete, decide_eq_true_iff]
  exact and_iff_right h

theorem Inv.not_complete (h : s.Inv) {i : Nat} {a : Accepted J C} (ha : s.accepted[i]? = some a)
    (hi : s.returned ≤ i) : s.control.complete a.ticket = false := by
  obtain ⟨hticket, hcomplete⟩ := h.tickets ha
  obtain ⟨hlt, -⟩ := List.getElem?_eq_some_iff.mp ha
  have hrecorded := h.ordered.recorded
  have hlag := h.ordered.lag
  have hlast : s.recorded = i := by omega
  rw [Bool.eq_false_iff, Ne, complete_iff _ (hticket ▸ ticketOf_ne_zero i), hcomplete, hticket,
    hlast]
  exact ticketOf_sub_succ_neg i

-- The counter does not pass over zero between two jobs unless one of them has the ticket 1.
theorem Inv.position_sub_le (h : s.Inv) {i : Nat} (hi : i < s.recorded)
    (hlater : s.later i < 2147483648) :
    position s.recorded - position (i + 1) ≤ s.later i := by
  have hlag := h.ordered.lag
  rw [later] at hlater ⊢
  rw [position, position, Nat.add_sub_cancel]
  by_cases hsame : (s.recorded - 1) / 4294967295 = i / 4294967295
  case pos =>
    rw [hsame]
    omega
  case neg =>
    -- the job that got the ticket 1
    obtain ⟨j, hj⟩ : ∃ j, j = (s.recorded - 1) / 4294967295 * 4294967295 := ⟨_, rfl⟩
    have hij : i < j := by omega
    have hjlt : j < s.accepted.length := by omega
    have hmem : s.accepted[j] ∈ s.accepted.drop (i + 1) := by
      rw [List.mem_iff_getElem?]
      refine ⟨j - (i + 1), ?_⟩
      rw [List.getElem?_drop, Nat.add_sub_cancel' hij, List.getElem?_eq_getElem hjlt]
    have hone : s.accepted[j].ticket = 1 := by
      rw [(h.tickets (List.getElem?_eq_getElem hjlt)).1, ← UInt32.toNat_inj, ticketOf_toNat,
        position, Nat.add_sub_cancel]
      show _ = 1
      omega
    have hany : (s.accepted.drop (i + 1)).any (·.ticket = 1) = true :=
      List.any_eq_true.mpr ⟨_, hmem, decide_eq_true hone⟩
    rw [if_pos hany] at hlater ⊢
    omega

theorem Inv.complete (h : s.Inv) {i : Nat} {a : Accepted J C} (ha : s.accepted[i]? = some a)
    (hi : i < s.recorded) (hlater : s.later i < 2147483648) :
    s.control.complete a.ticket = true := by
  obtain ⟨hticket, hcomplete⟩ := h.tickets ha
  have hle := h.position_sub_le hi hlater
  have hi : i + 1 ≤ s.recorded := hi
  rw [complete_iff _ (hticket ▸ ticketOf_ne_zero i), hcomplete, hticket,
    ticketOf_sub_nonneg_iff hi]
  omega

-- A step of core 0 while there is a job that is not recorded.
theorem Ready.stepCore0_pending (h : s.Ready) (hpending : s.Pending) (d : Decision J C) :
    (s.stepCore0 d).Pending ∧ (s.stepCore0 d).accepted = s.accepted ∧
      (s.stepCore0 d).recorded = s.recorded ∧ (s.stepCore0 d).core1 = s.core1 ∧
      (s.stepCore0 d).control.completeTicket = s.control.completeTicket := by
  obtain ⟨hshared, hat0⟩ := h
  have hoff : s.core1 ≠ .off := fun hoff => by
    have hlength := hpending.length
    rw [(hshared.unused hoff).accepted] at hlength
    cases hlength
  have hquiet : ¬s.Quiet := fun hquiet => hquiet.not_pending hpending
  rw [State.stepCore0]
  cases hcore0 : s.core0 <;> rw [hcore0] at hat0 <;> dsimp only
  case clearing => exact hat0.elim
  case startCore => exact absurd hat0.1 hoff
  case readRequest => exact absurd hat0 hquiet
  case writeJob | writeContext | writeRequest => exact absurd hat0.1 hquiet
  all_goals exact ⟨hpending, rfl, rfl, rfl, rfl⟩

-- The steps of core 1 until the next job is recorded.
def toRecord (m : Mailbox J C) : Nat :=
  match m.core1 with
  | .off                 => 0
  | .setOnline           => 0
  | .readRequest         => 6
  | .readComplete ticket => if ticket = m.control.completeTicket then 7 else 5
  | .readJob _           => 4
  | .readContext _ _     => 3
  | .running _           => 2
  | .writeComplete _     => 1

-- The first `n` jobs are recorded or will be in some steps of core 1.
def Within (s : State J C) (n steps : Nat) : Prop :=
  n ≤ s.recorded ∨ n = s.accepted.length ∧ s.Pending ∧ toRecord s.toMailbox ≤ steps

theorem Ready.stepCore1_pending (h : s.Ready) (hpending : s.Pending) :
    s.stepCore1.accepted = s.accepted ∧ (s.stepCore1.recorded = s.recorded + 1 ∨
      s.stepCore1.recorded = s.recorded ∧ s.stepCore1.Pending ∧
        toRecord s.stepCore1.toMailbox < toRecord s.toMailbox) := by
  have hat1 := h.shared.at1
  have hlength := hpending.length
  rw [State.stepCore1, toRecord, toRecord]
  cases hcore1 : s.core1 <;> rw [hcore1] at hat1 <;> dsimp only
  case off | setOnline =>
    rw [hat1.accepted] at hlength
    cases hlength
  case readRequest =>
    refine ⟨rfl, .inr ⟨rfl, hpending, ?_⟩⟩
    rw [h.shared.request, h.shared.complete, hlength, if_neg (ticketOf_ne_succ s.recorded)]
    decide
  case readComplete ticket =>
    refine ⟨rfl, .inr ⟨rfl, hpending, ?_⟩⟩
    by_cases hsame : ticket = s.control.completeTicket
    · rw [if_neg (not_not.mpr hsame), if_pos hsame]
      exact Nat.lt_succ_self 6
    · rw [if_pos hsame, if_neg hsame]
      exact Nat.lt_succ_self 4
  case readJob => exact ⟨rfl, .inr ⟨rfl, hpending, Nat.lt_succ_self 3⟩⟩
  case readContext ticket job =>
    obtain ⟨before, a, -, -, hjob, -⟩ := id hpending
    have hsome : job = some a.job := hat1.2.2.2.trans hjob
    rw [hsome]
    exact ⟨rfl, .inr ⟨rfl, hpending, Nat.lt_succ_self 2⟩⟩
  case running => exact ⟨rfl, .inr ⟨rfl, hpending, Nat.lt_succ_self 1⟩⟩
  case writeComplete => exact ⟨rfl, .inl rfl⟩

theorem Fresh.not_pending (h : s.Fresh) : ¬s.Pending := fun hpending => by
  have hlength := hpending.length
  rw [h.accepted] at hlength
  cases hlength

theorem Inv.within (h : s.Inv) : s.Within s.accepted.length 7 := by
  by_cases hlag : s.accepted.length ≤ s.recorded
  case pos => exact .inl hlag
  case neg =>
    obtain ⟨-, hfresh⟩ | ⟨-, hready⟩ := h
    · rw [hfresh.accepted] at hlag
      exact absurd (Nat.zero_le _) hlag
    · have hpending := hready.shared.lag.resolve_left fun hlast => hlag hlast.ge
      refine .inr ⟨rfl, hpending, ?_⟩
      rw [toRecord]
      split <;> first | decide | (split <;> decide)

theorem stepCore0_grows (d : Decision J C) :
    s.accepted <+: (s.stepCore0 d).accepted ∧ (s.stepCore0 d).recorded = s.recorded := by
  rw [stepCore0]
  split
  case h_2 field rest call hcore0 =>
    cases rest <;> exact ⟨List.prefix_rfl, rfl⟩
  case h_7 =>
    split <;> exact ⟨List.prefix_rfl, rfl⟩
  case h_19 => exact ⟨List.prefix_append _ _, rfl⟩
  all_goals exact ⟨List.prefix_rfl, rfl⟩

theorem stepCore1_grows :
    s.stepCore1.accepted = s.accepted ∧ s.recorded ≤ s.stepCore1.recorded := by
  rw [stepCore1]
  split
  case h_9 => exact ⟨rfl, Nat.le_succ _⟩
  all_goals exact ⟨rfl, Nat.le_refl _⟩

theorem run_grows (labels : List (Label J C)) : s.accepted <+: (s.run labels).accepted := by
  induction labels generalizing s with
  | nil                => exact List.prefix_rfl
  | cons label rest ih =>
    refine List.IsPrefix.trans ?_ ih
    cases label with
    | core0 d => exact (stepCore0_grows d).1
    | core1   => exact stepCore1_grows.1 ▸ List.prefix_rfl

theorem Within.core0 {n steps : Nat} (hw : s.Within n steps) (h : s.Inv) (d : Decision J C) :
    (s.stepCore0 d).Within n steps := by
  obtain hdone | ⟨hn, hpending, hsteps⟩ := hw
  · exact .inl ((stepCore0_grows d).2.ge.trans' hdone)
  · obtain ⟨-, hfresh⟩ | ⟨-, hready⟩ := h
    · exact absurd hpending hfresh.not_pending
    · obtain ⟨hpending', haccepted, -, hcore1, hcomplete⟩ := hready.stepCore0_pending hpending d
      refine .inr ⟨haccepted.symm ▸ hn, hpending', ?_⟩
      rw [toRecord, hcore1, hcomplete]
      exact hsteps

theorem Within.core1 {n steps : Nat} (hw : s.Within n (steps + 1)) (h : s.Inv) :
    s.stepCore1.Within n steps := by
  obtain hdone | ⟨hn, hpending, hsteps⟩ := hw
  · exact .inl (stepCore1_grows.2.trans' hdone)
  · obtain ⟨-, hfresh⟩ | ⟨-, hready⟩ := h
    · exact absurd hpending hfresh.not_pending
    · have hlength := hpending.length
      obtain ⟨haccepted, hnext | ⟨-, hpending', hless⟩⟩ := hready.stepCore1_pending hpending
      · refine .inl ?_
        rw [hnext, hn, hlength]
      · refine .inr ⟨haccepted.symm ▸ hn, hpending', ?_⟩
        omega

def Label.isCore1 : Label J C → Bool
  | .core0 _ => false
  | .core1   => true

theorem Within.run {n : Nat} (labels : List (Label J C))
    (hw : s.Within n (labels.countP Label.isCore1)) (h : s.Inv) : (s.run labels).Within n 0 := by
  induction labels generalizing s with
  | nil                => exact hw
  | cons label rest ih =>
    cases label with
    | core0 d =>
      rw [List.countP_cons_of_neg Bool.false_ne_true] at hw
      exact ih (hw.core0 h d) (h.step (.core0 d))
    | core1   =>
      rw [List.countP_cons_of_pos rfl] at hw
      exact ih (hw.core1 h) (h.step .core1)

theorem Within.mono {n steps steps' : Nat} (hw : s.Within n steps) (h : steps ≤ steps') :
    s.Within n steps' :=
  hw.imp id fun hw => ⟨hw.1, hw.2.1, hw.2.2.trans h⟩

theorem Within.done {n : Nat} (hw : s.Within n 0) (h : s.Inv) : n ≤ s.recorded := by
  obtain hdone | ⟨-, hpending, hsteps⟩ := hw
  · exact hdone
  · obtain ⟨-, hfresh⟩ | ⟨-, hready⟩ := h
    · exact absurd hpending hfresh.not_pending
    · have hat1 := hready.shared.at1
      have hlength := hpending.length
      rw [toRecord] at hsteps
      cases hcore1 : s.core1 <;> rw [hcore1] at hat1 hsteps <;> dsimp only at hsteps
      case off | setOnline =>
        rw [hat1.accepted] at hlength
        cases hlength
      case readComplete => split at hsteps <;> cases hsteps
      all_goals cases hsteps

end State

-- In any order of steps: the accepted jobs are called in their order, each of them once, and the
-- ones of now are called, have returned and are recorded when core 1 has made seven more steps. A
-- job is not complete before it has returned, and it is once it is recorded, for the next 2³¹ - 1
-- jobs, or for one less if the counter passes over zero.
theorem mailbox_runs_jobs (control : Control J C) (labels : List (State.Label J C)) :
    let s := (State.boot control).run labels
    (s.ran = (s.accepted.take s.ran.length).map Accepted.work ∧
      s.accepted.length ≤ s.ran.length + 1 ∧ s.returned ≤ s.ran.length ∧
      s.recorded ≤ s.returned) ∧
    (∀ i a, s.accepted[i]? = some a →
      (s.returned ≤ i → s.control.complete a.ticket = false) ∧
      (i < s.recorded → s.later i < 2147483648 → s.control.complete a.ticket = true)) ∧
    ∀ more : List (State.Label J C), s.accepted <+: (s.run more).accepted ∧
      (7 ≤ more.countP State.Label.isCore1 → s.accepted.length ≤ (s.run more).recorded) := by
  intro s
  have hinv : s.Inv := (State.boot_inv control).run labels
  have hordered := hinv.ordered
  refine ⟨⟨hordered.ran, hordered.called, hordered.returned, hordered.recorded⟩,
    fun i a ha => ⟨hinv.not_complete ha, hinv.complete ha⟩,
    fun more => ⟨State.run_grows more, fun hsteps => ?_⟩⟩
  exact ((hinv.within.mono hsteps).run more hinv).done (hinv.run more)

section Forgotten

-- A client that submits one and the same job again and again.
def again : Decision Unit Unit where
  call   := .submit (some ()) none
  intime := true
  starts := true

def blank : Control Unit Unit where
  started        := 0
  online         := 0
  startFailed    := 0
  requestTicket  := 0
  completeTicket := 0
  job            := none
  context        := none

-- All of the first `n` jobs are recorded.
def rested (job : Option Unit) (result : UInt32) (n : Nat) : State Unit Unit where
  control     := {
    started        := 1
    online         := 1
    startFailed    := 0
    requestTicket  := ticketOf n
    completeTicket := ticketOf n
    job            := job
    context        := none }
  initialized := true
  core0       := .client result
  core1       := .readRequest
  accepted    := (List.range n).map fun i => ⟨(), none, ticketOf (i + 1)⟩
  ran         := .replicate n ((), none)
  returned    := n
  recorded    := n

def starting : List (State.Label Unit Unit) :=
  .replicate 13 (.core0 { again with call := .init }) ++
    .core1 :: .replicate 3 (.core0 { again with call := .init })

-- The steps until a job has returned.
def jobSteps : List (State.Label Unit Unit) :=
  .replicate 9 (.core0 again) ++ .replicate 5 .core1

theorem run_append {s : State J C} (labels more : List (State.Label J C)) :
    s.run (labels ++ more) = (s.run labels).run more :=
  List.foldl_append

theorem run_starting : (State.boot blank).run starting = rested none 1 0 := by
  rfl

-- The state in which the next job has returned and core 1 is about to record it.
def ending (n : Nat) : State Unit Unit :=
  { rested (some ()) (ticketOf (n + 1)) (n + 1) with
    control  := {
      started        := 1
      online         := 1
      startFailed    := 0
      requestTicket  := ticketOf (n + 1)
      completeTicket := ticketOf n
      job            := some ()
      context        := none }
    core1    := .writeComplete (ticketOf (n + 1))
    recorded := n }

theorem run_jobSteps (job : Option Unit) (result : UInt32) (n : Nat) :
    (rested job result n).run jobSteps = ending n := by
  simp [jobSteps, rested, ending, again, State.run, State.step, State.stepCore0, State.stepCore1,
    Core0.enter, Core0.afterInit, Core0.afterIdle, nextTicket_ticketOf, ticketOf_ne_succ,
    List.range_succ, List.replicate_succ']

theorem exists_rested (n : Nat) :
    ∃ labels job result, (State.boot blank).run labels = rested job result n := by
  induction n with
  | zero      => exact ⟨starting, none, 1, run_starting⟩
  | succ n ih =>
    obtain ⟨labels, job, result, hlabels⟩ := ih
    refine ⟨labels ++ jobSteps ++ [.core1], some (), ticketOf (n + 1), ?_⟩
    rw [run_append, run_append, hlabels, run_jobSteps]
    rfl

theorem rested_accepted {job : Option Unit} {result : UInt32} {n i : Nat} (h : i < n) :
    (rested job result n).accepted[i]? = some ⟨(), none, ticketOf (i + 1)⟩ := by
  have hrange : (List.range n)[i]? = some i := by
    rw [List.getElem?_range h]
  show ((List.range n).map fun i => (⟨(), none, ticketOf (i + 1)⟩ : Accepted Unit Unit))[i]? = _
  rw [List.getElem?_map, hrange]
  rfl

theorem rested_forgets {job : Option Unit} {result : UInt32} {n i : Nat} (h : i < n)
    (hfar : ¬(position n - position (i + 1)) % 4294967296 < 2147483648) :
    (rested job result n).control.complete (ticketOf (i + 1)) = false := by
  have hcomplete : (rested job result n).control.completeTicket = ticketOf n := rfl
  have hle : i + 1 ≤ n := h
  rw [Bool.eq_false_iff, Ne, State.complete_iff _ (ticketOf_ne_zero i), hcomplete,
    ticketOf_sub_nonneg_iff hle]
  exact hfar

theorem exists_forgotten {n i : Nat} (h : i < n)
    (hfar : ¬(position n - position (i + 1)) % 4294967296 < 2147483648) :
    ∃ labels a, let s := (State.boot blank).run labels
      s.accepted[i]? = some a ∧ i < s.returned ∧ i < s.recorded ∧
        s.accepted.length - (i + 1) = n - (i + 1) ∧ s.control.complete a.ticket = false := by
  obtain ⟨labels, job, result, hlabels⟩ := exists_rested n
  refine ⟨labels, ⟨(), none, ticketOf (i + 1)⟩, ?_⟩
  rw [hlabels]
  refine ⟨rested_accepted h, h, h, ?_, rested_forgets h hfar⟩
  show ((List.range n).map _).length - (i + 1) = n - (i + 1)
  rw [List.length_map, List.length_range]

-- With 2³¹ - 1 later jobs a job is forgotten if the counter has passed over zero since. And
-- between the return of a job and the next step of core 1 the job is not complete yet.
theorem job_forgotten :
    (∃ labels i a, let s := (State.boot blank).run labels
      s.accepted[i]? = some a ∧ i < s.returned ∧ i < s.recorded ∧
        s.accepted.length - (i + 1) < 2147483648 ∧ s.control.complete a.ticket = false) ∧
    ∃ labels a, let s := (State.boot blank).run labels
      s.accepted[0]? = some a ∧ 0 < s.returned ∧ s.control.complete a.ticket = false := by
  constructor
  · have hfar :
        ¬(position 6442450942 - position (4294967294 + 1)) % 4294967296 < 2147483648 := by
      rw [position, position]
      omega
    obtain ⟨labels, a, ha, hreturned, hrecorded, hlength, hcomplete⟩ :=
      @exists_forgotten 6442450942 4294967294 (by omega) hfar
    exact ⟨labels, 4294967294, a, ha, hreturned, hrecorded, by omega, hcomplete⟩
  · refine ⟨starting ++ jobSteps, ⟨(), none, 1⟩, ?_⟩
    rw [run_append, run_starting, run_jobSteps]
    exact ⟨rfl, Nat.zero_lt_one, rfl⟩

end Forgotten
end Executor
