import HackyLens.Executor.Core1
import Mathlib.Tactic

-- What holds between the two cores whenever one of them takes a step.

namespace Executor

variable {J C : Type}

-- How far the counter of tickets has come with `n` jobs, if it did not wrap: it passes over the
-- multiples of 2³².
def position (n : Nat) : Nat :=
  n + (n - 1) / 4294967295

def ticketOf (n : Nat) : UInt32 :=
  .ofNat (position n)

theorem ticketOf_zero : ticketOf 0 = 0 := by
  decide

theorem ticketOf_toNat (n : Nat) : (ticketOf n).toNat = position n % 4294967296 :=
  UInt32.toNat_ofNat'

theorem nextTicket_toNat (request : UInt32) : (nextTicket request).toNat =
    if request.toNat + 1 = 4294967296 then 1 else request.toNat + 1 := by
  have hlt := request.toNat_lt
  have hsucc : (request + 1).toNat = (request.toNat + 1) % 4294967296 := UInt32.toNat_add _ _
  have hzero : request + 1 = 0 ↔ (request.toNat + 1) % 4294967296 = 0 := by
    rw [← UInt32.toNat_inj, hsucc]
    rfl
  by_cases h : request + 1 = 0
  case pos =>
    have hmod := hzero.mp h
    have hlast : request.toNat + 1 = 4294967296 := by omega
    rw [nextTicket, if_pos h, if_pos hlast]
    rfl
  case neg =>
    have hmod := hzero.not.mp h
    have hlast : ¬request.toNat + 1 = 4294967296 := by omega
    rw [nextTicket, if_neg h, if_neg hlast, hsucc]
    omega

theorem nextTicket_ticketOf (n : Nat) : nextTicket (ticketOf n) = ticketOf (n + 1) := by
  rw [← UInt32.toNat_inj, nextTicket_toNat, ticketOf_toNat, ticketOf_toNat, position, position,
    Nat.add_sub_cancel]
  split <;> omega

theorem ticketOf_ne_zero (n : Nat) : ticketOf (n + 1) ≠ 0 := by
  have hzero : (0 : UInt32).toNat = 0 := rfl
  rw [Ne, ← UInt32.toNat_inj, ticketOf_toNat, position, Nat.add_sub_cancel, hzero]
  omega

theorem toInt32_nonneg_iff (x : UInt32) : 0 ≤ x.toInt32 ↔ x.toNat < 2147483648 := by
  have hlt := x.toNat_lt
  rw [Int32.le_iff_toInt_le, UInt32.toInt32]
  show (0 : Int) ≤ x.toBitVec.toInt ↔ _
  rw [BitVec.toInt_eq_toNat_cond]
  have hnat : x.toBitVec.toNat = x.toNat := rfl
  rw [hnat]
  split <;> omega

-- The comparison of two tickets.
theorem ticketOf_sub_nonneg_iff {m n : Nat} (h : m ≤ n) :
    0 ≤ (ticketOf n - ticketOf m).toInt32 ↔
      (position n - position m) % 4294967296 < 2147483648 := by
  have hle : position m ≤ position n := by
    rw [position, position]
    have hdiv : (m - 1) / 4294967295 ≤ (n - 1) / 4294967295 := by omega
    omega
  have hsub : (ticketOf n - ticketOf m).toNat =
      (4294967296 - (ticketOf m).toNat + (ticketOf n).toNat) % 4294967296 :=
    UInt32.toNat_sub _ _
  rw [toInt32_nonneg_iff, hsub, ticketOf_toNat, ticketOf_toNat]
  have heq : (4294967296 - position m % 4294967296 + position n % 4294967296) % 4294967296 =
      (position n - position m) % 4294967296 := by omega
  rw [heq]

theorem ticketOf_sub_succ_neg (n : Nat) : ¬0 ≤ (ticketOf n - ticketOf (n + 1)).toInt32 := by
  have hlt := (ticketOf n).toNat_lt
  have hsub : (ticketOf n - nextTicket (ticketOf n)).toNat =
      (4294967296 - (nextTicket (ticketOf n)).toNat + (ticketOf n).toNat) % 4294967296 :=
    UInt32.toNat_sub _ _
  rw [← nextTicket_ticketOf, toInt32_nonneg_iff, hsub, nextTicket_toNat]
  split <;> omega

theorem ticketOf_ne_succ (n : Nat) : ticketOf (n + 1) ≠ ticketOf n := by
  intro heq
  refine ticketOf_sub_succ_neg n ?_
  rw [heq, UInt32.sub_self]
  decide

-- The function and the context.
def Accepted.work (a : Accepted J C) : J × Option C :=
  (a.job, a.context)

namespace Mailbox

variable {m : Mailbox J C}

-- Nothing has been given to core 1.
structure Unused (m : Mailbox J C) : Prop where
  accepted : m.accepted = []
  ran : m.ran = []
  returned : m.returned = 0
  recorded : m.recorded = 0
  online : m.control.online = 0

-- There is a job in the control block that has not been recorded as complete.
def Pending (m : Mailbox J C) : Prop :=
  ∃ before a, m.accepted = before ++ [a] ∧ before.length = m.recorded ∧
    m.control.job = some a.job ∧ m.control.context = a.context

-- The jobs that are recorded are the ones that have been called.
structure Settled (m : Mailbox J C) : Prop where
  ran : m.ran = (m.accepted.take m.recorded).map Accepted.work
  returned : m.returned = m.recorded

theorem Settled.of_core1 (h : m.Settled) (core1 : Core1 J C) :
    { m with core1 := core1 }.Settled :=
  ⟨h.ran, h.returned⟩

structure Called (m : Mailbox J C) : Prop where
  pending : m.Pending
  ran : m.ran = m.accepted.map Accepted.work

-- What holds where core 1 is.
def At1 (m : Mailbox J C) : Core1 J C → Prop
  | .off                    => m.Unused
  | .setOnline              => m.Unused
  | .readRequest            => m.Settled
  | .readComplete ticket    =>
    m.Settled ∧ (ticket = ticketOf m.recorded ∨ ticket = ticketOf m.accepted.length)
  | .readJob ticket         => m.Settled ∧ m.Pending ∧ ticket = ticketOf m.accepted.length
  | .readContext ticket job =>
    m.Settled ∧ m.Pending ∧ ticket = ticketOf m.accepted.length ∧ job = m.control.job
  | .running ticket         =>
    m.Called ∧ m.returned = m.recorded ∧ ticket = ticketOf m.accepted.length
  | .writeComplete ticket   =>
    m.Called ∧ m.returned = m.accepted.length ∧ ticket = ticketOf m.accepted.length

-- Core 0 may write to the job in the control block.
structure Quiet (m : Mailbox J C) : Prop where
  online : m.control.online ≠ 0
  recorded : m.recorded = m.accepted.length

-- What holds where core 0 is.
def At0 (m : Mailbox J C) : Core0 J C → Prop
  | .clearing _ _ _                  => False
  | .setStarted _                    => m.core1 = .off
  | .startCore _                     => m.core1 = .off ∧ m.control.started ≠ 0
  | .idleRequest _                   => m.control.online ≠ 0
  | .idleComplete _ request          =>
    m.control.online ≠ 0 ∧ request = ticketOf m.accepted.length
  | .readRequest _ _                 => m.Quiet
  | .writeJob _ _ ticket             => m.Quiet ∧ ticket = ticketOf (m.accepted.length + 1)
  | .writeContext job _ ticket       =>
    m.Quiet ∧ ticket = ticketOf (m.accepted.length + 1) ∧ m.control.job = some job
  | .writeRequest job context ticket =>
    m.Quiet ∧ ticket = ticketOf (m.accepted.length + 1) ∧ m.control.job = some job ∧
      m.control.context = context
  | _                                => True

-- What holds between the cores.
structure Shared (m : Mailbox J C) : Prop where
  request : m.control.requestTicket = ticketOf m.accepted.length
  complete : m.control.completeTicket = ticketOf m.recorded
  lag : m.recorded = m.accepted.length ∨ m.Pending
  tickets : ∀ (i : Nat) a, m.accepted[i]? = some a → a.ticket = ticketOf (i + 1)
  started : m.core1 ≠ .off → m.control.started ≠ 0
  at1 : m.At1 m.core1

theorem Pending.length (h : m.Pending) : m.accepted.length = m.recorded + 1 := by
  obtain ⟨before, a, happend, hlength, -, -⟩ := h
  rw [happend, List.length_append, hlength, List.length_singleton]

theorem Quiet.not_pending (h : m.Quiet) : ¬m.Pending := fun hpending => by
  have hlength := hpending.length
  have hrecorded := h.recorded
  omega

-- Core 1 runs jobs only while it is online.
theorem Shared.unused (h : m.Shared) (hcore1 : m.core1 = .off) : m.Unused := by
  have hat1 := h.at1
  rw [hcore1] at hat1
  exact hat1

-- While core 0 may write to the job, core 1 waits for the next one.
theorem Shared.at_rest (h : m.Shared) (hquiet : m.Quiet) : m.Settled ∧
    (m.core1 = .readRequest ∨ m.core1 = .readComplete (ticketOf m.accepted.length)) := by
  have hat1 := h.at1
  have hrecorded := hquiet.recorded
  cases hcore1 : m.core1 with
  | off | setOnline =>
    rw [hcore1] at hat1
    exact absurd hat1.online hquiet.online
  | readRequest =>
    rw [hcore1] at hat1
    exact ⟨hat1, .inl rfl⟩
  | readComplete ticket =>
    rw [hcore1] at hat1
    obtain ⟨hsettled, hticket⟩ := hat1
    rw [hrecorded, or_self] at hticket
    rw [hticket]
    exact ⟨hsettled, .inr rfl⟩
  | readJob ticket | readContext ticket job =>
    rw [hcore1] at hat1
    exact absurd hat1.2.1 hquiet.not_pending
  | running ticket | writeComplete ticket =>
    rw [hcore1] at hat1
    exact absurd hat1.1.pending hquiet.not_pending

-- What is not read by core 1 may change in the control block.
theorem Shared.of_flags {control : Control J C} (h : m.Shared)
    (hrequest : control.requestTicket = m.control.requestTicket)
    (hcomplete : control.completeTicket = m.control.completeTicket)
    (hjob : control.job = m.control.job) (hcontext : control.context = m.control.context)
    (honline : control.online = m.control.online)
    (hstarted : m.control.started ≠ 0 → control.started ≠ 0) :
    { m with control := control }.Shared := by
  have hpending (hp : m.Pending) : { m with control := control }.Pending := by
    obtain ⟨before, a, happend, hlength, hajob, hacontext⟩ := hp
    exact ⟨before, a, happend, hlength, hjob.trans hajob, hcontext.trans hacontext⟩
  have hunused (hu : m.Unused) : { m with control := control }.Unused :=
    ⟨hu.accepted, hu.ran, hu.returned, hu.recorded, honline.trans hu.online⟩
  have hsettled (hs : m.Settled) : { m with control := control }.Settled := ⟨hs.ran, hs.returned⟩
  have hcalled (hc : m.Called) : { m with control := control }.Called :=
    ⟨hpending hc.pending, hc.ran⟩
  have hat1 (core1 : Core1 J C) (hat1 : m.At1 core1) :
      { m with control := control }.At1 core1 := by
    cases core1 with
    | off | setOnline => exact hunused hat1
    | readRequest     => exact hsettled hat1
    | readComplete    => exact ⟨hsettled hat1.1, hat1.2⟩
    | readJob         => exact ⟨hsettled hat1.1, hpending hat1.2.1, hat1.2.2⟩
    | readContext     =>
      exact ⟨hsettled hat1.1, hpending hat1.2.1, hat1.2.2.1, hat1.2.2.2.trans hjob.symm⟩
    | running | writeComplete => exact ⟨hcalled hat1.1, hat1.2⟩
  exact ⟨hrequest.trans h.request, hcomplete.trans h.complete, h.lag.imp id hpending, h.tickets,
    fun hcore1 => hstarted (h.started hcore1), hat1 _ h.at1⟩

-- The next job is written while there is none.
theorem Shared.of_job {control : Control J C} (h : m.Shared) (hquiet : m.Quiet)
    (hrequest : control.requestTicket = m.control.requestTicket)
    (hcomplete : control.completeTicket = m.control.completeTicket)
    (hstarted : control.started = m.control.started) :
    { m with control := control }.Shared := by
  obtain ⟨hsettled, hcore1⟩ := h.at_rest hquiet
  have hsettled' : { m with control := control }.Settled := ⟨hsettled.ran, hsettled.returned⟩
  have hat1 (core1 : Core1 J C)
      (hcore1 : core1 = .readRequest ∨ core1 = .readComplete (ticketOf m.accepted.length)) :
      { m with control := control }.At1 core1 := by
    obtain rfl | rfl := hcore1
    · exact hsettled'
    · exact ⟨hsettled', .inr rfl⟩
  exact ⟨hrequest.trans h.request, hcomplete.trans h.complete, .inl hquiet.recorded, h.tickets,
    fun hoff => hstarted.trans_ne (h.started hoff), hat1 _ hcore1⟩

def accept (m : Mailbox J C) (a : Accepted J C) : Mailbox J C :=
  { m with control := { m.control with requestTicket := a.ticket }, accepted := m.accepted ++ [a] }

-- The next job is accepted.
theorem Shared.accept {a : Accepted J C} (h : m.Shared) (hquiet : m.Quiet)
    (hticket : a.ticket = ticketOf (m.accepted.length + 1)) (hjob : m.control.job = some a.job)
    (hcontext : m.control.context = a.context) : (m.accept a).Shared := by
  obtain ⟨⟨hran, hreturned⟩, hcore1⟩ := h.at_rest hquiet
  have hrecorded := hquiet.recorded
  have hlength : (m.accepted ++ [a]).length = m.accepted.length + 1 := List.length_append
  have htake : (m.accepted ++ [a]).take m.recorded = m.accepted.take m.recorded :=
    List.take_append_of_le_length hrecorded.le
  have hsettled : (m.accept a).Settled := by
    refine ⟨?_, hreturned⟩
    show m.ran = ((m.accepted ++ [a]).take m.recorded).map Accepted.work
    rw [htake]
    exact hran
  have hat1 (core1 : Core1 J C)
      (hcore1 : core1 = .readRequest ∨ core1 = .readComplete (ticketOf m.accepted.length)) :
      (m.accept a).At1 core1 := by
    obtain rfl | rfl := hcore1
    · exact hsettled
    · refine ⟨hsettled, .inl ?_⟩
      rw [← hrecorded]
      rfl
  refine ⟨?_, h.complete, .inr ⟨m.accepted, a, rfl, hrecorded.symm, hjob, hcontext⟩,
    fun i b hi => ?_, h.started, hat1 _ hcore1⟩
  · show a.ticket = ticketOf (m.accepted ++ [a]).length
    rw [hlength, hticket]
  · have hi : (m.accepted ++ [a])[i]? = some b := hi
    rw [List.getElem?_append] at hi
    split at hi
    case isTrue      => exact h.tickets i b hi
    case isFalse hlt =>
      obtain ⟨hzero, hb⟩ := List.getElem?_eq_some_iff.mp hi
      have hzero : i - m.accepted.length < 1 := hzero
      have hi : i = m.accepted.length := by omega
      rw [List.getElem_singleton] at hb
      rw [← hb, hi, hticket]

theorem at0_enter (call : Call J C) : m.At0 (.enter call) := by
  cases call with
  | init | idle            => exact trivial
  | submit job context     => cases job <;> exact trivial
  | complete ticket        =>
    rw [Core0.enter]
    split <;> exact trivial

theorem at0_afterInit (caller : Caller J C) (result : Bool) :
    m.At0 (.afterInit caller result) := by
  cases caller with
  | client             => exact trivial
  | submit job context => cases result <;> exact trivial

theorem at0_afterIdle (caller : Caller J C) {result : Bool} (h : result = true → m.Quiet) :
    m.At0 (.afterIdle caller result) := by
  cases caller with
  | client             => exact trivial
  | submit job context =>
    cases result with
    | false => exact trivial
    | true  => exact h rfl

-- What core 1 does not change for core 0.
theorem At0.of_core1 {m' : Mailbox J C} {core0 : Core0 J C} (h : m.At0 core0)
    (haccepted : m'.accepted = m.accepted) (hjob : m'.control.job = m.control.job)
    (hcontext : m'.control.context = m.control.context)
    (hstarted : m'.control.started = m.control.started)
    (honline : m.control.online ≠ 0 → m'.control.online ≠ 0)
    (hrecorded : m.Quiet → m'.recorded = m.recorded)
    (hoff : m.core1 = .off → m'.core1 = .off) : m'.At0 core0 := by
  have hquiet (hq : m.Quiet) : m'.Quiet := by
    refine ⟨honline hq.online, ?_⟩
    rw [hrecorded hq, haccepted]
    exact hq.recorded
  cases core0 with
  | client | initOnline | initFailed | initStarted | startFailed | waitOnline | checkOnline
  | waitFailed | returnOnline | idleOnline | readComplete => exact trivial
  | clearing     => exact h.elim
  | setStarted   => exact hoff h
  | startCore    => exact ⟨hoff h.1, hstarted.trans_ne h.2⟩
  | idleRequest  => exact honline h
  | idleComplete => exact ⟨honline h.1, haccepted ▸ h.2⟩
  | readRequest  => exact hquiet h
  | writeJob     => exact ⟨hquiet h.1, haccepted ▸ h.2⟩
  | writeContext => exact ⟨hquiet h.1, haccepted ▸ h.2.1, hjob.trans h.2.2⟩
  | writeRequest =>
    exact ⟨hquiet h.1, haccepted ▸ h.2.1, hjob.trans h.2.2.1, hcontext.trans h.2.2.2⟩

end Mailbox

namespace State

variable {s : State J C} {d : Decision J C}

structure Ready (s : State J C) : Prop where
  shared : s.Shared
  at0 : s.At0 s.core0

theorem Ready.stepCore0 (h : s.Ready) (hinit : s.initialized = true) (d : Decision J C) :
    (s.stepCore0 d).Ready := by
  obtain ⟨hshared, hat0⟩ := h
  rw [State.stepCore0]
  cases hcore0 : s.core0 <;> rw [hcore0] at hat0 <;> dsimp only
  case client result =>
    rw [hinit, if_pos rfl]
    exact ⟨hshared, Mailbox.at0_enter d.call⟩
  case clearing field rest call => exact hat0.elim
  case initOnline caller =>
    refine ⟨hshared, ?_⟩
    dsimp only
    split
    case isTrue  => exact Mailbox.at0_afterInit caller true
    case isFalse => exact trivial
  case initFailed caller =>
    refine ⟨hshared, ?_⟩
    dsimp only
    split
    case isTrue  => exact Mailbox.at0_afterInit caller false
    case isFalse => exact trivial
  case initStarted caller =>
    refine ⟨hshared, ?_⟩
    dsimp only
    split
    case isTrue hzero => exact by_contra fun hoff => hshared.started hoff hzero
    case isFalse      => exact trivial
  case setStarted caller =>
    have hone : (1 : UInt32) ≠ 0 := by decide
    exact ⟨hshared.of_flags rfl rfl rfl rfl rfl (fun _ => hone), hat0, hone⟩
  case startCore caller =>
    obtain ⟨hoff, hstarted⟩ := hat0
    have hunused := hshared.unused hoff
    split
    case isFalse => exact ⟨hshared, trivial⟩
    case isTrue  =>
      refine ⟨⟨hshared.request, hshared.complete, ?_, hshared.tickets, fun _ => hstarted, ?_⟩,
        trivial⟩
      · left
        show s.recorded = s.accepted.length
        rw [hunused.recorded, hunused.accepted]
        rfl
      · exact ⟨hunused.accepted, hunused.ran, hunused.returned, hunused.recorded, hunused.online⟩
  case startFailed => exact ⟨hshared.of_flags rfl rfl rfl rfl rfl id, trivial⟩
  case waitOnline caller =>
    refine ⟨hshared, ?_⟩
    dsimp only
    split <;> exact trivial
  case checkOnline caller =>
    refine ⟨hshared, ?_⟩
    dsimp only
    split <;> exact trivial
  case waitFailed caller => exact ⟨hshared.of_flags rfl rfl rfl rfl rfl id, trivial⟩
  case returnOnline caller => exact ⟨hshared, Mailbox.at0_afterInit caller _⟩
  case idleOnline caller =>
    refine ⟨hshared, ?_⟩
    dsimp only
    split
    case isTrue honline => exact honline
    case isFalse        => exact Mailbox.at0_afterIdle caller (fun hfalse => by cases hfalse)
  case idleRequest caller => exact ⟨hshared, hat0, hshared.request⟩
  case idleComplete caller request =>
    obtain ⟨honline, hrequest⟩ := hat0
    refine ⟨hshared, Mailbox.at0_afterIdle caller fun hresult => ⟨honline, ?_⟩⟩
    have hsame : ticketOf s.accepted.length = ticketOf s.recorded := by
      rw [← hrequest, ← hshared.complete]
      exact of_decide_eq_true hresult
    obtain hlag | hpending := hshared.lag
    · exact hlag
    · rw [hpending.length] at hsame
      exact absurd hsame (ticketOf_ne_succ s.recorded)
  case readRequest job context =>
    refine ⟨hshared, hat0, ?_⟩
    show nextTicket s.control.requestTicket = _
    rw [hshared.request, nextTicket_ticketOf]
  case writeJob job context ticket =>
    exact ⟨hshared.of_job hat0.1 rfl rfl rfl, ⟨hat0.1.online, hat0.1.recorded⟩, hat0.2, rfl⟩
  case writeContext job context ticket =>
    exact ⟨hshared.of_job hat0.1 rfl rfl rfl, ⟨hat0.1.online, hat0.1.recorded⟩, hat0.2.1,
      hat0.2.2, rfl⟩
  case writeRequest job context ticket =>
    exact ⟨@Mailbox.Shared.accept _ _ _ ⟨job, context, ticket⟩ hshared hat0.1 hat0.2.1 hat0.2.2.1
      hat0.2.2.2, trivial⟩
  case readComplete ticket => exact ⟨hshared, trivial⟩

theorem Ready.stepCore1 (h : s.Ready) : s.stepCore1.Ready := by
  obtain ⟨hshared, hat0⟩ := h
  have hat1 := hshared.at1
  by_cases hoff : s.core1 = .off
  case pos =>
    rw [State.stepCore1, hoff]
    exact ⟨hshared, hat0⟩
  have hon := hshared.started hoff
  have hkeep {core1 : Core1 J C} (h : s.core1 = .off) : core1 = .off := absurd h hoff
  rw [State.stepCore1]
  cases hcore1 : s.core1 <;> rw [hcore1] at hat1 <;> dsimp only
  case off       => exact absurd hcore1 hoff
  case setOnline =>
    have hone : (1 : UInt32) ≠ 0 := by decide
    refine ⟨⟨hshared.request, hshared.complete, ?_, hshared.tickets, fun _ => hon, ?_⟩,
      hat0.of_core1 rfl rfl rfl rfl (fun _ => hone) (fun _ => rfl) hkeep⟩
    · left
      show s.recorded = s.accepted.length
      rw [hat1.recorded, hat1.accepted]
      rfl
    · refine ⟨?_, hat1.returned.trans hat1.recorded.symm⟩
      show s.ran = (s.accepted.take s.recorded).map Accepted.work
      rw [hat1.ran, hat1.accepted, List.take_nil]
      rfl
  case readRequest =>
    refine ⟨⟨hshared.request, hshared.complete, hshared.lag, hshared.tickets, fun _ => hon,
      hat1.of_core1 _, .inr hshared.request⟩, hat0.of_core1 rfl rfl rfl rfl id (fun _ => rfl) hkeep⟩
  case readComplete ticket =>
    obtain ⟨hsettled, hticket⟩ := hat1
    refine ⟨⟨hshared.request, hshared.complete, hshared.lag, hshared.tickets, fun _ => hon, ?_⟩,
      hat0.of_core1 rfl rfl rfl rfl id (fun _ => rfl) hkeep⟩
    · dsimp only
      rw [hshared.complete]
      split
      case isFalse     => exact hsettled.of_core1 _
      case isTrue hnew =>
        have hlast := hticket.resolve_left hnew
        refine ⟨hsettled.of_core1 _, hshared.lag.resolve_left fun hlag => hnew ?_, hlast⟩
        rw [hlast, ← hlag]
  case readJob ticket =>
    obtain ⟨hsettled, hpending, hticket⟩ := hat1
    refine ⟨⟨hshared.request, hshared.complete, hshared.lag, hshared.tickets, fun _ => hon,
      hsettled.of_core1 _, hpending, hticket, rfl⟩,
      hat0.of_core1 rfl rfl rfl rfl id (fun _ => rfl) hkeep⟩
  case readContext ticket job =>
    obtain ⟨hsettled, hpending, hticket, hjob⟩ := hat1
    obtain ⟨before, a, happend, hlength, hajob, hacontext⟩ := id hpending
    rw [hajob] at hjob
    rw [hjob]
    have hran : s.ran ++ [(a.job, s.control.context)] = s.accepted.map Accepted.work := by
      rw [hsettled.ran, happend, ← hlength, List.take_left, List.map_append, hacontext]
      rfl
    refine ⟨⟨hshared.request, hshared.complete, .inr hpending, hshared.tickets, fun _ => hon,
      ⟨hpending, hran⟩, hsettled.returned, hticket⟩,
      hat0.of_core1 rfl rfl rfl rfl id (fun _ => rfl) hkeep⟩
  case running ticket =>
    obtain ⟨hcalled, hreturned, hticket⟩ := hat1
    have hlength := hcalled.pending.length
    refine ⟨⟨hshared.request, hshared.complete, hshared.lag, hshared.tickets, fun _ => hon,
      ⟨hcalled.pending, hcalled.ran⟩, ?_, hticket⟩,
      hat0.of_core1 rfl rfl rfl rfl id (fun _ => rfl) hkeep⟩
    · show s.returned + 1 = s.accepted.length
      omega
  case writeComplete ticket =>
    obtain ⟨hcalled, hreturned, hticket⟩ := hat1
    have hlength := hcalled.pending.length
    refine ⟨⟨hshared.request, ?_, .inl hlength.symm, hshared.tickets, fun _ => hon, ?_, ?_⟩,
      hat0.of_core1 rfl rfl rfl rfl id
        (fun hquiet => absurd hcalled.pending hquiet.not_pending) hkeep⟩
    · show ticket = ticketOf (s.recorded + 1)
      rw [hticket, hlength]
    · show s.ran = (s.accepted.take (s.recorded + 1)).map Accepted.work
      rw [← hlength, List.take_length]
      exact hcalled.ran
    · show s.returned = s.recorded + 1
      rw [hreturned, hlength]

end State

def Control.Zero (control : Control J C) : Field → Prop
  | .started        => control.started = 0
  | .online         => control.online = 0
  | .startFailed    => control.startFailed = 0
  | .requestTicket  => control.requestTicket = 0
  | .completeTicket => control.completeTicket = 0
  | .job            => control.job = none
  | .context        => control.context = none

theorem Control.clear_self (control : Control J C) (field : Field) :
    (control.clear field).Zero field := by
  cases field <;> rfl

theorem Control.Zero.clear {control : Control J C} {field : Field} (h : control.Zero field)
    (other : Field) : (control.clear other).Zero field := by
  cases other <;> cases field <;> first | exact h | rfl

namespace State

variable {s : State J C} {d : Decision J C}

-- The control block is not set up yet, up to the fields that have been cleared.
structure Fresh (s : State J C) : Prop where
  core1 : s.core1 = .off
  accepted : s.accepted = []
  ran : s.ran = []
  returned : s.returned = 0
  recorded : s.recorded = 0
  core0 : (∃ result, s.core0 = .client result) ∨ ∃ done field rest call,
    s.core0 = .clearing field rest call ∧ done ++ field :: rest = .started :: laterFields ∧
      ∀ f ∈ done, s.control.Zero f

theorem Fresh.clearing {done rest : List Field} {field : Field} (h : s.Fresh) (call : Call J C)
    (hfields : done ++ field :: rest = .started :: laterFields)
    (hzero : ∀ f ∈ done, s.control.Zero f) (hinit : s.initialized = false) :
    (s.clearing field rest call).initialized = false ∧ (s.clearing field rest call).Fresh ∨
      (s.clearing field rest call).initialized = true ∧ (s.clearing field rest call).Ready := by
  obtain ⟨hcore1, haccepted, hran, hreturned, hrecorded, -⟩ := h
  have hzero' : ∀ f ∈ done ++ [field], (s.control.clear field).Zero f := by
    intro f hf
    obtain hf | hf := List.mem_append.mp hf
    · exact (hzero f hf).clear field
    · rw [List.mem_singleton.mp hf]
      exact s.control.clear_self field
  cases rest with
  | cons next rest =>
    refine .inl ⟨hinit, hcore1, haccepted, hran, hreturned, hrecorded,
      .inr ⟨done ++ [field], next, rest, call, rfl, ?_, hzero'⟩⟩
    rw [List.append_assoc]
    exact hfields
  | nil            =>
    rw [hfields] at hzero'
    rw [State.clearing]
    have hclear (f : Field) (hf : f ∈ Field.started :: laterFields) := hzero' f hf
    have hrequest : (s.control.clear field).requestTicket = 0 := hclear .requestTicket (by decide)
    have hcomplete : (s.control.clear field).completeTicket = 0 :=
      hclear .completeTicket (by decide)
    have honline : (s.control.clear field).online = 0 := hclear .online (by decide)
    refine .inr ⟨rfl, ⟨?_, ?_, .inl ?_, fun i a hi => ?_, fun hoff => absurd hcore1 hoff, ?_⟩,
      Mailbox.at0_enter call⟩
    · dsimp only
      rw [hrequest, haccepted]
      exact ticketOf_zero.symm
    · dsimp only
      rw [hcomplete, hrecorded]
      exact ticketOf_zero.symm
    · dsimp only
      rw [hrecorded, haccepted]
      rfl
    · dsimp only at hi
      rw [haccepted] at hi
      cases hi
    · dsimp only
      rw [hcore1]
      exact ⟨haccepted, hran, hreturned, hrecorded, honline⟩

-- What holds at any time.
def Inv (s : State J C) : Prop :=
  s.initialized = false ∧ s.Fresh ∨ s.initialized = true ∧ s.Ready

theorem stepCore1_initialized : s.stepCore1.initialized = s.initialized := by
  rw [stepCore1]
  split <;> rfl

theorem stepCore0_initialized (hinit : s.initialized = true) :
    (s.stepCore0 d).initialized = true := by
  rw [stepCore0]
  split
  case h_2 field rest call hcore0 =>
    cases rest
    case nil  => rfl
    case cons => exact hinit
  all_goals first | exact hinit | (split <;> exact hinit)

theorem Inv.step (h : s.Inv) (label : Label J C) : (s.step label).Inv := by
  obtain ⟨hinit, hfresh⟩ | ⟨hinit, hready⟩ := h
  case inr =>
    cases label with
    | core0 d => exact .inr ⟨stepCore0_initialized hinit, hready.stepCore0 hinit d⟩
    | core1   => exact .inr ⟨stepCore1_initialized.trans hinit, hready.stepCore1⟩
  case inl =>
    cases label with
    | core1   =>
      have hsame : s.stepCore1 = s := by
        rw [stepCore1, hfresh.core1]
      rw [State.step, hsame]
      exact .inl ⟨hinit, hfresh⟩
    | core0 d =>
      obtain ⟨hcore1, haccepted, hran, hreturned, hrecorded, hcore0⟩ := id hfresh
      obtain ⟨result, hcore0⟩ | ⟨done, field, rest, call, hcore0, hfields, hzero⟩ := hcore0
      · refine .inl ?_
        rw [State.step, stepCore0, hcore0]
        dsimp only
        rw [hinit]
        exact ⟨rfl, hcore1, haccepted, hran, hreturned, hrecorded,
          .inr ⟨[], .started, laterFields, d.call, rfl, rfl, fun _ hf => by cases hf⟩⟩
      · rw [State.step, stepCore0, hcore0]
        exact hfresh.clearing call hfields hzero hinit

theorem boot_inv (control : Control J C) : (boot control).Inv :=
  .inl ⟨rfl, rfl, rfl, rfl, rfl, rfl, .inl ⟨0, rfl⟩⟩

theorem Inv.run (h : s.Inv) (labels : List (Label J C)) : (s.run labels).Inv := by
  induction labels generalizing s with
  | nil                => exact h
  | cons label rest ih => exact ih (h.step label)

end State
end Executor
