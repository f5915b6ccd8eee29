import HackyLens.Link.Theorems.Fifo
import HackyLens.Link.Theorems.Hal
import HackyLens.Lib.Preserves

-- A transfer from its first poll to its result, in any order of polls, of interrupts and of what
-- the hardware does by itself.

namespace ExternalLink
namespace I2c

open App (Result)
open Prog Hal

-- What is left of a transfer when the controller has been stopped.
structure Record where
  issued : List Command
  returned : List UInt8
  late : Bool
  memory : Memory
  origin : Memory

def Machine.record (machine : Machine) : Record :=
  ⟨machine.wire.issued, machine.wire.returned, machine.wire.late, machine.controller.memory,
    machine.origin⟩

def Record.transfer (record : Record) (plan : Plan) : Transfer :=
  { plan with memory := record.origin }

-- The memory is as it was, but for the first `n` bytes of the receive buffer.
def Transfer.Leaves (transfer : Transfer) (memory : Memory) (n : Nat) : Prop :=
  ∀ a, ¬(transfer.rx ≤ a ∧ a < transfer.rx + n) → memory a = transfer.memory a

-- The commands come in their order, and the bytes that came back are stored in theirs.
structure Record.Faithful (record : Record) (transfer : Transfer) : Prop where
  issued : record.issued <+: transfer.commands
  stored : ∃ n ≤ transfer.rxSize.toNat, record.memory.read transfer.rx n <+: record.returned ∧
    transfer.Leaves record.memory n

structure Record.Complete (record : Record) (transfer : Transfer) : Prop where
  issued : record.issued = transfer.commands
  returned : record.memory.read transfer.rx transfer.rxSize.toNat = record.returned
  kept : transfer.Leaves record.memory transfer.rxSize.toNat

-- Everything has been sent and stored.
def Mark.Full (mark : Mark) (plan : Plan) : Prop :=
  mark.sent = plan.txSize.toNat + plan.rxSize.toNat ∧ mark.got = plan.rxSize.toNat

variable {plan : Plan} {transfer : Transfer} {mark : Mark} {controller : Controller}
variable {wire : Wire} {machine machine' : Machine}

namespace Exact

theorem faithful (h : Exact transfer mark machine.controller machine.wire) :
    machine.record.Faithful transfer where
  issued := by
    have hi : machine.record.issued = _ := h.issued
    exact hi ▸ List.take_prefix _ _
  stored := by
    have hr := h.received_le
    exact ⟨machine.controller.rxReceived.toNat, by omega, ⟨_, h.returned.symm⟩, h.kept⟩

theorem complete (h : Exact transfer mark machine.controller machine.wire)
    (hm : mark.Full transfer.toPlan) : machine.record.Complete transfer := by
  have hr := h.received_le
  have hs : _ ≤ _ := hm.left ▸ h.sent
  have hg : _ ≤ _ := hm.right ▸ h.got
  have hn : machine.controller.rxReceived.toNat = transfer.rxSize.toNat := by omega
  have he : machine.wire.received = [] := List.eq_nil_of_length_eq_zero (by omega)
  constructor
  case issued =>
    refine h.issued.trans (List.take_of_length_le ?_)
    rw [Transfer.commands_length]
    exact hs
  case returned =>
    have hw := h.returned
    rw [hn, he, List.append_nil] at hw
    exact hw.symm
  case kept => exact hn ▸ h.kept

end Exact

-- A program that runs to its end meets what is shown of it.
theorem Machine.perform_meets {task : Task Unit} {moves : List (List Move)}
    {Q : Controller → Wire → Prop}
    (h : wp env task (fun _ => Q) machine.controller machine.wire) :
    ∃ controller wire, machine.perform task moves = { machine with controller, wire } ∧
      Q controller wire := by
  have hx : ∃ a controller wire,
      drive handler [] task machine.controller moves machine.wire =
        some ((a, controller), wire) ∧ Q controller wire :=
    drive_meets trivial (fun _ _ => trivial) (fun _ => id) h
  obtain ⟨a, controller, wire, hd, hq⟩ := hx
  rw [Machine.perform, hd]
  exact ⟨controller, wire, rfl, hq⟩

-- A transfer is going on.
structure Running (plan : Plan) (mark : Mark) (machine : Machine) : Prop where
  exact : Exact (machine.record.transfer plan) mark machine.controller machine.wire

namespace Running

theorem perform {task : Task Unit} {moves : List (List Move)} (h : Running plan mark machine)
    (ht : Keeps (machine.record.transfer plan) mark task) :
    Running plan mark (machine.perform task moves) := by
  obtain ⟨controller, wire, hp, hx⟩ := Machine.perform_meets (ht _ _ h.exact)
  exact hp ▸ ⟨hx⟩

theorem wait (h : Running plan mark machine) (events : List Event) :
    Running plan mark (machine.wait events) := by
  induction events generalizing machine with
  | nil => exact h
  | cons event events ih =>
    refine @ih (machine.happen event) ?_
    cases event
    case irq moves => exact h.perform keeps_irq
    case move m    =>
      have hm := h.exact.flow.move m
      exact ⟨h.exact.later hm.left hm.right⟩

theorem looks (h : Running plan mark machine) (events : List (List Event))
    (looks : List (Machine → Bool)) : Running plan mark (machine.looks events looks).snd := by
  induction looks generalizing machine events with
  | nil => exact h
  | cons look looks ih =>
    rw [Machine.looks]
    split
    case isTrue  => exact ih (h.wait _) _
    case isFalse => exact h.wait _

-- What is seen is taken note of.
theorem raise (h : Running plan mark machine) :
    Running plan ⟨machine.controller.commands.toNat, machine.controller.rxReceived.toNat,
      machine.controller.aborted⟩ machine :=
  ⟨{ h.exact with
    sent := Nat.le_refl _, got := Nat.le_refl _, late := fun ha => h.exact.aborted ▸ ha }⟩

-- The first of several looks that have all been successful.
theorem looks_cons {look : Machine → Bool} {looks : List (Machine → Bool)}
    {events : List (List Event)} (h : Running plan mark machine)
    (hl : (machine.looks events (look :: looks)).fst) :
    ∃ machine' events', Running plan mark machine' ∧ look machine' ∧
      (machine'.looks events' looks).fst ∧
      machine.looks events (look :: looks) = machine'.looks events' looks := by
  rw [Machine.looks] at hl ⊢
  split at hl
  case isFalse hn => cases hl
  case isTrue ht  =>
    rw [if_pos ht]
    exact ⟨_, _, h.wait _, ht, hl, rfl⟩

-- All commands have been seen to be issued before all bytes are seen to be stored.
theorem idle {events : List (List Event)} (h : Running plan mark machine)
    (hi : (machine.looks events idleLooks).fst) :
    ∃ mark : Mark, mark.Full plan ∧ Running plan mark (machine.looks events idleLooks).snd := by
  obtain ⟨machine₁, events₁, h₁, _, hi₁, he₁⟩ := h.looks_cons hi
  obtain ⟨machine₂, events₂, h₂, _, hi₂, he₂⟩ := h₁.looks_cons hi₁
  obtain ⟨machine₃, events₃, h₃, hc, hi₃, he₃⟩ := h₂.looks_cons hi₂
  obtain ⟨machine₄, events₄, h₄, hr, hi₄, he₄⟩ := h₃.raise.looks_cons hi₃
  have hc : machine₃.controller.commands.toNat = plan.txSize.toNat + plan.rxSize.toNat := by
    rw [eq_of_beq hc, h₃.exact.total]
    rfl
  have hr : machine₄.controller.rxReceived.toNat = plan.rxSize.toNat := by
    rw [eq_of_beq hr, h₄.exact.rxSize]
    rfl
  have last : Running plan ⟨machine₃.controller.commands.toNat,
      machine₄.controller.rxReceived.toNat, false⟩ machine₄ :=
    ⟨{ h₄.exact with got := Nat.le_refl _, late := nofun }⟩
  refine ⟨⟨machine₃.controller.commands.toNat, machine₄.controller.rxReceived.toNat, false⟩,
    ⟨hc, hr⟩, ?_⟩
  rw [idleLooks, he₁, he₂, he₃, he₄]
  exact last.looks _ _

end Running

-- Nothing is left to be carried out, and the history is that of `wire`.
structure Wire.Still (wire wire' : Wire) : Prop where
  pending : wire'.pending = []
  current : wire'.current = none
  issued : wire'.issued = wire.issued
  returned : wire'.returned = wire.returned
  late : wire'.late = wire.late

theorem Wire.Still.moves {wire' : Wire} (h : wire.Still wire') (moves : List Move) :
    wire.Still (moves.foldl Wire.move wire') := by
  induction moves generalizing wire' with
  | nil => exact h
  | cons m moves ih =>
    refine @ih (wire'.move m) ?_
    obtain ⟨hp, hc, hi, hr, hl⟩ := h
    cases m
    case begin       => simpa [Wire.move, hp, hc] using ⟨hp, hc, hi, hr, hl⟩
    case finish byte => simpa [Wire.move, hc] using ⟨hp, hc, hi, hr, hl⟩
    case stop        =>
      rw [Wire.move, if_pos ⟨hc, hp⟩]
      exact ⟨hp, hc, hi, hr, hl⟩

-- The controller has been stopped, and this is its record.
structure Machine.Rest (record : Record) (machine : Machine) : Prop where
  active : machine.controller.active = false
  pending : machine.wire.pending = []
  current : machine.wire.current = none
  record : machine.record = record

namespace Machine

variable {record : Record}

theorem Rest.of_still (h : machine.Rest record) (hw : machine.wire.Still wire) :
    Rest record { machine with wire } where
  active  := h.active
  pending := hw.pending
  current := hw.current
  record  := by
    rw [← h.record]
    simp only [Machine.record, hw.issued, hw.returned, hw.late]

theorem Rest.still (h : machine.Rest record) (moves : List Move) :
    machine.wire.Still (moves.foldl Wire.move machine.wire) :=
  Wire.Still.moves ⟨h.pending, h.current, rfl, rfl, rfl⟩ moves

-- An interrupt finds nothing to do.
theorem Rest.irq (h : machine.Rest record) (moves : List (List Move)) :
    (machine.perform irq moves).Rest record := by
  have hw : wp env I2c.irq (fun _ controller wire =>
      controller = machine.controller ∧ machine.wire.Still wire)
      machine.controller machine.wire := by
    rw [I2c.irq, wp_bind, access, wp_call]
    refine ⟨trivial, fun moves _ => ?_⟩
    rw [wp_bind, wp_get]
    beta_reduce
    rw [wp_ite, if_pos (by simp [h.active])]
    exact ⟨rfl, h.still moves⟩
  obtain ⟨controller, wire, hp, rfl, hs⟩ := Machine.perform_meets hw
  exact hp ▸ h.of_still hs

theorem Rest.wait (h : machine.Rest record) (events : List Event) :
    (machine.wait events).Rest record := by
  induction events generalizing machine with
  | nil => exact h
  | cons event events ih =>
    refine @ih (machine.happen event) ?_
    cases event
    case irq moves => exact h.irq moves
    case move m    => exact h.of_still (h.still [m])

theorem rest_stop : machine.stop.Rest machine.record :=
  ⟨rfl, rfl, rfl, rfl⟩

end Machine

-- The operation that the plan was made for, with the machine that carries it out.
structure Planned (plan : Plan) (operation : Operation) : Prop where
  kind : operation.kind = .i2cTransfer
  tx : operation.tx = plan.tx
  txSize : operation.txSize = plan.txSize
  rx : operation.rx = plan.rx
  rxSize : operation.rxSize = plan.rxSize

-- The result that an operation may have been given, by what has become of its transfer.
structure Settled (plan : Plan) (started : Bool) (result : Result) (record : Record) : Prop where
  faithful : started = true → record.Faithful (record.transfer plan)
  complete : result = .ok → started = true ∧ record.Complete (record.transfer plan)
  late : result = .io → record.late = true

inductive Phase (plan : Plan) (operation : Operation) (machine : Machine) : Prop
  | waiting : operation.state = .inFlight → operation.controllerStarted = false → Phase _ _ _
  | running (mark : Mark) : operation.state = .inFlight → operation.controllerStarted = true →
    Running plan mark machine → Phase _ _ _
  | ended (record : Record) : operation.state = .terminal → machine.Rest record →
    Settled plan operation.controllerStarted operation.terminalResult record → Phase _ _ _

structure Inv (plan : Plan) (s : State) (machine : Machine) : Prop where
  planned : Planned plan s.operation
  phase : Phase plan s.operation machine

-- The adapter's calls, with what happens on the controller before and during them.
def calls : Env Call Call.Reply Machine Decision where
  handler  := answer
  admits _ := True
  call _ _ := True
  hung _   := True

variable {s : State}

theorem Phase.wait {operation : Operation} (h : Phase plan operation machine)
    (events : List Event) : Phase plan operation (machine.wait events) := by
  cases h with
  | waiting hs hc        => exact .waiting hs hc
  | running mark hs hc h => exact .running mark hs hc (h.wait events)
  | ended record hs h hr => exact .ended record hs (h.wait events) hr

-- The calls that only ask leave the phase alone.
theorem wp_ask {c : Call} {Q : c.Reply → State → Machine → Prop} (h : Inv plan s machine)
    (hc : c.Asks) (hn : c ≠ .controllerIdle)
    (hq : ∀ r machine', Inv plan s machine' → Q r s machine') :
    wp calls (hal c) Q s machine := by
  rw [hal, wp_call]
  refine ⟨trivial, fun d _ => ?_⟩
  have hw : Inv plan s (machine.wait d.events) := ⟨h.planned, h.phase.wait d.events⟩
  cases c
  case timeUs               => exact hq _ _ hw
  case probe                => exact hq _ _ hw
  case uartSendReady        => exact hq _ _ hw
  case uartTxIdle           => exact hq _ _ hw
  case controllerAborted    => exact hq _ _ hw
  case controllerTxAccepted => exact hq _ _ hw
  case controllerRxReceived => exact hq _ _ hw
  case controllerIdle       => exact absurd rfl hn
  all_goals exact hc.elim

theorem Running.settled {result : Result} (h : Running plan mark machine)
    (ho : result = .ok → mark.Full plan) (hi : result = .io → mark.late = true)
    (events : List Event) : Settled plan true result (machine.wait events).record where
  faithful _ := (h.wait events).exact.faithful
  complete r := ⟨rfl, (h.wait events).exact.complete (ho r)⟩
  late r     := (h.wait events).exact.late (hi r)

-- Any other result may be given at any time.
theorem Inv.settled {result : Result} (h : Inv plan s machine)
    (hs : s.operation.state = .inFlight) (ho : result ≠ .ok) (hi : result ≠ .io)
    (events : List Event) :
    Settled plan s.operation.controllerStarted result (machine.wait events).record := by
  cases h.phase with
  | waiting _ hc        => exact ⟨by simp [hc], fun r => absurd r ho, fun r => absurd r hi⟩
  | running mark _ hc h =>
    exact hc ▸ h.settled (fun r => absurd r ho) (fun r => absurd r hi) events
  | ended _ he _ _      => exact nomatch hs.symm.trans he

-- What a poll has come to, with what it returns.
structure Polled (plan : Plan) (result : Result) (s : State) (machine : Machine) : Prop where
  inv : Inv plan s machine
  told : result = .ok ∨ result = .io →
    s.operation.state = .terminal ∧ s.operation.terminalResult = result

theorem wp_latch {result : Result} (h : Inv plan s machine)
    (hs : s.operation.state = .inFlight)
    (hr : ∀ events, Settled plan s.operation.controllerStarted result
      (machine.wait events).record) :
    wp calls (latchTerminal result) (fun r s machine => r = result ∧ Polled plan result s machine)
      s machine := by
  rw [latchTerminal, wp_bind, wp_get]
  beta_reduce
  rw [wp_ite, if_neg (by simp [hs])]
  dsimp only
  rw [wp_ite, if_pos h.planned.kind, wp_bind]
  refine ⟨trivial, fun d _ => ?_⟩
  refine ⟨rfl, ⟨{ h.planned with }, ?_⟩, fun _ => ⟨rfl, rfl⟩⟩
  exact .ended _ rfl Machine.rest_stop (hr d.events)

theorem exact_prepare {tx rx : Nat} {txSize rxSize : UInt32} (hf : tx = plan.tx)
    (hs : txSize = plan.txSize) (ht : rx = plan.rx) (hr : rxSize = plan.rxSize) :
    Running plan .none (machine.prepare tx txSize rx rxSize) := by
  subst hf hs ht hr
  constructor
  constructor
  case flow     => exact ⟨[], rfl, rfl⟩
  case commands => exact Nat.zero_le _
  case kept     => exact fun _ _ => rfl
  case sent     => exact Nat.zero_le _
  case got      => exact Nat.zero_le _
  case late     => exact nofun
  all_goals rfl

-- An operation that is in flight is a transfer that is going on once its controller was started.
def Started (plan : Plan) (s : State) (machine : Machine) : Prop :=
  Planned plan s.operation ∧ s.operation.state = .inFlight ∧
    s.operation.controllerStarted = true ∧ ∃ mark, Running plan mark machine

theorem Started.inv (h : Started plan s machine) : Inv plan s machine := by
  obtain ⟨hp, hs, hc, mark, hr⟩ := h
  exact ⟨hp, .running mark hs hc hr⟩

theorem Inv.started (h : Inv plan s machine) (hs : s.operation.state = .inFlight)
    (hc : s.operation.controllerStarted = true) : Started plan s machine := by
  cases h.phase with
  | waiting _ hn       => exact nomatch hn.symm.trans hc
  | running mark _ _ h' => exact ⟨h.planned, hs, hc, mark, h'⟩
  | ended _ he _ _     => exact nomatch hs.symm.trans he

theorem wp_startTransfer (h : Inv plan s machine) (hs : s.operation.state = .inFlight) :
    wp calls startTransfer (fun _ s machine => Started plan s machine) s machine := by
  rw [startTransfer, wp_bind, wp_get]
  dsimp only
  rw [wp_ite]
  split
  case isFalse hc => exact h.started hs (by simpa using hc)
  case isTrue hc =>
    rw [wp_bind]
    refine ⟨trivial, fun d _ => ?_⟩
    have hp := h.planned
    have hr : Running plan .none ((machine.wait d.events).prepare _ _ _ _) :=
      exact_prepare hp.tx hp.txSize hp.rx hp.rxSize
    exact ⟨{ hp with }, hs, rfl, _, hr.perform keeps_fillTx⟩

-- A controller that has given up ends the operation.
theorem wp_aborted {task : ExternalLink.Task Unit}
    (ht : ∀ machine, Started plan s machine →
      wp calls task (fun _ => Inv plan) s machine)
    (h : Started plan s machine) :
    wp calls (do
      let aborted ← hal .controllerAborted
      if aborted then
        let _ ← latchTerminal .io
      else
        task) (fun _ => Inv plan) s machine := by
  obtain ⟨hp, hs, hc, mark, hr⟩ := h
  rw [wp_bind, hal, wp_call]
  refine ⟨trivial, fun d _ => ?_⟩
  have hw := (hr.wait d.events).raise
  rw [wp_ite]
  split
  case isFalse => exact ht _ ⟨hp, hs, hc, _, hw⟩
  case isTrue ha =>
    rw [wp_bind]
    refine wp_mono (wp_latch ⟨hp, .running _ hs hc hw⟩ hs fun events => ?_)
      fun _ _ _ hl => hl.right.inv
    rw [hc]
    exact hw.settled (fun r => by cases r) (fun _ => ha) events

theorem wp_endTransfer (h : Started plan s machine) :
    wp calls endTransfer (fun _ => Inv plan) s machine := by
  refine wp_aborted (fun machine h => ?_) h
  rw [wp_bind, wp_get]
  dsimp only
  rw [wp_ite]
  split
  case isFalse => exact h.inv
  case isTrue =>
    obtain ⟨hp, hs, hc, mark, hr⟩ := h
    rw [wp_bind, hal, wp_call]
    refine ⟨trivial, fun d _ => ?_⟩
    rw [wp_ite]
    split
    case isFalse => exact ⟨hp, .running mark hs hc ((hr.wait d.events).looks _ _)⟩
    case isTrue hi =>
      obtain ⟨mark, hf, hm⟩ := (hr.wait d.events).idle hi
      rw [wp_bind]
      refine wp_mono (wp_latch ⟨hp, .running mark hs hc hm⟩ hs fun events => ?_)
        fun _ _ _ hl => hl.right.inv
      rw [hc]
      exact hm.settled (fun _ => hf) (fun r => by cases r) events

theorem wp_trackTransfer (h : Started plan s machine) :
    wp calls trackTransfer (fun _ => Inv plan) s machine := by
  refine wp_aborted (fun machine h => ?_) h
  rw [wp_bind, wp_get]
  dsimp only
  obtain ⟨hp, hs, hc, mark, hr⟩ := h
  rw [wp_bind, hal, wp_call]
  refine ⟨trivial, fun d _ => ?_⟩
  rw [wp_bind, modifyOperation, wp_modify]
  beta_reduce
  rw [wp_bind, hal, wp_call]
  refine ⟨trivial, fun d' _ => ?_⟩
  rw [wp_bind, modifyOperation, wp_modify]
  refine wp_endTransfer ?_
  exact ⟨{ hp with }, hs, hc, mark, (hr.wait d.events).wait d'.events⟩

theorem wp_pollI2c (h : Inv plan s machine) (hs : s.operation.state = .inFlight) :
    wp calls pollI2c (fun _ => Inv plan) s machine :=
  wp_seq (wp_startTransfer h hs) fun _ _ _ => wp_trackTransfer

-- A cancellation or a deadline ends the operation, whatever its transfer has come to.
theorem wp_give_up {result : Result} (h : Inv plan s machine)
    (hs : s.operation.state = .inFlight) (ho : result ≠ .ok) (hi : result ≠ .io) :
    wp calls (latchTerminal result) (Polled plan) s machine :=
  wp_mono (wp_latch h hs (h.settled hs ho hi)) fun _ _ _ hl => hl.left ▸ hl.right

theorem wp_cancellationRequested {cancel : Cancel} (h : Inv plan s machine) :
    wp calls (cancellationRequested cancel)
      (fun _ s' machine' => s' = s ∧ Inv plan s machine') s machine := by
  rw [cancellationRequested, wp_ite]
  split
  case isTrue  => exact ⟨rfl, h⟩
  case isFalse => exact wp_ask h trivial nofun fun _ _ h => ⟨rfl, h⟩

theorem wp_deadlineExpired {deadline : UInt64} (h : Inv plan s machine) :
    wp calls (deadlineExpired deadline)
      (fun _ s' machine' => s' = s ∧ Inv plan s machine') s machine := by
  rw [deadlineExpired, wp_ite]
  split
  case isTrue  => exact ⟨rfl, h⟩
  case isFalse =>
    rw [wp_bind]
    exact wp_ask h trivial nofun fun _ _ h => ⟨rfl, h⟩

-- Most results do not say anything about the transfer.
theorem Inv.refused {result : Result} (h : Inv plan s machine) (ho : result ≠ .ok)
    (hi : result ≠ .io) : Polled plan result s machine :=
  ⟨h, fun hr => hr.elim (absurd · ho) (absurd · hi)⟩

theorem Inv.polled (h : Inv plan s machine) :
    Polled plan (if s.operation.state = .terminal then s.operation.terminalResult else .pending)
      s machine := by
  split
  case isTrue hs => exact ⟨h, fun _ => ⟨hs, rfl⟩⟩
  case isFalse   => exact h.refused nofun nofun

theorem wp_pollOperation (h : Inv plan s machine) (hs : s.operation.state = .inFlight) :
    wp calls pollOperation (Polled plan) s machine := by
  rw [pollOperation, wp_bind, wp_get]
  dsimp only
  refine wp_seq (wp_cancellationRequested h) ?_
  rintro requested s machine ⟨rfl, h⟩
  rw [wp_ite]
  split
  case isTrue => exact wp_give_up h hs nofun nofun
  case isFalse =>
    refine wp_seq (wp_deadlineExpired h) ?_
    rintro expired s machine ⟨rfl, h⟩
    rw [wp_ite]
    split
    case isTrue => exact wp_give_up h hs nofun nofun
    case isFalse =>
      rw [wp_ite, if_neg (by simp [h.planned.kind])]
      exact wp_seq (wp_pollI2c h hs) fun _ s machine h => h.polled

theorem wp_pollImmediate {result : Result} (h : Polled plan result s machine) :
    wp calls (pollImmediate result) (Polled plan) s machine := by
  rw [pollImmediate, wp_bind, wp_get]
  dsimp only
  rw [wp_ite]
  split
  case isTrue hs  => exact wp_give_up h.inv hs.left nofun nofun
  case isFalse hs => exact h

-- The callers are told what has become of the operation, and have seen it then.
theorem Polled.observed {result : Result} (h : Polled plan result s machine) :
    Polled plan result { s with operation := { s.operation with terminalObserved := true } }
      machine := by
  obtain ⟨⟨hp, hs⟩, ht⟩ := h
  refine ⟨⟨{ hp with }, ?_⟩, ht⟩
  cases hs with
  | waiting hs hc        => exact .waiting hs hc
  | running mark hs hc h => exact .running mark hs hc h
  | ended record hs h hr => exact .ended record hs h hr

theorem wp_poll {session : Nat} {token : Option Token} (h : Inv plan s machine) :
    wp calls (poll session token) (fun r => Polled plan r.fst) s machine := by
  rw [poll, wp_bind, wp_get]
  dsimp only
  rw [wp_ite]
  split
  case isTrue => exact h.refused nofun nofun
  rw [wp_ite]
  split
  case isTrue => exact h.refused nofun nofun
  rw [wp_ite]
  split
  case isTrue hs =>
    have ht : Polled plan s.operation.terminalResult s machine := ⟨h, fun _ => ⟨hs, rfl⟩⟩
    exact ht.observed
  case isFalse hs =>
    have hf : s.operation.state = .inFlight := by
      cases h.phase with
      | waiting hs _     => exact hs
      | running _ hs _ _ => exact hs
      | ended _ ht _ _   => exact absurd ht hs
    refine wp_seq (wp_pollOperation h hf) fun result s machine h => ?_
    refine wp_seq (wp_pollImmediate h) fun result s machine h => ?_
    rw [wp_bind, wp_get]
    dsimp only
    rw [wp_ite]
    split
    case isTrue  => exact h.observed
    case isFalse => exact h

theorem ensures_checkBegin {deadline : UInt64} {cancel : Option Cancel} :
    Ensures (fun _ => True) (checkBegin deadline cancel) (fun r _ => r ≠ .pending) s := by
  rw [checkBegin]
  refine .get (.ite (fun _ => nofun) fun _ => .ite (fun _ => nofun) fun _ => ?_)
  refine .seq .top fun requested s _ => .ite (fun _ => nofun) fun _ => ?_
  refine .seq .top fun expired s _ => ?_
  cases expired
  case false => exact nofun
  case true  => exact nofun

-- What is planned is kept in the operation. Nothing is started before the first poll.
theorem ensures_begin {session : Nat} {address : UInt16} {deadline : UInt64}
    {cancel : Option Cancel} :
    Ensures (fun _ => True) (i2cTransferBegin session address plan.tx plan.txSize plan.rx
      plan.rxSize deadline cancel)
      (fun r s => r.fst = .pending → Planned plan s.operation ∧ s.operation.state = .inFlight ∧
        s.operation.controllerStarted = false) s := by
  rw [i2cTransferBegin, begin]
  refine .get (.ite (fun _ => nofun) fun _ => .ite (fun _ => nofun) fun _ => ?_)
  refine .seq ensures_checkBegin fun result s hn => .ite (fun _ hr => absurd hr hn) fun _ => ?_
  exact fun _ => ⟨⟨rfl, rfl, rfl, rfl, rfl⟩, rfl, rfl⟩

def polls (p : Nat × Option Token) : ExternalLink.Task (Result × Option Progress) :=
  poll p.fst p.snd

-- No interrupt during the poll finds another byte when it has emptied the receive FIFO.
def InTime (p : Nat × Option Token) (ds : List Decision) (s : State) (machine : Machine) : Prop :=
  ((polls p).run answer s ds machine).world.wire.late = false

instance {p : Nat × Option Token} {ds : List Decision} {s : State} {machine : Machine} :
    Decidable (InTime p ds s machine) :=
  inferInstanceAs (Decidable (_ = _))

-- A result is not taken back.
theorem ensures_terminal {p : Nat × Option Token} (hs : s.operation.state = .terminal) :
    Ensures (fun _ => True) (polls p) (fun _ s' => s'.operation.state = .terminal ∧
      s'.operation.terminalResult = s.operation.terminalResult) s := by
  rw [polls, poll]
  refine .get (.ite (fun _ => ⟨hs, rfl⟩) fun _ => .ite (fun _ => ⟨hs, rfl⟩) fun _ => ?_)
  exact .ite (fun _ => ⟨hs, rfl⟩) fun hn => absurd hs hn

-- The polls of a run, with what they returned.
abbrev Polls := List ((Nat × Option Token) × Option (Result × Option Progress))

-- What the callers have been told, and where it is kept.
structure Reported (plan : Plan) (es : Polls) (s : State) (machine : Machine) : Prop where
  inv : Inv plan s machine
  told : ∀ p result progress, (p, some (result, progress)) ∈ es → result ≠ .io ∧
    (result = .ok → s.operation.state = .terminal ∧ s.operation.terminalResult = .ok)

theorem Inv.late (h : Inv plan s machine) (hs : s.operation.state = .terminal)
    (hr : s.operation.terminalResult = .io) : machine.wire.late = true := by
  cases h.phase with
  | waiting hn _        => exact nomatch hs.symm.trans hn
  | running _ hn _ _    => exact nomatch hs.symm.trans hn
  | ended record _ h hd => exact (congrArg Record.late h.record).trans (hd.late hr)

theorem Inv.faithful (h : Inv plan s machine) (hc : s.operation.controllerStarted = true) :
    machine.record.Faithful (machine.record.transfer plan) := by
  cases h.phase with
  | waiting _ hn       => exact nomatch hn.symm.trans hc
  | running _ _ _ h    => exact h.exact.faithful
  | ended record _ h hd => exact h.record ▸ hd.faithful hc

theorem Inv.complete (h : Inv plan s machine) (hs : s.operation.state = .terminal)
    (hr : s.operation.terminalResult = .ok) :
    machine.record.Complete (machine.record.transfer plan) := by
  cases h.phase with
  | waiting hn _        => exact nomatch hs.symm.trans hn
  | running _ hn _ _    => exact nomatch hs.symm.trans hn
  | ended record _ h hd => exact h.record ▸ (hd.complete hr).right

theorem Reported.step {es : Polls} {p : Nat × Option Token} {ds : List Decision}
    (h : Reported plan es s machine)
    (ht : InTime p ds s machine) :
    Kept none (Reported plan) es p ((polls p).run answer s ds machine) := by
  have hm : ((polls p).run answer s ds machine).Meets calls _ :=
    run_meets (fun _ _ => trivial) (wp_poll h.inv)
  rw [InTime] at ht
  cases hr : (polls p).run answer s ds machine with
  | cut | hung =>
    intro s hs
    cases hs
  | done a machine' =>
    obtain ⟨⟨result, progress⟩, s'⟩ := a
    rw [hr] at hm ht
    have hp : Polled plan result s' machine' := hm
    have hl : machine'.wire.late = false := ht
    refine ⟨hp.inv, fun q result' progress' hq => ?_⟩
    cases hq with
    | head =>
      refine ⟨fun hi => ?_, fun ho => ho ▸ hp.told (.inl ho)⟩
      have hs := hp.told (.inr hi)
      exact nomatch hl.symm.trans (hp.inv.late hs.left (hs.right.trans hi))
    | tail _ hq =>
      obtain ⟨hi, ho⟩ := h.told q result' progress' hq
      refine ⟨hi, fun hr' => ?_⟩
      obtain ⟨hs, hk⟩ := ho hr'
      obtain ⟨hs', hk'⟩ := (ensures_terminal hs).of_run hr
      exact ⟨hs', hk'.trans hk⟩

-- In every run of polls whose looks are in time, the transfer is exact, and it is not reported as
-- aborted.
theorem transfer_exact {session : Nat} {address : UInt16} {deadline : UInt64}
    {cancel : Option Cancel} {token : Token} {ds : List Decision} {s s₀ s₁ : State}
    {w w₀ w₁ : Machine} {es : Polls}
    (hb : (i2cTransferBegin session address plan.tx plan.txSize plan.rx plan.rxSize deadline
      cancel).run answer s ds w = .done ((.pending, some token), s₀) w₀)
    (r : Run answer polls none InTime s₀ w₀ es s₁ w₁) :
    (s₁.operation.controllerStarted = true →
      w₁.record.Faithful (w₁.record.transfer plan)) ∧
      ∀ p result progress, (p, some (result, progress)) ∈ es →
        result ≠ .io ∧ (result = .ok → w₁.record.Complete (w₁.record.transfer plan)) := by
  obtain ⟨hp, hs, hc⟩ := ensures_begin.of_run hb rfl
  have start : Reported plan [] s₀ w₀ := ⟨⟨hp, .waiting hs hc⟩, nofun⟩
  have last := r.invariant (Reported plan) start fun ht h => h.step ht
  refine ⟨last.inv.faithful, fun p result progress hm => ?_⟩
  obtain ⟨hi, ho⟩ := last.told p result progress hm
  exact ⟨hi, fun hr => last.inv.complete (ho hr).left (ho hr).right⟩

-- One byte is to be sent, and two bytes are to be received.
def exchange : Plan :=
  ⟨0x100, 1, 0x200, 2, by decide⟩

def ready : State :=
  { State.zero with session := 1, mode := .i2cController, i2cFrequencyHz := 100000, active := true }

def stopped : Machine :=
  ⟨⟨false, false, 0, 0, 0, 0, 0, 0, fun _ => 7⟩, .idle, fun _ => 7⟩

-- The clock does not reach the deadline, and the events come before the call.
def Decision.of (events : List Event) : Decision :=
  ⟨events, [], [], 5, false, 0, false⟩

-- A run of polls of a transfer that was begun.
def Exchanged (ok : Nat × Option Token → List Decision → State → Machine → Prop)
    (P : Polls → Machine → Prop) : Prop :=
  ∃ s₀ w₀, (i2cTransferBegin 1 0x20 exchange.tx exchange.txSize exchange.rx exchange.rxSize 1000
      none).run answer ready [.of []] stopped = .done ((.pending, some ⟨1, 1⟩), s₀) w₀ ∧
    ∃ es s₁ w₁, Run answer polls none ok s₀ w₀ es s₁ w₁ ∧ P es w₁

-- The second byte comes when the handler is done with the first one.
def onTime : List Decision :=
  [.of [], .of [], .of [.move .begin, .move (.finish 0), .move .begin, .move (.finish 0xAA),
    .irq [], .move .begin, .move (.finish 0xBB), .irq []], .of [], .of [], .of [], .of [], .of []]

-- The second byte comes after the handler has seen the FIFO empty and before it looks again.
def tooLate : List Decision :=
  [.of [], .of [], .of [.move .begin, .move (.finish 0), .move .begin, .move (.finish 0xAA),
    .irq [[], [], [], [], [.begin, .finish 0xBB]]], .of []]

def Replied (result : Result) (es : Polls) : Prop :=
  ∃ progress, ((1, some ⟨1, 1⟩), some (result, progress)) ∈ es

theorem transfer_exact_exchange : Exchanged InTime fun es machine =>
    Replied .ok es ∧ machine.record.Complete (machine.record.transfer exchange) := by
  have hx : Exchanged InTime fun es _ => Replied .ok es :=
    ⟨_, _, rfl, exists_run (P := fun es _ _ => Replied .ok es) [((1, some ⟨1, 1⟩), onTime)]
      ⟨_, rfl, _, List.mem_cons_self⟩⟩
  obtain ⟨s₀, w₀, hb, es, s₁, w₁, r, progress, hm⟩ := hx
  exact ⟨s₀, w₀, hb, es, s₁, w₁, r, ⟨progress, hm⟩,
    ((transfer_exact hb r).right _ _ _ hm).right rfl⟩

-- Nothing went wrong on the wire and all commands were accepted, but the poll reports an error.
theorem transfer_reported_aborted : Exchanged (fun _ _ _ _ => True) fun es machine =>
    Replied .io es ∧ machine.wire.issued = (machine.record.transfer exchange).commands :=
  ⟨_, _, rfl, exists_run (P := fun es _ (machine : Machine) => Replied .io es ∧
      machine.wire.issued = (machine.record.transfer exchange).commands)
    [((1, some ⟨1, 1⟩), tooLate)] ⟨_, rfl, ⟨_, List.mem_cons_self⟩, rfl⟩⟩

end I2c
end ExternalLink
