import HackyLens.Link.Theorems.Hal
import HackyLens.Link.Ledger

-- The adapter refines the ledger, so that its callers may rely on what the ledger allows.

namespace ExternalLink

open App (Result)
open Prog Hal

-- What the callers know of the operation, provided that it was begun.
def Operation.entry (operation : Operation) : Option Entry :=
  if operation.state = .none then
    none
  else
    some {
      token   := ⟨operationSlot, operation.generation⟩
      txSize  := operation.txSize
      rxSize  := operation.rxSize
      tx      := operation.txDone
      rx      := operation.rxDone
      outcome :=
        if operation.state = .terminal then
          some (operation.terminalResult, fillProgress operation)
        else
          none }

-- What holds between the operation and the hardware.
structure Operation.Sound (operation : Operation) (controller : Controller) : Prop where
  tx : operation.txDone ≤ operation.txSize
  rx : operation.rxDone ≤ operation.rxSize
  pending : operation.state = .inFlight → operation.terminalResult = .pending
  terminal : operation.state = .terminal → operation.terminalResult ≠ .pending
  idle : operation.state = .inFlight → operation.kind ≠ .uartWrite →
    operation.controllerStarted = false → operation.txDone = 0 ∧ operation.rxDone = 0
  transfer : operation.state = .inFlight → operation.kind ≠ .uartWrite →
    operation.controllerStarted = true → controller.txSize = operation.txSize ∧
      controller.rxSize = operation.rxSize ∧ operation.txDone ≤ controller.commands ∧
      operation.rxDone ≤ controller.rxReceived

structure Inv (s : State) (controller : Controller) : Prop where
  bounded : controller.Bounded
  sound : s.operation.Sound controller
  active : s.operation.state ≠ .none → s.active = true
  unconfigured : s.mode = .unconfigured → s.operation = .zero
  generation : s.operation.state ≠ .none →
    s.operation.generation = s.nextOperationGeneration ∧ s.nextOperationGeneration ≠ 0

-- What the operations on the hardware leave alone.
structure Beside (s s' : State) : Prop where
  session : s'.session = s.session
  active : s'.active = s.active
  mode : s'.mode = s.mode
  generation : s'.nextOperationGeneration = s.nextOperationGeneration

variable {s s' s'' : State} {controller controller' : Controller} {operation : Operation}

theorem Beside.refl : Beside s s :=
  ⟨rfl, rfl, rfl, rfl⟩

theorem Beside.trans (h₁ : Beside s s') (h₂ : Beside s' s'') : Beside s s'' where
  session    := h₂.session.trans h₁.session
  active     := h₂.active.trans h₁.active
  mode       := h₂.mode.trans h₁.mode
  generation := h₂.generation.trans h₁.generation

theorem Operation.Sound.zero : Operation.zero.Sound controller where
  tx           := UInt32.le_refl _
  rx           := UInt32.le_refl _
  pending h    := by cases h
  terminal h   := by cases h
  idle h       := by cases h
  transfer h   := by cases h

theorem Operation.Sound.later (h : operation.Sound controller)
    (hl : controller.Later controller') : operation.Sound controller' where
  tx           := h.tx
  rx           := h.rx
  pending      := h.pending
  terminal     := h.terminal
  idle         := h.idle
  transfer h₁ h₂ h₃ := by
    obtain ⟨ht, hr, hc, hx⟩ := h.transfer h₁ h₂ h₃
    exact ⟨hl.txSize.trans ht, hl.rxSize.trans hr, UInt32.le_trans hc hl.commands,
      UInt32.le_trans hx hl.rxReceived⟩

theorem Inv.later (h : Inv s controller) (hb : controller'.Bounded)
    (hl : controller.Later controller') : Inv s controller' :=
  ⟨hb, h.sound.later hl, h.active, h.unconfigured, h.generation⟩

section Questions

variable {deadline : UInt64} {cancel : Cancel}

-- Asking whether the time is up, or whether the caller has lost interest, changes nothing.
theorem wp_deadlineExpired {Q : Bool → State → Controller → Prop} (hb : controller.Bounded)
    (hq : ∀ r controller', controller'.Bounded → controller.Later controller' →
      Q r s controller') : wp env (deadlineExpired deadline) Q s controller := by
  rw [deadlineExpired, wp_ite]
  split
  case isTrue  => exact hq _ _ hb .refl
  case isFalse =>
    rw [wp_bind]
    exact wp_asks trivial hb fun now _ hb hl _ => hq _ _ hb hl

theorem wp_cancellationRequested {Q : Bool → State → Controller → Prop} (hb : controller.Bounded)
    (hq : ∀ r controller', controller'.Bounded → controller.Later controller' →
      Q r s controller') : wp env (cancellationRequested cancel) Q s controller := by
  rw [cancellationRequested, wp_ite]
  split
  case isTrue  => exact hq _ _ hb .refl
  case isFalse => exact wp_asks trivial hb fun r _ hb hl _ => hq _ _ hb hl

end Questions

-- The operation is cleared together with the mode.
structure Stopped (s s' : State) : Prop where
  session : s'.session = s.session
  active : s'.active = s.active
  generation : s'.nextOperationGeneration = s.nextOperationGeneration
  operation : s'.operation = .zero

theorem wp_stopMode (hb : controller.Bounded) :
    wp env stopMode (fun _ s' controller' =>
      Stopped s s' ∧ s'.mode = .unconfigured ∧ controller'.Bounded) s controller := by
  have done {controller' : Controller} (hb : controller'.Bounded) : Stopped s { s with
      target := .clear, uartRx := .zero, operation := .zero, mode := .unconfigured } ∧
      Mode.unconfigured = .unconfigured ∧ controller'.Bounded :=
    ⟨⟨rfl, rfl, rfl, rfl⟩, rfl, hb⟩
  simp only [stopMode, stopHardware, wp_bind, wp_get, wp_ite]
  split
  case isTrue => exact wp_commands id hb fun _ _ hb => done hb
  split
  case isTrue  => exact wp_commands id hb fun _ _ hb => done hb
  case isFalse => exact done hb

theorem wp_setMode {mode : Mode} (h : Inv s controller) :
    wp env (setMode mode) (fun r s' controller' =>
      r = .busy ∧ s' = s ∧ controller' = controller ∨
        r = .ok ∧ Stopped s s' ∧ s'.mode = mode ∧ controller'.Bounded) s controller := by
  simp only [setMode, wp_bind, wp_get, wp_ite]
  split
  case isTrue => exact .inl ⟨rfl, rfl, rfl⟩
  split
  case isTrue =>
    refine wp_mono (wp_stopMode h.bounded) ?_
    intro _ s' controller' hs
    exact .inr ⟨rfl, ⟨hs.1.1, hs.1.2, hs.1.3, hs.1.4⟩, rfl, hs.2.2⟩
  case isFalse hm =>
    exact .inr ⟨rfl, ⟨rfl, rfl, rfl, h.unconfigured (not_not.mp hm)⟩, rfl, h.bounded⟩

-- Nothing is in flight when the operation has been cleared.
theorem Inv.cleared (h : s.operation = .zero) (hb : controller.Bounded) : Inv s controller where
  bounded        := hb
  sound          := h ▸ .zero
  active ha      := absurd (congrArg Operation.state h) ha
  unconfigured _ := h
  generation hg  := absurd (congrArg Operation.state h) hg

theorem Stopped.trans_beside (h : Stopped s s') (hb : Beside s' s'')
    (ho : s''.operation = s'.operation) : Stopped s s'' where
  session    := hb.session.trans h.session
  active     := hb.active.trans h.active
  generation := hb.generation.trans h.generation
  operation  := ho.trans h.operation

-- A configuration is refused, or it clears the operation.
theorem wp_configure {session : Nat} {feature : UInt64} {valid : Bool} {mode : Mode}
    {start : Task Unit} (h : Inv s controller)
    (hs : ∀ s' controller', controller'.Bounded → wp env start (fun _ s'' controller'' =>
      Beside s' s'' ∧ s''.operation = s'.operation ∧ controller''.Bounded) s' controller') :
    wp env (configure session feature valid mode start) (fun r s' controller' =>
      r ≠ .ok ∧ s' = s ∧ controller' = controller ∨
        r = .ok ∧ Stopped s s' ∧ controller'.Bounded) s controller := by
  simp only [configure, wp_bind, wp_get, wp_ite]
  split
  case isTrue => exact .inl ⟨(by decide : Result.internal ≠ .ok), rfl, rfl⟩
  split
  case isTrue => exact .inl ⟨(by decide : Result.notDeclared ≠ .ok), rfl, rfl⟩
  split
  case isTrue => exact .inl ⟨(by decide : Result.invalidArgument ≠ .ok), rfl, rfl⟩
  refine wp_mono (wp_setMode h) ?_
  rintro r s' controller' (⟨rfl, rfl, rfl⟩ | ⟨rfl, ht, -, hb⟩)
  · exact .inl ⟨(by decide : Result.busy ≠ .ok), rfl, rfl⟩
  · rw [if_neg (fun hn => hn rfl)]
    refine wp_mono (hs s' controller' hb) ?_
    rintro _ s'' controller'' ⟨hs, ho, hb⟩
    exact .inr ⟨rfl, ht.trans_beside hs ho, hb⟩

theorem wp_startUart (hb : controller.Bounded) :
    wp env startUart (fun _ s' controller' => s' = s ∧ controller'.Bounded) s controller := by
  simp only [startUart, wp_bind, wp_get]
  exact wp_commands id hb fun _ _ hb => ⟨rfl, hb⟩

theorem wp_resetUart (hb : controller.Bounded) :
    wp env resetUart (fun _ s' controller' =>
      Beside s s' ∧ s'.operation = s.operation ∧ controller'.Bounded) s controller := by
  simp only [resetUart, clearUartRx, wp_bind, wp_modify]
  refine wp_commands id hb fun _ _ hb => ?_
  refine wp_mono (wp_startUart hb) ?_
  rintro _ _ _ ⟨rfl, hb⟩
  exact ⟨⟨rfl, rfl, rfl, rfl⟩, rfl, hb⟩

theorem wp_latchTerminal {result : Result} (hs : s.operation.state ≠ .terminal)
    (hb : controller.Bounded) :
    wp env (latchTerminal result) (fun r s' controller' =>
      r = result ∧ Beside s s' ∧ controller'.Bounded ∧
        s'.operation = { s.operation with state := .terminal, terminalResult := result })
      s controller := by
  simp only [latchTerminal, modifyOperation, wp_bind, wp_get, wp_ite, if_neg hs]
  split
  case isTrue => exact wp_commands id hb fun _ _ hb => ⟨rfl, ⟨rfl, rfl, rfl, rfl⟩, hb, rfl⟩
  split
  case isTrue =>
    refine wp_mono (wp_resetUart hb) ?_
    rintro _ s' controller' ⟨hs, ho, hb⟩
    exact ⟨rfl, ⟨hs.1, hs.2, hs.3, hs.4⟩, hb, by rw [← ho]⟩
  case isFalse => exact ⟨rfl, ⟨rfl, rfl, rfl, rfl⟩, hb, rfl⟩

-- The operation has been carried on, and at most `budget` bytes have been moved.
structure Advanced (budget : Nat) (operation operation' : Operation) : Prop where
  generation : operation'.generation = operation.generation
  txSize : operation'.txSize = operation.txSize
  rxSize : operation'.rxSize = operation.rxSize
  tx : operation.txDone ≤ operation'.txDone
  rx : operation.rxDone ≤ operation'.rxDone
  moved : operation'.txDone.toNat + operation'.rxDone.toNat ≤
    operation.txDone.toNat + operation.rxDone.toNat + budget
  state : operation'.state ≠ .none

theorem Advanced.refl {budget : Nat} (hs : operation.state ≠ .none) :
    Advanced budget operation operation :=
  ⟨rfl, rfl, rfl, UInt32.le_refl _, UInt32.le_refl _, Nat.le_add_right .., hs⟩

-- A transfer only ends.
theorem Operation.Sound.latched {result : Result} (h : operation.Sound controller)
    (hr : result ≠ .pending) :
    { operation with state := .terminal, terminalResult := result }.Sound controller' where
  tx         := h.tx
  rx         := h.rx
  pending h  := by cases h
  terminal _ := hr
  idle h     := by cases h
  transfer h := by cases h

theorem advance_le {counter done budget : UInt32} (h : done ≤ counter) :
    advance counter done budget ≤ budget ∧ done ≤ done + advance counter done budget ∧
      done + advance counter done budget ≤ counter := by
  rw [advance]
  split
  case isTrue hb =>
    have hb := UInt32.le_of_lt hb
    exact ⟨UInt32.le_refl _, Controller.raise_le h hb⟩
  case isFalse hb => exact ⟨UInt32.not_lt.mp hb, Controller.raise_le h (UInt32.le_refl _)⟩

-- What the two sides of a transfer may still move is one budget.
theorem raised {n step budget : UInt32} (h : n ≤ n + step) (hb : step ≤ budget) :
    (n + step).toNat = n.toNat + step.toNat ∧
      (budget - step).toNat = budget.toNat - step.toNat := by
  refine ⟨?_, UInt32.toNat_sub_of_le _ _ hb⟩
  rw [UInt32.toNat_add]
  rw [UInt32.le_iff_toNat_le, UInt32.toNat_add] at h
  by_contra hn
  have ht := n.toNat_lt
  have hs := step.toNat_lt
  omega

-- What is left of an operation that was looked after.
structure Polled (budget : Nat) (s s' : State) (controller' : Controller) : Prop where
  beside : Beside s s'
  bounded : controller'.Bounded
  advanced : Advanced budget s.operation s'.operation
  sound : s'.operation.Sound controller'

variable {budget : Nat}

theorem Polled.latched {result : Result} {s₁ : State} {controller₁ : Controller}
    (h : Polled budget s s₁ controller₁) (hr : result ≠ .pending) (hb : Beside s₁ s')
    (hc : controller'.Bounded) (ho : s'.operation =
      { s₁.operation with state := .terminal, terminalResult := result }) :
    Polled budget s s' controller' where
  beside   := h.beside.trans hb
  bounded  := hc
  advanced := ho ▸ ⟨h.advanced.1, h.advanced.2, h.advanced.3, h.advanced.4, h.advanced.5,
    h.advanced.6, by simp⟩
  sound    := ho ▸ h.sound.latched hr

theorem wp_pollUart (h : Inv s controller) (hs : s.operation.state = .inFlight)
    (hk : s.operation.kind = .uartWrite) :
    wp env pollUart (fun r s' controller' => Polled pollBytes.toNat s s' controller' ∧
      s'.operation.terminalResult = r) s controller := by
  simp only [pollUart, modifyOperation, wp_bind, wp_get, wp_modify, wp_ite]
  generalize hr : (if s.operation.txSize - s.operation.txDone > pollBytes then pollBytes else
    s.operation.txSize - s.operation.txDone) = remaining
  have hr : remaining ≤ pollBytes ∧ remaining ≤ s.operation.txSize - s.operation.txDone := by
    subst hr
    split
    case isTrue hr  => exact ⟨UInt32.le_refl _, UInt32.le_of_lt hr⟩
    case isFalse hr => exact ⟨UInt32.not_lt.mp hr, UInt32.le_refl _⟩
  refine wp_asks trivial h.bounded fun sent controller₁ hb _ hsent => ?_
  have hsent : sent ≤ remaining := hsent
  have ht := Controller.raise_le h.sound.tx (UInt32.le_trans hsent hr.right)
  have hn := raised ht.left (UInt32.le_trans hsent hr.left)
  have hp := UInt32.le_iff_toNat_le.mp (UInt32.le_trans hsent hr.left)
  have done {controller' : Controller} (hb : controller'.Bounded) :
      Polled pollBytes.toNat s { s with
        operation := { s.operation with txDone := s.operation.txDone + sent } } controller' := {
    beside   := ⟨rfl, rfl, rfl, rfl⟩
    bounded  := hb
    advanced := {
      generation := rfl
      txSize     := rfl
      rxSize     := rfl
      tx         := ht.left
      rx         := UInt32.le_refl _
      moved      := by
        simp only [hn.left]
        omega
      state      := by simp [hs] }
    sound    := {
      tx         := ht.right
      rx         := h.sound.rx
      pending    := h.sound.pending
      terminal   := h.sound.terminal
      idle _ hn  := absurd hk hn
      transfer _ hn := absurd hk hn } }
  split
  case isFalse => exact ⟨done hb, h.sound.pending hs⟩
  refine wp_asks trivial hb fun idle controller₂ hb _ _ => ?_
  split
  case isFalse => exact ⟨done hb, h.sound.pending hs⟩
  refine wp_mono (wp_latchTerminal (by simp [hs]) hb) ?_
  rintro r s' controller' ⟨rfl, hbs, hb', ho⟩
  refine ⟨(done hb).latched (by decide) hbs hb' ho, by rw [ho]⟩

theorem wp_endTransfer (h : Polled pollBytes.toNat s s' controller')
    (hs : s'.operation.state = .inFlight) :
    wp env endTransfer (fun _ s'' controller'' => Polled pollBytes.toNat s s'' controller'')
      s' controller' := by
  have latch {result : Result} {controller₁ : Controller} (hr : result ≠ .pending)
      (hb : controller₁.Bounded) : wp env (latchTerminal result)
        (fun _ s'' controller'' => Polled pollBytes.toNat s s'' controller'') s' controller₁ := by
    refine wp_mono (wp_latchTerminal (by simp [hs]) hb) ?_
    rintro r s'' controller'' ⟨-, hb, hc, ho⟩
    exact h.latched hr hb hc ho
  have later {controller₁ : Controller} (hb : controller₁.Bounded)
      (hl : controller'.Later controller₁) : Polled pollBytes.toNat s s' controller₁ :=
    ⟨h.beside, hb, h.advanced, h.sound.later hl⟩
  simp only [endTransfer, wp_bind, wp_get, wp_ite]
  refine wp_asks trivial h.bounded fun aborted controller₁ hb hl _ => ?_
  split
  case isTrue => exact latch (by decide) hb
  beta_reduce
  split
  case isFalse => exact later hb hl
  refine wp_asks trivial hb fun idle controller₂ hb hl' _ => ?_
  split
  case isTrue  => exact latch (by decide) hb
  case isFalse => exact later hb (hl.trans hl')

theorem wp_startTransfer (h : Inv s controller) (hs : s.operation.state = .inFlight)
    (hk : s.operation.kind ≠ .uartWrite) :
    wp env startTransfer (fun _ s' controller' => Beside s s' ∧ controller'.Bounded ∧
      s'.operation = { s.operation with controllerStarted := true } ∧
      s'.operation.Sound controller') s controller := by
  simp only [startTransfer, modifyOperation, wp_bind, wp_get, wp_modify, wp_ite]
  split
  case isFalse hc =>
    have ho : s.operation = { s.operation with controllerStarted := true } := by
      rw [← not_not.mp hc]
    exact ⟨.refl, h.bounded, ho, h.sound⟩
  case isTrue hc =>
    refine wp_controllerStart fun controller' hb ht hr => ?_
    have hi := h.sound.idle hs hk (Bool.not_eq_true _ ▸ hc)
    refine ⟨⟨rfl, rfl, rfl, rfl⟩, hb, rfl, ?_⟩
    exact {
      tx       := h.sound.tx
      rx       := h.sound.rx
      pending  := h.sound.pending
      terminal := h.sound.terminal
      idle _ _ hn := by cases hn
      transfer _ _ _ := ⟨ht, hr, hi.left ▸ UInt32.zero_le, hi.right ▸ UInt32.zero_le⟩ }

-- An operation that is in flight on the controller goes on.
theorem Operation.Sound.moved {t r : UInt32} (h : operation.Sound controller)
    (hs : operation.state = .inFlight) (hc : operation.controllerStarted = true)
    (ht : operation.txDone + t ≤ operation.txSize ∧ operation.txDone + t ≤ controller.commands)
    (hr : operation.rxDone + r ≤ operation.rxSize ∧
      operation.rxDone + r ≤ controller.rxReceived) :
    { operation with txDone := operation.txDone + t, rxDone := operation.rxDone + r }.Sound
      controller where
  tx             := ht.left
  rx             := hr.left
  pending        := h.pending
  terminal       := h.terminal
  idle _ _ hn    := absurd (hc.symm.trans hn) (by decide)
  transfer _ hk _ :=
    have hx := h.transfer hs hk hc
    ⟨hx.left, hx.right.left, ht.right, hr.right⟩

theorem wp_trackTransfer (h : s.operation.Sound controller) (hb : controller.Bounded)
    (hs : s.operation.state = .inFlight) (hk : s.operation.kind ≠ .uartWrite)
    (hc : s.operation.controllerStarted = true) :
    wp env trackTransfer (fun _ s' controller' => Polled pollBytes.toNat s s' controller')
      s controller := by
  simp only [trackTransfer, modifyOperation, wp_bind, wp_get, wp_modify, wp_ite]
  refine wp_asks trivial hb fun aborted controller₁ hb hl _ => ?_
  replace h := h.later hl
  have here : Polled pollBytes.toNat s s controller₁ := ⟨.refl, hb, .refl (by simp [hs]), h⟩
  split
  case isTrue =>
    refine wp_mono (wp_latchTerminal (by simp [hs]) hb) ?_
    rintro r s' controller' ⟨-, hb, hc, ho⟩
    exact here.latched (by decide) hb hc ho
  refine wp_asks trivial hb fun accepted controller₂ hb hl ha => ?_
  replace h := h.later hl
  obtain ⟨hts, -, htc, -⟩ := h.transfer hs hk hc
  have ha : accepted = min controller₂.commands s.operation.txSize := hts ▸ ha
  have ht : s.operation.txDone ≤ accepted := ha ▸ Std.le_min_iff.mpr ⟨htc, h.tx⟩
  have hc' : accepted ≤ controller₂.commands := ha ▸ Std.min_le_left
  have hs' : accepted ≤ s.operation.txSize := ha ▸ Std.min_le_right
  obtain ⟨htb, htd, hta⟩ := @advance_le _ _ pollBytes ht
  generalize advance accepted s.operation.txDone pollBytes = t at *
  refine wp_asks trivial hb fun received controller₃ hb hl hr => ?_
  have hc₃ := UInt32.le_trans hc' hl.commands
  replace h := h.later hl
  obtain ⟨-, hrs, -, hrr⟩ := h.transfer hs hk hc
  have hr : received = controller₃.rxReceived := hr
  obtain ⟨hrb, hrd, hra⟩ := @advance_le _ _ (pollBytes - t) (hr ▸ hrr)
  generalize advance received s.operation.rxDone (pollBytes - t) = r at *
  have hx : received ≤ s.operation.rxSize := by
    rw [hr, ← hrs]
    exact hb.rxReceived
  refine wp_endTransfer ⟨⟨rfl, rfl, rfl, rfl⟩, hb, ?_, ?_⟩ hs
  · obtain ⟨ht₁, ht₂⟩ := raised htd htb
    obtain ⟨hr₁, -⟩ := raised hrd hrb
    rw [UInt32.le_iff_toNat_le] at htb hrb
    exact {
      generation := rfl
      txSize     := rfl
      rxSize     := rfl
      tx         := htd
      rx         := hrd
      moved      := by
        simp only [ht₁, hr₁]
        omega
      state      := by simp [hs] }
  · exact h.moved hs hc ⟨UInt32.le_trans hta hs', UInt32.le_trans hta hc₃⟩
      ⟨UInt32.le_trans hra hx, hr ▸ hra⟩

theorem wp_pollI2c (h : Inv s controller) (hs : s.operation.state = .inFlight)
    (hk : s.operation.kind ≠ .uartWrite) :
    wp env pollI2c (fun _ s' controller' => Polled pollBytes.toNat s s' controller')
      s controller := by
  refine wp_seq (wp_startTransfer h hs hk) ?_
  rintro _ s₁ controller₁ ⟨hbs, hb, ho, hsound⟩
  refine wp_mono (wp_trackTransfer hsound hb (by rw [ho]; exact hs) (by rw [ho]; exact hk)
    (by rw [ho])) ?_
  intro _ s' controller' hp
  refine ⟨hbs.trans hp.beside, hp.bounded, ?_, hp.sound⟩
  have ha := hp.advanced
  rw [ho] at ha
  exact ⟨ha.1, ha.2, ha.3, ha.4, ha.5, ha.6, ha.7⟩

theorem Polled.result (h : Polled budget s s' controller')
    (hs : s'.operation.state ≠ .terminal) : s'.operation.terminalResult = .pending := by
  cases ho : s'.operation.state
  case none     => exact absurd ho h.advanced.state
  case inFlight => exact h.sound.pending ho
  case terminal => exact absurd ho hs

theorem wp_pollOperation (h : Inv s controller) (hs : s.operation.state = .inFlight) :
    wp env pollOperation (fun r s' controller' => Polled pollBytes.toNat s s' controller' ∧
      s'.operation.terminalResult = r) s controller := by
  have latch {result : Result} {controller₁ : Controller} (hr : result ≠ .pending)
      (h : Inv s controller₁) : wp env (latchTerminal result) (fun r s' controller' =>
        Polled pollBytes.toNat s s' controller' ∧ s'.operation.terminalResult = r)
          s controller₁ := by
    refine wp_mono (wp_latchTerminal (by simp [hs]) h.bounded) ?_
    rintro r s' controller' ⟨rfl, hb, hc, ho⟩
    have here : Polled pollBytes.toNat s s controller₁ :=
      ⟨.refl, h.bounded, .refl (by simp [hs]), h.sound⟩
    exact ⟨here.latched hr hb hc ho, by rw [ho]⟩
  simp only [pollOperation, wp_bind, wp_get, wp_ite]
  refine wp_cancellationRequested h.bounded fun requested controller₁ hb hl => ?_
  replace h := h.later hb hl
  split
  case isTrue => exact latch (by decide) h
  refine wp_deadlineExpired hb fun expired controller₂ hb hl => ?_
  replace h := h.later hb hl
  split
  case isTrue => exact latch (by decide) h
  split
  case isTrue hk => exact wp_pollUart h hs hk
  case isFalse hk =>
    refine wp_mono (wp_pollI2c h hs hk) ?_
    intro _ s' controller' hp
    refine ⟨hp, ?_⟩
    split
    case isTrue     => rfl
    case isFalse hn => exact hp.result hn

theorem wp_pollImmediate {result : Result} (h : Polled budget s s' controller')
    (hr : s'.operation.terminalResult = result) :
    wp env (pollImmediate result) (fun r s'' controller'' => Polled budget s s'' controller'' ∧
      s''.operation.terminalResult = r) s' controller' := by
  simp only [pollImmediate, wp_bind, wp_get, wp_ite]
  split
  case isFalse   => exact ⟨h, hr⟩
  case isTrue hs =>
    refine wp_mono (wp_latchTerminal (by simp [hs.left]) h.bounded) ?_
    rintro r s'' controller'' ⟨rfl, hb, hc, ho⟩
    exact ⟨h.latched (by decide) hb hc ho, by rw [ho]⟩

-- The reply to a token that was accepted.
structure Reported (budget : Nat) (s s' : State) (controller' : Controller) (r : Result)
    (p : Progress) : Prop where
  polled : Polled budget s s' controller'
  result : r = s'.operation.terminalResult
  progress : p = fillProgress s'.operation
  latched : s.operation.state = .terminal →
    r = s.operation.terminalResult ∧ p = fillProgress s.operation

-- The two ways in which a token is answered.
inductive Answered (budget session : Nat) (token : Option Token) (s : State)
    (controller : Controller) : Result × Option Progress → State → Controller → Prop
  | internal : ¬s.owned session →
    Answered budget session token s controller (.internal, none) s controller
  | stale : ¬operationValid s token →
    Answered budget session token s controller (.staleHandle, none) s controller
  | accepted {result progress s' controller'} : s.owned session → operationValid s token →
    Reported budget s s' controller' result progress →
    Answered budget session token s controller (result, some progress) s' controller'

theorem Polled.observed (h : Polled budget s s' controller') :
    Polled budget s { s' with operation := { s'.operation with terminalObserved := true } }
      controller' where
  beside   := ⟨h.beside.1, h.beside.2, h.beside.3, h.beside.4⟩
  bounded  := h.bounded
  advanced := ⟨h.advanced.1, h.advanced.2, h.advanced.3, h.advanced.4, h.advanced.5,
    h.advanced.6, h.advanced.7⟩
  sound    := ⟨h.sound.1, h.sound.2, h.sound.3, h.sound.4, h.sound.5, h.sound.6⟩

theorem operationValid_iff {token : Option Token} : operationValid s token = true ↔
    token = some ⟨operationSlot, s.operation.generation⟩ ∧ s.operation.generation ≠ 0 ∧
      s.operation.state ≠ .none := by
  cases token
  case none => simp [operationValid]
  case some token =>
    cases token with
    | mk slot generation =>
      simp only [operationValid, Option.any_some, Bool.and_eq_true, beq_iff_eq, bne_iff_ne,
        Option.some.injEq, Token.mk.injEq, and_assoc]
      constructor
      · rintro ⟨rfl, hg, rfl, hs⟩
        exact ⟨rfl, rfl, hg, hs⟩
      · rintro ⟨rfl, rfl, hg, hs⟩
        exact ⟨rfl, hg, rfl, hs⟩

variable {session : Nat} {token : Option Token}

theorem Inv.inFlight (hs : s.operation.state ≠ .terminal)
    (hv : operationValid s token = true) : s.operation.state = .inFlight := by
  cases ho : s.operation.state
  case none     => exact absurd ho (operationValid_iff.mp hv).right.right
  case inFlight => rfl
  case terminal => exact absurd ho hs

theorem Inv.polled (h : Inv s controller) (hv : operationValid s token = true) :
    Polled budget s s controller :=
  ⟨.refl, h.bounded, .refl (operationValid_iff.mp hv).right.right, h.sound⟩

theorem wp_poll (h : Inv s controller) :
    wp env (poll session token) (Answered pollBytes.toNat session token s controller)
      s controller := by
  simp only [poll, modifyOperation, wp_bind, wp_get, wp_modify, wp_ite]
  split
  case isTrue ho => exact .internal ho
  split
  case isTrue hv => exact .stale hv
  rename_i ho hv
  replace ho := not_not.mp ho
  replace hv := not_not.mp hv
  split
  case isTrue hs =>
    exact .accepted ho hv ⟨(h.polled hv).observed, rfl, rfl, fun _ => ⟨rfl, rfl⟩⟩
  case isFalse hs =>
    refine wp_mono (wp_pollOperation h (Inv.inFlight hs hv)) ?_
    rintro r s₁ controller₁ ⟨hp, hr⟩
    refine wp_mono (wp_pollImmediate hp hr) ?_
    rintro r' s₂ controller₂ ⟨hp, hr⟩
    split
    case isTrue  => exact .accepted ho hv ⟨hp.observed, hr.symm, rfl, fun hn => absurd hn hs⟩
    case isFalse => exact .accepted ho hv ⟨hp, hr.symm, rfl, fun hn => absurd hn hs⟩

theorem wp_cancel (h : Inv s controller) :
    wp env (cancel session token) (Answered 0 session token s controller) s controller := by
  simp only [cancel, modifyOperation, wp_bind, wp_get, wp_modify, wp_ite]
  split
  case isTrue ho => exact .internal ho
  split
  case isTrue hv => exact .stale hv
  rename_i ho hv
  replace ho := not_not.mp ho
  replace hv := not_not.mp hv
  split
  case isFalse hs =>
    exact .accepted ho hv ⟨(h.polled hv).observed, rfl, rfl, fun _ => ⟨rfl, rfl⟩⟩
  case isTrue hs =>
    refine wp_mono (wp_latchTerminal (by simp [hs]) h.bounded) ?_
    rintro r s₁ controller₁ ⟨rfl, hb, hc, ho'⟩
    have here : Polled 0 s s controller := h.polled hv
    have hp := here.latched (by decide) hb hc ho'
    refine .accepted ho hv ⟨hp.observed, by simp [ho'], rfl, fun hn => ?_⟩
    exact absurd (hn.symm.trans hs) (by decide)

-- The operation that a request begins.
def Request.begin (request : Request) (generation : UInt32) : Operation :=
  { Operation.zero with
    state := .inFlight
    generation
    kind := request.kind
    deadline := request.deadline
    tx := request.tx
    rx := request.rx
    txSize := request.txSize
    rxSize := request.rxSize
    terminalResult := .pending
    cancel := request.cancel.getD .none
    i2cAddress := request.i2cAddress }

theorem Request.sound {request : Request} {generation : UInt32} :
    (request.begin generation).Sound controller where
  tx             := UInt32.zero_le
  rx             := UInt32.zero_le
  pending _      := rfl
  terminal h     := by cases h
  idle _ _ _     := ⟨rfl, rfl⟩
  transfer _ _ h := by cases h

-- What is checked before an operation begins.
inductive Checked (s : State) (controller : Controller) : Result → State → Controller → Prop
  | busy : Checked s controller .busy s controller
  | refused {r : Result} {controller' : Controller} :
    r = .limit ∨ r = .cancelled ∨ r = .deadlineExceeded → controller'.Bounded →
    controller.Later controller' → Checked s controller r s controller'
  | ok {controller' : Controller} : s.operation.state ≠ .inFlight →
    s.nextOperationGeneration ≠ 0xFFFFFFFF → controller'.Bounded → controller.Later controller' →
    Checked s controller .ok s controller'

theorem wp_checkBegin {deadline : UInt64} {cancel : Option Cancel} (hb : controller.Bounded) :
    wp env (checkBegin deadline cancel) (Checked s controller) s controller := by
  simp only [checkBegin, wp_bind, wp_get, wp_ite]
  split
  case isTrue => exact .busy
  rename_i hs
  split
  case isTrue => exact .refused (.inl rfl) hb .refl
  rename_i hg
  refine wp_cancellationRequested hb fun requested controller₁ hb hl => ?_
  split
  case isTrue => exact .refused (.inr (.inl rfl)) hb hl
  refine wp_deadlineExpired hb fun expired controller₂ hb hl' => ?_
  cases expired
  case true  => exact .refused (.inr (.inr rfl)) hb (hl.trans hl')
  case false => exact .ok (fun hn => hs (.inl hn)) hg hb (hl.trans hl')

-- A request is refused, or it begins an operation with a new generation.
inductive Begun (request : Request) (s : State) (controller : Controller) :
    Result × Option Token → State → Controller → Prop
  | refused {r : Result} {token : Option Token} {controller' : Controller} :
    r ≠ .pending → token = none ∨ token = some .none → (r = .busy → controller' = controller) →
    controller'.Bounded → controller.Later controller' →
    Begun request s controller (r, token) s controller'
  | accepted {controller' : Controller} : s.operation.state ≠ .inFlight →
    s.nextOperationGeneration ≠ 0xFFFFFFFF → s.active = true → s.mode ≠ .unconfigured →
    controller'.Bounded →
    Begun request s controller (.pending, some ⟨operationSlot, s.nextOperationGeneration + 1⟩)
      { s with
        nextOperationGeneration := s.nextOperationGeneration + 1
        operation := request.begin (s.nextOperationGeneration + 1) } controller'

theorem State.owned_iff : s.owned session = true ↔ s.active = true ∧ s.session = session := by
  simp [State.owned]

theorem wp_begin {mode : Mode} {request : Request} (h : Inv s controller)
    (hm : mode ≠ .unconfigured) :
    wp env (begin session mode request) (Begun request s controller) s controller := by
  simp only [ExternalLink.begin, wp_bind, wp_get, wp_ite]
  split
  case isTrue => exact .refused (by decide) (.inl rfl) (fun _ => rfl) h.bounded .refl
  split
  case isTrue => exact .refused (by decide) (.inl rfl) (fun _ => rfl) h.bounded .refl
  rename_i ho hm'
  refine wp_mono (wp_checkBegin h.bounded) ?_
  rintro r s' controller' (_ | ⟨hr, hb, hl⟩ | ⟨hs, hg, hb, hl⟩)
  case busy => exact .refused (by decide) (.inr rfl) (fun _ => rfl) h.bounded .refl
  case refused =>
    have hr : r ≠ .ok ∧ r ≠ .pending ∧ r ≠ .busy := by
      obtain rfl | rfl | rfl := hr <;> decide
    rw [if_pos hr.left]
    exact .refused hr.right.left (.inr rfl) (fun hn => absurd hn hr.right.right) hb hl
  case ok =>
    rw [if_neg (fun hn => hn rfl)]
    exact .accepted hs hg (State.owned_iff.mp (not_not.mp ho)).left (not_not.mp hm' ▸ hm) hb

-- The other operations are refused, or they clear the operation and leave the connector to `owner`.
inductive Settled (owner : Nat) (s : State) (controller : Controller) :
    Result → State → Controller → Prop
  | refused {r : Result} {controller' : Controller} : r ≠ .ok →
    (r = .busy → controller' = controller) → controller'.Bounded → controller.Later controller' →
    Settled owner s controller r s controller'
  | cleared {s' : State} {controller' : Controller} : s'.session = owner →
    s'.nextOperationGeneration = s.nextOperationGeneration → s'.operation = .zero →
    controller'.Bounded → Settled owner s controller .ok s' controller'

theorem wp_open {modeFeatures : UInt64} (h : Inv s controller) :
    wp env («open» session modeFeatures) (Settled session s controller) s controller := by
  simp only [«open», wp_bind, wp_get, wp_set, wp_ite]
  split
  case isTrue =>
    exact .refused (by decide : Result.invalidArgument ≠ .ok) (fun _ => rfl) h.bounded .refl
  split
  case isTrue  => exact .refused (by decide : Result.busy ≠ .ok) (fun _ => rfl) h.bounded .refl
  case isFalse => exact .cleared rfl rfl rfl h.bounded

theorem wp_close {deadline : UInt64} (h : Inv s controller) :
    wp env (close session deadline) (Settled 0 s controller) s controller := by
  simp only [close, releaseSession, wp_bind, wp_get, wp_modify, wp_ite]
  split
  case isTrue => exact .refused (by decide : Result.internal ≠ .ok) (fun _ => rfl) h.bounded .refl
  refine wp_deadlineExpired h.bounded fun expired controller₁ hb hl => ?_
  split
  case isTrue =>
    have hr : Result.deadlineExceeded ≠ .ok ∧ Result.deadlineExceeded ≠ .busy := by decide
    exact .refused hr.left (fun hn => absurd hn hr.right) hb hl
  refine wp_mono (wp_stopMode hb) ?_
  rintro _ s' controller' ⟨hs, -, hb⟩
  exact .cleared rfl hs.generation hs.operation hb

theorem wp_retire (h : Inv s controller) :
    wp env (retire session) (fun _ s' controller' =>
      if s.session = session then Settled 0 s controller .ok s' controller'
      else s' = s ∧ controller' = controller) s controller := by
  simp only [retire, releaseSession, wp_bind, wp_get, wp_modify, wp_ite]
  split
  case isTrue hn => exact ⟨rfl, rfl⟩
  case isFalse hn =>
    refine wp_mono (wp_stopMode h.bounded) ?_
    rintro _ s' controller' ⟨hs, -, hb⟩
    rw [if_pos (not_not.mp hn)]
    exact .cleared rfl hs.generation hs.operation hb

-- The generations that were handed out so far.
structure Issued (issued : List UInt32) (next : UInt32) : Prop where
  nodup : issued.Nodup
  range : ∀ g ∈ issued, g ≠ 0 ∧ g ≤ next
  length : issued.length = next.toNat

theorem Issued.succ {next : UInt32} (hn : next ≠ 0xFFFFFFFF) :
    (next + 1).toNat = next.toNat + 1 := by
  have ht := next.toNat_lt
  have hm : next.toNat ≠ 0xFFFFFFFF := fun hm => hn (UInt32.toNat_inj.mp hm)
  rw [UInt32.toNat_add]
  exact Nat.mod_eq_of_lt (by simp; omega)

theorem Issued.cons {issued : List UInt32} {next : UInt32} (h : Issued issued next)
    (hn : next ≠ 0xFFFFFFFF) :
    next + 1 ≠ 0 ∧ next + 1 ∉ issued ∧ Issued ((next + 1) :: issued) (next + 1) := by
  have hs := Issued.succ hn
  have hz : next + 1 ≠ 0 := fun hz => by simp [hz] at hs
  have hf : next + 1 ∉ issued := by
    intro hm
    have hl := UInt32.le_iff_toNat_le.mp (h.range _ hm).right
    omega
  refine ⟨hz, hf, List.nodup_cons.mpr ⟨hf, h.nodup⟩, ?_, ?_⟩
  · intro g hg
    obtain rfl | hg := List.mem_cons.mp hg
    · exact ⟨hz, UInt32.le_refl _⟩
    · have hl := UInt32.le_iff_toNat_le.mp (h.range g hg).right
      exact ⟨(h.range g hg).left, UInt32.le_iff_toNat_le.mpr (by omega)⟩
  · rw [List.length_cons, h.length, hs]

-- What the adapter's state has to do with what the callers know.
structure Refines (ledger : Ledger) (s : State) (controller : Controller) : Prop where
  inv : Inv s controller
  issued : Issued ledger.issued s.nextOperationGeneration
  session : ledger.session = s.session
  latest : ledger.latest = s.operation.entry

variable {ledger : Ledger}

theorem entry_zero : Operation.zero.entry = none :=
  rfl

theorem Refines.same (h : Refines ledger s controller) (hb : controller'.Bounded)
    (hl : controller.Later controller') : Refines ledger s controller' :=
  ⟨h.inv.later hb hl, h.issued, h.session, h.latest⟩

theorem Refines.settled {owner : Nat} {r : Result} (h : Refines ledger s controller)
    (hs : Settled owner s controller r s' controller') :
    (r = .busy → s' = s ∧ controller' = controller) ∧
      Refines (if r = .ok then ⟨ledger.issued, owner, none⟩ else ledger) s' controller' := by
  cases hs with
  | refused hr hb hc hl =>
    rw [if_neg hr]
    exact ⟨fun hn => ⟨rfl, hb hn⟩, h.same hc hl⟩
  | cleared ho hg hz hb =>
    refine ⟨fun hn => absurd hn (by decide), .cleared hz hb, hg ▸ h.issued, ho.symm, ?_⟩
    rw [hz]
    rfl

theorem entry_latched {entry : Entry} (he : entry ∈ operation.entry)
    (hs : operation.state ≠ .inFlight) : entry.outcome ≠ none := by
  rw [Operation.entry] at he
  cases ho : operation.state with
  | none =>
    rw [if_pos ho] at he
    cases he
  | inFlight => exact absurd ho hs
  | terminal =>
    simp only [ho, reduceCtorEq, if_false, if_true, Option.mem_def, Option.some.injEq] at he
    subst he
    exact Option.some_ne_none _

theorem Ledger.begun_refused {r : Result} {txSize rxSize : UInt32} (hr : r ≠ .pending) :
    ledger.begun txSize rxSize (.begun r token) = ledger := by
  rw [Ledger.begun]
  rintro token hn
  cases hn
  exact hr rfl

theorem Refines.begun {request : Request} {x : Result × Option Token}
    (h : Refines ledger s controller) (hb : Begun request s controller x s' controller') :
    ledger.AllowsBegun (.begun x.1 x.2) ∧
      (x.1 = .busy → s' = s ∧ controller' = controller) ∧
      Refines (ledger.begun request.txSize request.rxSize (.begun x.1 x.2)) s' controller' := by
  cases hb with
  | @refused r token controller' hr ht hb hc hl =>
    rw [Ledger.begun_refused hr]
    refine ⟨?_, fun hn => ⟨rfl, hb hn⟩, h.same hc hl⟩
    rw [Ledger.AllowsBegun, if_neg hr]
    exact ht
  | @accepted controller' hs hg ha hm hb =>
    obtain ⟨hz, hf, hi⟩ := h.issued.cons hg
    have hp : Result.pending ≠ .busy := by decide
    refine ⟨?_, fun hn => absurd hn hp, ?_⟩
    · rw [Ledger.AllowsBegun, if_pos rfl]
      refine ⟨⟨_, rfl, hz, hf⟩, ?_, fun entry he => ?_⟩
      · have hl := Issued.succ hg
        have ht := (s.nextOperationGeneration + 1).toNat_lt
        rw [h.issued.length]
        omega
      · rw [h.latest] at he
        exact entry_latched he hs
    · exact {
        inv     := {
          bounded          := hb
          sound            := Request.sound
          active _         := ha
          unconfigured hn  := absurd hn hm
          generation _     := ⟨rfl, hz⟩ }
        issued  := hi
        session := h.session
        latest  := rfl }

-- What the callers know of an operation that was begun.
theorem Operation.entry_some (hs : operation.state ≠ .none) : operation.entry = some {
    token   := ⟨operationSlot, operation.generation⟩
    txSize  := operation.txSize
    rxSize  := operation.rxSize
    tx      := operation.txDone
    rx      := operation.rxDone
    outcome :=
      if operation.state = .terminal then
        some (operation.terminalResult, fillProgress operation)
      else
        none } := by
  rw [entry, if_neg hs]

theorem Inv.reported (h : Inv s controller) (hs : s.operation.state ≠ .none)
    (hp : Polled budget s s' controller') : Inv s' controller' where
  bounded         := hp.bounded
  sound           := hp.sound
  active _        := hp.beside.active.trans (h.active hs)
  unconfigured hn := by
    rw [h.unconfigured (hp.beside.mode ▸ hn)] at hs
    exact absurd rfl hs
  generation _    := by
    rw [hp.advanced.generation, hp.beside.generation]
    exact h.generation hs

theorem Reported.terminal {r : Result} {p : Progress} (h : Reported budget s s' controller' r p) :
    p.terminal = true ↔ r ≠ .pending := by
  rw [h.progress, h.result, fillProgress, beq_iff_eq]
  constructor
  · exact h.polled.sound.terminal
  · intro hn
    by_contra hs
    exact hn (h.polled.result hs)

theorem Reported.entry {r : Result} {p : Progress} (h : Reported budget s s' controller' r p)
    (hs : s.operation.state ≠ .none) :
    s.operation.entry.map (fun entry => entry.report r p) = s'.operation.entry := by
  have ha := h.polled.advanced
  rw [Operation.entry_some hs, Operation.entry_some ha.state, Option.map_some, Option.some.injEq,
    Entry.report, h.progress, fillProgress, ha.generation, ha.txSize, ha.rxSize]
  by_cases ht : s'.operation.state = .terminal
  · simp [ht, h.result, fillProgress]
  · have hn : s.operation.state ≠ .terminal := by
      intro hn
      have hp := h.progress.symm.trans (h.latched hn).right
      simp [fillProgress, hn, ht] at hp
    simp [ht, hn, fillProgress]

theorem Refines.answered {x : Result × Option Progress} (h : Refines ledger s controller)
    (ha : Answered budget session token s controller x s' controller') :
    ledger.AllowsPolled budget session token (.polled x.1 x.2) ∧
      Refines (ledger.polled (.polled x.1 x.2)) s' controller' := by
  have refused (hn : s.owned session = true → operationValid s token = true → False) :
      ∀ entry ∈ ledger.latest, session = ledger.session → token ≠ some entry.token := by
    rintro entry he hs rfl
    rw [h.latest] at he
    by_cases ho : s.operation.state = .none
    · rw [Operation.entry, if_pos ho] at he
      cases he
    · rw [Operation.entry_some ho, Option.mem_some_iff] at he
      subst he
      obtain ⟨hg, hz⟩ := h.inv.generation ho
      exact hn (State.owned_iff.mpr ⟨h.inv.active ho, (hs.trans h.session).symm⟩)
        (operationValid_iff.mpr ⟨rfl, hg ▸ hz, ho⟩)
  cases ha with
  | internal ho => exact ⟨⟨.inl rfl, refused fun hn => absurd hn ho⟩, h⟩
  | stale hv    => exact ⟨⟨.inr rfl, refused fun _ hn => absurd hn hv⟩, h⟩
  | @accepted r p _ _ ho hv hr =>
    obtain ⟨ht, hz, hs⟩ := operationValid_iff.mp hv
    have ha := hr.polled.advanced
    have hsound := hr.polled.sound
    constructor
    · refine ⟨_, h.latest.trans (Operation.entry_some hs), ?_, ht, ?_⟩
      · exact (State.owned_iff.mp ho).right.symm.trans h.session.symm
      · refine ⟨?_, ?_, ?_, hr.terminal, ?_⟩
        · rw [hr.progress]
          exact ⟨ha.tx, ha.txSize ▸ hsound.tx⟩
        · rw [hr.progress]
          exact ⟨ha.rx, ha.rxSize ▸ hsound.rx⟩
        · rw [hr.progress]
          exact ha.moved
        · intro o ho
          dsimp only at ho
          split at ho
          case isFalse => cases ho
          case isTrue hn =>
            obtain rfl := Option.mem_some_iff.mp ho
            rw [(hr.latched hn).left, (hr.latched hn).right]
    · refine ⟨h.inv.reported hs hr.polled, ?_, ?_, ?_⟩
      · exact hr.polled.beside.generation ▸ h.issued
      · exact h.session.trans hr.polled.beside.session.symm
      · rw [← hr.entry hs, ← h.latest]
        rfl

-- One operation's reply is allowed, and its effects are those that the reply tells.
structure Told (ledger : Ledger) (op : Op) (s : State) (controller : Controller) (reply : Reply)
    (s' : State) (controller' : Controller) : Prop where
  allows : ledger.Allows op reply
  busy : reply.Busy → s' = s ∧ controller' = controller
  refines : Refines (ledger.step op reply) s' controller'

theorem Refines.result {owner : Nat} {r : Result} {op : Op} (h : Refines ledger s controller)
    (hs : Settled owner s controller r s' controller')
    (ha : ledger.Allows op (.result r))
    (hl : ledger.step op (.result r) = if r = .ok then ⟨ledger.issued, owner, none⟩ else ledger) :
    Told ledger op s controller (.result r) s' controller' :=
  ⟨ha, (h.settled hs).left, hl ▸ (h.settled hs).right⟩

theorem Refines.configured {feature : UInt64} {valid : Bool} {mode : Mode} {start : Task Unit}
    (h : Refines ledger s controller)
    (hs : ∀ s' controller', controller'.Bounded → wp env start (fun _ s'' controller'' =>
      Beside s' s'' ∧ s''.operation = s'.operation ∧ controller''.Bounded) s' controller') :
    wp env (configure session feature valid mode start)
      (Settled ledger.session s controller) s controller := by
  refine wp_mono (wp_configure h.inv hs) ?_
  rintro r s' controller' (⟨hr, rfl, rfl⟩ | ⟨rfl, ht, hb⟩)
  · exact .refused hr (fun _ => rfl) h.inv.bounded .refl
  · exact .cleared (ht.session.trans h.session.symm) ht.generation ht.operation hb

theorem Refines.perform (h : Refines ledger s controller) (op : Op) :
    wp env op.perform (Told ledger op s controller) s controller := by
  cases op with
  | «open» session modeFeatures =>
    rw [Op.perform, wp_map]
    refine wp_mono (wp_open h.inv) fun r s' controller' hs => ?_
    exact h.result hs ⟨r, rfl⟩ (by simp [Ledger.step])
  | close session deadline =>
    rw [Op.perform, wp_map]
    refine wp_mono (wp_close h.inv) fun r s' controller' hs => ?_
    exact h.result hs ⟨r, rfl⟩ (by simp [Ledger.step])
  | retire session =>
    rw [Op.perform, wp_map]
    refine wp_mono (wp_retire h.inv) fun _ s' controller' hs => ?_
    refine ⟨rfl, False.elim, ?_⟩
    rw [Ledger.step, h.session]
    split at hs
    case isTrue hn  =>
      rw [if_pos hn]
      exact (h.settled hs).right
    case isFalse hn =>
      rw [if_neg hn, hs.left, hs.right]
      exact h
  | configureUart session baud =>
    rw [Op.perform, wp_map, ExternalLink.configureUart]
    refine wp_mono (h.configured ?_) fun r s' controller' hs => ?_
    · intro s' controller' hb
      simp only [wp_bind, wp_modify]
      refine wp_mono (wp_startUart hb) ?_
      rintro _ _ _ ⟨rfl, hb⟩
      exact ⟨⟨rfl, rfl, rfl, rfl⟩, rfl, hb⟩
    · exact h.result hs ⟨r, rfl⟩ (by simp [Ledger.step, Ledger.forget])
  | configureI2cController session frequencyHz =>
    rw [Op.perform, wp_map, ExternalLink.configureI2cController]
    refine wp_mono (h.configured ?_) fun r s' controller' hs => ?_
    · exact fun s' controller' hb => ⟨⟨rfl, rfl, rfl, rfl⟩, rfl, hb⟩
    · exact h.result hs ⟨r, rfl⟩ (by simp [Ledger.step, Ledger.forget])
  | configureI2cTarget session address =>
    rw [Op.perform, wp_map, ExternalLink.configureI2cTarget]
    refine wp_mono (h.configured ?_) fun r s' controller' hs => ?_
    · exact fun s' controller' hb => wp_commands id hb fun _ _ hb => ⟨.refl, rfl, hb⟩
    · exact h.result hs ⟨r, rfl⟩ (by simp [Ledger.step, Ledger.forget])
  | uartWriteBegin session tx txSize deadline cancel =>
    rw [Op.perform, wp_bind, ExternalLink.uartWriteBegin]
    refine wp_mono (wp_begin h.inv (by decide)) fun x s' controller' hb => ?_
    exact ⟨(h.begun hb).left, (h.begun hb).right.left, (h.begun hb).right.right⟩
  | i2cTransferBegin session address tx txSize rx rxSize deadline cancel =>
    rw [Op.perform, wp_bind, ExternalLink.i2cTransferBegin]
    refine wp_mono (wp_begin h.inv (by decide)) fun x s' controller' hb => ?_
    exact ⟨(h.begun hb).left, (h.begun hb).right.left, (h.begun hb).right.right⟩
  | poll session token =>
    rw [Op.perform, wp_bind]
    refine wp_mono (wp_poll h.inv) fun x s' controller' ha => ?_
    exact ⟨(h.answered ha).left, False.elim, (h.answered ha).right⟩
  | cancel session token =>
    rw [Op.perform, wp_bind]
    refine wp_mono (wp_cancel h.inv) fun x s' controller' ha => ?_
    exact ⟨(h.answered ha).left, False.elim, (h.answered ha).right⟩

theorem Refines.told {op : Op} {ds : List Decision} {reply : Reply}
    (h : Refines ledger s controller)
    (hr : op.perform.run handler s ds controller = .done (reply, s') controller') :
    Told ledger op s controller reply s' controller' := by
  have hm := run_meets (fun d (_ : d ∈ ds) => trivial) (h.perform op)
  rw [env, hr] at hm
  exact hm

section Runs

variable {es : List (Op × Option Reply)} {ok : Op → List Decision → State → Controller → Prop}

theorem Refines.run (run : Run handler Op.perform none ok .zero .stopped es s controller) :
    Refines (.of es) s controller := by
  refine run.invariant (fun es s controller => Refines (.of es) s controller) ?start ?step
  case start =>
    exact ⟨.cleared rfl Controller.stopped_bounded, ⟨.nil, by simp [Ledger.of, Ledger.empty], rfl⟩,
      rfl, rfl⟩
  case step =>
    intro es s controller op ds _ h
    cases hr : op.perform.run handler s ds controller with
    | done x w        => exact (h.told hr).refines
    | cut w | hung w  => exact fun _ hn => by cases hn

-- Whatever the callers and the hardware do, no generation is handed out twice, every reply is
-- allowed by what the callers have been told before, and a refusal for being busy changes nothing.
theorem replies_allowed (run : Run handler Op.perform none ok .zero .stopped es s controller) :
    (Ledger.of es).issued.Nodup ∧ 0 ∉ (Ledger.of es).issued ∧
      ∀ op ds reply s' controller',
        op.perform.run handler s ds controller = .done (reply, s') controller' →
        (Ledger.of es).Allows op reply ∧ (reply.Busy → s' = s ∧ controller' = controller) := by
  have h := Refines.run run
  refine ⟨h.issued.nodup, fun hz => (h.issued.range 0 hz).left rfl, ?_⟩
  intro op ds reply s' controller' hr
  exact ⟨(h.told hr).allows, (h.told hr).busy⟩

-- A hardware that is ready for four bytes, and whose clock stands at 10.
def ready : Decision :=
  ⟨[], 10, false, 4, true, false, true, 8⟩

theorem replies_allowed_uart : ∃ es s controller,
    Run handler Op.perform none (fun _ _ _ _ => True) .zero .stopped es s controller ∧
    (Ledger.of es).latest = some ⟨⟨1, 1⟩, 6, 0, 4, 0, none⟩ ∧
    (Ledger.of es).issued.Nodup ∧ 0 ∉ (Ledger.of es).issued ∧
      ∀ op ds reply s' controller',
        op.perform.run handler s ds controller = .done (reply, s') controller' →
        (Ledger.of es).Allows op reply ∧ (reply.Busy → s' = s ∧ controller' = controller) := by
  have hx : ∃ es s controller,
      Run handler Op.perform none (fun _ _ _ _ => True) .zero .stopped es s controller ∧
      (Ledger.of es).latest = some ⟨⟨1, 1⟩, 6, 0, 4, 0, none⟩ :=
    exists_run (P := fun es (_ : State) (_ : Controller) => (Ledger.of es).latest = some _)
      [(.open 1 1, []), (.configureUart 1 (some 9600), [ready]),
        (.uartWriteBegin 1 0x100 6 100 none, [ready]),
        (.poll 1 (some ⟨1, 1⟩), [ready, ready])]
      ⟨_, rfl, rfl⟩
  obtain ⟨es, s, controller, r, hl⟩ := hx
  exact ⟨es, s, controller, r, hl, replies_allowed r⟩

-- A new configuration forgets an operation that has been cancelled, and a refused request still
-- writes to the caller's token.
theorem outcome_forgotten : ∃ es s controller,
    Run handler Op.perform none (fun _ _ _ _ => True) .zero .stopped es s controller ∧
    es = [
      (.poll 1 (some ⟨1, 1⟩), some (.polled .staleHandle none)),
      (.configureUart 1 (some 9600), some (.result .ok)),
      (.cancel 1 (some ⟨1, 1⟩),
        some (.polled .cancelled (some ⟨.uartWrite, 0, 0, false, false, true, .cancelled⟩))),
      (.uartWriteBegin 1 0x100 6 100 none, some (.begun .busy (some .none))),
      (.uartWriteBegin 1 0x100 6 100 none, some (.begun .pending (some ⟨1, 1⟩))),
      (.configureUart 1 (some 9600), some (.result .ok)),
      (.open 1 1, some (.result .ok))] :=
  exists_run (P := fun es (_ : State) (_ : Controller) => es = _)
    [(.open 1 1, []), (.configureUart 1 (some 9600), [ready]),
      (.uartWriteBegin 1 0x100 6 100 none, [ready]), (.uartWriteBegin 1 0x100 6 100 none, []),
      (.cancel 1 (some ⟨1, 1⟩), [ready, ready]), (.configureUart 1 (some 9600), [ready, ready]),
      (.poll 1 (some ⟨1, 1⟩), [])]
    ⟨_, rfl, rfl⟩

end Runs

end ExternalLink
