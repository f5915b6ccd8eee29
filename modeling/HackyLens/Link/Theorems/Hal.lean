import HackyLens.Link.Adapter

-- What the calls to the hardware tell about its counters.

namespace ExternalLink

open Prog

namespace Hal
namespace Controller

-- The counters stay within the sizes of the transfer.
structure Bounded (controller : Controller) : Prop where
  commands : controller.commands ≤ controller.txSize + controller.rxSize
  rxReceived : controller.rxReceived ≤ controller.rxSize

-- Nothing but interrupts have happened in between.
structure Later (controller controller' : Controller) : Prop where
  txSize : controller'.txSize = controller.txSize
  rxSize : controller'.rxSize = controller.rxSize
  commands : controller.commands ≤ controller'.commands
  rxReceived : controller.rxReceived ≤ controller'.rxReceived

variable {controller controller' controller'' : Controller}

theorem Later.refl : Later controller controller :=
  ⟨rfl, rfl, UInt32.le_refl _, UInt32.le_refl _⟩

theorem Later.trans (h₁ : Later controller controller') (h₂ : Later controller' controller'') :
    Later controller controller'' where
  txSize     := h₂.txSize.trans h₁.txSize
  rxSize     := h₂.rxSize.trans h₁.rxSize
  commands   := UInt32.le_trans h₁.commands h₂.commands
  rxReceived := UInt32.le_trans h₁.rxReceived h₂.rxReceived

theorem stopped_bounded : Bounded .stopped :=
  ⟨UInt32.le_refl _, UInt32.le_refl _⟩

-- A counter that is raised by no more than what is left of its bound.
theorem raise_le {n total step : UInt32} (h : n ≤ total) (hs : step ≤ total - n) :
    n ≤ n + step ∧ n + step ≤ total := by
  have hs' : step.toNat ≤ total.toNat - n.toNat := by
    rw [← UInt32.toNat_sub_of_le _ _ h]
    exact UInt32.le_iff_toNat_le.mp hs
  have hl := UInt32.le_iff_toNat_le.mp h
  have ht := total.toNat_lt
  have ha : (n + step).toNat = n.toNat + step.toNat := by
    rw [UInt32.toNat_add]
    exact Nat.mod_eq_of_lt (by omega)
  exact ⟨UInt32.le_iff_toNat_le.mpr (by omega), UInt32.le_iff_toNat_le.mpr (by omega)⟩

theorem Bounded.drainRx {irq : Irq} (h : Bounded controller) :
    Bounded (controller.drainRx irq) ∧ Later controller (controller.drainRx irq) := by
  have hr := raise_le h.rxReceived
    (UInt32.le_trans (Std.min_le_right (a := irq.available)) (Std.min_le_right (a := fifoDepth)))
  exact ⟨⟨h.commands, hr.right⟩, ⟨rfl, rfl, UInt32.le_refl _, hr.left⟩⟩

theorem Bounded.fillTx {room : UInt32} (h : Bounded controller) :
    Bounded (controller.fillTx room) ∧ Later controller (controller.fillTx room) := by
  have hr := raise_le h.commands (Std.min_le_right (a := room))
  exact ⟨⟨hr.right, h.rxReceived⟩, ⟨rfl, rfl, hr.left, UInt32.le_refl _⟩⟩

theorem Bounded.irq {irq : Irq} (h : Bounded controller) :
    Bounded (controller.irq irq) ∧ Later controller (controller.irq irq) := by
  unfold Controller.irq
  split
  case isTrue => exact ⟨h, .refl⟩
  split
  case isTrue => exact ⟨⟨h.commands, h.rxReceived⟩, ⟨rfl, rfl, UInt32.le_refl _, UInt32.le_refl _⟩⟩
  generalize hd : (if irq.drains then controller.drainRx irq else controller) = drained
  have hb : Bounded drained ∧ Later controller drained := by
    split at hd
    case isTrue  => exact hd ▸ h.drainRx
    case isFalse => exact hd ▸ ⟨h, .refl⟩
  dsimp only
  split
  case isFalse => exact hb
  case isTrue  => exact ⟨hb.left.fillTx.left, hb.right.trans hb.left.fillTx.right⟩

theorem Bounded.irqs (h : Bounded controller) (irqs : List Irq) :
    Bounded (irqs.foldl Controller.irq controller) ∧
      Later controller (irqs.foldl Controller.irq controller) := by
  induction irqs generalizing controller with
  | nil => exact ⟨h, .refl⟩
  | cons irq irqs ih =>
    have hi := @ih (controller.irq irq) h.irq.left
    exact ⟨hi.left, h.irq.right.trans hi.right⟩

theorem started_bounded {active aborted : Bool} {txSize rxSize : UInt32} :
    Bounded ⟨active, aborted, txSize, rxSize, 0, 0⟩ :=
  ⟨UInt32.zero_le, UInt32.zero_le⟩

end Controller

-- Nothing is assumed of the hardware.
def env : Env Call Call.Reply Controller Decision where
  handler  := handler
  admits _ := True
  call _ _ := True
  hung _   := True

-- The calls that only ask.
def Call.Asks : Call → Prop
  | timeUs | probe _ | uartSendReady _ _ | uartTxIdle | controllerAborted | controllerTxAccepted
  | controllerRxReceived | controllerIdle => True
  | _ => False

-- What is relied on of an answer.
def Call.Answers (controller : Controller) : (c : Call) → c.Reply → Prop
  | controllerTxAccepted, accepted => accepted = min controller.commands controller.txSize
  | controllerRxReceived, received => received = controller.rxReceived
  | uartSendReady _ len, sent      => sent ≤ len
  | _, _                           => True

theorem uartSendReady_le {data : Nat} {level len : UInt32} :
    uartSendReady data level len ≤ len := by
  unfold uartSendReady
  split
  case isTrue  => exact UInt32.zero_le
  case isFalse => exact Std.min_le_right

end Hal

open Hal

variable {s : State} {controller : Controller}

theorem wp_asks {c : Call} {Q : c.Reply → State → Controller → Prop} (hc : c.Asks)
    (hb : controller.Bounded)
    (hq : ∀ r controller', controller'.Bounded → controller.Later controller' →
      c.Answers controller' r → Q r s controller') : wp env (hal c) Q s controller := by
  rw [hal, wp_call]
  refine ⟨trivial, fun d _ => ?_⟩
  have hi := hb.irqs d.irqs
  cases c
  case timeUs               => exact hq _ _ hi.left hi.right trivial
  case probe                => exact hq _ _ hi.left hi.right trivial
  case uartSendReady        => exact hq _ _ hi.left hi.right uartSendReady_le
  case uartTxIdle           => exact hq _ _ hi.left hi.right trivial
  case controllerAborted    => exact hq _ _ hi.left hi.right trivial
  case controllerTxAccepted => exact hq _ _ hi.left hi.right rfl
  case controllerRxReceived => exact hq _ _ hi.left hi.right rfl
  case controllerIdle       => exact hq _ _ hi.left hi.right trivial
  all_goals exact hc.elim

-- The other calls begin and end the use of the hardware.
theorem wp_commands {c : Call} {Q : c.Reply → State → Controller → Prop} (hc : ¬c.Asks)
    (hb : controller.Bounded) (hq : ∀ r controller', controller'.Bounded → Q r s controller') :
    wp env (hal c) Q s controller := by
  rw [hal, wp_call]
  refine ⟨trivial, fun d _ => ?_⟩
  cases c
  case uartInit        => exact hq _ _ Controller.stopped_bounded
  case uartStop        => exact hq _ _ (hb.irqs _).left
  case i2cInit         => exact hq _ _ Controller.stopped_bounded
  case i2cStop         => exact hq _ _ Controller.stopped_bounded
  case controllerStart => exact hq _ _ Controller.started_bounded.fillTx.left
  all_goals exact absurd trivial hc

theorem wp_controllerStart {address : UInt8} {hz txSize rxSize : UInt32} {tx rx : Nat}
    {Q : Unit → State → Controller → Prop}
    (hq : ∀ controller', controller'.Bounded → controller'.txSize = txSize →
      controller'.rxSize = rxSize → Q () s controller') :
    wp env (hal (.controllerStart address hz tx txSize rx rxSize)) Q s controller := by
  rw [hal, wp_call]
  exact ⟨trivial, fun d _ => hq _ Controller.started_bounded.fillTx.left rfl rfl⟩

end ExternalLink
