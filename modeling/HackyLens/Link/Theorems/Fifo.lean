import HackyLens.Link.I2c

-- What a transfer has come to, as the FIFOs, the counters and the memory show it. The interrupt
-- handler keeps to the transfer, whatever the hardware does in between.

namespace ExternalLink
namespace I2c

open Prog

-- The two buffers of a transfer. Their callers keep to 256 bytes for each of them.
structure Plan where
  tx : Nat
  txSize : UInt32
  rx : Nat
  rxSize : UInt32
  fits : txSize.toNat + rxSize.toNat < UInt32.size

-- What is to be transferred, with the memory from which the bytes are sent.
structure Transfer extends Plan where
  memory : Memory

namespace Transfer

-- The bytes in their order, followed by the reads.
def commands (transfer : Transfer) : List Command :=
  (transfer.memory.read transfer.tx transfer.txSize.toNat).map .write ++
    .replicate transfer.rxSize.toNat .read

variable {transfer : Transfer} {n : Nat}

theorem commands_length :
    transfer.commands.length = transfer.txSize.toNat + transfer.rxSize.toNat := by
  simp [commands]

theorem commands_get_write (h : n < transfer.txSize.toNat) :
    transfer.commands[n]? = some (.write (transfer.memory (transfer.tx + n))) := by
  rw [commands, List.getElem?_append_left (by simpa using h), List.getElem?_map]
  simp [Memory.read, h]

theorem commands_get_read (h : transfer.txSize.toNat ≤ n)
    (hn : n < transfer.txSize.toNat + transfer.rxSize.toNat) :
    transfer.commands[n]? = some .read := by
  rw [commands, List.getElem?_append_right (by simpa using h), List.getElem?_replicate]
  simp only [List.length_map, Memory.read_length]
  rw [if_pos (by omega)]

-- Until all bytes are sent there are no reads, and there are never too many.
theorem count_take : (transfer.commands.take n).count .read =
    min (n - transfer.txSize.toNat) transfer.rxSize.toNat := by
  have none (bytes : List UInt8) : (bytes.map Command.write).count .read = 0 := by
    simp [List.count_eq_zero]
  rw [commands, List.take_append, List.count_append, ← List.map_take, none, Nat.zero_add,
    List.take_replicate, List.count_replicate_self]
  simp

end Transfer

namespace Wire

-- Commands are carried out in the order in which they were accepted, and each read that was carried
-- out has returned a byte.
def Flow (wire : Wire) : Prop :=
  ∃ carried, wire.issued = carried ++ wire.current.toList ++ wire.pending ∧
    wire.returned.length = carried.count .read

-- The hardware has moved on by itself.
structure Later (wire wire' : Wire) : Prop where
  issued : wire'.issued = wire.issued
  late : wire'.late = wire.late
  pending : wire'.pending <:+ wire.pending
  received : ∃ bytes, wire'.received = wire.received ++ bytes ∧
    wire'.returned = wire.returned ++ bytes

variable {wire wire' wire'' : Wire} {command : Command}

theorem Later.refl : Later wire wire :=
  ⟨rfl, rfl, List.suffix_rfl, [], by simp⟩

theorem Later.trans (h₁ : Later wire wire') (h₂ : Later wire' wire'') : Later wire wire'' where
  issued   := h₂.issued.trans h₁.issued
  late     := h₂.late.trans h₁.late
  pending  := h₂.pending.trans h₁.pending
  received := by
    obtain ⟨bytes₁, hr₁, hs₁⟩ := h₁.received
    obtain ⟨bytes₂, hr₂, hs₂⟩ := h₂.received
    exact ⟨bytes₁ ++ bytes₂, by simp [hr₁, hr₂], by simp [hs₁, hs₂]⟩

theorem Flow.move (h : Flow wire) (m : Move) : Flow (wire.move m) ∧ Later wire (wire.move m) := by
  obtain ⟨carried, hi, hr⟩ := h
  cases m
  case begin =>
    rw [Wire.move]
    split
    case h_1 command pending hc hp =>
      refine ⟨⟨carried, by simp [hi, hc, hp], hr⟩, rfl, rfl, ?_, [], by simp⟩
      exact hp ▸ List.suffix_cons command pending
    case h_2 => exact ⟨⟨carried, hi, hr⟩, .refl⟩
  case finish byte =>
    rw [Wire.move]
    split
    case h_1 sent hc =>
      refine ⟨⟨carried ++ [.write sent], by simp [hi, hc], ?_⟩, rfl, rfl, List.suffix_rfl, [],
        by simp⟩
      simp [hr]
    case h_2 hc =>
      split
      case isTrue =>
        refine ⟨⟨carried ++ [.read], by simp [hi, hc], ?_⟩, rfl, rfl, List.suffix_rfl, [byte], rfl,
          rfl⟩
        simp [hr]
      case isFalse => exact ⟨⟨carried, hi, hr⟩, .refl⟩
    case h_3 => exact ⟨⟨carried, hi, hr⟩, .refl⟩
  case stop =>
    rw [Wire.move]
    split
    case isTrue  => exact ⟨⟨carried, hi, hr⟩, rfl, rfl, List.suffix_rfl, [], by simp⟩
    case isFalse => exact ⟨⟨carried, hi, hr⟩, .refl⟩

theorem Flow.moves (h : Flow wire) (moves : List Move) :
    Flow (moves.foldl Wire.move wire) ∧ Later wire (moves.foldl Wire.move wire) := by
  induction moves generalizing wire with
  | nil            => exact ⟨h, .refl⟩
  | cons m rest ih =>
    have hm := h.move m
    have hr := @ih (wire.move m) hm.left
    exact ⟨hr.left, hm.right.trans hr.right⟩

-- Not more bytes are returned than were asked for.
theorem Flow.returned_le (h : Flow wire) : wire.returned.length ≤ wire.issued.count .read := by
  obtain ⟨carried, hi, hr⟩ := h
  rw [hi, List.append_assoc, List.count_append]
  omega

end Wire

-- What a transfer has reached already, from where it does not fall back.
structure Mark where
  sent : Nat
  got : Nat
  late : Bool

def Mark.none : Mark :=
  ⟨0, 0, false⟩

-- How far a transfer has come. `aborted` only follows a look that came too late.
structure Exact (transfer : Transfer) (mark : Mark) (controller : Controller) (wire : Wire) :
    Prop where
  active : controller.active = true
  tx : controller.tx = transfer.tx
  txSize : controller.txSize = transfer.txSize
  rx : controller.rx = transfer.rx
  rxSize : controller.rxSize = transfer.rxSize
  flow : wire.Flow
  commands : controller.commands.toNat ≤ transfer.txSize.toNat + transfer.rxSize.toNat
  issued : wire.issued = transfer.commands.take controller.commands.toNat
  returned : wire.returned =
    controller.memory.read transfer.rx controller.rxReceived.toNat ++ wire.received
  kept : ∀ a, ¬(transfer.rx ≤ a ∧ a < transfer.rx + controller.rxReceived.toNat) →
    controller.memory a = transfer.memory a
  aborted : controller.aborted = wire.late
  sent : mark.sent ≤ controller.commands.toNat
  got : mark.got ≤ controller.rxReceived.toNat
  late : mark.late = true → wire.late = true

-- The interrupts come in between the hardware's own moves, and no program hangs.
def env : Env Access Access.Reply Wire (List Move) where
  handler  := handler
  admits _ := True
  call _ _ := True
  hung _   := False

variable {transfer : Transfer} {mark : Mark} {controller : Controller} {wire wire' : Wire}

-- An access to a register, with what the hardware may have done before it.
theorem wp_access {a : Access} {Q : a.Reply → Controller → Wire → Prop} (hf : wire.Flow)
    (hq : ∀ wire', wire'.Flow → wire.Later wire' →
      Q (wire'.access a).fst controller (wire'.access a).snd) :
    wp env (access a) Q controller wire := by
  rw [access, wp_call]
  refine ⟨trivial, fun moves _ => ?_⟩
  have hm := hf.moves moves
  exact hq _ hm.left hm.right

namespace Exact

theorem total (h : Exact transfer mark controller wire) :
    controller.total.toNat = transfer.txSize.toNat + transfer.rxSize.toNat := by
  rw [Controller.total, h.txSize, h.rxSize, UInt32.toNat_add]
  exact Nat.mod_eq_of_lt transfer.fits

theorem later (h : Exact transfer mark controller wire) (hf : wire'.Flow)
    (hl : wire.Later wire') :
    Exact transfer mark controller wire' := by
  obtain ⟨bytes, hr, hs⟩ := hl.received
  exact { h with
    flow     := hf
    issued   := hl.issued.trans h.issued
    returned := by rw [hs, hr, h.returned, List.append_assoc]
    aborted  := h.aborted.trans hl.late.symm
    late     := fun hm => hl.late.trans (h.late hm) }

-- What is in the receive FIFO is still to be stored.
theorem received_le (h : Exact transfer mark controller wire) :
    controller.rxReceived.toNat + wire.received.length ≤
      min (controller.commands.toNat - transfer.txSize.toNat) transfer.rxSize.toNat := by
  have hr := h.flow.returned_le
  rw [h.issued, Transfer.count_take, h.returned, List.length_append, Memory.read_length] at hr
  exact hr

-- As long as bytes are sent, the memory is as it was.
theorem command_eq (h : Exact transfer mark controller wire)
    (hc : controller.commands < controller.total) :
    transfer.commands[controller.commands.toNat]? = some controller.command := by
  have hc : controller.commands.toNat < transfer.txSize.toNat + transfer.rxSize.toNat :=
    h.total ▸ UInt32.lt_iff_toNat_lt.mp hc
  rw [Controller.command]
  split
  case isTrue hw =>
    have hw : controller.commands.toNat < transfer.txSize.toNat :=
      h.txSize ▸ UInt32.lt_iff_toNat_lt.mp hw
    have hr := h.received_le
    rw [Transfer.commands_get_write hw, h.tx, h.kept _ (by omega)]
  case isFalse hw =>
    have hw : transfer.txSize.toNat ≤ controller.commands.toNat := by
      rw [h.txSize, UInt32.lt_iff_toNat_lt] at hw
      omega
    exact Transfer.commands_get_read hw hc

theorem store {byte : UInt8} {bytes : List UInt8} (h : Exact transfer mark controller wire)
    (hr : wire.received = byte :: bytes) :
    Exact transfer mark (controller.store byte) { wire with received := bytes } := by
  have hle := h.received_le
  rw [hr, List.length_cons] at hle
  have hn : (controller.store byte).rxReceived.toNat = controller.rxReceived.toNat + 1 := by
    have := transfer.rxSize.toNat_lt
    rw [Controller.store, UInt32.toNat_add]
    exact Nat.mod_eq_of_lt (by simp; omega)
  have hg := h.got
  refine { h with returned := ?_, kept := ?_, flow := h.flow, got := by omega }
  · rw [hn, ← Memory.read_append, h.returned, hr, List.append_assoc]
    refine congr (congrArg HAppend.hAppend ?_) ?_
    · refine (Memory.read_congr fun i hi => ?_).symm
      rw [Controller.store, h.rx]
      exact Function.update_of_ne (by omega) _ _
    · simp [Memory.read, Controller.store, h.rx]
  · intro a ha
    rw [hn] at ha
    rw [Controller.store, h.rx]
    exact (Function.update_of_ne (by omega) _ _).trans (h.kept a (by omega))

-- A look that does not change anything that matters.
theorem look {a : Access} {Q : a.Reply → Controller → Wire → Prop}
    (h : Exact transfer mark controller wire)
    (hq : ∀ wire', Exact transfer mark controller wire' → wire.Later wire' →
      Q (wire'.access a).fst controller (wire'.access a).snd) :
    wp env (access a) Q controller wire :=
  wp_access h.flow fun _ hf hl => hq _ (h.later hf hl) hl

theorem setIntrMask {mask : Interrupts} (h : Exact transfer mark controller wire) :
    Exact transfer mark controller { wire with mask } :=
  { h with }

theorem clrStopDet (h : Exact transfer mark controller wire) :
    Exact transfer mark controller { wire with stopDet := false } :=
  { h with }

-- A command that was accepted is counted.
theorem push (h : Exact transfer mark controller wire)
    (hc : controller.commands < controller.total) :
    Exact transfer mark { controller with commands := controller.commands + 1 } { wire with
      pending := wire.pending ++ [controller.command]
      issued  := wire.issued ++ [controller.command] } := by
  have hlt : controller.commands.toNat < transfer.txSize.toNat + transfer.rxSize.toNat :=
    h.total ▸ UInt32.lt_iff_toNat_lt.mp hc
  have hn : (controller.commands + 1).toNat = controller.commands.toNat + 1 := by
    have hf : transfer.txSize.toNat + transfer.rxSize.toNat < 4294967296 := transfer.fits
    rw [UInt32.toNat_add]
    exact Nat.mod_eq_of_lt (by simp; omega)
  obtain ⟨carried, hi, hr⟩ := h.flow
  refine { h with
    flow := ⟨carried, by simp [hi], hr⟩, commands := ?_, issued := ?_, sent := ?_ }
  · rw [hn]
    exact hlt
  · rw [hn, List.take_add_one, h.command_eq hc, h.issued]
    rfl
  · rw [hn]
    exact Nat.le_succ_of_le h.sent

end Exact

-- The programs of the handler keep to the transfer.
def Keeps (transfer : Transfer) (mark : Mark) (task : Task Unit) : Prop :=
  ∀ controller wire, Exact transfer mark controller wire →
    wp env task (fun _ controller wire => Exact transfer mark controller wire) controller wire

namespace Keeps

variable {task task' : Task Unit}

theorem done : Keeps transfer mark (pure ()) :=
  fun _ _ h => h

theorem seq (ht : Keeps transfer mark task) (ht' : Keeps transfer mark task') :
    Keeps transfer mark (task >>= fun _ => task') :=
  fun controller wire h => wp_seq (ht controller wire h) fun _ => ht'

theorem get {f : Controller → Task Unit}
    (hf : ∀ controller, Keeps transfer mark (f controller)) :
    Keeps transfer mark (MonadState.get >>= f) :=
  fun controller => hf controller controller

theorem ite {b : Prop} [Decidable b] (ht : b → Keeps transfer mark task)
    (ht' : ¬b → Keeps transfer mark task') :
    Keeps transfer mark (if b then task else task') := by
  split
  case isTrue hb  => exact ht hb
  case isFalse hb => exact ht' hb

end Keeps

theorem keeps_clrStopDet : Keeps transfer mark (access .clrStopDet) :=
  fun _ _ h => h.look fun _ h _ => h.clrStopDet

theorem wp_abort (h : Exact transfer mark { controller with aborted := true } wire) :
    wp env abort (fun _ controller wire => Exact transfer mark controller wire)
      controller wire := by
  rw [abort, wp_bind, wp_modify]
  exact h.look fun _ hw _ => hw.setIntrMask

theorem wp_drainRound {drained : Nat} (h : Exact transfer mark controller wire) :
    wp env (drainRound drained) (fun r controller wire =>
      r.elim (fun _ => Exact transfer mark controller wire) fun next =>
        next = drained + 1 ∧ next ≤ fifoDepth ∧ Exact transfer mark controller wire)
      controller wire := by
  rw [drainRound, wp_bind]
  refine h.look fun wire₁ h₁ _ => ?_
  rw [wp_bind, wp_get]
  beta_reduce
  rw [wp_ite]
  split
  case isFalse => exact h₁
  case isTrue hc =>
    rw [wp_bind]
    refine h₁.look fun wire₂ h₂ hl => ?_
    obtain ⟨bytes, hr, _⟩ := hl.received
    obtain ⟨byte, rest, hb⟩ := List.exists_cons_of_length_pos (Nat.pos_of_ne_zero hc.left)
    rw [wp_bind, wp_modify, wp_pure]
    refine ⟨rfl, hc.right.right, ?_⟩
    have hw : wire₂.received = byte :: (rest ++ bytes) := by rw [hr, hb, List.cons_append]
    have hs := h₂.store hw
    simpa only [Wire.access, hw, List.headD_cons, List.tail_cons] using hs

theorem keeps_drainLoop :
    Keeps transfer mark (Prog.loop drainRound (fifoDepth + 1) 0) := by
  intro controller wire h
  refine wp_loop_of_lt (fun n drained controller wire =>
    n + drained = fifoDepth ∧ Exact transfer mark controller wire) ?_ (Nat.lt_succ_self _)
    ⟨rfl, h⟩
  rintro n drained controller wire ⟨hn, h⟩
  refine wp_mono (wp_drainRound h) fun r controller wire hr => ?_
  cases r
  case inl => exact hr
  case inr next =>
    obtain ⟨rfl, hle, hx⟩ := hr
    exact ⟨fifoDepth - (drained + 1), by omega, by omega, hx⟩

theorem keeps_drainRx : Keeps transfer mark drainRx := by
  intro controller wire h
  rw [drainRx, wp_bind]
  refine wp_mono (keeps_drainLoop _ _ h) fun _ controller wire h => ?_
  rw [wp_bind]
  refine h.look fun wire h _ => ?_
  rw [wp_ite]
  split
  case isTrue hl =>
    have hr : wire.received ≠ [] := fun hr => hl (by simp [Wire.access, hr])
    exact wp_abort { h with
      aborted := by simp [Wire.access, hr]
      late    := by simp [Wire.access, hr] }
  case isFalse hl =>
    have hr : wire.received = [] := by simpa [Wire.access] using hl
    exact { h with
      aborted := by simp [Wire.access, hr, h.aborted]
      late    := by simpa [Wire.access, hr] using h.late }

theorem wp_fillRound (h : Exact transfer mark controller wire) :
    wp env (fillRound ()) (fun r controller' wire => Exact transfer mark controller' wire ∧
      r.elim (fun _ => True) fun _ => controller'.commands.toNat = controller.commands.toNat + 1)
      controller wire := by
  rw [fillRound, wp_bind]
  refine h.look fun wire₁ h₁ _ => ?_
  rw [wp_bind, wp_get]
  beta_reduce
  rw [wp_ite]
  split
  case isFalse => exact ⟨h₁, trivial⟩
  case isTrue hc =>
    rw [wp_bind]
    refine h₁.look fun wire₂ h₂ hl => ?_
    rw [wp_bind, wp_modify, wp_pure]
    have hp : wire₂.pending.length < fifoDepth :=
      Nat.lt_of_le_of_lt hl.pending.length_le hc.left
    have hx := h₂.push hc.right
    have hn : (controller.commands + 1).toNat = controller.commands.toNat + 1 := by
      have := UInt32.lt_iff_toNat_lt.mp hc.right
      have := controller.total.toNat_lt
      rw [UInt32.toNat_add]
      exact Nat.mod_eq_of_lt (by simp; omega)
    rw [Wire.access, if_pos hp]
    exact ⟨hx, hn⟩

theorem keeps_fillTx : Keeps transfer mark fillTx := by
  intro controller wire h
  rw [fillTx, wp_bind, wp_get]
  beta_reduce
  rw [wp_bind]
  have hloop : wp env (Prog.loop fillRound ((controller.total - controller.commands).toNat + 1) ())
      (fun _ controller wire => Exact transfer mark controller wire) controller wire := by
    refine wp_loop_of_lt (fun n _ controller wire => Exact transfer mark controller wire ∧
      n + controller.commands.toNat = transfer.txSize.toNat + transfer.rxSize.toNat) ?_
      (Nat.lt_succ_self _) ⟨h, ?_⟩
    · rintro n ⟨⟩ controller wire ⟨h, hn⟩
      refine wp_mono (wp_fillRound h) fun r controller' wire hr => ?_
      cases r
      case inl => exact hr.left
      case inr =>
        obtain ⟨hx, hs⟩ := hr
        have hs : controller'.commands.toNat = controller.commands.toNat + 1 := hs
        have hle := hx.commands
        exact ⟨n - 1, by omega, hx, by omega⟩
    · have hle := h.commands
      rw [UInt32.toNat_sub_of_le _ _ (UInt32.le_iff_toNat_le.mpr (h.total ▸ hle)), h.total]
      omega
  refine wp_mono hloop fun _ controller wire h => ?_
  rw [wp_bind, wp_get]
  beta_reduce
  rw [wp_ite]
  split
  case isFalse => exact h
  case isTrue =>
    rw [wp_bind]
    exact h.look fun _ h _ => h.look fun _ h _ => h.setIntrMask

theorem keeps_refill {status : Interrupts} : Keeps transfer mark (refill status) := by
  have last : Keeps transfer mark (if status.stopDet then access .clrStopDet else pure ()) :=
    .ite (fun _ => keeps_clrStopDet) fun _ => .done
  rw [refill]
  dsimp only
  exact .get fun controller => .ite (fun _ => .seq keeps_fillTx last) fun _ => last

theorem keeps_service {status : Interrupts} : Keeps transfer mark (service status) := by
  rw [service]
  dsimp only
  exact .ite (fun _ => .seq keeps_drainRx keeps_refill) fun _ => keeps_refill

-- Nothing is ever seen to have gone wrong on the wire.
theorem keeps_irq : Keeps transfer mark irq := by
  intro controller wire h
  rw [irq, wp_bind]
  refine h.look fun wire h _ => ?_
  rw [wp_bind, wp_get]
  beta_reduce
  rw [wp_ite]
  split
  case isTrue => exact h
  case isFalse =>
    rw [wp_ite, if_neg (by exact Bool.false_ne_true), wp_ite, if_neg (by exact Bool.false_ne_true)]
    exact keeps_service _ _ h

end I2c
end ExternalLink
