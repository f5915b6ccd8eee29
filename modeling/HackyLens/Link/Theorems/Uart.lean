import HackyLens.Link.Uart
import HackyLens.Lib.Run

-- The bytes that are read are the first of those that have come in.

namespace ExternalLink.Uart

open App (Result)
open Prog

-- What has come in since the last reset: all of it, what has been kept, what was kept before
-- something was dropped, and how much was dropped.
def received : List Event → List UInt8
  | .received byte _ :: log => received log ++ [byte]
  | _                       => []

def lost : List Event → Nat
  | .received _ kept :: log => lost log + if kept then 0 else 1
  | _                       => 0

def stored : List Event → List UInt8
  | .received byte kept :: log => if kept then stored log ++ [byte] else stored log
  | _                          => []

def beforeGap : List Event → List UInt8
  | .received byte kept :: log =>
    if kept ∧ lost log = 0 then beforeGap log ++ [byte] else beforeGap log
  | _ => []

-- The counter of the dropped bytes has never started anew.
def Counted (log : List Event) : Prop :=
  ∀ log', log' <:+ log → lost log' < 4294967296

def Op.reads : Op → Bool
  | .uartRead _ _ => true
  | _             => false

-- What has been returned since the last reset. An operation that was refused changes nothing.
def returnedAfter (before : List UInt8) (op : Op) (result : Result) (bytes : List UInt8) :
    List UInt8 :=
  if result = .overflow then
    []
  else if result ≠ .ok then
    before
  else
    if op.reads then before ++ bytes else []

def returned : List (Op × Option (Result × List UInt8)) → List UInt8
  | []                                => []
  | (_, none) :: es                   => returned es
  | (op, some (result, bytes)) :: es => returnedAfter (returned es) op result bytes

variable {log log' : List Event} {w w' : World} {n k : Nat} {b : UInt8}

section Log

theorem beforeGap_of_lossless (h : lost log = 0) : beforeGap log = stored log := by
  induction log with
  | nil => rfl
  | cons e log ih =>
    cases e with
    | reset => rfl
    | received byte kept =>
      cases kept
      case true =>
        have hl : lost log = 0 := h
        rw [beforeGap, stored, if_pos ⟨rfl, hl⟩, if_pos rfl, ih hl]
      case false => cases h

theorem beforeGap_prefix_stored (log : List Event) : beforeGap log <+: stored log := by
  induction log with
  | nil => exact List.prefix_rfl
  | cons e log ih =>
    cases e with
    | reset => exact List.prefix_rfl
    | received byte kept =>
      rw [beforeGap, stored]
      by_cases hg : kept = true ∧ lost log = 0
      case pos =>
        rw [if_pos hg, if_pos hg.left, beforeGap_of_lossless hg.right]
      case neg =>
        rw [if_neg hg]
        split
        case isTrue  => exact ih.trans (List.prefix_append _ _)
        case isFalse => exact ih

theorem beforeGap_prefix_received (log : List Event) : beforeGap log <+: received log := by
  have whole {log : List Event} (h : lost log = 0) : beforeGap log = received log := by
    induction log with
    | nil => rfl
    | cons e log ih =>
      cases e with
      | reset => rfl
      | received byte kept =>
        cases kept
        case true =>
          have hl : lost log = 0 := h
          rw [beforeGap, received, if_pos ⟨rfl, hl⟩, ih hl]
        case false => cases h
  induction log with
  | nil => exact List.prefix_rfl
  | cons e log ih =>
    cases e with
    | reset => exact List.prefix_rfl
    | received byte kept =>
      rw [beforeGap, received]
      split
      case isTrue hg => rw [whole hg.right]
      case isFalse   => exact ih.trans (List.prefix_append _ _)

theorem lost_le_length (log : List Event) : lost log ≤ log.length := by
  induction log with
  | nil => exact Nat.le_refl 0
  | cons e log ih =>
    cases e with
    | reset              => exact Nat.zero_le _
    | received byte kept =>
      rw [lost, List.length_cons]
      split
      case isTrue  => exact Nat.le_succ_of_le ih
      case isFalse => exact Nat.succ_le_succ ih

theorem counted_of_length (h : log.length < 4294967296) : Counted log :=
  fun log' hl => Nat.lt_of_le_of_lt ((lost_le_length log').trans hl.length_le) h

theorem Counted.of_suffix (h : Counted log) (hs : log' <:+ log) : Counted log' :=
  fun _ hl => h _ (hl.trans hs)

end Log

section Ring

-- The counters as they would be without an end, where `n` bytes have been taken.
structure Ring (n : Nat) (w : World) : Prop where
  read : w.shared.rxRead = .ofNat n
  write : w.shared.rxWrite = .ofNat (stored w.log).length
  dropped : w.shared.rxDropped = .ofNat (lost w.log)
  le : n ≤ (stored w.log).length
  room : (stored w.log).length ≤ n + 256
  buffer : ∀ i byte, n ≤ i → (stored w.log)[i]? = some byte → w.shared.buffer (i % 256) = byte
  enabled : w.shared.irqEnabled → w.shared.active ∧ w.shared.mode = .uart

-- Nothing has been kept since something was dropped, because there is no room until some of it is
-- taken.
structure Whole (n : Nat) (w : World) : Prop where
  ring : Ring n w
  gapless : beforeGap w.log = stored w.log
  full : lost w.log = 0 ∨ (stored w.log).length = n + 256

theorem distance {m n : Nat} (hn : n ≤ m) (hm : m ≤ n + 256) :
    (UInt32.ofNat m - UInt32.ofNat n).toNat = m - n := by
  have hn' : (UInt32.ofNat n).toNat = n % 4294967296 := UInt32.toNat_ofNat'
  have hm' : (UInt32.ofNat m).toNat = m % 4294967296 := UInt32.toNat_ofNat'
  rw [UInt32.toNat_sub, hn', hm']
  omega

theorem slot_ofNat (n : Nat) : slot (.ofNat n) = n % 256 := by
  have hn : (UInt32.ofNat n).toNat = n % 4294967296 := UInt32.toNat_ofNat'
  have hm : (maxBytes - 1).toNat = 2 ^ 8 - 1 := rfl
  rw [slot, UInt32.toNat_and, hn, hm, Nat.and_two_pow_sub_one_eq_mod]
  omega

theorem receive_cases (h : Ring n w) (hi : w.shared.irqEnabled) :
    ((stored w.log).length = n + 256 ∧
      w.interrupt b =
        ⟨{ w.shared with rxDropped := w.shared.rxDropped + 1 }, .received b false :: w.log⟩) ∨
    ((stored w.log).length < n + 256 ∧
      w.interrupt b =
        ⟨{ w.shared with
          buffer  := Function.update w.shared.buffer ((stored w.log).length % 256) b
          rxWrite := w.shared.rxWrite + 1 }, .received b true :: w.log⟩) := by
  obtain ⟨ha, hm⟩ := h.enabled hi
  have hd : (w.shared.rxWrite - w.shared.rxRead).toNat = (stored w.log).length - n := by
    rw [h.read, h.write, distance h.le h.room]
  have h256 : maxBytes.toNat = 256 := rfl
  have hr := h.room
  have hl := h.le
  rw [World.interrupt, if_pos hi, Shared.receive, if_neg (by simp [ha, hm])]
  by_cases hf : w.shared.rxWrite - w.shared.rxRead ≥ maxBytes
  case pos =>
    have hf' := UInt32.le_iff_toNat_le.mp hf
    rw [if_pos hf]
    exact .inl ⟨by omega, rfl⟩
  case neg =>
    have hf' := UInt32.lt_iff_toNat_lt.mp (UInt32.not_le.mp hf)
    rw [if_neg hf, h.write, slot_ofNat]
    exact .inr ⟨by omega, rfl⟩

theorem Ring.interrupt (h : Ring n w) : Ring n (w.interrupt b) := by
  by_cases hi : w.shared.irqEnabled
  case neg =>
    rw [World.interrupt, if_neg hi]
    exact h
  case pos =>
    rcases @receive_cases w n b h hi with ⟨_, he⟩ | ⟨hl, he⟩
    case inl =>
      rw [he]
      refine ⟨h.read, h.write, ?_, h.le, h.room, h.buffer, h.enabled⟩
      show w.shared.rxDropped + 1 = .ofNat (lost w.log + 1)
      rw [h.dropped, UInt32.ofNat_add]
      rfl
    case inr =>
      have hs : stored (.received b true :: w.log) = stored w.log ++ [b] := if_pos rfl
      rw [he]
      refine ⟨h.read, ?_, h.dropped, ?_, ?_, ?_, h.enabled⟩
      all_goals simp only [hs, List.length_append, List.length_singleton]
      · rw [h.write, UInt32.ofNat_add]
        rfl
      · exact Nat.le_succ_of_le h.le
      · exact hl
      · intro i byte hn hb
        by_cases hlast : i = (stored w.log).length
        case pos =>
          rw [hlast, List.getElem?_concat_length] at hb
          cases hb
          rw [hlast, Function.update_self]
        case neg =>
          have hlt := (List.getElem?_eq_some_iff.mp hb).choose
          rw [List.length_append, List.length_singleton] at hlt
          rw [List.getElem?_append_left (by omega)] at hb
          rw [Function.update_of_ne (by omega)]
          exact h.buffer i byte hn hb

theorem Whole.interrupt (h : Whole n w) : Whole n (w.interrupt b) := by
  suffices hw : beforeGap (w.interrupt b).log = stored (w.interrupt b).log ∧
      (lost (w.interrupt b).log = 0 ∨ (stored (w.interrupt b).log).length = n + 256) from
    ⟨h.ring.interrupt, hw.left, hw.right⟩
  by_cases hi : w.shared.irqEnabled
  case neg =>
    rw [World.interrupt, if_neg hi]
    exact ⟨h.gapless, h.full⟩
  case pos =>
    rcases @receive_cases w n b h.ring hi with ⟨hl, he⟩ | ⟨hl, he⟩
    case inl =>
      rw [he]
      exact ⟨(if_neg fun hk => Bool.false_ne_true hk.left).trans h.gapless, .inr hl⟩
    case inr =>
      have hn : lost w.log = 0 := h.full.resolve_right (Nat.ne_of_lt hl)
      rw [he]
      refine ⟨?_, .inl hn⟩
      show beforeGap (.received b true :: w.log) = stored (.received b true :: w.log)
      rw [beforeGap, stored, if_pos ⟨rfl, hn⟩, if_pos rfl, h.gapless]

theorem beforeGap_interrupt : beforeGap w.log <+: beforeGap (w.interrupt b).log := by
  rw [World.interrupt]
  split
  case isFalse => exact List.prefix_rfl
  case isTrue  =>
    show _ <+: beforeGap (.received b _ :: w.log)
    rw [beforeGap]
    split
    case isTrue  => exact List.prefix_append _ _
    case isFalse => exact List.prefix_rfl

theorem log_interrupt : w.log <:+ (w.interrupt b).log := by
  rw [World.interrupt]
  split
  case isTrue  => exact List.suffix_cons _ _
  case isFalse => exact List.suffix_rfl

-- What the interrupt leaves alone.
def World.config (w : World) : Bool × Nat × Mode × Bool :=
  (w.shared.active, w.shared.session, w.shared.mode, w.shared.irqEnabled)

theorem config_interrupt : (w.interrupt b).config = w.config := by
  rw [World.interrupt]
  split
  case isFalse => rfl
  case isTrue  =>
    show World.config ⟨(w.shared.receive b).snd, _⟩ = _
    rw [Shared.receive]
    split
    case isTrue  => rfl
    case isFalse => split <;> rfl

end Ring

-- Where the run is between two accesses: `n` of the bytes have been taken, and they are `bytes`.
structure Taken (n : Nat) (bytes : List UInt8) (w : World) : Prop where
  ring : Ring n w
  le : Counted w.log → n ≤ (beforeGap w.log).length
  eq : Counted w.log → bytes = (beforeGap w.log).take n

-- What the bytes that come in before an access keep.
theorem foldl_interrupt {P : World → Prop} (hp : ∀ w b, P w → P (w.interrupt b)) (bs : List UInt8)
    (h : P w) : P (bs.foldl World.interrupt w) := by
  induction bs generalizing w with
  | nil          => exact h
  | cons b bs ih => exact ih (hp w b h)

theorem foldl_interrupt_of_disabled (bs : List UInt8) (h : w.shared.irqEnabled = false) :
    bs.foldl World.interrupt w = w := by
  induction bs with
  | nil          => rfl
  | cons b bs ih =>
    have hb : w.interrupt b = w := if_neg (Bool.eq_false_iff.mp h)
    rw [List.foldl_cons, hb, ih]

theorem Taken.interrupt {bytes : List UInt8} (h : Taken n bytes w) :
    Taken n bytes (w.interrupt b) := by
  have hp := @beforeGap_interrupt w b
  refine ⟨h.ring.interrupt, fun hc => ?_, fun hc => ?_⟩
  all_goals
    have hc := hc.of_suffix log_interrupt
    have hle := h.le hc
  · exact Nat.le_trans hle hp.length_le
  · rw [h.eq hc]
    obtain ⟨rest, he⟩ := hp
    rw [← he, List.take_append_of_le_length hle]

def env : Env Access Access.Reply World (List UInt8) where
  handler  := handler
  admits _ := True
  call _ _ := True
  hung _   := False

-- An access, after what comes in before it.
theorem wp_access {a : Access} {Q : a.Reply → Unit → World → Prop}
    (h : ∀ bs : List UInt8, Q (a.run (bs.foldl World.interrupt w)).fst ()
      (a.run (bs.foldl World.interrupt w)).snd) : wp env (Prog.call a) Q () w :=
  ⟨trivial, fun bs _ => h bs⟩

-- The same while the interrupt is disabled.
theorem wp_access_of_disabled {a : Access} {Q : a.Reply → Unit → World → Prop}
    (hd : w.shared.irqEnabled = false) (h : Q (a.run w).fst () (a.run w).snd) :
    wp env (Prog.call a) Q () w :=
  wp_access fun bs => (foldl_interrupt_of_disabled bs hd).symm ▸ h

-- The ring is empty, and nothing comes in.
structure Stopped (active : Bool) (session : Nat) (mode : Mode) (w : World) : Prop where
  config : w.config = (active, session, mode, false)
  log : ∃ log, w.log = .reset :: log
  read : w.shared.rxRead = 0
  write : w.shared.rxWrite = 0
  dropped : w.shared.rxDropped = 0

theorem taken_reset (hl : w.log = .reset :: log) (hr : w.shared.rxRead = 0)
    (hw : w.shared.rxWrite = 0) (hd : w.shared.rxDropped = 0)
    (he : w.shared.irqEnabled → w.shared.active ∧ w.shared.mode = .uart) : Taken 0 [] w := by
  have hs : stored w.log = [] := by rw [hl]; rfl
  refine ⟨⟨hr, ?_, ?_, Nat.zero_le _, ?_, ?_, he⟩, fun _ => Nat.zero_le _, fun _ => rfl⟩
  · rw [hw, hs]
    rfl
  · rw [hd, hl]
    rfl
  · rw [hs]
    exact Nat.zero_le _
  · intro i byte _ hb
    rw [hs] at hb
    cases hb

theorem Stopped.taken {active : Bool} {session : Nat} {mode : Mode}
    (h : Stopped active session mode w) : Taken 0 [] w := by
  obtain ⟨log, hl⟩ := h.log
  refine taken_reset hl h.read h.write h.dropped fun he => ?_
  have hc := congrArg (·.2.2.2) h.config
  cases he.symm.trans hc

section Stopping

variable {active irq : Bool} {session : Nat} {mode mode' : Mode} {bytes : List UInt8}
variable {Q : Unit → Unit → World → Prop}

theorem wp_clear (h : w.config = (active, session, mode, false))
    (hq : ∀ w', Stopped active session mode w' → Q () () w') : wp env clear Q () w := by
  have hd : w.shared.irqEnabled = false := congrArg (·.2.2.2) h
  rw [clear, wp_bind]
  refine wp_access_of_disabled hd (wp_access_of_disabled hd (hq _ ?_))
  exact ⟨h, ⟨_, rfl⟩, rfl, rfl, rfl⟩

theorem wp_setMode (h : Stopped active session mode w)
    (hq : ∀ w', Stopped active session mode' w' → Q () () w') :
    wp env (Prog.call (Access.setMode mode')) Q () w := by
  refine wp_access_of_disabled (congrArg (·.2.2.2) h.config) (hq _ ?_)
  refine ⟨?_, h.log, h.read, h.write, h.dropped⟩
  have hc := h.config
  simp only [World.config, Prod.mk.injEq, Access.run] at hc ⊢
  exact ⟨hc.left, hc.right.left, trivial, hc.right.right.right⟩

theorem config_events (bs : List UInt8) : (bs.foldl World.interrupt w).config = w.config :=
  foldl_interrupt (P := fun w' => w'.config = w.config) (fun _ _ h => config_interrupt.trans h) bs
    rfl

theorem lost_interrupt : lost w.log ≤ lost (w.interrupt b).log := by
  rw [World.interrupt]
  split
  case isTrue  => exact Nat.le_add_right _ _
  case isFalse => exact Nat.le_refl _

theorem lost_events (bs : List UInt8) : lost w.log ≤ lost (bs.foldl World.interrupt w).log :=
  foldl_interrupt (P := fun w' => lost w.log ≤ lost w'.log)
    (fun _ _ h => Nat.le_trans h lost_interrupt) bs (Nat.le_refl _)

theorem log_events (bs : List UInt8) : w.log <:+ (bs.foldl World.interrupt w).log :=
  foldl_interrupt (P := fun w' => w.log <:+ w'.log) (fun _ _ h => h.trans log_interrupt) bs
    List.suffix_rfl

theorem wp_uartStop (h : w.config = (active, session, mode, irq))
    (hq : ∀ w', w'.config = (active, session, mode, false) → lost w.log ≤ lost w'.log →
      Q () () w') : wp env (Prog.call Access.uartStop) Q () w := by
  refine wp_access fun bs => hq _ ?_ (lost_events bs)
  have hc := (@config_events w bs).trans h
  simp only [World.config, Prod.mk.injEq, Access.run] at hc ⊢
  exact ⟨hc.left, hc.right.left, hc.right.right.left, trivial⟩

theorem wp_stopMode (h : Taken n bytes w) (hc : w.config = (active, session, mode, irq))
    (hq : ∀ w', Stopped active session .unconfigured w' → Q () () w') :
    wp env (stopMode mode) Q () w := by
  have tail (w : World) (h : w.config = (active, session, mode, false)) :
      wp env (do clear; Prog.call (Access.setMode .unconfigured)) Q () w := by
    rw [wp_bind]
    exact wp_clear h fun w' hs => wp_setMode hs hq
  rw [stopMode, wp_bind, stopHardware, wp_ite]
  split
  case isTrue => exact wp_uartStop hc fun w h _ => tail w h
  case isFalse hm =>
    refine tail w ?_
    have hi : w.shared.irqEnabled = false := by
      refine Bool.eq_false_iff.mpr fun hi => hm ?_
      exact (congrArg (·.2.2.1) hc).symm.trans (h.ring.enabled hi).right
    have hirq : w.shared.irqEnabled = irq := congrArg (·.2.2.2) hc
    rw [← hi, hirq]
    exact hc

theorem wp_changeMode (h : Taken n bytes w) (hc : w.config = (active, session, mode, irq))
    (hq : ∀ w', Stopped active session mode' w' → Q () () w') :
    wp env (setMode mode mode') Q () w := by
  rw [setMode, wp_bind, leaveMode, wp_ite]
  split
  case isTrue => exact wp_stopMode h hc fun w' hs => wp_setMode hs hq
  case isFalse hm =>
    have hirq : w.shared.irqEnabled = irq := congrArg (·.2.2.2) hc
    have hmode : w.shared.mode = mode := congrArg (·.2.2.1) hc
    have hi : irq = false := by
      refine Bool.eq_false_iff.mpr fun hi => hm ?_
      rw [← hmode, (h.ring.enabled (hirq.trans hi)).right]
      exact nofun
    rw [hi] at hc
    exact wp_clear hc fun w' hs => wp_setMode hs hq

theorem wp_resetUart (hc : w.config = (true, session, .uart, irq))
    (hq : ∀ w' log, w'.log = .reset :: log → lost w.log ≤ lost log → Taken 0 [] w' → Q () () w') :
    wp env resetUart Q () w := by
  rw [resetUart, wp_bind]
  refine wp_uartStop hc fun w₁ h₁ hlost => ?_
  have hd : w₁.shared.irqEnabled = false := congrArg (·.2.2.2) h₁
  rw [wp_bind]
  refine wp_access_of_disabled hd (wp_access_of_disabled hd (hq _ w₁.log rfl hlost ?_))
  refine @taken_reset w₁.log _ rfl rfl rfl rfl fun _ => ⟨?_, ?_⟩
  · exact congrArg (·.1) h₁
  · exact congrArg (·.2.2.1) h₁

end Stopping

section Reading

variable {bytes S : List UInt8} {c : Nat}

-- Between the test for lost bytes and the end of a read, where `S` is what the ring was seen to
-- have been given, and `L` is what had happened at the test.
structure Reading (L : List Event) (n : Nat) (bytes S : List UInt8) (w : World) : Prop where
  ring : Ring n w
  whole : Counted w.log → Whole n w
  eq : Counted w.log → bytes = (beforeGap w.log).take n
  seen : S <+: stored w.log
  since : L <:+ w.log

theorem stored_interrupt : stored w.log <+: stored (w.interrupt b).log := by
  rw [World.interrupt]
  split
  case isFalse => exact List.prefix_rfl
  case isTrue  =>
    show _ <+: stored (.received b _ :: w.log)
    rw [stored]
    split
    case isTrue  => exact List.prefix_append _ _
    case isFalse => exact List.prefix_rfl

theorem Whole.le (h : Whole n w) : n ≤ (beforeGap w.log).length :=
  h.gapless ▸ h.ring.le

theorem Reading.interrupt (h : Reading log n bytes S w) :
    Reading log n bytes S (w.interrupt b) := by
  refine ⟨h.ring.interrupt, fun hc => ?_, fun hc => ?_, h.seen.trans stored_interrupt,
    h.since.trans log_interrupt⟩
  all_goals have hc := hc.of_suffix log_interrupt
  · exact (h.whole hc).interrupt
  · obtain ⟨rest, he⟩ := @beforeGap_interrupt w b
    rw [← he, List.take_append_of_le_length (h.whole hc).le]
    exact h.eq hc

theorem Reading.events (bs : List UInt8) (h : Reading log n bytes S w) :
    Reading log n bytes S (bs.foldl World.interrupt w) :=
  foldl_interrupt (P := Reading log n bytes S) (fun _ _ h => h.interrupt) bs h

theorem wp_copy {Q : List UInt8 → Unit → World → Prop} (hn : n ≤ k) (hk : k + c ≤ S.length)
    (h : Reading log n bytes S w)
    (hq : ∀ w', Reading log n bytes S w' → Q ((S.drop k).take c) () w') :
    wp env (copy (.ofNat k) c) Q () w := by
  induction c generalizing k w Q with
  | zero =>
    rw [copy, wp_pure, List.take_zero] at *
    exact hq w h
  | succ c ih =>
    rw [copy, wp_bind]
    refine wp_access fun bs => ?_
    have h' := h.events bs
    have hlt : k < S.length := by omega
    -- The byte is still what it was when the end was read.
    have hbyte : (bs.foldl World.interrupt w).shared.buffer (slot (.ofNat k)) = S[k] := by
      rw [slot_ofNat]
      refine h'.ring.buffer k _ hn ?_
      obtain ⟨rest, he⟩ := h'.seen
      rw [← he, List.getElem?_append_left hlt, List.getElem?_eq_getElem hlt]
    have hnext : UInt32.ofNat k + 1 = .ofNat (k + 1) := (UInt32.ofNat_add k 1).symm
    rw [hnext, wp_bind]
    refine ih (by omega) (by omega) h' fun w' hw' => ?_
    rw [wp_pure]
    show Q (_ :: _) () w'
    have hreply : (Access.run (.byte (slot (.ofNat k))) (bs.foldl World.interrupt w)).fst = S[k] :=
      hbyte
    rw [hreply, ← List.take_succ_cons, ← List.drop_eq_getElem_cons hlt]
    exact hq w' hw'

theorem capacity_le (size available : UInt32) :
    (capacity size available).toNat ≤ available.toNat := by
  rw [capacity]
  generalize (if size > pollBytes then pollBytes else size) = c
  split
  case isTrue     => exact Nat.le_refl _
  case isFalse hn => exact UInt32.le_iff_toNat_le.mp (UInt32.not_lt.mp hn)

theorem wp_readAvailable {Q : Result × List UInt8 → Unit → World → Prop} {size : UInt32}
    (h : Reading log n bytes [] w)
    (hq : ∀ w' n' bs, Taken n' (bytes ++ bs) w' → log <:+ w'.log → Q (.ok, bs) () w') :
    wp env (readAvailable size) Q () w := by
  rw [readAvailable, wp_bind]
  refine wp_access fun bs => ?_
  have h₁ := h.events bs
  generalize bs.foldl World.interrupt w = w₁ at h₁ ⊢
  rw [show (Access.run .read w₁).fst = .ofNat n from h₁.ring.read, wp_bind]
  refine wp_access fun bs => ?_
  have h₂ := (show Reading log n bytes [] (Access.run .read w₁).snd from h₁).events bs
  generalize bs.foldl World.interrupt _ = w₂ at h₂ ⊢
  have hwrite : (Access.run .write w₂).fst = .ofNat (stored w₂.log).length := h₂.ring.write
  rw [hwrite]
  have havailable := distance h₂.ring.le h₂.ring.room
  have hle := capacity_le size (.ofNat (stored w₂.log).length - .ofNat n)
  have hroom := h₂.ring.room
  have hnle := h₂.ring.le
  generalize capacity size _ = c at hle ⊢
  have h₃ : Reading log n bytes (stored w₂.log) (Access.run .write w₂).snd :=
    ⟨h₂.ring, h₂.whole, h₂.eq, List.prefix_rfl, h₂.since⟩
  rw [wp_bind]
  refine wp_copy (Nat.le_refl n) (by omega) h₃ fun w₄ h₄ => ?_
  rw [wp_bind]
  refine wp_access fun bs => ?_
  have h₅ := h₄.events bs
  generalize bs.foldl World.interrupt w₄ = w₅ at h₅ ⊢
  have hseen := h₅.seen.length_le
  refine hq _ (n + c.toNat) _ ⟨⟨?_, h₅.ring.write, h₅.ring.dropped, ?_, ?_, ?_, h₅.ring.enabled⟩,
    ?_, ?_⟩ h₅.since
  · show UInt32.ofNat n + c = .ofNat (n + c.toNat)
    rw [UInt32.ofNat_add, UInt32.ofNat_toNat]
  · exact Nat.le_trans (by omega) hseen
  · exact Nat.le_trans h₅.ring.room (by omega)
  · exact fun i byte hi => h₅.ring.buffer i byte (by omega)
  · intro hc
    show _ ≤ (beforeGap w₅.log).length
    rw [(h₅.whole hc).gapless]
    exact Nat.le_trans (by omega) hseen
  · intro hc
    show _ = (beforeGap w₅.log).take _
    obtain ⟨rest, he⟩ := h₅.seen
    rw [h₅.eq hc, (h₅.whole hc).gapless, ← he, List.take_append_of_le_length hnle,
      List.take_append_of_le_length (by omega), List.take_add]

end Reading

section Calls

variable {session n' : Nat} {size : UInt32} {bytes : List UInt8}

theorem taken_events (bs : List UInt8) (h : Taken n bytes w) :
    Taken n bytes (bs.foldl World.interrupt w) :=
  foldl_interrupt (P := Taken n bytes) (fun _ _ h => h.interrupt) bs h

theorem wp_validateState {Q : Bool × Mode → Unit → World → Prop} (h : Taken n bytes w)
    (hq : ∀ w₁, Taken n bytes w₁ → w₁.config = w.config → lost w.log ≤ lost w₁.log →
      Q (w.shared.active && w.shared.session == session, w.shared.mode) () w₁) :
    wp env (validateState session) Q () w := by
  rw [validateState, wp_bind]
  refine wp_access fun bs => ?_
  have hc := @config_events w bs
  have hq := hq _ (taken_events bs h) hc (lost_events bs)
  obtain ⟨ha, hs, hm, _⟩ : _ ∧ _ ∧ _ ∧ _ := by simpa only [World.config, Prod.mk.injEq] using hc
  rw [← ha, ← hs, ← hm] at hq
  exact hq

-- What a read returns, and what it leaves.
inductive Answer (session : Nat) (bytes : List UInt8) (w : World) :
    Result × List UInt8 → World → Prop
  | refused {m : Nat} {result : Result} {w₁ : World}
    (h : ¬(w.shared.active ∧ w.shared.session = session ∧ w.shared.mode = .uart))
    (ho : result ≠ Result.ok) (hn : result ≠ Result.overflow) (ht : Taken m bytes w₁) :
    Answer session bytes w (result, []) w₁
  | overflow {l : List Event} {w₁ : World} (hl : w₁.log = .reset :: l) (h : 0 < lost l)
    (ht : Taken 0 [] w₁) : Answer session bytes w (Result.overflow, []) w₁
  | read {m : Nat} {bs : List UInt8} {w₁ : World} (ht : Taken m (bytes ++ bs) w₁)
    (h : Counted w₁.log → lost w.log = 0) : Answer session bytes w (Result.ok, bs) w₁

theorem ofNat_eq_zero_iff {n : Nat} (h : n < 4294967296) : UInt32.ofNat n = 0 ↔ n = 0 := by
  rw [← UInt32.toNat_inj, UInt32.toNat_ofNat_of_lt' (show n < 4294967296 from h)]
  rfl

theorem wp_uartRead (h : Taken n bytes w) :
    wp env (uartRead session size) (fun r _ => Answer session bytes w r) () w := by
  rw [uartRead, wp_bind]
  refine wp_validateState h fun w₁ h₁ hc hl => ?_
  dsimp only
  rw [wp_ite]
  split
  case isTrue ho =>
    refine .refused (fun hn => ho ?_) (by decide) (by decide) h₁
    rw [hn.left, hn.right.left]
    simp
  case isFalse ho =>
    rw [wp_ite]
    split
    case isTrue hm => exact .refused (fun hn => hm hn.right.right) (by decide) (by decide) h₁
    case isFalse hm =>
      rw [wp_bind]
      refine wp_access fun bs => ?_
      have h₂ := taken_events bs h₁
      have hc₂ := (@config_events w₁ bs).trans hc
      have hl₂ := Nat.le_trans hl (@lost_events w₁ bs)
      generalize bs.foldl World.interrupt w₁ = w₂ at h₂ hc₂ hl₂ ⊢
      rw [wp_ite]
      split
      case isTrue hd =>
        have hpos : 0 < lost w₂.log := by
          refine Nat.pos_of_ne_zero fun hz => hd ?_
          rw [show (Access.run .dropped w₂).fst = .ofNat (lost w₂.log) from h₂.ring.dropped, hz]
          rfl
        have ha : w.shared.active = true := by
          simp only [not_not, Bool.and_eq_true] at ho
          exact ho.left
        have hconfig : w₂.config = (true, w.shared.session, .uart, w.shared.irqEnabled) := by
          rw [hc₂, World.config, ha, not_not.mp hm]
        rw [wp_bind]
        refine wp_resetUart hconfig fun w' log hlog hlost ht => ?_
        exact .overflow hlog (Nat.lt_of_lt_of_le hpos hlost) ht
      case isFalse hd =>
        have hzero (hcount : Counted w₂.log) : lost w₂.log = 0 := by
          refine (ofNat_eq_zero_iff (hcount _ List.suffix_rfl)).mp ?_
          rw [← h₂.ring.dropped]
          exact not_not.mp hd
        have hreading : Reading w₂.log n bytes [] w₂ := by
          refine ⟨h₂.ring, fun hcount => ?_, h₂.eq, List.nil_prefix, List.suffix_rfl⟩
          exact ⟨h₂.ring, beforeGap_of_lossless (hzero hcount), .inl (hzero hcount)⟩
        refine wp_readAvailable hreading fun w' n' bs ht hs => .read ht fun hcount => ?_
        exact Nat.le_zero.mp (hzero (hcount.of_suffix hs) ▸ hl₂)

variable {op : Op} {result : Result}

theorem returnedAfter_refused (ho : result ≠ Result.ok) (hn : result ≠ Result.overflow)
    {bs : List UInt8} : returnedAfter bytes op result bs = bytes := by
  rw [returnedAfter, if_neg hn, if_pos ho]

-- A call that ends with an empty ring.
theorem Taken.returnedAfter (h : Taken 0 [] w) (hop : op.reads = false) :
    Taken 0 (returnedAfter bytes op Result.ok []) w := by
  rw [Uart.returnedAfter, if_neg (by decide), if_neg (by decide), hop]
  exact h

theorem wp_validated {Q : Result → Unit → World → Prop} {p : Mode → Driver Result}
    (h : Taken n bytes w) (hr : ∀ w', Taken n bytes w' → Q .internal () w')
    (hp : ∀ w' owner mode irq, Taken n bytes w' → w'.config = (true, owner, mode, irq) →
      wp env (p mode) Q () w') :
    wp env (validated session p) Q () w := by
  rw [validated, wp_bind]
  refine wp_validateState h fun w₁ h₁ hc _ => ?_
  dsimp only
  rw [wp_ite]
  split
  case isTrue => exact hr w₁ h₁
  case isFalse ho =>
    simp only [not_not, Bool.and_eq_true] at ho
    refine hp w₁ w.shared.session w.shared.mode w.shared.irqEnabled h₁ ?_
    rw [hc, World.config, ho.left]

theorem op_taken (op : Op) (h : Taken n bytes w) : wp env op.run
    (fun r _ w' => ∃ m, Taken m (returnedAfter bytes op r.fst r.snd) w') () w := by
  have refused {op : Op} {result : Result} (ho : result ≠ Result.ok) (hn : result ≠ Result.overflow)
      (w' : World) (h : Taken n bytes w') : ∃ m, Taken m (returnedAfter bytes op result []) w' :=
    ⟨n, (returnedAfter_refused ho hn).symm ▸ h⟩
  cases op
  case «open» session =>
    rw [Op.run, wp_map, Uart.open, wp_bind]
    refine wp_access fun bs => ?_
    have h₁ := taken_events bs h
    generalize bs.foldl World.interrupt w = w₁ at h₁ ⊢
    dsimp only
    rw [wp_ite]
    split
    case isTrue =>
      split
      all_goals exact refused (by decide) (by decide) w₁ h₁
    case isFalse ha =>
      have hd : w₁.shared.irqEnabled = false :=
        Bool.eq_false_iff.mpr fun hi => ha (.inr (h₁.ring.enabled hi).left)
      rw [wp_bind]
      refine wp_access_of_disabled hd ⟨0, Taken.returnedAfter ?_ rfl⟩
      exact @taken_reset w₁.log _ rfl rfl rfl rfl fun hi => absurd hi (Bool.eq_false_iff.mp hd)
  case configureUart session =>
    rw [Op.run, wp_map, Uart.configureUart]
    refine wp_validated h ?_ fun w₁ owner mode irq h₁ hc => ?_
    case refine_1 => exact refused (by decide) (by decide)
    rw [wp_bind]
    refine wp_changeMode h₁ hc fun w₂ h₂ => ?_
    rw [wp_bind]
    refine wp_access_of_disabled (congrArg (·.2.2.2) h₂.config)
      ⟨0, Taken.returnedAfter (taken_reset h₂.log.choose_spec h₂.read h₂.write h₂.dropped ?_) rfl⟩
    exact fun _ => ⟨congrArg (·.1) h₂.config, congrArg (·.2.2.1) h₂.config⟩
  case configureI2cTarget session left =>
    rw [Op.run, wp_map, Uart.configureI2cTarget]
    refine wp_validated h ?_ fun w₁ owner mode irq h₁ hc => ?_
    case refine_1 => exact refused (by decide) (by decide)
    rw [wp_bind]
    refine wp_changeMode h₁ hc fun w₂ h₂ => ?_
    have hd : w₂.shared.irqEnabled = false := congrArg (·.2.2.2) h₂.config
    rw [wp_bind]
    refine wp_access_of_disabled hd
      ⟨0, Taken.returnedAfter (taken_reset h₂.log.choose_spec h₂.read h₂.write h₂.dropped ?_) rfl⟩
    exact fun hi => absurd hi (Bool.eq_false_iff.mp hd)
  case failWrite session =>
    rw [Op.run, wp_map, Uart.failWrite]
    refine wp_validated h ?_ fun w₁ owner mode irq h₁ hc => ?_
    case refine_1 => exact refused (by decide) (by decide)
    rw [wp_ite]
    split
    case isTrue => exact refused (by decide) (by decide) w₁ h₁
    case isFalse hm =>
      rw [not_not.mp hm] at hc
      rw [wp_bind]
      exact wp_resetUart hc fun w₂ _ _ _ ht => ⟨0, ht.returnedAfter rfl⟩
  case close session =>
    rw [Op.run, wp_map, Uart.close]
    refine wp_validated h ?_ fun w₁ owner mode irq h₁ hc => ?_
    case refine_1 => exact refused (by decide) (by decide)
    rw [wp_bind]
    refine wp_stopMode h₁ hc fun w₂ h₂ => ?_
    have hd : w₂.shared.irqEnabled = false := congrArg (·.2.2.2) h₂.config
    rw [wp_bind]
    refine wp_access_of_disabled hd
      ⟨0, Taken.returnedAfter (taken_reset h₂.log.choose_spec h₂.read h₂.write h₂.dropped ?_) rfl⟩
    exact fun hi => absurd hi (Bool.eq_false_iff.mp hd)
  case uartRead session size =>
    refine wp_mono (wp_uartRead h) ?_
    intro r _ w' ha
    cases ha
    case refused m result ho hr hn ht =>
      refine ⟨m, ?_⟩
      rw [returnedAfter_refused hr hn]
      exact ht
    case overflow hl hp ht => exact ⟨0, ht⟩
    case read ht hz        => exact ⟨_, ht⟩

end Calls

-- What holds of the bytes that have been returned, and what the next read does.
structure InOrder (es : List (Op × Option (Result × List UInt8))) (w : World) : Prop where
  returned : returned es <+: beforeGap w.log
  reports : ∀ session size bs result bytes w',
    (uartRead session size).run handler () bs w = .done ((result, bytes), ()) w' →
      (Counted w'.log → w.shared.active → w.shared.session = session → w.shared.mode = .uart →
        0 < lost w.log → result = .overflow) ∧
      (result = .overflow → bytes = [] ∧ ∃ log, w'.log = .reset :: log ∧ 0 < lost log)

theorem run_taken {es : List (Op × Option (Result × List UInt8))} {u : Unit}
    (r : Run handler Op.run none (fun _ _ _ _ => True) () ⟨.zero, []⟩ es u w) :
    ∃ n, Taken n (returned es) w := by
  refine r.invariant (fun es _ w => ∃ n, Taken n (returned es) w) ?_ ?_
  · exact ⟨0, ⟨⟨rfl, rfl, rfl, Nat.le_refl _, Nat.zero_le _, nofun, nofun⟩, fun _ => Nat.le_refl _,
      fun _ => rfl⟩⟩
  · intro es u w op bs _ ⟨n, h⟩
    have hm : (op.run.run handler u bs w).Meets env fun a w' =>
        ∃ m, Taken m (returnedAfter (returned es) op a.fst.fst a.fst.snd) w' :=
      run_meets (E := env) (fun _ _ => trivial) (op_taken op h)
    cases ho : op.run.run handler u bs w <;> rw [ho] at hm
    case done => exact hm
    all_goals exact nofun

theorem received_in_order {es : List (Op × Option (Result × List UInt8))} {u : Unit}
    (r : Run handler Op.run none (fun _ _ _ _ => True) () ⟨.zero, []⟩ es u w) (hc : Counted w.log) :
    InOrder es w := by
  obtain ⟨n, h⟩ := run_taken r
  refine ⟨h.eq hc ▸ List.take_prefix _ _, fun session size bs result bytes w' hdone => ?_⟩
  have hm : ((uartRead session size).run handler () bs w).Meets env fun a =>
      Answer session (Uart.returned es) w a.fst :=
    run_meets (E := env) (fun _ _ => trivial) (wp_uartRead h)
  rw [hdone] at hm
  rcases hm with ⟨hn, _, ho, _⟩ | ⟨hl, hpos, _⟩ | ⟨_, hz⟩
  · exact ⟨fun _ ha hs hmode _ => absurd ⟨ha, hs, hmode⟩ hn, fun he => absurd he ho⟩
  · exact ⟨fun _ _ _ _ _ => rfl, fun _ => ⟨rfl, _, hl, hpos⟩⟩
  · exact ⟨fun hcount _ _ _ hpos => absurd (hz hcount) (Nat.ne_of_gt hpos),
      fun he => absurd he (by decide)⟩

section Wrapped

-- A ring whose drop counter does not show that anything has been dropped.
def ring (buffer : Memory) (read write dropped : UInt32) : Shared :=
  ⟨true, 1, .uart, true, read, write, dropped, buffer⟩

def zeros : Memory :=
  fun _ => 0

theorem interrupt_of_receive {s s' : Shared} {kept : Bool} (hi : s.irqEnabled)
    (hr : s.receive b = (kept, s')) :
    World.interrupt ⟨s, log⟩ b = ⟨s', .received b kept :: log⟩ := by
  refine (if_pos hi).trans ?_
  show World.mk (s.receive b).snd (.received b (s.receive b).fst :: log) = _
  rw [hr]

theorem ring_kept {buffer : Memory} {read write dropped : UInt32} (h : ¬write - read ≥ maxBytes) :
    World.interrupt ⟨ring buffer read write dropped, log⟩ b =
      ⟨ring (Function.update buffer (slot write) b) read (write + 1) dropped,
        .received b true :: log⟩ :=
  interrupt_of_receive rfl ((if_neg (by simp [ring])).trans (if_neg h))

theorem ring_dropped {buffer : Memory} {read write dropped : UInt32} (h : write - read ≥ maxBytes) :
    World.interrupt ⟨ring buffer read write dropped, log⟩ b =
      ⟨ring buffer read write (dropped + 1), .received b false :: log⟩ :=
  interrupt_of_receive rfl ((if_neg (by simp [ring])).trans (if_pos h))

theorem foldl_kept (n : Nat) (hn : n ≤ 256) (log : List Event) :
    (List.replicate n 0).foldl World.interrupt ⟨ring zeros 0 0 0, log⟩ =
      ⟨ring zeros 0 (.ofNat n) 0, .replicate n (.received 0 true) ++ log⟩ := by
  induction n with
  | zero => rfl
  | succ n ih =>
    have hlt : ¬UInt32.ofNat n - 0 ≥ maxBytes := by
      rw [UInt32.sub_zero, ge_iff_le, UInt32.le_iff_toNat_le,
        UInt32.toNat_ofNat_of_lt' (show n < 4294967296 by omega)]
      exact Nat.not_le.mpr (show n < 256 by omega)
    have hu (i : Nat) : Function.update zeros i 0 = zeros := Function.update_eq_self i zeros
    rw [List.replicate_succ', List.foldl_append, ih (by omega), List.replicate_succ,
      UInt32.ofNat_add, List.foldl_cons, List.foldl_nil, ring_kept hlt, hu]
    rfl

theorem foldl_dropped (n : Nat) (dropped : UInt32) (log : List Event) :
    (List.replicate n 0).foldl World.interrupt ⟨ring zeros 0 256 dropped, log⟩ =
      ⟨ring zeros 0 256 (dropped + .ofNat n), .replicate n (.received 0 false) ++ log⟩ := by
  induction n with
  | zero =>
    rw [show dropped + UInt32.ofNat 0 = dropped from UInt32.add_zero _]
    rfl
  | succ n ih =>
    rw [List.replicate_succ', List.foldl_append, ih, List.replicate_succ, UInt32.ofNat_add,
      ← UInt32.add_assoc]
    exact ring_dropped (by decide)

theorem received_replicate (n : Nat) (kept : Bool) (log : List Event) :
    received (.replicate n (.received b kept) ++ log) = received log ++ .replicate n b := by
  induction n with
  | zero => exact (List.append_nil _).symm
  | succ n ih =>
    rw [List.replicate_succ' (n := n) (a := b), ← List.append_assoc, ← ih]
    rfl

-- Nothing comes in.
def quiet : Env Access Access.Reply World (List UInt8) :=
  { env with admits := (· = []) }

theorem wp_quiet {a : Access} {Q : a.Reply → Unit → World → Prop}
    (h : Q (a.run w).fst () (a.run w).snd) : wp quiet (Prog.call a) Q () w := by
  refine ⟨trivial, ?_⟩
  rintro _ rfl
  exact h

theorem wp_quiet_copy {Q : List UInt8 → Unit → World → Prop} (c : Nat) (read : UInt32)
    (h : Q ((List.range c).map fun i => w.shared.buffer (slot (read + .ofNat i))) () w) :
    wp quiet (copy read c) Q () w := by
  induction c generalizing read Q with
  | zero => exact h
  | succ c ih =>
    rw [copy, wp_bind]
    refine wp_quiet ?_
    rw [wp_bind]
    refine ih (read + 1) ?_
    rw [List.range_succ_eq_map, List.map_cons, List.map_map] at h
    have hread : read + UInt32.ofNat 0 = read := UInt32.add_zero read
    have hnext : (fun i => w.shared.buffer (slot (read + .ofNat i))) ∘ Nat.succ =
        fun i => w.shared.buffer (slot (read + 1 + .ofNat i)) := by
      funext i
      have hi : UInt32.ofNat (i + 1) = 1 + .ofNat i := by
        rw [UInt32.ofNat_add, UInt32.add_comm]
        rfl
      show w.shared.buffer (slot (read + .ofNat (i + 1))) = _
      rw [hi, UInt32.add_assoc]
    rw [hread, hnext] at h
    exact h

theorem wp_quiet_validateState {session : Nat} {Q : Bool × Mode → Unit → World → Prop}
    (h : Q (w.shared.active && w.shared.session == session, w.shared.mode) () w) :
    wp quiet (validateState session) Q () w := by
  rw [validateState, wp_bind]
  exact wp_quiet h

theorem wp_quiet_read {buffer : Memory} {read write size c : UInt32}
    (hc : capacity size (write - read) = c) :
    wp quiet (uartRead 1 size) (fun r _ w' =>
      r = (.ok, (List.range c.toNat).map fun i => buffer (slot (read + .ofNat i))) ∧
        w' = ⟨ring buffer (read + c) write 0, log⟩) () ⟨ring buffer read write 0, log⟩ := by
  rw [uartRead, wp_bind]
  refine wp_quiet_validateState ?_
  dsimp only
  rw [wp_ite]
  split
  case isTrue ho => exact absurd rfl ho
  case isFalse =>
    rw [wp_ite]
    split
    case isTrue hm => exact absurd rfl hm
    case isFalse =>
      rw [wp_bind]
      refine wp_quiet ?_
      rw [wp_ite]
      split
      case isTrue hd => exact absurd rfl hd
      case isFalse =>
        rw [readAvailable, wp_bind]
        refine wp_quiet ?_
        rw [wp_bind]
        refine wp_quiet ?_
        show wp quiet (copy read (capacity size (write - read)).toNat >>= _) _ () _
        rw [wp_bind]
        refine wp_quiet_copy _ _ ?_
        rw [wp_bind]
        refine wp_quiet ⟨?_, ?_⟩
        · rw [hc]
          rfl
        · rw [← hc]
          rfl

theorem uartRead_run_cons (session : Nat) (size : UInt32) (bs : List UInt8) (ds : List (List UInt8))
    (w : World) : (uartRead session size).run handler () (bs :: ds) w =
      (uartRead session size).run handler () ([] :: ds) (bs.foldl World.interrupt w) :=
  rfl

-- A read that `bs` comes in before.
theorem exists_read {es : List (Op × Option (Result × List UInt8))} {u : Unit} {bs : List UInt8}
    {buffer : Memory} {read write size c : UInt32}
    (r : Run handler Op.run none (fun _ _ _ _ => True) () ⟨.zero, []⟩ es u w)
    (hw : bs.foldl World.interrupt w = ⟨ring buffer read write 0, log⟩)
    (hc : capacity size (write - read) = c) :
    ∃ es' u', Run handler Op.run none (fun _ _ _ _ => True) () ⟨.zero, []⟩ es' u'
        ⟨ring buffer (read + c) write 0, log⟩ ∧
      returned es' =
        returned es ++ (List.range c.toNat).map fun i => buffer (slot (read + .ofNat i)) := by
  obtain ⟨n, a, u', w', hr, rfl, rfl⟩ :=
    exists_done (E := quiet) (fun _ => []) (fun _ => rfl) (fun _ => id)
      (@wp_quiet_read log _ _ _ _ _ hc)
  cases n with
  | zero => cases hr
  | succ n =>
    rw [List.range_succ_eq_map, List.map_cons, ← hw] at hr
    have hdone := (uartRead_run_cons 1 size bs _ w).trans hr
    exact ⟨(.uartRead 1 size, _) :: es, u', r.done trivial hdone, rfl⟩

theorem exists_ring :
    ∃ es u w, Run handler Op.run none (fun _ _ _ _ => True) () ⟨.zero, []⟩ es u w ∧
      w = ⟨ring zeros 0 0 0, [.reset, .reset]⟩ ∧ returned es = [] :=
  exists_run (P := fun es (_ : Unit) (w : World) =>
      w = ⟨ring zeros 0 0 0, [.reset, .reset]⟩ ∧ returned es = [])
    [(.open 1, [[], []]), (.configureUart 1, [[], [], [], [], []])] ⟨_, rfl, rfl, rfl⟩

-- Two of three bytes are read.
theorem received_in_order_two :
    ∃ es u w, Run handler Op.run none (fun _ _ _ _ => True) () ⟨.zero, []⟩ es u w ∧
      returned es = [1, 2] ∧ InOrder es w := by
  obtain ⟨es₀, u₀, _, r₀, rfl, hes₀⟩ := exists_ring
  have hkept : [1, 2, 3].foldl World.interrupt ⟨ring zeros 0 0 0, [.reset, .reset]⟩ =
      ⟨ring (Function.update (Function.update (Function.update zeros 0 1) 1 2) 2 3) 0 3 0,
        [.received 3 true, .received 2 true, .received 1 true, .reset, .reset]⟩ := rfl
  obtain ⟨es, u, r, hes⟩ := exists_read r₀ hkept (show capacity 2 (3 - 0) = 2 by decide)
  refine ⟨es, u, _, r, ?_, received_in_order r (counted_of_length (by simp))⟩
  rw [hes, hes₀]
  decide

theorem received_not_in_order :
    ¬∀ es u w, Run handler Op.run none (fun _ _ _ _ => True) () ⟨.zero, []⟩ es u w →
      returned es <+: received w.log := by
  intro h
  obtain ⟨es₀, u₀, _, r₀, rfl, hes₀⟩ := exists_ring
  -- The ring is filled, and so many bytes are dropped that their counter is 0 again.
  let full (n : Nat) : List Event :=
    List.replicate n (.received 0 false) ++
      (List.replicate 256 (.received 0 true) ++ [.reset, .reset])
  have hdropped : (List.replicate 256 0 ++ List.replicate 4294967296 0 : List UInt8).foldl
      World.interrupt ⟨ring zeros 0 0 0, [.reset, .reset]⟩ =
        ⟨ring zeros 0 256 0, full 4294967296⟩ := by
    rw [List.foldl_append, foldl_kept 256 (Nat.le_refl 256)]
    exact foldl_dropped 4294967296 0 _
  have hreceived (n : Nat) : received (full n) = List.replicate 256 0 ++ List.replicate n 0 := by
    rw [received_replicate, received_replicate]
    rfl
  obtain ⟨es₁, u₁, r₁, hes₁⟩ := exists_read r₀ hdropped (show capacity 0 (256 - 0) = 0 by decide)
  have hread (k : Nat) (hk : k ≤ 8) :
      ∃ es u, Run handler Op.run none (fun _ _ _ _ => True) () ⟨.zero, []⟩ es u
          ⟨ring zeros (.ofNat (32 * k)) 256 0, full 4294967296⟩ ∧
        returned es = .replicate (32 * k) 0 := by
    induction k with
    | zero => exact ⟨es₁, u₁, r₁, hes₁.trans (hes₀.symm ▸ rfl)⟩
    | succ k ih =>
      obtain ⟨es, u, r, hes⟩ := ih (by omega)
      have hc : ∀ k < 8, capacity 32 (256 - .ofNat (32 * k)) = 32 := by decide
      have hnone : [].foldl World.interrupt
        ⟨ring zeros (.ofNat (32 * k)) 256 0, full 4294967296⟩ = _ := rfl
      obtain ⟨es', u', r', hes'⟩ := exists_read r hnone (hc k hk)
      rw [Nat.mul_succ, UInt32.ofNat_add]
      refine ⟨es', u', r', hes'.trans ?_⟩
      rw [hes, List.replicate_add]
      exact congrArg _ List.map_const'
  obtain ⟨es₂, u₂, r₂, hes₂⟩ := hread 8 (Nat.le_refl 8)
  have hes₂ : returned es₂ = List.replicate 256 0 := hes₂
  have hkept : [1].foldl World.interrupt ⟨ring zeros 256 256 0, full 4294967296⟩ = _ :=
    ring_kept (show ¬(256 : UInt32) - 256 ≥ maxBytes by decide)
  obtain ⟨es₃, u₃, r₃, hes₃⟩ := exists_read r₂ hkept
    (show capacity 32 (256 + 1 - .ofNat (32 * 8)) = 1 by decide)
  have hprefix := h es₃ u₃ _ r₃
  have hbyte : Function.update zeros (slot 256) 1 (slot (256 + .ofNat 0)) = 1 := by decide
  have hrange : List.range (1 : UInt32).toNat = [0] := rfl
  rw [hes₃, hes₂, hrange, List.map_singleton] at hprefix
  have hlog : received (.received 1 true :: full 4294967296) =
      List.replicate 256 0 ++ (List.replicate 4294967296 0 ++ [1]) := by
    rw [← List.append_assoc, ← hreceived]
    rfl
  rw [hlog, List.prefix_append_right_inj] at hprefix
  have hne (n : Nat) (byte : UInt8) (hb : byte = 1) :
      ¬[byte] <+: List.replicate (n + 1) 0 ++ [1] := by
    rw [hb, List.replicate_succ, List.cons_append, List.cons_prefix_cons]
    exact fun h => absurd h.left (by decide)
  exact hne 4294967295 _ hbyte hprefix

end Wrapped

end ExternalLink.Uart
