import HackyLens.Power.Theorems.Bus
import Mathlib.Data.List.Nodup

namespace Power

open Prog

-- What is assumed of the calls: one that takes a pin from a channel does not fail.
def env (b : Board) (clock : Nat → UInt64) {start : Device} (loan : Option (Loan b start)) :
    Env Call Call.Reply World Decision where
  handler  := World.handler b clock
  admits d := d.sticks = false
  call c w := Silent b start w.toDevice ∧ Allowed b start loan c w.toDevice
  hung _   := False

section Phase

-- A property that events do not disturb, and with which no line is driven high.
structure Phase (b : Board) (start : Device) (P : Device → Prop) : Prop where
  notice : ∀ w events, P w → P (w.notice events (w.routed b ||| w.routed b))
  silent : ∀ w, P w → Silent b start w

-- What is read of a register, and still there but for events of the channels at a pin.
structure Reads (b : Board) (f : Field) (value : BitVec 32) (w : Device) : Prop where
  config : f.pending = false → value = w.regs f
  pending : ∀ c, (w.routed b).getLsbD c = false → value.getLsbD c = (w.regs f).getLsbD c

variable {b : Board} {clock : Nat → UInt64} {start : Device} {loan : Option (Loan b start)}
  {P P' : Device → Prop} {f : Field} {s : Unit} {w : World}

theorem Reads.notice {w : Device} {events : Field → BitVec 32} :
    Reads b f (w.regs f) (w.notice events (w.routed b ||| w.routed b)) where
  config hf  := (Device.notice_config hf).symm
  pending c hc := by
    cases hf : f.pending
    case false => rw [Device.notice_config hf]
    case true  =>
      have hn : (w.routed b).getLsbD c = false := hc
      rw [Device.notice_pending hf, BitVec.getLsbD_or, BitVec.getLsbD_and, BitVec.getLsbD_or, hn,
        Bool.or_self, Bool.and_false, Bool.or_false]

namespace Phase

theorem wp_read (hp : Phase b start P) (h : P w.toDevice) :
    wp (env b clock loan) (read f) (fun value _ w => P w.toDevice ∧ Reads b f value w.toDevice)
      s w :=
  ⟨⟨hp.silent _ h, trivial⟩, fun _ _ => ⟨hp.notice _ _ h, .notice⟩⟩

theorem wp_write {value : BitVec 32} (hp : Phase b start P) (h : P w.toDevice)
    (ha : Allowed b start loan (.write f value) w.toDevice) (hp' : Phase b start P')
    (h' : P' (w.toDevice.write f value)) :
    wp (env b clock loan) (write f value) (fun _ _ w => P' w.toDevice) s w :=
  ⟨⟨hp.silent _ h, ha⟩, fun _ _ => hp'.notice _ _ h'⟩

theorem wp_update {g : BitVec 32 → BitVec 32} (hp : Phase b start P) (hp' : Phase b start P')
    (h : P w.toDevice)
    (hw : ∀ value w, P w → Reads b f value w →
      Allowed b start loan (.write f (g value)) w ∧ P' (w.write f (g value))) :
    wp (env b clock loan) (read f >>= fun value => write f (g value)) (fun _ _ w => P' w.toDevice)
      s w := by
  rw [wp_bind]
  refine wp_mono (hp.wp_read h) ?_
  rintro value s w ⟨h, hr⟩
  obtain ⟨ha, h'⟩ := hw value _ h hr
  exact hp.wp_write h ha hp' h'

section Wait

variable {fuel n : Nat} {deadline : UInt64} {sclMask : BitVec 32}

end Wait
end Phase
end Phase

section Phases

variable {b : Board} {start w : Device} {l : Loan b start} {events : Field → BitVec 32}

theorem Untouched.routed (h : Untouched b start w) : w.routed b = start.routed b := by
  rw [Device.routed, Device.routed, h.pins]

theorem Untouched.notice (h : Untouched b start w) :
    Untouched b start (w.notice events (w.routed b ||| w.routed b)) where
  regs f hf := by
    rw [Device.notice_config hf]
    exact h.regs f hf
  kept f c hf hc := by
    rw [Device.notice_pending hf, BitVec.getLsbD_or, h.kept f c hf hc, Bool.true_or]
  fresh f c hf hc := by
    rw [Device.notice_pending hf, BitVec.getLsbD_or, Bool.or_eq_true] at hc
    obtain hc | hc := hc
    case inl => exact h.fresh f c hf hc
    case inr =>
      rw [BitVec.or_self, h.routed, BitVec.getLsbD_and, Bool.and_eq_true] at hc
      exact .inr hc.right
  pins := h.pins

theorem Lent.notice_self (h : Lent l w) : Lent l (w.notice events (w.routed b ||| w.routed b)) := by
  refine h.notice fun c hc => h.routed ?_
  rwa [BitVec.or_self] at hc

theorem phase_untouched {m : Bool} : Phase b start fun w => Untouched b start w ∧ w.mie = m where
  notice _ _ h := ⟨h.left.notice, h.right⟩
  silent _ h   := h.left.silent

theorem phase_parked : Phase b start (Parked l) where
  notice _ _ h := ⟨h.left.notice_self, h.right⟩
  silent _ h   := h.silent

theorem Active.notice {channels : BitVec 32} (h : Active l w)
    (hr : ∀ c, channels.getLsbD c = true →
      (start.routed b).getLsbD c = true ∨ l.mask.getLsbD c = true) :
    Active l (w.notice events channels) := by
  refine ⟨h.left.notice hr, ?_, ?_⟩
  · rw [Device.notice_config rfl]
    exact h.right.left
  · rw [Device.notice_config rfl]
    exact h.right.right

theorem Phase.and_pin {P : Device → Prop} (hp : Phase b start P) {pin : Nat} {cfg : Pin} :
    Phase b start fun w => P w ∧ w.pins pin = cfg where
  notice _ _ h := ⟨hp.notice _ _ h.left, h.right⟩
  silent _ h   := hp.silent _ h.left

end Phases

-- With the lines at the channels.
section Active

variable {b : Board} {clock : Nat → UInt64} {start : Device} {l : Loan b start}
  {f : Field} {s : Unit} {w : World} {channel : Nat} {m : BitVec 32}

-- The channels of `m` are among those that are lent.
def Within (l : Loan b start) (m : BitVec 32) : Prop :=
  ∀ c, m.getLsbD c = true → l.mask.getLsbD c = true

theorem Lent.allowed {w : Device} {value : BitVec 32} (h : Lent l w) (hf : f.pending = false)
    (hv : value &&& ~~~l.mask = w.regs f &&& ~~~l.mask) :
    Allowed b start (some l) (.write f value) w ∧ Lent l (w.write f value) := by
  have hv : value &&& ~~~l.mask = if f.pending then 0 else w.regs f &&& ~~~l.mask := by
    rw [hv, hf, if_neg Bool.false_ne_true]
  refine ⟨⟨l, rfl, h.mie, hv⟩, h.write hv ?_⟩
  rw [hf]
  intro h
  cases h

theorem Active.output {w : Device} {value : BitVec 32} (h : Active l w)
    (hv : value &&& ~~~l.mask = w.regs .outputEn &&& ~~~l.mask) :
    Allowed b start (some l) (.write .outputEn value) w ∧ Active l (w.write .outputEn value) := by
  obtain ⟨ha, hl⟩ := h.left.allowed rfl hv
  exact ⟨ha, hl, h.right⟩

theorem Lendable.allowed {w : Device} {pin : Nat} {cfg : Pin} (h : Lent l w)
    (hp : Lendable l pin cfg) : Allowed b start (some l) (.setIo pin cfg) w := by
  refine ⟨l, rfl, h.mie, hp.imp ?_ ?_⟩
  · refine And.imp_right <| Or.imp_right ?_
    rintro rfl
    exact lentPin_chSel l.scl_lt
  · refine And.imp_right <| Or.imp_right ?_
    rintro rfl
    exact lentPin_chSel l.sda_lt

theorem Lendable.routed {w : Device} {pin : Nat} {cfg : Pin} {c : Nat} (h : Lent l w)
    (hp : Lendable l pin cfg)
    (hc : (w.routed b ||| (w.setPin pin cfg).routed b).getLsbD c = true) :
    (start.routed b).getLsbD c = true ∨ l.mask.getLsbD c = true := by
  rw [BitVec.getLsbD_or, Bool.or_eq_true] at hc
  obtain hc | hc := hc
  case inl => exact h.routed hc
  case inr => exact (h.setPin hp).routed hc

section Session

variable {fuel n : Nat} {deadline : UInt64}

end Session
end Active

section Borrow

variable {b : Board} {clock : Nat → UInt64} {start : Device} {l : Loan b start} {f : Field}
  {saved : Field → BitVec 32} {s : Unit} {w : World}

-- The value that a register had when nothing had been changed, but for other channels' events.
structure Saved (b : Board) (start : Device) (f : Field) (value : BitVec 32) : Prop where
  config : f.pending = false → value = start.regs f
  pending : f.pending = true → ∀ c, (start.routed b).getLsbD c = false →
    value.getLsbD c = (start.regs f).getLsbD c

theorem Reads.toSaved {w : Device} {value : BitVec 32} (h : Reads b f value w)
    (hu : Untouched b start w) : Saved b start f value where
  config hf := (h.config hf).trans (hu.regs f hf)
  pending hf c hc := by
    rw [h.pending c (hu.routed ▸ hc)]
    cases hs : (start.regs f).getLsbD c
    case true  => exact hu.kept f c hf hs
    case false =>
      by_contra hn
      obtain hs' | hr := hu.fresh f c hf (eq_true_of_ne_false hn)
      case inl => rw [hs] at hs'; cases hs'
      case inr => rw [hc] at hr; cases hr

theorem wp_save {fields : List Field} {m : Bool} {loan : Option (Loan b start)}
    (hu : Untouched b start w.toDevice ∧ w.mie = m) :
    wp (env b clock loan) (save fields saved)
      (fun saved' _ w => (Untouched b start w.toDevice ∧ w.mie = m) ∧
        ∀ f, (f ∉ fields → Saved b start f (saved f)) → Saved b start f (saved' f)) s w := by
  induction fields generalizing saved s w with
  | nil              => exact ⟨hu, fun f h => h List.not_mem_nil⟩
  | cons field fields ih =>
    refine wp_seq (phase_untouched.wp_read hu) ?_
    rintro value s w ⟨hw, hr⟩
    refine wp_mono (ih hw) ?_
    rintro saved' s w ⟨hu, h⟩
    refine ⟨hu, fun f hf => h f fun hn => ?_⟩
    by_cases hff : f = field
    case pos =>
      rw [hff, Function.update_self]
      exact hr.toSaved hw.left
    case neg =>
      rw [Function.update_of_ne hff]
      exact hf fun hm => (List.mem_cons.mp hm).elim hff hn

-- Some registers are as they were at the start, but for the events of other channels.
def Clean (b : Board) (start : Device) (f : Field) (w : Device) : Prop :=
  if f.pending then ∀ c, (w.regs f).getLsbD c = true →
    (start.regs f).getLsbD c = true ∨ (start.routed b).getLsbD c = true
  else w.regs f = start.regs f

def Tidy (l : Loan b start) (fields : List Field) (w : Device) : Prop :=
  Parked l w ∧ ∀ f ∈ fields, Clean b start f w

theorem Parked.routed {w : Device} (h : Parked l w) : w.routed b = start.routed b := by
  rw [Device.routed, Device.routed, h.right]

theorem phase_tidy {fields : List Field} : Phase b start (Tidy l fields) where
  silent _ h        := h.left.silent
  notice w events h := by
    refine ⟨phase_parked.notice _ _ h.left, fun f hf => ?_⟩
    have hc := h.right f hf
    cases hp : f.pending
    case false =>
      rw [Clean, hp, if_neg Bool.false_ne_true] at hc ⊢
      rw [Device.notice_config hp]
      exact hc
    case true =>
      rw [Clean, hp, if_pos rfl] at hc ⊢
      intro c hw
      rw [Device.notice_pending hp, BitVec.getLsbD_or, Bool.or_eq_true] at hw
      obtain hw | hw := hw
      case inl => exact hc c hw
      case inr =>
        rw [BitVec.or_self, h.left.routed, BitVec.getLsbD_and, Bool.and_eq_true] at hw
        exact .inr hw.right

theorem Tidy.write {fields : List Field} {value : BitVec 32} {w : Device} (h : Tidy l fields w)
    (hl : Lent l (w.write f value)) (hc : Clean b start f (w.write f value)) :
    Tidy l (f :: fields) (w.write f value) := by
  refine ⟨⟨hl, h.left.right⟩, List.forall_mem_cons.mpr ⟨hc, fun g hg => ?_⟩⟩
  by_cases hgf : g = f
  case pos => exact hgf ▸ hc
  case neg =>
    have hg := h.right g hg
    rwa [Clean, Device.write_of_ne hgf]

theorem wp_restore {fields : List Field} (hf : f.pending = false)
    (hs : Saved b start f (saved f)) (h : Tidy l fields w.toDevice) :
    wp (env b clock (some l)) (restore saved l.mask f)
      (fun _ _ w => Tidy l (f :: fields) w.toDevice) s w := by
  refine phase_tidy.wp_update phase_tidy h fun value w h hr => ?_
  have hv : (value &&& ~~~l.mask) ||| (saved f &&& l.mask) = start.regs f := by
    refine BitVec.eq_of_getLsbD_eq fun c _ => ?_
    rw [hr.config hf, hs.config hf, BitVec.getLsbD_or, getLsbD_and_not, BitVec.getLsbD_and]
    cases hc : l.mask.getLsbD c
    case true  => simp
    case false => simp [h.left.left.regs f c hf hc]
  have hk : start.regs f &&& ~~~l.mask = w.regs f &&& ~~~l.mask := by
    refine BitVec.eq_of_getLsbD_eq fun c _ => ?_
    rw [getLsbD_and_not, getLsbD_and_not]
    cases hc : l.mask.getLsbD c
    case true  => rw [Bool.not_true, Bool.and_false, Bool.and_false]
    case false => rw [h.left.left.regs f c hf hc]
  rw [hv]
  obtain ⟨ha, hl⟩ := h.left.left.allowed hf hk
  refine ⟨ha, h.write hl ?_⟩
  rw [Clean, hf, if_neg Bool.false_ne_true, Device.write_config hf]

theorem Tidy.untouched {fields : List Field} {w : Device} (h : Tidy l fields w)
    (ha : ∀ f, f ∈ fields) : Untouched b start w where
  regs f hf := by
    have hc := h.right f (ha f)
    rwa [Clean, hf, if_neg Bool.false_ne_true] at hc
  kept := h.left.left.kept
  fresh f c hf := by
    have hc := h.right f (ha f)
    rw [Clean, hf, if_pos rfl] at hc
    exact hc c
  pins := h.left.right

end Borrow

section Recover

variable {b : Board} {clock : Nat → UInt64} {start : Device} {loan : Option (Loan b start)}
  {m : Bool} {s : Unit} {w : World}

theorem wp_getIo {pin : Nat} (hu : Untouched b start w.toDevice ∧ w.mie = m) :
    wp (env b clock loan) (getIo pin)
      (fun r _ w' => (Untouched b start w'.toDevice ∧ w'.mie = m) ∧ w'.reads = w.reads ∧
        ∀ cfg ∈ r, cfg.fst = start.pins pin) s w := by
  refine ⟨⟨hu.left.silent, trivial⟩, fun d _ => ⟨phase_untouched.notice _ _ hu, rfl, ?_⟩⟩
  intro cfg hc
  have hc : cfg ∈ (if d.fails then none else some (w.pins pin, d.padDi)) := hc
  split at hc
  case isTrue  => cases hc
  case isFalse =>
    obtain rfl := Option.some.inj hc
    rw [← hu.left.pins]

theorem wp_scan {pins : List Nat} {used : BitVec 32}
    (hu : Untouched b start w.toDevice ∧ w.mie = m) :
    wp (env b clock loan) (scan b pins used)
      (fun r _ w' => (Untouched b start w'.toDevice ∧ w'.mie = m) ∧ ∀ used' ∈ r,
        used' = pins.foldl (fun used pin => used ||| signalMask b (start.pins pin).chSel) used)
      s w := by
  induction pins generalizing used s w with
  | nil           => exact ⟨hu, fun _ h => (Option.some.inj h).symm⟩
  | cons pin _ ih =>
    refine wp_seq (wp_getIo hu) ?_
    rintro r s w ⟨hu, -, hc⟩
    cases r
    case none     => exact ⟨hu, fun _ h => by cases h⟩
    case some cfg =>
      rw [List.foldl_cons, ← hc cfg rfl]
      exact ih hu

variable {fuel n : Nat}

end Recover

theorem Untouched.refl {b : Board} {w : Device} : Untouched b w w :=
  ⟨fun _ _ => rfl, fun _ _ _ h => h, fun _ _ _ h => .inl h, rfl⟩

section Cube

end Cube
end Power
