import HackyLens.Power.Bus

-- `power_bus_clear` leaves the registers, the pins and the interrupt flag as it found them.

namespace Power

open Prog

section Bits

variable {x y z : BitVec 32} {c k n : Nat} {b : Board}

theorem getLsbD_and_not : (x &&& ~~~y).getLsbD c = (x.getLsbD c && !y.getLsbD c) := by
  rw [BitVec.getLsbD_and, BitVec.getLsbD_not]
  by_cases hc : c < 32
  case pos => simp only [hc, decide_true, Bool.true_and]
  case neg => simp only [BitVec.getLsbD_of_ge x c (Nat.le_of_not_lt hc), Bool.false_and]

theorem and_eq_zero_iff : x &&& y = 0 ↔ ∀ c, x.getLsbD c = true → y.getLsbD c = false := by
  constructor
  · intro h c hx
    have hc := congrArg (BitVec.getLsbD · c) h
    simpa [hx] using hc
  · intro h
    refine BitVec.eq_of_getLsbD_eq fun c _ => ?_
    rw [BitVec.getLsbD_and]
    cases hx : x.getLsbD c
    case false => simp
    case true  => simp [h c hx]

theorem getLsbD_bit : (bit k).getLsbD c = true ↔ c < 32 ∧ c = k := by
  simp only [bit, BitVec.getLsbD_shiftLeft, BitVec.getLsbD_one]
  simp
  omega

theorem getLsbD_signalMask :
    (signalMask b n).getLsbD c = true ↔ c < 32 ∧ n = b.gpiohs0 + c := by
  rw [signalMask]
  split
  case isTrue h =>
    rw [getLsbD_bit]
    omega
  case isFalse h =>
    simp
    omega

theorem signalMask_eq_zero (h : n < b.gpiohs0 ∨ b.gpiohs0 + 31 < n) : signalMask b n = 0 := by
  rw [signalMask, if_neg]
  omega

theorem getLsbD_foldl_or {α : Type} {f : α → BitVec 32} {l : List α} {m : BitVec 32} :
    (l.foldl (fun m a => m ||| f a) m).getLsbD c = true ↔
      m.getLsbD c = true ∨ ∃ a ∈ l, (f a).getLsbD c = true := by
  induction l generalizing m with
  | nil         => simp
  | cons a l ih =>
    rw [List.foldl_cons, ih, BitVec.getLsbD_or, Bool.or_eq_true, or_assoc]
    simp only [List.mem_cons, exists_eq_or_imp]

theorem Device.getLsbD_routed {w : Device} :
    (w.routed b).getLsbD c = true ↔
      c < 32 ∧ ∃ pin < b.numIo, (w.pins pin).chSel = b.gpiohs0 + c := by
  simp only [routed, getLsbD_foldl_or, getLsbD_signalMask, List.mem_range]
  constructor
  · rintro (h | ⟨pin, hp, hc, hs⟩)
    · simp at h
    · exact ⟨hc, pin, hp, hs⟩
  · rintro ⟨hc, pin, hp, hs⟩
    exact .inr ⟨pin, hp, hc, hs⟩

end Bits

namespace Device

variable {w : Device} {f g : Field} {events : Field → BitVec 32} {value channels : BitVec 32}

theorem notice_config (hf : f.pending = false) : (w.notice events channels).regs f = w.regs f := by
  change (if f.pending then _ else _) = _
  rw [hf, if_neg Bool.false_ne_true]

theorem notice_pending (hf : f.pending = true) :
    (w.notice events channels).regs f = w.regs f ||| (events f &&& channels) := by
  change (if f.pending then _ else _) = _
  rw [hf, if_pos rfl]

theorem write_of_ne (hg : g ≠ f) : (w.write f value).regs g = w.regs g :=
  Function.update_of_ne hg ..

theorem write_config (hf : f.pending = false) : (w.write f value).regs f = value := by
  change Function.update _ f (if f.pending then _ else _) f = _
  rw [Function.update_self, hf, if_neg Bool.false_ne_true]

theorem write_pending (hf : f.pending = true) :
    (w.write f value).regs f = w.regs f &&& ~~~value := by
  change Function.update _ f (if f.pending then _ else _) f = _
  rw [Function.update_self, hf, if_pos rfl]

theorem setPin_self {pin : Nat} {cfg : Pin} : (w.setPin pin cfg).pins pin = cfg :=
  Function.update_self ..

theorem setPin_of_ne {pin pin' : Nat} {cfg : Pin} (h : pin' ≠ pin) :
    (w.setPin pin cfg).pins pin' = w.pins pin' :=
  Function.update_of_ne h ..

end Device

-- Two channels that are at no pin, while the lines are the controller's.
structure Loan (b : Board) (start : Device) where
  scl : Nat
  sda : Nat
  scl_lt : scl < 32
  sda_lt : sda < 32
  distinct : scl ≠ sda
  free : ∀ pin < b.numIo,
    (start.pins pin).chSel ≠ b.gpiohs0 + scl ∧ (start.pins pin).chSel ≠ b.gpiohs0 + sda
  sclFunction : (start.pins b.pmicScl).chSel = b.sclFunction
  sdaFunction : (start.pins b.pmicSda).chSel = b.sdaFunction

def Loan.mask {b : Board} {start : Device} (l : Loan b start) : BitVec 32 :=
  bit l.scl ||| bit l.sda

-- No line of the bus is driven high that was not before.
def Silent (b : Board) (start w : Device) : Prop :=
  ∀ pin, pin = b.pmicScl ∨ pin = b.pmicSda → w.drivenHigh b pin = true →
    start.drivenHigh b pin = true

-- The calls that change something only concern what has been lent, with interrupts disabled.
def Allowed (b : Board) (start : Device) (loan : Option (Loan b start)) : Call → Device → Prop
  | .setIo pin cfg, w     => ∃ l ∈ loan, w.mie = false ∧
    (pin = b.pmicScl ∧ (cfg = start.pins pin ∨ cfg.chSel = b.gpiohs0 + l.scl) ∨
      pin = b.pmicSda ∧ (cfg = start.pins pin ∨ cfg.chSel = b.gpiohs0 + l.sda))
  | .write field value, w => ∃ l ∈ loan, w.mie = false ∧
    value &&& ~~~l.mask = if field.pending then 0 else w.regs field &&& ~~~l.mask
  | _, _                  => True

-- The configuration is the same, no pending bit is lost, and new ones are those of other channels.
structure Untouched (b : Board) (start w : Device) : Prop where
  regs : ∀ f, f.pending = false → w.regs f = start.regs f
  kept : ∀ f c, f.pending = true → (start.regs f).getLsbD c = true → (w.regs f).getLsbD c = true
  fresh : ∀ f c, f.pending = true → (w.regs f).getLsbD c = true →
    (start.regs f).getLsbD c = true ∨ (start.routed b).getLsbD c = true
  pins : w.pins = start.pins

namespace Loan

variable {b : Board} {start : Device} {c : Nat} {l : Loan b start}

theorem getLsbD_mask : l.mask.getLsbD c = true ↔ c < 32 ∧ (c = l.scl ∨ c = l.sda) := by
  rw [mask, BitVec.getLsbD_or, Bool.or_eq_true, getLsbD_bit, getLsbD_bit, ← and_or_left]

theorem signalMask_scl (l : Loan b start) : signalMask b (start.pins b.pmicScl).chSel = 0 :=
  signalMask_eq_zero <| l.sclFunction ▸ b.sclFunction_not_channel

theorem signalMask_sda (l : Loan b start) : signalMask b (start.pins b.pmicSda).chSel = 0 :=
  signalMask_eq_zero <| l.sdaFunction ▸ b.sdaFunction_not_channel

end Loan

section Lent

variable {b : Board} {start w : Device} {c channel : Nat} {scl : Pin} {l : Loan b start}

theorem lentPin_chSel (h : channel < 32) : (lentPin b scl channel).chSel = b.gpiohs0 + channel := by
  have hb := b.channels_lt
  exact Nat.mod_eq_of_lt (by omega)

theorem getLsbD_signalMask_lentPin (h : channel < 32) :
    (signalMask b (lentPin b scl channel).chSel).getLsbD c = true ↔ c = channel := by
  rw [lentPin_chSel h, getLsbD_signalMask]
  omega

-- While the channels are lent, only they differ from the start, and no pin but the two lines.
structure Lent (l : Loan b start) (w : Device) : Prop where
  regs : ∀ f c, f.pending = false → l.mask.getLsbD c = false →
    (w.regs f).getLsbD c = (start.regs f).getLsbD c
  kept : ∀ f c, f.pending = true → (start.regs f).getLsbD c = true → (w.regs f).getLsbD c = true
  fresh : ∀ f c, f.pending = true → (w.regs f).getLsbD c = true →
    (start.regs f).getLsbD c = true ∨ (start.routed b).getLsbD c = true ∨ l.mask.getLsbD c = true
  pins : ∀ pin, pin ≠ b.pmicScl → pin ≠ b.pmicSda → w.pins pin = start.pins pin
  scl : w.pins b.pmicScl = start.pins b.pmicScl ∨
    w.pins b.pmicScl = lentPin b (start.pins b.pmicScl) l.scl
  sda : w.pins b.pmicSda = start.pins b.pmicSda ∨
    w.pins b.pmicSda = lentPin b (start.pins b.pmicScl) l.sda
  mie : w.mie = false

theorem Untouched.lent (h : Untouched b start w) (hm : w.mie = false) : Lent l w where
  regs f c hf _  := by rw [h.regs f hf]
  kept           := h.kept
  fresh f c hf h' := (h.fresh f c hf h').imp id .inl
  pins _ _ _     := by rw [h.pins]
  scl            := .inl (by rw [h.pins])
  sda            := .inl (by rw [h.pins])
  mie            := hm

-- The line at `pin` may be at its channel, or be the controller's.
def Lendable (l : Loan b start) (pin : Nat) (cfg : Pin) : Prop :=
  pin = b.pmicScl ∧ (cfg = start.pins pin ∨ cfg = lentPin b (start.pins b.pmicScl) l.scl) ∨
    pin = b.pmicSda ∧ (cfg = start.pins pin ∨ cfg = lentPin b (start.pins b.pmicScl) l.sda)

namespace Lent

variable {f : Field} {value : BitVec 32}

theorem routed (h : Lent l w) (hr : (w.routed b).getLsbD c = true) :
    (start.routed b).getLsbD c = true ∨ l.mask.getLsbD c = true := by
  obtain ⟨hc, pin, hp, hs⟩ := Device.getLsbD_routed.mp hr
  have old (hw : w.pins pin = start.pins pin) : (start.routed b).getLsbD c = true :=
    Device.getLsbD_routed.mpr ⟨hc, pin, hp, hw ▸ hs⟩
  have lent {scl : Pin} {channel : Nat} (h : channel < 32)
      (hw : w.pins pin = lentPin b scl channel) : c = channel := by
    rw [hw, lentPin_chSel h] at hs
    omega
  by_cases hscl : pin = b.pmicScl
  case pos =>
    subst hscl
    obtain hw | hw := h.scl
    case inl => exact .inl (old hw)
    case inr => exact .inr <| Loan.getLsbD_mask.mpr ⟨hc, .inl (lent l.scl_lt hw)⟩
  case neg =>
    by_cases hsda : pin = b.pmicSda
    case pos =>
      subst hsda
      obtain hw | hw := h.sda
      case inl => exact .inl (old hw)
      case inr => exact .inr <| Loan.getLsbD_mask.mpr ⟨hc, .inr (lent l.sda_lt hw)⟩
    case neg => exact .inl <| old (h.pins pin hscl hsda)

theorem notice {events : Field → BitVec 32} {channels : BitVec 32} (h : Lent l w)
    (hr : ∀ c, channels.getLsbD c = true →
      (start.routed b).getLsbD c = true ∨ l.mask.getLsbD c = true) :
    Lent l (w.notice events channels) where
  regs f c hf hc := by
    rw [Device.notice_config hf]
    exact h.regs f c hf hc
  kept f c hf hc := by
    rw [Device.notice_pending hf, BitVec.getLsbD_or, h.kept f c hf hc, Bool.true_or]
  fresh f c hf hc := by
    rw [Device.notice_pending hf, BitVec.getLsbD_or, BitVec.getLsbD_and, Bool.or_eq_true,
      Bool.and_eq_true] at hc
    obtain hc | hc := hc
    case inl => exact h.fresh f c hf hc
    case inr => exact .inr <| hr c hc.right
  pins := h.pins
  scl  := h.scl
  sda  := h.sda
  mie  := h.mie

theorem write (h : Lent l w)
    (hv : value &&& ~~~l.mask = if f.pending then 0 else w.regs f &&& ~~~l.mask)
    (hp : f.pending = true → ∀ c, value.getLsbD c = true → (start.regs f).getLsbD c = false) :
    Lent l (w.write f value) where
  regs g c hg hc := by
    by_cases hgf : g = f
    case neg =>
      rw [Device.write_of_ne hgf]
      exact h.regs g c hg hc
    case pos =>
      subst hgf
      rw [Device.write_config hg, ← h.regs g c hg hc]
      rw [hg, if_neg Bool.false_ne_true] at hv
      have hb := congrArg (BitVec.getLsbD · c) hv
      simpa only [getLsbD_and_not, hc, Bool.not_false, Bool.and_true] using hb
  kept g c hg hc := by
    by_cases hgf : g = f
    case neg =>
      rw [Device.write_of_ne hgf]
      exact h.kept g c hg hc
    case pos =>
      subst hgf
      have hn : value.getLsbD c = false := by
        by_contra hn
        rw [hp hg c (eq_true_of_ne_false hn)] at hc
        cases hc
      rw [Device.write_pending hg, getLsbD_and_not, h.kept g c hg hc, hn, Bool.not_false,
        Bool.and_self]
  fresh g c hg hc := by
    by_cases hgf : g = f
    case neg =>
      rw [Device.write_of_ne hgf] at hc
      exact h.fresh g c hg hc
    case pos =>
      subst hgf
      rw [Device.write_pending hg, getLsbD_and_not, Bool.and_eq_true] at hc
      exact h.fresh g c hg hc.left
  pins := h.pins
  scl  := h.scl
  sda  := h.sda
  mie  := h.mie

theorem setPin {pin : Nat} {cfg : Pin} (h : Lent l w) (hp : Lendable l pin cfg) :
    Lent l (w.setPin pin cfg) where
  regs  := h.regs
  kept  := h.kept
  fresh := h.fresh
  mie   := h.mie
  pins pin' hscl hsda := by
    rw [Device.setPin_of_ne]
    · exact h.pins pin' hscl hsda
    · rintro rfl
      obtain hp | hp := hp
      case inl => exact hscl hp.left
      case inr => exact hsda hp.left
  scl := by
    obtain ⟨rfl, hp⟩ | ⟨rfl, hp⟩ := hp
    case inl => rwa [Device.setPin_self]
    case inr =>
      rw [Device.setPin_of_ne b.scl_ne_sda]
      exact h.scl
  sda := by
    obtain ⟨rfl, hp⟩ | ⟨rfl, hp⟩ := hp
    case inl =>
      rw [Device.setPin_of_ne b.scl_ne_sda.symm]
      exact h.sda
    case inr => rwa [Device.setPin_self]

end Lent
end Lent

section Silent

variable {b : Board} {start w : Device} {l : Loan b start}

theorem drivenHigh_of_signalMask {pin : Nat} (h : signalMask b (w.pins pin).chSel = 0) :
    w.drivenHigh b pin = false := by
  simp [Device.drivenHigh, h]

theorem drivenHigh_of_low {pin : Nat} {signal : BitVec 32}
    (hs : signalMask b (w.pins pin).chSel = signal) (hd : (w.pins pin).doSel = false) (hi : (w.pins pin).doInv = false)
    (hv : w.regs .outputVal &&& signal = 0) (hx : w.regs .outputXor &&& signal = 0) :
    w.drivenHigh b pin = false := by
  have h : (w.regs .outputVal ^^^ w.regs .outputXor) &&& signal = 0 := by
    refine and_eq_zero_iff.mpr fun c hc => ?_
    cases hb : (w.regs .outputVal).getLsbD c
    case true  => exact and_eq_zero_iff.mp hv c hb
    case false =>
      rw [BitVec.getLsbD_xor, hb, Bool.false_xor] at hc
      exact and_eq_zero_iff.mp hx c hc
  simp [Device.drivenHigh, hs, hd, hi, h]

theorem drivenHigh_congr {pin : Nat} (hp : w.pins = start.pins)
    (hr : ∀ f, f.pending = false → w.regs f = start.regs f) :
    w.drivenHigh b pin = start.drivenHigh b pin := by
  rw [Device.drivenHigh, Device.drivenHigh, hp, hr .outputEn rfl, hr .outputVal rfl,
    hr .outputXor rfl]

theorem Untouched.silent (h : Untouched b start w) : Silent b start w :=
  fun _ _ hd => drivenHigh_congr h.pins h.regs ▸ hd

-- The lines are the controller's again, or not lent yet.
def Parked (l : Loan b start) (w : Device) : Prop :=
  Lent l w ∧ w.pins = start.pins

-- The lines may be at the channels, whose value is low.
def Active (l : Loan b start) (w : Device) : Prop :=
  Lent l w ∧ w.regs .outputVal &&& l.mask = 0 ∧ w.regs .outputXor &&& l.mask = 0

theorem Parked.silent (h : Parked l w) : Silent b start w := by
  rintro pin (rfl | rfl) hd
  case inl =>
    rw [drivenHigh_of_signalMask (h.right ▸ l.signalMask_scl)] at hd
    cases hd
  case inr =>
    rw [drivenHigh_of_signalMask (h.right ▸ l.signalMask_sda)] at hd
    cases hd

theorem and_signalMask_lentPin {x : BitVec 32} {channel : Nat} {scl : Pin} (hc : channel < 32)
    (hl : channel = l.scl ∨ channel = l.sda) (h : x &&& l.mask = 0) :
    x &&& signalMask b (lentPin b scl channel).chSel = 0 := by
  refine and_eq_zero_iff.mpr fun c hx => ?_
  by_contra hs
  obtain rfl := (getLsbD_signalMask_lentPin hc).mp (eq_true_of_ne_false hs)
  have hm := and_eq_zero_iff.mp h c hx
  rw [Loan.getLsbD_mask.mpr ⟨hc, hl⟩] at hm
  cases hm

theorem Active.silent (h : Active l w) : Silent b start w := by
  obtain ⟨hl, hv, hx⟩ := h
  have lent {pin channel : Nat} (hc : channel < 32) (hm : channel = l.scl ∨ channel = l.sda)
      (hp : w.pins pin = lentPin b (start.pins b.pmicScl) channel) :
      w.drivenHigh b pin = false := by
    refine drivenHigh_of_low (by rw [hp]) (by rw [hp]; rfl) (by rw [hp]; rfl) ?_ ?_
    · exact and_signalMask_lentPin hc hm hv
    · exact and_signalMask_lentPin hc hm hx
  rintro pin (rfl | rfl) hd
  case inl =>
    obtain hp | hp := hl.scl
    case inl =>
      rw [drivenHigh_of_signalMask (hp ▸ l.signalMask_scl)] at hd
      cases hd
    case inr =>
      rw [lent l.scl_lt (.inl rfl) hp] at hd
      cases hd
  case inr =>
    obtain hp | hp := hl.sda
    case inl =>
      rw [drivenHigh_of_signalMask (hp ▸ l.signalMask_sda)] at hd
      cases hd
    case inr =>
      rw [lent l.sda_lt (.inr rfl) hp] at hd
      cases hd

end Silent

end Power
