import HackyLens.Flash.Theorems.Boot
import HackyLens.Lib.Run

-- The calls to the internal flash write inside of the partitions that can be written at run time.

namespace Flash

open Prog

namespace Layout

variable {layout : Layout} {p : Partition}

theorem end_le_maxCapacity (h : p ∈ layout.partitions) :
    p.offset.toNat + p.size.toNat ≤ layout.maxCapacity.toNat := by
  have h₁ := layout.firmware_settings0
  have h₂ := layout.settings0_settings1
  have h₃ := layout.settings1_legacyReserved
  have h₄ := layout.legacyReserved_userfs
  have h₅ := layout.userfs_maxCapacity
  simp only [partitions, List.mem_cons, List.not_mem_nil, or_false] at h
  rcases h with rfl | rfl | rfl | rfl | rfl <;> omega

end Layout

namespace Internal

open Boot (Bus Call Decision Sound Ready Kept Settled Within env cleared)

inductive Op
  | init (hz : UInt32)
  | read (id offset : UInt32) (null : Bool) (len : UInt64)
  | erase (id offset : UInt32) (len : UInt64)
  | program (id offset : UInt32) (data : Option Memory) (len : UInt64)

namespace Op

-- Core 0 makes all calls.
def run (layout : Layout) : Op → Driver Result
  | init hz                    => Internal.init layout 0 hz
  | read id offset null len    => Prod.fst <$> Internal.read layout 0 id offset len null
  | erase id offset len        => Internal.erase layout 0 id offset len
  | program id offset data len => Internal.program layout 0 id offset len data

-- The addresses of a range of a partition that can be written at run time.
def Reaches (layout : Layout) (capacity : UInt32) : Op → Nat → Prop
  | erase id offset len, a | program id offset _ len, a =>
    ∃ p, partition layout id = some p ∧ p.runtimeWritable ∧
      offset.toNat + len.toNat ≤ p.size.toNat ∧
      p.offset.toNat + offset.toNat ≤ a ∧ a < p.offset.toNat + offset.toNat + len.toNat ∧
      a < capacity.toNat
  | _, _ => False

-- What is promised of the memory when the call returns `ok`.
def Done (layout : Layout) : Op → Memory → Memory → Prop
  | erase id offset len, m, m' =>
    ∃ p, partition layout id = some p ∧
      m' = m.overlay (p.offset.toNat + offset.toNat) len.toNat fun _ => 0xFF
  | program id offset data len, m, m' =>
    ∃ p, partition layout id = some p ∧
      m' = cleared m (p.offset.toNat + offset.toNat) len.toNat (data.getD fun _ => 0)
  | _, m, m' => m' = m

end Op

variable {layout : Layout} {P : Nat → Prop} {base : Memory} {globals : Globals} {bus : Bus}
variable {mhartid : Nat} {id offset : UInt32} {len : UInt64} {partition : Partition}

-- What the checks establish, in the coordinates of the partition and in those of the device.
structure Valid (layout : Layout) (id offset : UInt32) (len : UInt64) (requireWritable : Bool)
    (partition : Partition) : Prop where
  selected : Internal.partition layout id = some partition
  range : offset.toNat + len.toNat ≤ partition.size.toNat
  writable : requireWritable → partition.runtimeWritable

namespace Valid

variable {requireWritable : Bool}

theorem mem (h : Valid layout id offset len requireWritable partition) :
    partition ∈ layout.partitions :=
  List.mem_of_getElem? h.selected

theorem addr_toNat (offset' : UInt32) (h : Valid layout id offset len requireWritable partition)
    (ho : offset'.toNat ≤ offset.toNat + len.toNat) :
    (partition.offset + offset').toNat = partition.offset.toNat + offset'.toNat := by
  have he := layout.end_le_maxCapacity h.mem
  have ha := layout.addressable
  have hr := h.range
  rw [UInt32.toNat_add, Nat.mod_eq_of_lt (by omega)]

end Valid

theorem rangeValid_iff {size : UInt32} :
    rangeValid size offset len ↔ offset.toNat + len.toNat ≤ size.toNat := by
  rw [rangeValid, Bool.and_eq_true, decide_eq_true_iff, decide_eq_true_iff]
  constructor
  · rintro ⟨ho, hl⟩
    rw [UInt64.le_iff_toNat_le, UInt32.toNat_toUInt64, UInt32.toNat_sub_of_le _ _ ho] at hl
    have ho := UInt32.le_iff_toNat_le.mp ho
    omega
  · intro h
    have ho : offset ≤ size := UInt32.le_iff_toNat_le.mpr (by omega)
    refine ⟨ho, ?_⟩
    rw [UInt64.le_iff_toNat_le, UInt32.toNat_toUInt64, UInt32.toNat_sub_of_le _ _ ho]
    omega

theorem wp_validate {requireWritable : Bool} {Q : Except Result Partition → Globals → Bus → Prop}
    (hq : ∀ p, Valid layout id offset len requireWritable p → globals.boot.initialized →
      globals.boot.faulted = false → Q (.ok p) { globals with internal := globals.boot } bus)
    (hn : ∀ r, r ≠ .ok → Q (.error r) { globals with internal := globals.boot } bus) :
    wp (env P base) (validate layout id offset len requireWritable) Q globals bus := by
  rw [validate, refreshInfo, wp_bind, wp_modify]
  beta_reduce
  rw [wp_bind, wp_get]
  beta_reduce
  rw [wp_ite]
  split
  case isTrue => exact hn _ nofun
  case isFalse hi =>
  rw [wp_ite]
  split
  case isTrue => exact hn _ nofun
  case isFalse hf =>
  split
  case h_2 => exact hn _ nofun
  case h_1 selected hp =>
  simp only [wp_ite, wp_pure]
  split
  case isTrue => exact hn _ nofun
  case isFalse =>
  split
  case isTrue => exact hn _ nofun
  case isFalse hr =>
  split
  case isTrue => exact hn _ nofun
  case isFalse hw =>
  refine hq selected ⟨hp, ?_, ?_⟩ (by simpa using hi) (by simpa using hf)
  · exact rangeValid_iff.mp (by simpa using hr)
  · intro h
    simpa [h] using hw

-- Between the calls.
structure AtRest (layout : Layout) (globals : Globals) (bus : Bus) : Prop where
  heeded : Boot.Heeded bus.record
  ready : Ready globals.boot bus
  capacity : globals.boot.capacity ≤ layout.maxCapacity

namespace AtRest

theorem of_settled (h : Settled layout P base globals.boot bus) : AtRest layout globals bus :=
  ⟨h.kept.heeded, h.ready, h.capacity⟩

theorem settled (h : AtRest layout globals bus) :
    Settled layout P bus.chip.memory globals.boot bus :=
  ⟨⟨fun _ _ => rfl, h.heeded⟩, h.ready, h.capacity⟩

theorem capacity_le (h : AtRest layout globals bus) : globals.boot.capacity.toNat ≤ 2 ^ 24 :=
  (UInt32.le_iff_toNat_le.mp h.capacity).trans layout.addressable

end AtRest

-- What a call leaves of a flash that was at rest.
def Left (layout : Layout) (op : Op) (globals : Globals) (bus : Bus) (r : Result)
    (globals' : Globals) (bus' : Bus) : Prop :=
  Settled layout (op.Reaches layout globals.boot.capacity) bus.chip.memory globals'.boot bus' ∧
    (r = .ok → op.Done layout bus.chip.memory bus'.chip.memory)

def Keeps (layout : Layout) (op : Op) (globals : Globals) (bus : Bus) : Prop :=
  wp (env (op.Reaches layout globals.boot.capacity) bus.chip.memory) (op.run layout)
    (Left layout op globals bus) globals bus

theorem fromBoot_ok {r : Boot.Result} : fromBoot r = .ok ↔ r = .ok := by
  cases r <;> simp [fromBoot]

theorem init_keeps {hz : UInt32} (h : AtRest layout globals bus) :
    Keeps layout (.init hz) globals bus := by
  rw [Keeps, Op.run, init, boot, wp_bind, wp_zoom]
  refine wp_mono (Boot.wp_init h.settled) fun r info bus h => ?_
  refine ⟨h, fun _ => ?_⟩
  funext a
  exact h.kept.within a id

theorem read_keeps {null : Bool} (h : AtRest layout globals bus) :
    Keeps layout (.read id offset null len) globals bus := by
  rw [Keeps, Op.run, wp_map, read, wp_bind]
  refine wp_validate (fun p _ _ _ => ?_) fun r _ => ?_
  case refine_2 => exact ⟨h.settled, fun _ => rfl⟩
  case refine_1 =>
  rw [wp_ite]
  split
  case isTrue => exact ⟨h.settled, fun _ => rfl⟩
  case isFalse =>
  rw [boot, wp_bind, wp_zoom]
  refine wp_mono (Boot.wp_read h.settled) fun r info bus h => ?_
  refine ⟨h, fun _ => ?_⟩
  funext a
  exact h.kept.within a not_false

theorem program_keeps {data : Option Memory} (h : AtRest layout globals bus) :
    Keeps layout (.program id offset data len) globals bus := by
  rw [Keeps, Op.run, program, wp_bind]
  refine wp_validate (fun p hv _ _ => ?_) fun r hr => ?_
  case refine_2 => exact ⟨h.settled, fun he => absurd he hr⟩
  case refine_1 =>
  rw [wp_ite]
  split
  case isTrue => exact ⟨h.settled, nofun⟩
  case isFalse =>
  have ha := hv.addr_toNat offset (Nat.le_add_right ..)
  rw [boot, wp_bind, wp_zoom]
  refine Boot.wp_program h.capacity_le (fun a hl hr => ?_) h.settled.kept h.ready ?_ ?_ ?_
  · exact ⟨p, hv.selected, hv.writable rfl, hv.range, by omega, by omega, hl⟩
  · intro chip record hs hb hl hm
    have hl : (p.offset + offset).toNat + len.toNat ≤ globals.boot.capacity.toNat := hl
    refine ⟨⟨⟨?_, hs.heeded⟩, ⟨fun _ _ => hs, fun _ _ => hb⟩, h.capacity⟩, fun _ => ?_⟩
    · intro a ha
      refine (congrFun hm a).trans <| Memory.overlay_apply_of_not_mem fun hr => ha ?_
      exact ⟨p, hv.selected, hv.writable rfl, hv.range, by omega, by omega, by omega⟩
    · exact ⟨p, hv.selected, hm.trans (by rw [ha])⟩
  · intro r hr
    exact ⟨h.settled, fun he => absurd (fromBoot_ok.mp he) hr⟩
  · intro r bus hr hk
    exact ⟨h.settled.faulted hk, fun he => absurd (fromBoot_ok.mp he) hr⟩

-- The first `done` bytes are erased, and the loop goes on with the others.
structure Erasing (globals : Globals) (bus : Bus) (p : Partition) (offset : UInt32) (len : UInt64)
    (done : Nat) (offset' : UInt32) (len' : UInt64) (globals' : Globals) (bus' : Bus) : Prop where
  globals_eq : globals' = { globals with internal := globals.boot }
  sound : Sound bus'.record
  idle : bus'.chip.busy = false
  sectors : len'.toNat % Nor.sectorSize = 0
  offset_eq : offset'.toNat = offset.toNat + done
  len_eq : len.toNat = done + len'.toNat
  capacity : 0 < done → p.offset.toNat + offset'.toNat ≤ globals.boot.capacity.toNat
  memory_eq : bus'.chip.memory =
    bus.chip.memory.overlay (p.offset.toNat + offset.toNat) done fun _ => 0xFF

-- The sectors are erased from the first one on, and the ones before the next are done.
theorem erase_keeps (h : AtRest layout globals bus) :
    Keeps layout (.erase id offset len) globals bus := by
  rw [Keeps, Op.run, erase, wp_bind]
  refine wp_validate (fun p hv hi hf => ?_) fun r hr => ?_
  case refine_2 => exact ⟨h.settled, fun he => absurd he hr⟩
  case refine_1 =>
  rw [wp_ite]
  split
  case isTrue => exact ⟨h.settled, nofun⟩
  case isFalse hl =>
  have ha := hv.addr_toNat offset (Nat.le_add_right ..)
  have hl : len.toNat % Nor.sectorSize = 0 := by
    have hl := congrArg UInt64.toNat (not_not.mp (not_or.mp hl).right)
    simpa [eraseSize, Nor.sectorSize] using hl
  let Inv (n : Nat) (b : UInt32 × UInt64) (globals' : Globals) (bus' : Bus) : Prop :=
    n = b.snd.toNat ∧ ∃ done, Erasing globals bus p offset len done b.fst b.snd globals' bus'
  refine wp_loop_of_lt (n := len.toNat) Inv ?_ (Nat.lt_succ_self _) ?_
  case refine_2 =>
    have hm : bus.chip.memory =
        bus.chip.memory.overlay (p.offset.toNat + offset.toNat) 0 fun _ => 0xFF := by
      funext a
      exact (Memory.overlay_apply_of_not_mem (by omega)).symm
    exact ⟨rfl, 0, rfl, h.ready.sound hi hf, h.ready.idle hi hf, hl, rfl, (Nat.zero_add _).symm,
      fun h => absurd h (Nat.lt_irrefl 0), hm⟩
  rintro n ⟨offset', len'⟩ _ ⟨chip, record⟩ ⟨rfl, done, he⟩
  simp only at he ⊢
  obtain ⟨rfl, hs, hb, hl', ho, hd, hc, hm⟩ := he
  have ha' := hv.addr_toNat offset' (by omega)
  have reaches {a : Nat} (hl : a < globals.boot.capacity.toNat)
      (ha : p.offset.toNat + offset.toNat ≤ a ∧ a < p.offset.toNat + offset.toNat + len.toNat) :
      (Op.erase id offset len).Reaches layout globals.boot.capacity a :=
    ⟨p, hv.selected, hv.writable rfl, hv.range, ha.left, ha.right, hl⟩
  have hk : Kept ((Op.erase id offset len).Reaches layout globals.boot.capacity) bus.chip.memory
      ⟨chip, record⟩ := by
    refine ⟨fun a hn => ?_, hs.heeded⟩
    refine (congrFun hm a).trans <| Memory.overlay_apply_of_not_mem fun hr => hn ?_
    have hc := hc (by omega)
    exact reaches (by omega) (by omega)
  rw [eraseSector, wp_ite]
  split
  case isTrue hz =>
    subst hz
    obtain rfl : done = len.toNat := by simpa using hd.symm
    exact ⟨⟨hk, ⟨fun _ _ => hs, fun _ _ => hb⟩, h.capacity⟩, fun _ => ⟨p, hv.selected, hm⟩⟩
  case isFalse hz =>
  have hp : 0 < Nor.sectorSize := by decide
  have hz : Nor.sectorSize ≤ len'.toNat := by
    refine Nat.le_of_dvd (Nat.pos_of_ne_zero fun he => hz (UInt64.toNat_inj.mp he)) ?_
    exact Nat.dvd_of_mod_eq_zero hl'
  rw [boot, wp_bind, wp_zoom]
  refine Boot.wp_sectorErase h.capacity_le (fun a hl hr => ?_) hk ⟨fun _ _ => hs, fun _ _ => hb⟩ ?_ ?_ ?_
  · exact reaches hl (by omega)
  · intro record hs hl
    have hl : (p.offset + offset').toNat + Nor.sectorSize ≤ globals.boot.capacity.toNat := hl
    have hr := hv.range
    have he := layout.end_le_maxCapacity hv.mem
    have hx := layout.addressable
    have hn : (offset' + eraseSize.toUInt32).toNat = offset'.toNat + Nor.sectorSize := by
      rw [UInt32.toNat_add, Nat.mod_eq_of_lt]
      · rfl
      · have hs : eraseSize.toUInt32.toNat = Nor.sectorSize := by decide
        omega
    have hn' : (len' - eraseSize).toNat = len'.toNat - Nor.sectorSize :=
      UInt64.toNat_sub_of_le _ _ (UInt64.le_iff_toNat_le.mpr hz)
    have ho' : (offset' + eraseSize.toUInt32).toNat = offset.toNat + (done + Nor.sectorSize) := by omega
    have hd' : len.toNat = done + Nor.sectorSize + (len' - eraseSize).toNat := by omega
    have hs' : (len' - eraseSize).toNat % Nor.sectorSize = 0 := by
      rw [hn', ← Nat.mod_eq_sub_mod hz]
      exact hl'
    have hc' : p.offset.toNat + (offset' + eraseSize.toUInt32).toNat ≤ globals.boot.capacity.toNat := by
      omega
    rw [if_neg (by decide)]
    refine ⟨(len' - eraseSize).toNat, by omega, rfl, done + Nor.sectorSize, rfl, hs, rfl, hs', ho', hd',
      fun _ => hc', ?_⟩
    rw [show chip.memory = _ from hm, ha', ho, ← Nat.add_assoc]
    exact Memory.overlay_append
  · intro r hr
    rw [if_pos hr]
    exact ⟨⟨hk, ⟨fun _ _ => hs, fun _ _ => hb⟩, h.capacity⟩, fun he => absurd (fromBoot_ok.mp he) hr⟩
  · intro r bus hr hk'
    rw [if_pos hr]
    exact ⟨h.settled.faulted hk', fun he => absurd (fromBoot_ok.mp he) hr⟩

theorem op_keeps {op : Op} (h : AtRest layout globals bus) : Keeps layout op globals bus := by
  cases op
  case init    => exact init_keeps h
  case read    => exact read_keeps h
  case erase   => exact erase_keeps h
  case program => exact program_keeps h

-- What there is to say of a call, also when it is cut short.
structure Meets (layout : Layout) (op : Op) (globals : Globals) (bus : Bus)
    (o : Outcome (Result × Globals) Bus) : Prop where
  inside : ∀ a, o.world.chip.memory a ≠ bus.chip.memory a →
    op.Reaches layout globals.boot.capacity a
  done : ∀ globals' bus', o = .done (.ok, globals') bus' →
    op.Done layout bus.chip.memory bus'.chip.memory
  heeded : Boot.Heeded o.world.record
  ends : ∀ bus', o ≠ .hung bus'

variable {op : Op} {ds : List Decision}

theorem run_op (op : Op) (ds : List Decision) (h : AtRest layout globals bus) :
    ((op.run layout).run Boot.handler globals ds bus).Meets
      (env (op.Reaches layout globals.boot.capacity) bus.chip.memory)
      (fun a => Left layout op globals bus a.fst a.snd) :=
  run_meets (E := env _ _) (Q := Left layout op globals bus) (fun _ _ => trivial) (op_keeps h)

theorem op_meets (h : AtRest layout globals bus) :
    Meets layout op globals bus ((op.run layout).run Boot.handler globals ds bus) := by
  have hm := run_op op ds h
  have inside {bus' : Bus} (hk : Kept (op.Reaches layout globals.boot.capacity) bus.chip.memory bus')
      (a : Nat) (ha : bus'.chip.memory a ≠ bus.chip.memory a) :
      op.Reaches layout globals.boot.capacity a :=
    not_not.mp fun hn => ha (hk.within a hn)
  cases ho : (op.run layout).run Boot.handler globals ds bus <;> rw [ho] at hm
  case hung => exact hm.elim
  case cut =>
    obtain ⟨_, hk⟩ := hm
    exact ⟨inside hk, nofun, hk.heeded, nofun⟩
  case done =>
    refine ⟨inside hm.left.kept, ?_, hm.left.kept.heeded, nofun⟩
    rintro _ _ ⟨rfl, rfl⟩
    exact hm.right rfl

variable {chip : Nor.Chip} {es : List (Op × Option Result)} {ok : Op → List Decision → Globals → Bus → Prop}

theorem run_atRest
    (r : Prog.Run Boot.handler (Op.run layout) (some .zero) ok .zero ⟨chip, []⟩ es globals bus) :
    AtRest layout globals bus := by
  have zero {bus : Bus} (hh : Boot.Heeded bus.record) : AtRest layout .zero bus :=
    .of_settled <| .uninitialized (P := fun _ => True)
      (show Kept _ bus.chip.memory bus from ⟨fun _ _ => rfl, hh⟩) rfl UInt32.zero_le
  refine r.invariant (fun _ globals bus => AtRest layout globals bus) (zero ?_) ?_
  case refine_1 => exact trivial
  intro es globals bus op ds _ h
  have hm := run_op op ds h
  cases ho : (op.run layout).run Boot.handler globals ds bus <;> rw [ho] at hm
  case hung => exact hm.elim
  case done => exact .of_settled hm.left
  case cut =>
    obtain ⟨_, hk⟩ := hm
    rintro _ ⟨⟩
    exact zero hk.heeded

-- However the calls that were made before have ended, and wherever the power was lost.
theorem writes_stay_inside
    (r : Prog.Run Boot.handler (Op.run layout) (some .zero) (fun _ _ _ _ => True) .zero
      ⟨chip, []⟩ es globals bus) :
    Meets layout op globals bus ((op.run layout).run Boot.handler globals ds bus) :=
  op_meets (run_atRest r)

-- An exchange that goes well, with a device of 16 MiB.
def passes : Decision :=
  ⟨true, 0, true, true, fun i => if i = 0 then 0xEF else 24, 0⟩

theorem writes_stay_inside_erase :
    ∃ es globals bus,
      Prog.Run Boot.handler (Op.run .huskylensSen0305) (some .zero) (fun _ _ _ _ => True) .zero
        ⟨⟨fun _ => 0, false, false⟩, []⟩ es globals bus ∧
      let o := ((Op.erase 1 0 0x1000).run .huskylensSen0305).run Boot.handler globals
        (.replicate 6 passes) bus
      o.result.map Prod.fst = some .ok ∧ o.world.chip.memory 0x007FE000 = 0xFF ∧
        Meets .huskylensSen0305 (.erase 1 0 0x1000) globals bus o := by
  obtain ⟨es, globals, bus, hr, ho, hm⟩ :
      ∃ es globals bus,
        Prog.Run Boot.handler (Op.run .huskylensSen0305) (some .zero) (fun _ _ _ _ => True) .zero
          ⟨⟨fun _ => 0, false, false⟩, []⟩ es globals bus ∧
        let o := ((Op.erase 1 0 0x1000).run .huskylensSen0305).run Boot.handler globals
          (.replicate 6 passes) bus
        o.result.map Prod.fst = some .ok ∧ o.world.chip.memory 0x007FE000 = 0xFF := exists_run
    (P := fun _ (globals : Globals) (bus : Bus) =>
      let o := ((Op.erase 1 0 0x1000).run .huskylensSen0305).run Boot.handler globals
        (.replicate 6 passes) bus
      o.result.map Prod.fst = some .ok ∧ o.world.chip.memory 0x007FE000 = 0xFF)
    [(.init 1, .replicate 3 passes)] ⟨_, rfl, by decide, by decide⟩
  exact ⟨es, globals, bus, hr, ho, hm, writes_stay_inside hr⟩

end Internal
end Flash
