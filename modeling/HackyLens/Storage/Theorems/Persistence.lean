import HackyLens.Lib.Run
import HackyLens.Storage.Theorems.Settings

-- What the store loads after any number of operations, and after a power loss.

namespace Settings

open Prog BootFlash InternalFlash

-- What an operation comes to when it is finished.
inductive Performed (bad : List UInt8 → Prop) (s : Ram) (m : Memory) :
    Nat × Op → Reply → Ram → Memory → Prop
  | init {mhartid load s'} (h : s'.storageOk → Synced s' m ∧ load = loaded m) :
    Performed bad s m (mhartid, .init) (.loaded load) s' m
  | save {mhartid payload ok s' m'} (h : Saved bad s m payload ok s' m') :
    Performed bad s m (mhartid, .save payload) (.saved ok) s' m'

-- What is left in the memory by an operation that has not finished.
def Begun (bad : List UInt8 → Prop) (s : Ram) (m m' : Memory) : Op → Prop
  | .init         => m' = m
  | .save payload => Underway bad s m payload m'

section Runs

variable {board : Board} {op : Nat × Op} {s s' : Ram} {device device₀ : Device}
variable {ds : List Decision} {reply : Reply} {es : List ((Nat × Op) × Option Reply)} {m m' : Memory}
variable {bad : List UInt8 → Prop}

theorem perform_spec (hb : bad (List.replicate recordSize 0xFF)) :
    wp (env (Tears bad) fun device' => Begun bad s device.memory device'.memory op.2)
      (Op.perform board op)
      (fun reply s' device' => Performed bad s device.memory op reply s' device'.memory) s device := by
  obtain ⟨mhartid, op⟩ := op
  cases op
  case init =>
    rw [Op.perform, wp_map]
    refine wp_mono init_spec fun load s' device' h => ?_
    rw [h.left]
    exact .init h.right
  case save payload =>
    rw [Op.perform, wp_map]
    exact wp_mono (save_spec hb) fun _ _ _ => .save

theorem performed {device' : Device}
    (hr : (Op.perform board op).run handler s ds device = .done (reply, s') device') :
    Performed (fun _ => True) s device.memory op reply s' device'.memory := by
  have hm := run_meets (fun d (_ : d ∈ ds) _ _ _ => trivial) <|
    @perform_spec board op s device (fun _ => True) trivial
  rw [show (env _ _).handler = handler from rfl, hr] at hm
  exact hm

theorem Backed.saved {payload : Payload} {slot : UInt8}
    (hr : stored m (written s) = record (s.sequence + 1) payload) (hs : slot = s.target) :
    Backed { s with sequence := s.sequence + 1, storageSlot := slot } m := by
  refine .kept (written s) (hs.trans target_eq) ?_ ?_
  · rw [hr]
    exact settingsSlotValid_record
  · rw [hr]
    exact recordSequence_record.symm

theorem Backed.of_eq (h : Backed s m) (hs : s'.storageSlot = s.storageSlot)
    (hq : s'.sequence = s.sequence) : Backed s' m := by
  cases h
  case blank he hz hv  => exact .blank (hs.trans he) (hq.trans hz) hv
  case kept p he hv hp => exact .kept p (hs.trans he) hv (hq.trans hp)

theorem Performed.backed (hp : Performed bad s m op reply s' m') (hb : s.storageOk → Backed s m)
    (ho : s'.storageOk) : Backed s' m' := by
  cases hp
  case init h => exact (h ho).left.backed
  case save h =>
    cases h
    case refused            => exact hb ho
    case failed hu          =>
      obtain ⟨_, _, hl⟩ := hu.left
      exact ((hb hu.storageOk).keep hl.other_eq).of_eq rfl rfl
    case saved _ _ _ hr     => exact .saved hr rfl

theorem Performed.loads {mhartid : Nat} {load : Load}
    (hp : Performed bad s m (mhartid, .init) (.loaded load) s' m') (ho : s'.storageOk) :
    Synced s' m ∧ load = loaded m := by
  cases hp
  case init h => exact h ho

-- A save for which the sequence has not come to its end keeps up with what would be loaded.
theorem Performed.synced (hp : Performed bad s m op reply s' m')
    (hq : ¬op.2.Wraps s)
    (hs : s.storageOk → s.flash.faulted = false → Synced s m) (ho : s'.storageOk)
    (hf : s'.flash.faulted = false) : Synced s' m' := by
  cases hp
  case init h => exact (h ho).left
  case save h =>
    cases h
    case refused                => exact hs ho hf
    case failed ht _            => exact absurd (ht.symm.trans hf) nofun
    case saved ho hf hp he hr   =>
      subst hp
      have hb := (hs ho hf).backed
      exact ⟨target_eq.trans (hb.selection_record hq he hr).symm, .saved hr rfl⟩

variable {ok : Nat × Op → List Decision → Ram → Device → Prop}

-- In all runs, the store knows of a record that it does not write to.
theorem backed_of_run
    (r : Run handler (Op.perform board) (some .zero) ok .zero device₀ es s device) :
    s.storageOk → Backed s device.memory := by
  refine r.invariant (fun _ s device => s.storageOk → Backed s device.memory) nofun ?_
  intro es s device op ds _ hi
  cases hr : (Op.perform board op).run handler s ds device
  case done => exact (performed hr).backed hi
  all_goals
    rintro _ ⟨⟩
    exact nofun

theorem synced_of_run
    (r : Run handler (Op.perform board) (some .zero) (fun op _ s _ => ¬op.2.Wraps s) .zero device₀ es
      s device) :
    s.storageOk → s.flash.faulted = false → Synced s device.memory := by
  refine r.invariant (fun _ s device =>
    s.storageOk → s.flash.faulted = false → Synced s device.memory) nofun ?_
  intro es s device op ds ho hi
  cases hr : (Op.perform board op).run handler s ds device
  case done => exact (performed hr).synced ho hi
  all_goals
    rintro _ ⟨⟩
    exact nofun

-- A `settings_store_init` can enable the storage, return `load` and leave `s`.
def Loads (board : Board) (device : Device) (load : Load) (s : Ram) : Prop :=
  s.storageOk ∧ ∃ mhartid s₀ ds,
    ((Op.perform board (mhartid, .init)).run handler s₀ ds device).result = some (.loaded load, s)

theorem Outcome.eq_of_result {α W : Type} {o : Outcome α W} {a : α} (h : o.result = some a) :
    ∃ w, o = .done a w := by
  cases o <;> cases h
  exact ⟨_, rfl⟩

theorem done_of_result {o : Outcome (Reply × Ram) Device} (h : o.result.map Prod.fst = some reply) :
    ∃ s device, o = .done (reply, s) device := by
  obtain ⟨⟨_, s⟩, hr, h⟩ := Option.map_eq_some_iff.mp h
  obtain ⟨device, hr⟩ := Outcome.eq_of_result hr
  exact ⟨s, device, h ▸ hr⟩

theorem Loads.of_result {load : Load}
    (h : ((Op.perform board (0, .init)).run handler .zero ds device).result.map
      (fun a => (a.1, a.2.storageOk)) = some (.loaded load, true)) : ∃ s, Loads board device load s := by
  obtain ⟨⟨_, s⟩, hr, h⟩ := Option.map_eq_some_iff.mp h
  obtain ⟨hl, ho⟩ := Prod.mk.inj h
  subst hl
  exact ⟨s, ho, 0, .zero, ds, hr⟩

theorem Loads.synced {load : Load} (h : Loads board device load s) :
    Synced s device.memory ∧ load = loaded device.memory := by
  obtain ⟨ho, mhartid, s₀, ds, hr⟩ := h
  obtain ⟨_, hr⟩ := Outcome.eq_of_result hr
  exact (performed hr).loads ho

theorem loadSelected_eq (slot0 slot1 : List UInt8) (s : Ram) :
    ∃ load s', s'.storageOk ∧ loadSelected slot0 slot1 s = .ret (load, s') := by
  unfold loadSelected
  by_cases h : selectSlot slot0 slot1 ≠ 0xFF
  case pos =>
    simp only [if_pos h]
    exact ⟨_, _, rfl, rfl⟩
  case neg =>
    simp only [if_neg h]
    exact ⟨_, _, rfl, rfl⟩

-- The storage is enabled when nothing fails.
theorem exists_loads (board : Board) (device : Device) : ∃ load s, Loads board device load s := by
  let s₁ : Ram := ⟨false, 0xFF, 0, ⟨0x01000000, true, false⟩⟩
  let select := loadSelected (stored device.memory .settings0) (stored device.memory .settings1)
  have hr : (Op.perform board (0, .init)).run handler .zero (.replicate 4 .passes) device =
      ((select s₁).bind fun x => .ret (Reply.loaded x.1, x.2)).run handler []
        { device with busy := none } := by
    cases board <;> rfl
  obtain ⟨load, s, ho, hs⟩ := loadSelected_eq (stored device.memory .settings0)
    (stored device.memory .settings1) s₁
  refine ⟨load, s, ho, 0, .zero, .replicate 4 .passes, ?_⟩
  simp only [hr, select, hs]
  rfl

-- After a successful save, the storage loads what was saved, unless the sequence of the record that
-- was written before it was the last one.
theorem saved_loads {mhartid : Nat} {payload : Option Payload} {device' : Device}
    (r : Run handler (Op.perform board) (some .zero) (fun _ _ _ _ => True) .zero device₀ es s device)
    (hs : (Op.perform board (mhartid, .save payload)).run handler s ds device =
      .done (.saved true, s') device') :
    (∀ load s'', Loads board device' load s'' → s''.storageSlot = s'.storageSlot ∧
      s''.sequence = s'.sequence ∧ load.hasPayload ∧ payload = some load.payload) ↔
    s.sequence ≠ 0xFFFFFFFF := by
  have hp := performed hs
  generalize hm : device'.memory = m' at hp
  cases hp
  case save hp =>
  cases hp
  case saved p ho _ hp he hr =>
  subst hp
  have hb := backed_of_run r ho
  constructor
  case mp =>
    intro hl hq
    obtain ⟨load, s'', h⟩ := exists_loads board device'
    have hc := h.synced.left.slot_eq.symm.trans (hl load s'' h).left
    rw [hm, hb.selection_wrapped hq he hr] at hc
    exact other_ne <| slot_injective <| hc.trans target_eq
  case mpr =>
    intro hq load s'' h
    obtain ⟨hs, hl⟩ := h.synced
    have hc := hb.selection_record hq he hr
    rw [hm] at hs hl
    rw [loaded_of_selection hc, hr, settingsSlotPayload_record] at hl
    refine ⟨hs.slot_eq.trans <| hc.trans target_eq.symm, ?_, hl ▸ rfl, hl ▸ rfl⟩
    rw [hs.sequence_eq hc, hr]
    exact recordSequence_record

-- A flash that is blank, and one that holds a record with the last sequence number.
def blankFlash : Device :=
  ⟨fun _ => 0xFF, none⟩

def lastFlash : Device :=
  ⟨fun a =>
    if a < Partition.settings0.offset then
      0xFF
    else
      (record 0xFFFFFFFF .zero).getD (a - Partition.settings0.offset) 0xFF, none⟩

def changed : Payload :=
  { Payload.zero with autostartId := 1 }

-- A save and an initialisation where nothing fails.
def saves (payload : Payload) (s : Ram) (device : Device) : Outcome (Reply × Ram) Device :=
  (Op.perform .huskylensSen0305 (0, .save payload)).run handler s (.replicate 7 .passes) device

def restarts (device : Device) : Outcome (Reply × Ram) Device :=
  (Op.perform .huskylensSen0305 (0, .init)).run handler .zero (.replicate 4 .passes) device

-- On a blank flash, the record that was saved is loaded.
theorem saved_loads_blank : ∃ s s' device device',
    saves changed s device = .done (.saved true, s') device' ∧
    ∀ load s'', Loads .huskylensSen0305 device' load s'' → s''.storageSlot = s'.storageSlot ∧
      s''.sequence = s'.sequence ∧ load.hasPayload ∧ some changed = some load.payload := by
  obtain ⟨_, s, device, r, hq, hs⟩ : ∃ es s device,
      Run handler (Op.perform .huskylensSen0305) (some .zero) (fun _ _ _ _ => True) .zero blankFlash es
        s device ∧ s.sequence = 0 ∧ (saves changed s device).result.map Prod.fst = some (.saved true) :=
    exists_run [((0, .init), .replicate 4 .passes)] (by decide +kernel)
  obtain ⟨s', device', hs⟩ := done_of_result hs
  exact ⟨s, s', device, device', hs, (saved_loads r hs).mpr <| hq ▸ by decide⟩

-- After the last sequence number, it is not.
theorem saved_not_loaded : ∃ es s s' device device',
    Run handler (Op.perform .huskylensSen0305) (some .zero) (fun _ _ _ _ => True) .zero lastFlash es
      s device ∧
    saves changed s device = .done (.saved true, s') device' ∧
    ∃ s'', Loads .huskylensSen0305 device' ⟨true, .zero⟩ s'' ∧ changed ≠ .zero := by
  obtain ⟨es, s, device, r, hs, hl⟩ : ∃ es s device,
      Run handler (Op.perform .huskylensSen0305) (some .zero) (fun _ _ _ _ => True) .zero lastFlash es
        s device ∧ (saves changed s device).result.map Prod.fst = some (.saved true) ∧
        (restarts (saves changed s device).world).result.map (fun a => (a.1, a.2.storageOk)) =
          some (.loaded ⟨true, .zero⟩, true) :=
    exists_run [((0, .init), .replicate 4 .passes)] (by decide +kernel)
  obtain ⟨s', device', hs⟩ := done_of_result hs
  obtain ⟨s'', hl⟩ := Loads.of_result hl
  exact ⟨es, s, s', device, device', r, hs, s'', by rwa [hs] at hl, by decide⟩

theorem loaded_congr {p : Partition} (h : stored m' p = stored m p)
    (ho : stored m' (other p) = stored m (other p)) : loaded m' = loaded m := by
  have hs : ∀ q, stored m' q = stored m q := by
    cases p <;> rintro (_ | _) <;> assumption
  rw [loaded, loaded, selection_congr h ho, hs]

-- The slot that is written to is not the one that is loaded.
theorem Synced.loaded_left {payload : Payload} (h : Synced s m)
    (hl : Left (settingsSlotValid · = false) (written s) (record (s.sequence + 1) payload) m m') :
    loaded m' = loaded m ∨ loaded m' = ⟨true, payload⟩ := by
  have loaded_other (hs : selection m' = slot (other <| written s))
      (hv : settingsSlotValid (stored m' <| other <| written s)) : loaded m' = loaded m := by
    cases h.backed
    case blank he _ hi  =>
      rw [hl.other_eq, written_of_blank he, other, hi] at hv
      contradiction
    case kept p he _ _  =>
      have ho := hl.other_eq
      rw [written_of_slot he, other_other] at hs ho
      rw [loaded_of_selection hs, loaded_of_selection (h.slot_eq.symm.trans he), ho]
  rcases hl.cases with he | hi | hr
  · exact .inl <| loaded_congr he hl.other_eq
  · have hs := selection_of_invalid hi
    refine .inl ?_
    split at hs
    case isTrue hv  => exact loaded_other hs hv
    case isFalse hv =>
      cases h.backed
      case blank he _ _   =>
        rw [loaded, loaded, hs, ← h.slot_eq, he]
        rfl
      case kept p he hp _ =>
        rw [hl.other_eq, written_of_slot he, other_other] at hv
        contradiction
  · have hv := @settingsSlotValid_record (s.sequence + 1) payload
    rw [← hr] at hv
    rcases selection_of_valid hv with hs | ⟨hs, ho, _⟩
    · rw [loaded_of_selection hs, hr, settingsSlotPayload_record]
      exact .inr rfl
    · exact .inl <| loaded_other hs ho

theorem loaded_hasPayload {p : Partition} (h : settingsSlotValid (stored m p)) :
    (loaded m).hasPayload := by
  rcases selection_of_valid h with hs | ⟨hs, _⟩ <;> rw [loaded_of_selection hs]

-- What is loaded after a save, wherever it was cut off.
theorem loaded_save {mhartid : Nat} {payload : Option Payload}
    (h : s.storageOk → s.flash.faulted = false → Synced s device.memory)
    (hd : ∀ d ∈ ds, Tears (settingsSlotValid · = false) d) :
    let m' := ((Op.perform board (mhartid, .save payload)).run handler s ds device).world.memory
    loaded m' = loaded device.memory ∨ ∃ p ∈ payload, loaded m' = ⟨true, p⟩ := by
  have underway {m'} (hu : Underway (settingsSlotValid · = false) s device.memory payload m') :
      loaded m' = loaded device.memory ∨ ∃ p ∈ payload, loaded m' = ⟨true, p⟩ := by
    obtain ⟨p, hp, hl⟩ := hu.left
    exact ((h hu.storageOk hu.faultless).loaded_left hl).imp_right fun h => ⟨p, hp, h⟩
  have hm := run_meets hd <| @perform_spec board (mhartid, .save payload) s device
    (settingsSlotValid · = false) (by decide)
  rw [show (env _ _).handler = handler from rfl] at hm
  revert hm
  cases (Op.perform board (mhartid, .save payload)).run handler s ds device
  case cut  => exact fun ⟨_, hu⟩ => underway hu
  case hung => exact underway
  case done a device' =>
    obtain ⟨reply, s'⟩ := a
    intro hp
    simp only [Outcome.Meets, Outcome.world] at hp ⊢
    generalize device'.memory = m' at hp
    cases hp
    case save hp =>
    cases hp
    case refused                   => exact .inl rfl
    case failed hu                 => exact underway hu
    case saved p ho hf hp he hr    => exact underway ⟨ho, hf, p, hp, he, .inr <| .inr hr⟩

-- Wherever a save is cut off, the next initialisation loads what it would have loaded before, or
-- what was to be saved. Where a slot was valid, it does not fall back to defaults. This holds as
-- long as no save comes after the last sequence number.
theorem save_survives {mhartid : Nat} {payload : Option Payload} {load₀ load : Load} {s₀ s' : Ram}
    (r : Run handler (Op.perform board) (some .zero) (fun op _ s _ => ¬op.2.Wraps s) .zero device₀ es
      s device)
    (hd : ∀ d ∈ ds, Tears (settingsSlotValid · = false) d) (hl₀ : Loads board device load₀ s₀)
    (hl : Loads board
      ((Op.perform board (mhartid, .save payload)).run handler s ds device).world load s') :
    (load = load₀ ∨ ∃ p ∈ payload, load = ⟨true, p⟩) ∧
      ∀ p, settingsSlotValid (stored device.memory p) → load.hasPayload := by
  have h := @loaded_save board _ _ _ mhartid payload (synced_of_run r) hd
  rw [hl.synced.right, hl₀.synced.right]
  refine ⟨h, fun p hv => ?_⟩
  rcases h with h | ⟨p, _, h⟩
  · rw [h]
    exact loaded_hasPayload hv
  · rw [h]

-- A save that loses the power right after the erase.
def cut : List Decision :=
  .replicate 3 .passes

theorem save_survives_blank : ∃ s device,
    ((Op.perform .huskylensSen0305 (0, .save <| some changed)).run handler s cut device).result = none ∧
    ∃ load₀ load s₀ s', Loads .huskylensSen0305 device load₀ s₀ ∧ Loads .huskylensSen0305
      ((Op.perform .huskylensSen0305 (0, .save <| some changed)).run handler s cut device).world load s' ∧
      (load = load₀ ∨ ∃ p ∈ some changed, load = ⟨true, p⟩) ∧
      ∀ p, settingsSlotValid (stored device.memory p) → load.hasPayload := by
  obtain ⟨_, s, device, r, hc⟩ : ∃ es s device,
      Run handler (Op.perform .huskylensSen0305) (some .zero) (fun op _ s _ => ¬op.2.Wraps s) .zero
        blankFlash es s device ∧ ((Op.perform .huskylensSen0305 (0, .save <| some changed)).run handler
        s cut device).result = none :=
    exists_run [((0, .init), .replicate 4 .passes), ((0, .save <| some .zero), .replicate 7 .passes)]
      (by decide +kernel)
  obtain ⟨load₀, s₀, hl₀⟩ := exists_loads .huskylensSen0305 device
  obtain ⟨load, s', hl⟩ := exists_loads .huskylensSen0305
    ((Op.perform .huskylensSen0305 (0, .save <| some changed)).run handler s cut device).world
  exact ⟨s, device, hc, load₀, load, s₀, s', hl₀, hl, save_survives r (by simp [cut, Decision.passes, Tears]) hl₀ hl⟩

-- When the save before it came after the last sequence number, the payload that is loaded is
-- neither the one that would have been loaded before nor the new one.
theorem save_reverts : ∃ es s device payload s₀ s',
    Run handler (Op.perform .huskylensSen0305) (some .zero) (fun _ _ _ _ => True) .zero lastFlash es
      s device ∧
    ((Op.perform .huskylensSen0305 (0, .save <| some payload)).run handler s cut device).result = none ∧
    Loads .huskylensSen0305 device ⟨true, .zero⟩ s₀ ∧
    Loads .huskylensSen0305 ((Op.perform .huskylensSen0305 (0, .save <| some payload)).run handler s cut
      device).world ⟨true, changed⟩ s' ∧ changed ≠ .zero ∧ changed ≠ payload :=
  let payload : Payload := { Payload.zero with autostartId := 2 }
  let cutSave (s : Ram) (device : Device) :=
    (Op.perform .huskylensSen0305 (0, .save <| some payload)).run handler s cut device
  have ⟨es, s, device, r, hc, hl₀, hl⟩ : ∃ es s device,
      Run handler (Op.perform .huskylensSen0305) (some .zero) (fun _ _ _ _ => True) .zero lastFlash es
        s device ∧ (cutSave s device).result = none ∧
        (restarts device).result.map (fun a => (a.1, a.2.storageOk)) =
          some (.loaded ⟨true, .zero⟩, true) ∧
        (restarts (cutSave s device).world).result.map (fun a => (a.1, a.2.storageOk)) =
          some (.loaded ⟨true, changed⟩, true) :=
    exists_run [((0, .init), .replicate 4 .passes), ((0, .save <| some changed), .replicate 7 .passes)]
      (by decide +kernel)
  have ⟨s₀, hl₀⟩ := Loads.of_result hl₀
  have ⟨s', hl⟩ := Loads.of_result hl
  ⟨es, s, device, payload, s₀, s', r, hc, hl₀, hl, by decide, by decide⟩

end Runs

end Settings
