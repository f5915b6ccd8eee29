import HackyLens.Storage.Settings
import HackyLens.Storage.Theorems.Flash

namespace Settings

open Prog LittleEndian BootFlash InternalFlash

section Record

variable {sequence : UInt32} {payload : Payload}

@[simp]
theorem Payload.bytes_length : payload.bytes.length = 106 := by
  simp only [bytes, Core.wr16, List.length_append, Vector.length_toList, bytes16_length]
  rfl

theorem recordBytes_length : (recordBytes sequence payload).length = 120 := by
  simp [recordBytes, Core.wr16, Core.wr32]

@[simp]
theorem record_length : (record sequence payload).length = recordSize := by
  simp [record, recordBytes_length, Core.wr32, recordSize]

-- The fields of a record, in the order in which they are stored.
theorem record_eq : record sequence payload =
    bytes32 magic ++ (bytes16 storageVersion ++ (bytes16 106 ++ (bytes32 sequence ++
      (payload.bytes ++ ([0xFF, 0xFF] ++ bytes32 (settingsRecordCrc (recordBytes sequence payload))))))) := by
  simp [record, recordBytes, Core.wr16, Core.wr32]

theorem recordMagic_record : recordMagic (record sequence payload) = magic := by
  rw [record_eq]
  exact u32_bytes32 [] _ _

theorem recordVersion_record : recordVersion (record sequence payload) = storageVersion := by
  rw [record_eq, ← List.append_assoc]
  exact u16_bytes16 (bytes32 magic) _ _

theorem recordPayloadSize_record : recordPayloadSize (record sequence payload) = 106 := by
  rw [record_eq, ← List.append_assoc, ← List.append_assoc]
  exact u16_bytes16 (bytes32 magic ++ bytes16 storageVersion) _ _

theorem recordSequence_record : recordSequence (record sequence payload) = sequence := by
  rw [record_eq, ← List.append_assoc, ← List.append_assoc, ← List.append_assoc]
  exact u32_bytes32 (bytes32 magic ++ bytes16 storageVersion ++ bytes16 106) _ _

theorem recordCrc32_record :
    recordLayout.crc32 (record sequence payload) = settingsRecordCrc (recordBytes sequence payload) := by
  have h := u32_bytes32 (recordBytes sequence payload) (settingsRecordCrc (recordBytes sequence payload)) []
  rw [recordBytes_length, List.append_nil] at h
  exact h

-- The checksum is not part of what it is taken of.
theorem settingsRecordCrc_record :
    settingsRecordCrc (record sequence payload) = settingsRecordCrc (recordBytes sequence payload) := by
  have hf {offset size : Nat} (h : offset + size ≤ 120) :
      field (record sequence payload) offset size = field (recordBytes sequence payload) offset size := by
    have hl := @recordBytes_length sequence payload
    rw [field, field, record, List.drop_append_of_le_length (by omega),
      List.take_append_of_le_length (by simp; omega)]
  simp only [settingsRecordCrc, Layout.recordCrc]
  rw [hf (by decide), hf (by decide), hf (by decide), hf (by decide), hf (by decide)]

theorem settingsRecordValid_record : settingsRecordValid (record sequence payload) := by
  have hc := @settingsRecordCrc_record sequence payload
  simp only [settingsRecordCrc] at hc
  simp only [settingsRecordValid, Layout.recordValid, recordMagic_record, recordVersion_record,
    recordPayloadSize_record, recordCrc32_record, settingsRecordCrc, hc, beq_self_eq_true,
    Bool.and_true]
  rfl

theorem settingsSlotValid_record : settingsSlotValid (record sequence payload) := by
  rw [settingsSlotValid, if_pos recordVersion_record]
  exact settingsRecordValid_record

theorem at'_record (offset : Nat) : at' (record sequence payload) (12 + offset) =
    at' (payload.bytes ++ ([0xFF, 0xFF] ++ bytes32 (settingsRecordCrc (recordBytes sequence payload))))
      offset := by
  rw [record_eq, ← List.append_assoc, ← List.append_assoc, ← List.append_assoc]
  exact at'_append_right (bytes32 magic ++ bytes16 storageVersion ++ bytes16 106 ++ bytes32 sequence) _ _

theorem slotHead_record : slotHead (record sequence payload) = payload.head := by
  ext i hi
  rw [slotHead, Vector.getElem_ofFn, at'_record 0]
  simp [at', Payload.bytes, List.getElem?_append, hi]

theorem slotAppData_record : slotAppData (record sequence payload) appDataSize = payload.appData := by
  ext i hi
  rw [slotAppData, Vector.getElem_ofFn, if_pos hi, at'_record 16]
  have : ¬16 + i < 16 := by omega
  have : 16 + i < 16 + appDataSize := by omega
  simp [at', Payload.bytes, List.getElem?_append, *]

theorem settingsSlotPayload_record : settingsSlotPayload (record sequence payload) = payload := by
  rw [settingsSlotPayload, if_pos recordVersion_record, slotHead_record, slotAppData_record]
  have h := u16_bytes16 (payload.head.toList ++ payload.appData.toList) payload.autostartId
    ([0xFF, 0xFF] ++ bytes32 (settingsRecordCrc (recordBytes sequence payload)))
  have hl : (payload.head.toList ++ payload.appData.toList).length = 104 := by
    rw [List.length_append, Vector.length_toList, Vector.length_toList]
    rfl
  rw [hl] at h
  have ha : Core.rd16 (at' (record sequence payload) (12 + 104)) = payload.autostartId := by
    rw [at'_record]
    exact h
  rw [ha]

end Record

section Selection

variable {m m' : Memory} {p : Partition}

-- What is found in a slot.
def stored (m : Memory) (p : Partition) : List UInt8 :=
  m.read p.offset recordSize

def other : Partition → Partition
  | .settings0 => .settings1
  | .settings1 => .settings0

-- The slot of a partition.
def slot : Partition → UInt8
  | .settings0 => 0
  | .settings1 => 1

theorem slot_ne : slot p ≠ 0xFF := by
  cases p <;> decide

theorem slot_injective {q : Partition} (h : slot p = slot q) : p = q := by
  cases p <;> cases q <;> first | rfl | exact absurd h (by decide)

theorem other_ne : other p ≠ p := by
  cases p <;> decide

theorem flashSlotPartition_slot : flashSlotPartition (slot p) = p := by
  cases p <;> rfl

def selection (m : Memory) : UInt8 :=
  selectSlot (stored m .settings0) (stored m .settings1)

-- What is loaded when nothing fails.
def loaded (m : Memory) : Load :=
  if selection m ≠ 0xFF then
    ⟨true, settingsSlotPayload (stored m <| flashSlotPartition <| selection m)⟩
  else
    .zero

theorem loaded_of_selection (h : selection m = slot p) :
    loaded m = ⟨true, settingsSlotPayload (stored m p)⟩ := by
  rw [loaded, h, if_pos slot_ne, flashSlotPartition_slot]

theorem selection_congr (h : stored m' p = stored m p)
    (ho : stored m' (other p) = stored m (other p)) : selection m' = selection m := by
  cases p <;> simp only [other] at ho <;> simp only [selection, h, ho]

-- An invalid slot leaves the choice to the other one.
theorem selection_of_invalid (h : settingsSlotValid (stored m p) = false) :
    selection m = if settingsSlotValid (stored m (other p)) then slot (other p) else 0xFF := by
  cases p <;> simp only [selection, selectSlot, h, other, Bool.false_and, Bool.and_false,
    Bool.false_eq_true, if_false] <;> rfl

theorem selection_of_valid (h : settingsSlotValid (stored m p)) :
    selection m = slot p ∨
      selection m = slot (other p) ∧ settingsSlotValid (stored m (other p)) ∧
        settingsSlotSequence (stored m p) ≤ settingsSlotSequence (stored m (other p)) := by
  have hl {x y : UInt32} : ¬x < y → y ≤ x := UInt32.not_lt.mp
  cases p <;> simp only [selection, selectSlot, h, other, slot]
  case settings0 =>
    cases settingsSlotValid (stored m .settings1)
    case false => exact .inl rfl
    case true  =>
      by_cases hs : settingsSlotSequence (stored m .settings1) > settingsSlotSequence (stored m .settings0)
      · exact .inr ⟨if_pos hs, rfl, UInt32.le_of_lt hs⟩
      · exact .inl (if_neg hs)
  case settings1 =>
    cases settingsSlotValid (stored m .settings0)
    case false => exact .inl rfl
    case true  =>
      by_cases hs : settingsSlotSequence (stored m .settings1) > settingsSlotSequence (stored m .settings0)
      · exact .inl (if_pos hs)
      · exact .inr ⟨if_neg hs, rfl, hl hs⟩

-- A newer record is preferred.
theorem selection_of_lt (h : settingsSlotValid (stored m p))
    (hs : settingsSlotValid (stored m (other p)) →
      settingsSlotSequence (stored m (other p)) < settingsSlotSequence (stored m p)) :
    selection m = slot p := by
  rcases selection_of_valid h with he | ⟨_, ho, hle⟩
  · exact he
  · exact absurd (hs ho) (UInt32.not_lt.mpr hle)

theorem selection_cases (m : Memory) :
    selection m = 0xFF ∧ settingsSlotValid (stored m .settings1) = false ∨
      ∃ p, selection m = slot p ∧ settingsSlotValid (stored m p) := by
  cases hv : settingsSlotValid (stored m .settings1)
  case true =>
    rcases selection_of_valid hv with h | ⟨h, ho, _⟩
    · exact .inr ⟨_, h, hv⟩
    · exact .inr ⟨_, h, ho⟩
  case false =>
    rw [selection_of_invalid hv, other]
    split
    case isTrue h  => exact .inr ⟨_, rfl, h⟩
    case isFalse h => exact .inl ⟨rfl, rfl⟩

theorem selected_eq : (if selection m = 0 then stored m .settings0 else stored m .settings1) =
    stored m (flashSlotPartition <| selection m) := by
  unfold flashSlotPartition
  by_cases h : selection m = 0 <;> simp [h]

theorem other_other : other (other p) = p := by
  cases p <;> rfl

end Selection

-- The partition that the next record is written to.
def written (s : Ram) : Partition :=
  flashSlotPartition s.target

-- What the store knows of the slot that it is not going to write to.
inductive Backed (s : Ram) (m : Memory) : Prop
  | blank (slot_eq : s.storageSlot = 0xFF) (sequence_eq : s.sequence = 0)
    (invalid : settingsSlotValid (stored m .settings1) = false)
  | kept (p : Partition) (slot_eq : s.storageSlot = slot p) (valid : settingsSlotValid (stored m p))
    (sequence_eq : s.sequence = settingsSlotSequence (stored m p))

section

variable {s s' : Ram} {m m' : Memory} {p : Partition} {payload : Payload}

theorem written_of_blank (h : s.storageSlot = 0xFF) : written s = .settings0 := by
  simp [written, Ram.target, h, flashSlotPartition]

theorem written_of_slot (h : s.storageSlot = slot p) : written s = other p := by
  cases p <;> simp [written, Ram.target, h, flashSlotPartition, slot, other]

theorem target_eq : s.target = slot (written s) := by
  unfold written Ram.target
  split
  · rfl
  · split <;> rfl

theorem Backed.keep (h : Backed s m)
    (ho : stored m' (other <| written s) = stored m (other <| written s)) : Backed s m' := by
  cases h
  case blank hs hq hv =>
    rw [written_of_blank hs, other] at ho
    exact .blank hs hq (ho ▸ hv)
  case kept p hs hv hq =>
    rw [written_of_slot hs, other_other] at ho
    exact .kept p hs (ho ▸ hv) (ho ▸ hq)

-- A record that was stored is the one that is loaded, unless the sequence has come to its end.
theorem Backed.selection_record (h : Backed s m) (hq : s.sequence ≠ 0xFFFFFFFF)
    (ho : stored m' (other <| written s) = stored m (other <| written s))
    (hr : stored m' (written s) = record (s.sequence + 1) payload) :
    selection m' = slot (written s) := by
  refine selection_of_lt (by rw [hr]; exact settingsSlotValid_record) ?_
  rw [ho, hr]
  cases h
  case blank hs _ hv =>
    rw [written_of_blank hs, other, hv]
    exact nofun
  case kept p hs _ hp =>
    intro _
    rw [written_of_slot hs, other_other, ← hp, settingsSlotSequence, recordSequence_record]
    have hn : s.sequence.toNat ≠ 0xFFFFFFFF := fun h => hq <| UInt32.toNat_inj.mp h
    have := s.sequence.toNat_lt
    rw [UInt32.lt_iff_toNat_lt, UInt32.toNat_add]
    simp only [UInt32.reduceToNat]
    omega

theorem Backed.selection_wrapped (h : Backed s m) (hq : s.sequence = 0xFFFFFFFF)
    (ho : stored m' (other <| written s) = stored m (other <| written s))
    (hr : stored m' (written s) = record (s.sequence + 1) payload) :
    selection m' = slot (other <| written s) := by
  cases h
  case blank _ hz _ => exact absurd (hz.symm.trans hq) (by decide)
  case kept p hs hv hp =>
    rw [written_of_slot hs, other_other] at ho ⊢
    refine selection_of_lt (ho ▸ hv) fun _ => ?_
    rw [← written_of_slot hs, hr, ho, ← hp, settingsSlotSequence, recordSequence_record, hq]
    decide

end

-- What a save leaves in the slots: the new record, the old one, or one that is `bad`.
structure Left (bad : List UInt8 → Prop) (p : Partition) (record : List UInt8) (m m' : Memory) :
    Prop where
  other_eq : stored m' (other p) = stored m (other p)
  cases : stored m' p = stored m p ∨ bad (stored m' p) ∨ stored m' p = record

section Left

variable {bad : List UInt8 → Prop} {p : Partition} {record : List UInt8} {m m' : Memory}
variable {len : Nat} {f : Memory}

theorem Left.refl : Left bad p record m m :=
  ⟨rfl, .inl rfl⟩

theorem stored_overlay (hl : recordSize ≤ len) :
    stored (m.overlay p.offset len f) p = stored f p :=
  Memory.read_overlay (Nat.le_refl _) (Nat.add_le_add_left hl _)

theorem stored_overlay_other (hl : len ≤ p.size) :
    stored (m.overlay p.offset len f) (other p) = stored m (other p) := by
  refine Memory.read_overlay_disjoint ?_
  cases p <;> simp only [other, Partition.offset, Partition.size, recordSize] at hl ⊢ <;> omega

theorem Left.overlay (h : Left bad p record m m') (hl : recordSize ≤ len) (hs : len ≤ p.size)
    (hf : bad (stored f p) ∨ stored f p = record) :
    Left bad p record m (m'.overlay p.offset len f) where
  other_eq := (stored_overlay_other hs).trans h.other_eq
  cases    := by
    rw [stored_overlay hl]
    exact .inr hf

-- All that a write damages is `bad` when it is read as a record.
def Tears (bad : List UInt8 → Prop) (d : Decision) : Prop :=
  ∀ damage ∈ d.damage, ∀ p, bad (stored damage p)

theorem Left.hurt {write : Write} {m'' : Memory} (h : Left bad p record m m')
    (hw : Hurt (Tears bad) write m' m'') (ha : write.addr = p.offset) (hl : recordSize ≤ write.len)
    (hs : write.len ≤ p.size) : Left bad p record m m'' := by
  rcases hw with rfl | ⟨d, damage, hd, he, rfl⟩
  · exact h
  · rw [ha]
    exact h.overlay hl hs <| .inl <| hd damage he p

end Left

-- A save that has begun to write.
structure Underway (bad : List UInt8 → Prop) (s : Ram) (m : Memory) (payload : Option Payload)
    (m' : Memory) : Prop where
  storageOk : s.storageOk
  faultless : s.flash.faulted = false
  left : ∃ p ∈ payload, Left bad (written s) (record (s.sequence + 1) p) m m'

inductive Saved (bad : List UInt8 → Prop) (s : Ram) (m : Memory) (payload : Option Payload) :
    Bool → Ram → Memory → Prop
  | refused : Saved bad s m payload false s m
  | failed {info m'} (faulted : info.faulted) (underway : Underway bad s m payload m') :
    Saved bad s m payload false { s with flash := info } m'
  | saved {p m'} (storageOk : s.storageOk) (faultless : s.flash.faulted = false)
    (payload_eq : payload = some p)
    (other_eq : stored m' (other <| written s) = stored m (other <| written s))
    (stored_eq : stored m' (written s) = record (s.sequence + 1) p) :
    Saved bad s m payload true { s with sequence := s.sequence + 1, storageSlot := s.target } m'

section Save

variable {board : Board} {mhartid : Nat} {s : Ram} {device : Device} {payload : Option Payload}
variable {bad : List UInt8 → Prop}

-- The memory after an erase, and after a record was programmed.
def blank (m : Memory) (p : Partition) : Memory :=
  m.overlay p.offset eraseSize fun _ => 0xFF

def programmed (m : Memory) (p : Partition) (data : List UInt8) : Memory :=
  (blank m p).overlay p.offset data.length fun a => blank m p a &&& data.getD (a - p.offset) 0

section

variable {m : Memory} {p : Partition} {data : List UInt8}

theorem recordSize_le_eraseSize : recordSize ≤ eraseSize := by
  decide

theorem eraseSize_le_size : eraseSize ≤ p.size := by
  cases p <;> decide

theorem stored_blank_other : stored (blank m p) (other p) = stored m (other p) :=
  stored_overlay_other eraseSize_le_size

theorem stored_programmed (hl : data.length = recordSize) : stored (programmed m p data) p = data := by
  rw [programmed, stored_overlay hl.ge]
  refine Memory.read_eq hl fun i hi => ?_
  have hr := recordSize_le_eraseSize
  have hb : blank m p (p.offset + i) = 0xFF := if_pos ⟨by omega, by omega⟩
  rw [hb, Nat.add_sub_cancel_left, List.getD_eq_getElem?_getD, List.getElem?_eq_getElem hi]
  exact UInt8.neg_one_and

theorem stored_programmed_other (hl : data.length = recordSize) :
    stored (programmed m p data) (other p) = stored m (other p) := by
  have hs := recordSize_le_eraseSize.trans (@eraseSize_le_size p)
  exact (stored_overlay_other (hl.le.trans hs)).trans stored_blank_other

end

theorem save_spec (hb : bad (List.replicate recordSize 0xFF)) :
    wp (env (Tears bad) fun device' => Underway bad s device.memory payload device'.memory)
      (settingsStoreSave board mhartid payload)
      (fun ok s' device' => Saved bad s device.memory payload ok s' device'.memory) s device := by
  simp only [settingsStoreSave, wp_bind, wp_get]
  split
  case h_2 => exact .refused
  case h_1 p ho =>
  simp only [flash, wp_bind, wp_zoom]
  have under {m'} (hr : Ready board mhartid s.flash)
      (hl : Left bad (written s) (record (s.sequence + 1) p) device.memory m') :
      Underway bad s device.memory (some p) m' :=
    ⟨ho, hr.faultless, p, rfl, hl⟩
  have erasing {m'} (h : Hurt (Tears bad) (.erase (written s).offset) device.memory m') :
      Left bad (written s) (record (s.sequence + 1) p) device.memory m' :=
    Left.refl.hurt h rfl recordSize_le_eraseSize eraseSize_le_size
  refine wp_erase (fun hr m' _ hm => under hr <| erasing hm) (fun hr => ?_) (fun _ => ?_)
    (fun hr m' _ hm => ?_)
  case refine_2 => exact .refused
  case refine_3 => exact .failed rfl <| under hr <| erasing hm
  have erased : Left bad (written s) (record (s.sequence + 1) p) device.memory
      (blank device.memory (written s)) :=
    Left.refl.overlay recordSize_le_eraseSize eraseSize_le_size (.inl hb)
  simp only [Bool.not_true, Bool.false_eq_true, if_false, wp_ite, wp_bind, wp_zoom]
  have programming {m m'} (h : Hurt (Tears bad) (.program m (written s).offset (record (s.sequence + 1) p))
      (blank device.memory (written s)) m') :
      Left bad (written s) (record (s.sequence + 1) p) device.memory m' := by
    refine erased.hurt h rfl record_length.ge ?_
    exact record_length.le.trans <| recordSize_le_eraseSize.trans eraseSize_le_size
  refine wp_program (by simp; decide) (by simp; decide) (fun hr m' _ hm => under hr <| programming hm)
    (fun hr => ?_) (fun hn => absurd hr hn) (fun hr m' _ hm => ?_)
  case refine_2 => exact .failed rfl <| under hr <| programming hm
  have stored_eq := @stored_programmed device.memory (written s) _ (@record_length (s.sequence + 1) p)
  have other_eq :=
    @stored_programmed_other device.memory (written s) _ (@record_length (s.sequence + 1) p)
  simp only [Bool.not_true, Bool.false_eq_true, if_false]
  refine wp_read ?_ (by decide) (by decide) (fun hr => under hr ⟨other_eq, .inr <| .inr stored_eq⟩)
    (fun hr => ?_) (fun hn => absurd hr hn) (fun hr => ?_)
  · generalize flashSlotPartition s.target = q
    cases q <;> decide
  · have hc := @settingsRecordValid_record (s.sequence + 1) p
    have hq := @recordSequence_record (s.sequence + 1) p
    rw [← stored_eq] at hc hq
    simp only [wp_ite]
    split
    case isTrue    => exact .saved ho hr.faultless rfl other_eq stored_eq
    case isFalse h => exact absurd (Bool.and_eq_true_iff.mpr ⟨hc, beq_iff_eq.mpr hq⟩) h
  · exact .failed rfl <| under hr ⟨other_eq, .inr <| .inr stored_eq⟩

end Save

-- The store knows what would be loaded.
structure Synced (s : Ram) (m : Memory) : Prop where
  slot_eq : s.storageSlot = selection m
  backed : Backed s m

theorem Synced.sequence_eq {s : Ram} {m : Memory} {p : Partition} (h : Synced s m)
    (hs : selection m = slot p) : s.sequence = settingsSlotSequence (stored m p) := by
  cases h.backed
  case blank he _ _    => exact absurd (hs.symm.trans <| h.slot_eq.symm.trans he) slot_ne
  case kept q he _ hq  =>
    cases slot_injective <| hs.symm.trans <| h.slot_eq.symm.trans he
    exact hq

theorem init_spec {board : Board} {mhartid : Nat} {s : Ram} {device : Device}
    {admits : Decision → Prop} :
    wp (env admits fun device' => device'.memory = device.memory) (settingsStoreInit board mhartid)
      (fun load s' device' => device'.memory = device.memory ∧
        (s'.storageOk → Synced s' device.memory ∧ load = loaded device.memory)) s device := by
  simp only [settingsStoreInit, flash, wp_bind, wp_modify, wp_zoom]
  refine wp_init rfl fun ok info busy => ?_
  simp only [wp_bind, wp_zoom, wp_ite]
  split
  · exact ⟨rfl, nofun⟩
  refine wp_read (by decide) (by decide) (by decide) (fun _ => rfl) (fun _ => ?_) (fun _ => ?_) (fun _ => ?_)
  case refine_2 => exact ⟨rfl, nofun⟩
  case refine_3 => exact ⟨rfl, nofun⟩
  simp only [wp_bind, wp_zoom]
  refine wp_read (by decide) (by decide) (by decide) (fun _ => rfl) (fun _ => ?_) (fun _ => ?_) (fun _ => ?_)
  case refine_2 => exact ⟨rfl, nofun⟩
  case refine_3 => exact ⟨rfl, nofun⟩
  simp only [loadSelected, wp_bind, wp_modify, wp_ite]
  have he := @selected_eq device.memory
  rcases selection_cases device.memory with ⟨hs, hv⟩ | ⟨p, hs, hv⟩
  case inl =>
    have hl : loaded device.memory = .zero := if_neg fun h => h hs
    split
    case isTrue h => exact absurd hs h
    case isFalse  => exact ⟨rfl, fun _ => ⟨⟨hs.symm, .blank rfl rfl hv⟩, hl.symm⟩⟩
  case inr =>
    have hn : selection device.memory ≠ 0xFF := hs ▸ slot_ne
    rw [hs, flashSlotPartition_slot, ← hs] at he
    split
    case isFalse h => exact absurd hn h
    case isTrue    =>
      refine ⟨rfl, fun _ => ⟨⟨rfl, .kept p hs hv ?_⟩, ?_⟩⟩
      · exact congrArg settingsSlotSequence he
      · rw [loaded_of_selection hs]
        exact congrArg (Load.mk true <| settingsSlotPayload ·) he

end Settings
