import HackyLens.Storage.Flash

-- What the calls to the flash driver come to in the partitions of the settings.

namespace InternalFlash

open Prog BootFlash

variable {board : Board} {mhartid : Nat} {p : Partition} {info : BootFlash.Info} {device : Device}
variable {admits : Decision → Prop} {inv : Device → Prop} {offset len : Nat}

def env (admits : Decision → Prop) (inv : Device → Prop) :
    Env BootFlash.Call BootFlash.Call.Reply Device Decision where
  handler  := handler
  admits   := admits
  call _   := inv
  hung     := inv

-- The driver accepts requests.
structure Ready (board : Board) (mhartid : Nat) (info : BootFlash.Info) : Prop where
  core0 : onCore0 mhartid
  initialized : info.initialized
  faultless : info.faulted = false
  capacity : board.settingsRequiredCapacity ≤ info.capacity

theorem wp_validate {Q : Bool → BootFlash.Info → Device → Prop} (hr : rangeValid p.size offset len)
    (hy : info.initialized → info.faulted = false → board.settingsRequiredCapacity ≤ info.capacity →
      Q true info device)
    (hn : (∀ {mhartid}, ¬Ready board mhartid info) → Q false info device) :
    wp (env admits inv) (validate board p offset len) Q info device := by
  simp only [validate, wp_bind, wp_get, wp_pure, hr, Bool.and_true]
  by_cases h : info.initialized ∧ info.faulted = false ∧
      board.settingsRequiredCapacity ≤ info.capacity
  case pos =>
    obtain ⟨hi, hf, hc⟩ := h
    simpa [hi, hf, hc] using hy hi hf hc
  case neg =>
    have hq : Q false info device := hn fun hr => h ⟨hr.initialized, hr.faultless, hr.capacity⟩
    convert hq
    simpa [and_assoc] using h

theorem Partition.addr_le_capacity (board : Board) (p : Partition) :
    p.offset + p.size ≤ board.settingsRequiredCapacity := by
  cases board <;> cases p <;> decide

-- An exchange with the device.
theorem wp_command {c : Command} {Q : Bool → BootFlash.Info → Device → Prop} (hi : inv device)
    (hy : ∀ d, admits d → d.works → Q true info (device.execute d c))
    (hn : ∀ d, admits d → d.works = false → Q false { info with faulted := true } (device.execute d c)) :
    wp (env admits inv) (command c) Q info device := by
  simp only [command, markFault, wp_bind, wp_call]
  refine ⟨hi, fun d hd => ?_⟩
  by_cases hw : d.works
  case pos => simpa [env, handler, hw] using hy d hd hw
  case neg => simpa [env, handler, hw] using hn d hd (by simpa using hw)

-- What a write can have left, before it is finished.
def Hurt (admits : Decision → Prop) (write : Write) (m m' : Memory) : Prop :=
  m' = m ∨ ∃ d damage, admits d ∧ d.damage = some damage ∧ m' = m.overlay write.addr write.len damage

namespace Hurt

variable {write : Write} {m m' m'' : Memory} {d : Decision}

theorem of_device (hd : admits d) : Hurt admits write device.memory (device.hurt write d) := by
  unfold Device.hurt
  split
  case h_1 damage h => exact .inr ⟨d, damage, hd, h, rfl⟩
  case h_2          => exact .inl rfl

theorem overlay (h : Hurt admits write m m') (f : Memory) :
    m'.overlay write.addr write.len f = m.overlay write.addr write.len f := by
  rcases h with rfl | ⟨_, _, _, _, rfl⟩
  · rfl
  · exact Memory.overlay_overlay

theorem trans (h : Hurt admits write m m') (h' : Hurt admits write m' m'') :
    Hurt admits write m m'' := by
  rcases h' with rfl | ⟨d, damage, hd, he, rfl⟩
  · exact h
  · exact .inr ⟨d, damage, hd, he, h.overlay damage⟩

end Hurt

-- The initialisation writes nothing.
theorem wp_init {hz : Nat} {Q : Bool → BootFlash.Info → Device → Prop} (hi : inv device)
    (h : ∀ ok info busy, Q ok info ⟨device.memory, busy⟩) :
    wp (env admits inv) (init board mhartid hz) Q info device := by
  have hq ok info : Q ok info device := h ok info device.busy
  simp only [init, BootFlash.init, markFault, wp_ite, wp_pure, wp_bind, wp_set]
  split
  · exact hq _ _
  split
  · exact hq _ _
  rw [wp_call]
  refine ⟨hi, fun d _ => ?_⟩
  split
  case h_2 => exact hq _ _
  case h_1 =>
  simp only [wp_ite, wp_pure, wp_bind, wp_modify]
  split
  · exact hq _ _
  split
  · exact hq _ _
  refine wp_command hi (fun d _ _ => ?_) (fun d _ _ => ?_)
  · exact h _ _ _
  · exact h _ _ _

theorem execute_writeEnable {d : Decision} : device.execute d .writeEnable = device :=
  rfl

-- The instructions that make up a write.
theorem wp_write {c : Command} {write : Write} {Q : Bool → BootFlash.Info → Device → Prop}
    (hx : ∀ d, device.execute d c = device.begin write d)
    (hi : ∀ m busy, Hurt admits write device.memory m → inv ⟨m, busy⟩)
    (hy : Q true info ⟨device.memory.overlay write.addr write.len write.content, none⟩)
    (hf : ∀ m busy, Hurt admits write device.memory m → Q false { info with faulted := true } ⟨m, busy⟩) :
    wp (env admits inv) (do
      if !(← command .writeEnable) then
        return false
      if !(← command c) then
        return false
      command .finishWrite) Q info device := by
  rw [wp_bind]
  refine wp_command (hi _ _ <| .inl rfl) (fun _ _ _ => ?_) (fun _ _ _ => hf _ _ <| .inl rfl)
  rw [execute_writeEnable, wp_ite, if_neg (by decide), wp_bind]
  refine wp_command (hi _ _ <| .inl rfl) (fun d hd _ => ?_) (fun d hd _ => ?_)
  case refine_2 =>
    rw [wp_ite, if_pos (by decide), hx]
    exact hf _ _ (.of_device hd)
  rw [wp_ite, if_neg (by decide), hx]
  have hb : Hurt admits write device.memory (device.begin write d).memory := .of_device hd
  have ho := hb.overlay write.content
  refine wp_command (hi _ _ hb) (fun d' hd' hw => ?_) (fun d' hd' hw => ?_)
  · rw [← ho] at hy
    simpa [Device.execute, Device.finish, Device.begin, hw] using hy
  · simpa [Device.execute, Device.finish, Device.begin, hw] using hf _ none <| hb.trans (.of_device hd')

-- What is in range of the partition is in range of the device.
theorem wp_driverValidate {Q : Bool → BootFlash.Info → Device → Prop} (hr : rangeValid p.size offset len)
    (h : Ready board mhartid info) (hq : Q true info device) :
    wp (env admits inv) (BootFlash.validate (p.offset + offset) len) Q info device := by
  have ha := p.addr_le_capacity board
  have hc := h.capacity
  simp only [rangeValid, Bool.and_eq_true, decide_eq_true_eq] at hr
  have hb : p.offset + offset ≤ info.capacity := by omega
  have hl : len ≤ info.capacity - (p.offset + offset) := by omega
  simpa [BootFlash.validate, h.initialized, h.faultless, hb, hl] using hq

theorem wp_read {Q : Option (List UInt8) → BootFlash.Info → Device → Prop}
    (hr : rangeValid p.size offset len) (h₀ : 0 < len) (hl : len ≤ programSize) (hi : Ready board mhartid info → inv device)
    (hy : Ready board mhartid info → Q (some <| device.memory.read (p.offset + offset) len) info device)
    (hn : ¬Ready board mhartid info → Q none info device)
    (hf : Ready board mhartid info → Q none { info with faulted := true } device) :
    wp (env admits inv) (read board mhartid p offset len) Q info device := by
  rw [read, wp_bind]
  refine wp_validate hr (fun hin hfl hc => ?_) fun hq => hn hq
  rw [wp_ite, if_neg (by decide), BootFlash.read]
  by_cases hm : onCore0 mhartid
  case neg => simpa [hm] using hn fun hr => hm hr.core0
  have h : Ready board mhartid info := ⟨hm, hin, hfl, hc⟩
  rw [hm, wp_ite, if_neg (by decide), wp_bind]
  refine wp_driverValidate hr h ?_
  rw [wp_ite, if_neg (by decide)]
  obtain ⟨n, rfl⟩ := Nat.exists_eq_succ_of_ne_zero h₀.ne'
  have hc : min (n + 1) programSize = n + 1 := min_eq_left hl
  simp only [loop, readChunk, Nat.succ_eq_add_one, Nat.add_one_ne_zero, if_false, wp_bind, wp_call, hc]
  refine ⟨hi h, fun d _ => ?_⟩
  by_cases hw : d.works
  case pos => simpa [env, handler, hw, hc] using hy h
  case neg => simpa [env, handler, hw, markFault] using hf h

theorem wp_sectorErase {Q : Bool → BootFlash.Info → Device → Prop} (hr : rangeValid p.size offset eraseSize)
    (ha : (p.offset + offset) % eraseSize = 0)
    (hi : Ready board mhartid info → ∀ m busy, Hurt admits (.erase <| p.offset + offset) device.memory m → inv ⟨m, busy⟩)
    (hy : Ready board mhartid info →
      Q true info ⟨device.memory.overlay (p.offset + offset) eraseSize fun _ => 0xFF, none⟩)
    (hn : ¬Ready board mhartid info → Q false info device)
    (hf : Ready board mhartid info → ∀ m busy, Hurt admits (.erase <| p.offset + offset) device.memory m →
      Q false { info with faulted := true } ⟨m, busy⟩)
    (hin : info.initialized) (hfl : info.faulted = false)
    (hc : board.settingsRequiredCapacity ≤ info.capacity) :
    wp (env admits inv) (sectorErase mhartid (p.offset + offset)) Q info device := by
  rw [sectorErase]
  by_cases hm : onCore0 mhartid
  case neg => simpa [hm] using hn fun hr => hm hr.core0
  have h : Ready board mhartid info := ⟨hm, hin, hfl, hc⟩
  rw [hm, wp_ite, if_neg (by decide), wp_ite, if_neg (by simpa using ha), wp_bind]
  refine wp_driverValidate hr h ?_
  rw [wp_ite, if_neg (by decide)]
  exact wp_write (fun _ => rfl) (hi h) (hy h) (hf h)

-- The partition is erased as a whole.
theorem wp_erase {Q : Bool → BootFlash.Info → Device → Prop}
    (hi : Ready board mhartid info → ∀ m busy, Hurt admits (.erase p.offset) device.memory m → inv ⟨m, busy⟩)
    (hy : Ready board mhartid info →
      Q true info ⟨device.memory.overlay p.offset eraseSize fun _ => 0xFF, none⟩)
    (hn : ¬Ready board mhartid info → Q false info device)
    (hf : Ready board mhartid info → ∀ m busy, Hurt admits (.erase p.offset) device.memory m →
      Q false { info with faulted := true } ⟨m, busy⟩) :
    wp (env admits inv) (erase board mhartid p 0 eraseSize) Q info device := by
  have hr : rangeValid p.size 0 eraseSize := by cases p <;> decide
  have ha : p.offset % eraseSize = 0 := by cases p <;> decide
  rw [erase, wp_bind]
  refine wp_validate hr (fun hin hfl hc => ?_) fun hq => hn hq
  rw [wp_ite, if_neg (by decide), wp_ite, if_neg (by decide), loop, wp_bind, eraseSector]
  rw [wp_ite, if_neg (by decide), wp_bind]
  refine wp_sectorErase hr ha hi ?_ ?_ ?_ hin hfl hc
  · intro h
    have hd : loop (eraseSector mhartid p) eraseSize (eraseSize, 0) = pure true :=
      loop_pure (by decide) rfl
    suffices wp (env admits inv) (loop (eraseSector mhartid p) eraseSize (eraseSize, 0)) Q info _
      from this
    rw [hd]
    exact hy h
  · intro h
    simpa using hn h
  · intro h m busy hm
    simpa using hf h m busy hm

-- A record that does not cross the end of a page is programmed at once.
theorem wp_program {data : List UInt8} {Q : Bool → BootFlash.Info → Device → Prop} (h₀ : 0 < data.length)
    (hl : data.length ≤ programSize)
    (hi : Ready board mhartid info → ∀ m busy, Hurt admits (.program device.memory p.offset data) device.memory m → inv ⟨m, busy⟩)
    (hy : Ready board mhartid info → Q true info
      ⟨device.memory.overlay p.offset data.length fun a => device.memory a &&& data.getD (a - p.offset) 0, none⟩)
    (hn : ¬Ready board mhartid info → Q false info device)
    (hf : Ready board mhartid info → ∀ m busy,
      Hurt admits (.program device.memory p.offset data) device.memory m →
      Q false { info with faulted := true } ⟨m, busy⟩) :
    wp (env admits inv) (program board mhartid p 0 data) Q info device := by
  have hs : programSize ≤ p.size := by cases p <;> decide
  have hr : rangeValid p.size 0 data.length := by
    simp [rangeValid]
    omega
  have ha : p.offset % programSize = 0 := by cases p <;> decide
  rw [program, wp_bind]
  refine wp_validate hr (fun hin hfl hc => ?_) fun hq => hn hq
  rw [wp_ite, if_neg (by decide), BootFlash.program]
  by_cases hm : onCore0 mhartid
  case neg => simpa [hm] using hn fun hr => hm hr.core0
  have h : Ready board mhartid info := ⟨hm, hin, hfl, hc⟩
  rw [hm, wp_ite, if_neg (by decide), wp_bind]
  refine wp_driverValidate hr h ?_
  rw [wp_ite, if_neg (by decide), loop, wp_bind, programPage, wp_ite, if_neg h₀.ne', wp_bind]
  have hc : min (programSize - (p.offset + 0) % programSize) data.length = data.length := by
    rw [Nat.add_zero, ha]
    exact min_eq_right hl
  rw [hc, List.take_length, pageProgramUnlocked]
  refine wp_write (fun _ => rfl) (hi h) ?_ ?_
  · have hd : loop programPage data.length (p.offset + data.length, []) = pure true :=
      loop_pure h₀ rfl
    rw [List.drop_length]
    suffices wp (env admits inv) (loop programPage data.length (p.offset + data.length, [])) Q info _
      from this
    rw [hd]
    exact hy h
  · intro m busy hm
    simpa using hf h m busy hm

end InternalFlash
