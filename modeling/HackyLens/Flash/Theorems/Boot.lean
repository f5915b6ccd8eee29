import HackyLens.Flash.Driver

-- What the calls to the driver of the boot flash can do to the device.

namespace Flash.Boot

open Prog

variable {P : Nat → Prop} {base : Memory} {info : Info} {bus : Bus} {chip : Nor.Chip}
variable {record : List Call}

-- Only the addresses in `P` may be written to.
def Within (P : Nat → Prop) (base m : Memory) : Prop :=
  ∀ a, ¬P a → m a = base a

structure Kept (P : Nat → Prop) (base : Memory) (bus : Bus) : Prop where
  within : Within P base bus.chip.memory
  heeded : Heeded bus.record

structure Sound (record : List Call) : Prop where
  faultless : faulted record = false
  heeded : Heeded record

-- All loops end.
def env (P : Nat → Prop) (base : Memory) : Env Call Call.Reply Bus Decision where
  handler  := handler
  admits _ := True
  call _   := Kept P base
  hung _   := False

namespace Sound

theorem cons {c : Call} (h : Sound record) (hc : c ≠ .fault) : Sound (c :: record) := by
  refine ⟨?_, fun _ => h.faultless, h.heeded⟩
  cases c
  case fault           => exact absurd rfl hc
  case receive         => simp [faulted, h.faultless]
  case send   | timeUs => exact h.faultless

theorem init {n : Nat} (h : Heeded record) : Sound (.receive [Nor.readId] n :: record) :=
  ⟨by simp [faulted], by simp [Call.writes], h⟩

end Sound

theorem Heeded.fault (h : Heeded record) : Heeded (.fault :: record) :=
  ⟨by simp [Call.writes], h⟩

section Exchanges

variable {α : Type} {Q : α → Info → Bus → Prop}

theorem wp_markFault {r : Result} {Q : Result → Info → Bus → Prop} (hk : Kept P base bus)
    (hq : ∀ bus', Kept P base bus' → Q r { info with faulted := true } bus') :
    wp (env P base) (markFault r) Q info bus := by
  simp only [markFault, wp_bind, wp_modify, wp_call, wp_pure]
  exact ⟨hk, fun _ _ => hq _ ⟨hk.within, hk.heeded.fault⟩⟩

theorem wp_readStatusUnlocked {Q : Result × UInt8 → Info → Bus → Prop}
    (hm : Within P base chip.memory) (hs : Sound record)
    (hq : ∀ finished others record, Sound record →
      Q (.ok, (chip.settle finished).status others) info ⟨chip.settle finished, record⟩)
    (hf : ∀ bus, Kept P base bus → Q (.timeout, 0) { info with faulted := true } bus) :
    wp (env P base) readStatusUnlocked Q info ⟨chip, record⟩ := by
  rw [readStatusUnlocked, wp_bind, wp_call]
  refine ⟨⟨hm, hs.heeded⟩, fun d _ => ?_⟩
  have hs' : Sound (.receive [Nor.readStatus] 1 :: record) := hs.cons nofun
  cases hd : d.done
  case true =>
    simp only [env, handler, hd]
    exact hq d.finished (d.noise 0) _ hs'
  case false =>
    simp only [env, handler, hd]
    refine wp_seq (wp_markFault ⟨?_, hs'.heeded⟩ fun bus hk => ?_) fun r info bus h => h
    · rw [Nor.Chip.settle_memory]
      exact hm
    · exact hf bus hk

variable {Q : Result → Info → Bus → Prop} {timeoutUs : UInt32}

-- The waiting ends at the latest when the polls are used up.
theorem wp_waitReadyUnlocked (hm : Within P base chip.memory) (hs : Sound record)
    (hq : ∀ finished record, (chip.settle finished).busy = false → Sound record →
      Q .ok info ⟨chip.settle finished, record⟩)
    (hf : ∀ bus, Kept P base bus → Q .timeout { info with faulted := true } bus) :
    wp (env P base) (waitReadyUnlocked timeoutUs) Q info ⟨chip, record⟩ := by
  have settled {f : Bool} : Within P base (chip.settle f).memory := by
    rw [Nor.Chip.settle_memory]
    exact hm
  rw [waitReadyUnlocked, wp_bind, wp_call]
  refine ⟨⟨hm, hs.heeded⟩, fun d _ => ?_⟩
  let Inv (n : Nat) (polls : UInt32) (info' : Info) (bus : Bus) : Prop :=
    info' = info ∧ (∃ f, bus.chip = chip.settle f) ∧ Sound bus.record ∧
      n + 1 + polls.toNat = pollFailsafe.toNat
  refine wp_loop_of_lt (n := pollFailsafe.toNat - 1) Inv ?_ (by decide) ?_
  case refine_2 => exact ⟨rfl, ⟨d.finished, rfl⟩, hs.cons nofun, by decide⟩
  rintro n polls _ ⟨_, record⟩ ⟨rfl, ⟨f, rfl⟩, hs, hn⟩
  rw [poll, wp_bind]
  refine wp_readStatusUnlocked settled hs (fun f' others record hs => ?_) (fun bus hk => ?_)
  case refine_2 => exact hf bus hk
  case refine_1 =>
  rw [Nor.Chip.settle_settle]
  simp only [ne_eq, not_true_eq_false, if_false]
  rw [wp_ite]
  split
  case isTrue hb => exact hq _ _ (Nor.Chip.status_busy.mp hb) hs
  case isFalse =>
  rw [wp_bind, wp_call]
  refine ⟨⟨settled, hs.heeded⟩, fun d' _ => ?_⟩
  rw [wp_ite]
  split
  case isTrue =>
    refine wp_seq (wp_markFault ⟨?_, ?_⟩ hf) fun r info bus h => h
    · simp only [env, handler, Nor.Chip.settle_settle]
      exact settled
    · exact ⟨nofun, hs.heeded⟩
  case isFalse hp =>
    have he : (polls + 1).toNat = polls.toNat + 1 := by
      rw [UInt32.toNat_add, Nat.mod_eq_of_lt]
      · rfl
      · have hf : pollFailsafe.toNat < 2 ^ 32 - 1 := by decide
        rw [UInt32.toNat_one]
        omega
    have hl : (polls + 1).toNat < pollFailsafe.toNat :=
      UInt32.lt_iff_toNat_lt.mp <| UInt32.not_le.mp fun h => hp <| .inr h
    refine ⟨n - 1, by omega, rfl, ⟨f || f' || d'.finished, ?_⟩, hs.cons nofun, by omega⟩
    exact Nor.Chip.settle_settle

theorem wp_send {first second : List UInt8} {Q : Bool → Info → Bus → Prop}
    (hm : Within P base chip.memory) (hs : Sound record) (hb : chip.busy = false)
    (hq : ∀ (done accepts : Bool) n, (done → (first ++ second).length ≤ n) →
      Q done info ⟨chip.execute accepts ((first ++ second).take n), .send first second :: record⟩) :
    wp (env P base) (Prog.call (Call.send first second)) Q info ⟨chip, record⟩ := by
  rw [wp_call]
  refine ⟨⟨hm, hs.heeded⟩, fun d _ => ?_⟩
  simp only [env, handler, Nor.Chip.settle_of_ready hb]
  refine hq _ _ _ fun hd => ?_
  rw [if_pos hd, List.length_append]

theorem wp_writeEnableUnlocked (hm : Within P base chip.memory) (hs : Sound record)
    (hb : chip.busy = false)
    (hq : ∀ record, Sound record → Q .ok info ⟨{ chip with wel := true }, record⟩)
    (hf : ∀ r bus, r ≠ .ok → Kept P base bus → Q r { info with faulted := true } bus) :
    wp (env P base) writeEnableUnlocked Q info ⟨chip, record⟩ := by
  rw [writeEnableUnlocked, cmd, wp_bind, wp_bind]
  refine wp_send hm hs hb fun done accepts n _ => ?_
  have hs' : Sound (.send [Nor.writeEnable] [] :: record) := hs.cons nofun
  rw [List.append_nil]
  -- The latch may also have been set before, or by a frame that is said to have failed.
  obtain ⟨wel, hc⟩ : ∃ wel, chip.execute accepts ([Nor.writeEnable].take n) = { chip with wel } := by
    rcases Nor.Chip.execute_writeEnable accepts n hb with hc | hc
    · exact ⟨chip.wel, hc⟩
    · exact ⟨true, hc⟩
  rw [hc]
  cases done
  case false =>
    refine wp_markFault ⟨hm, hs'.heeded⟩ fun bus hk => ?_
    exact hf .timeout bus nofun hk
  case true =>
    rw [if_neg (by decide), wp_pure, if_neg (by decide), wp_bind]
    refine wp_readStatusUnlocked hm hs' (fun f others record hs => ?_) ?_
    case refine_2 => exact fun bus hk => hf .timeout bus nofun hk
    case refine_1 =>
    rw [Nor.Chip.settle_of_ready (show ({ chip with wel } : Nor.Chip).busy = false from hb)]
    simp only [ne_eq, not_true_eq_false, if_false]
    rw [wp_ite]
    split
    case isTrue => exact wp_markFault ⟨hm, hs.heeded⟩ fun bus hk => hf .writeEnable bus nofun hk
    case isFalse hw =>
      have hwel : wel = true := Bool.of_not_eq_false fun h => hw (Nor.Chip.status_wel.mpr h)
      exact hwel ▸ hq record hs

-- A write has been sent. That the latch is reset shows that the device has accepted it.
theorem wp_finishWriteUnlocked (hm : Within P base chip.memory) (hs : Sound record)
    (hw : chip.wel = true)
    (hq : chip.busy = true → ∀ record, Sound record →
      Q .ok info ⟨{ chip with wel := false, busy := false }, record⟩)
    (hf : ∀ r bus, r ≠ .ok → Kept P base bus → Q r { info with faulted := true } bus) :
    wp (env P base) (finishWriteUnlocked timeoutUs) Q info ⟨chip, record⟩ := by
  rw [finishWriteUnlocked, wp_bind]
  refine wp_waitReadyUnlocked hm hs (fun f record hb hs => ?_) ?_
  case refine_2 => exact fun bus hk => hf .timeout bus nofun hk
  case refine_1 =>
  have hm' : Within P base (chip.settle f).memory := by
    rw [Nor.Chip.settle_memory]
    exact hm
  simp only [ne_eq, not_true_eq_false, if_false]
  rw [wp_bind]
  refine wp_readStatusUnlocked hm' hs (fun g others record hs => ?_) ?_
  case refine_2 => exact fun bus hk => hf .timeout bus nofun hk
  case refine_1 =>
  rw [Nor.Chip.settle_of_ready hb]
  simp only [not_true_eq_false, if_false]
  rw [wp_ite]
  split
  case isTrue => exact wp_markFault ⟨hm', hs.heeded⟩ fun bus hk => hf .writeEnable bus nofun hk
  case isFalse hl =>
    have hl : (chip.settle f).wel = false := Nor.Chip.status_wel.mp (not_not.mp hl)
    obtain ⟨hc, hb⟩ := Nor.Chip.settle_eq_of_wel hw hl
    exact hc ▸ hq hb record hs

end Exchanges

section Writes

variable {Q : Result → Info → Bus → Prop} {addr : UInt32} {len : UInt64}

-- What a frame that has been sent leads to.
structure Write (P : Nat → Prop) (base : Memory) (chip : Nor.Chip) (frame : List UInt8)
    (m : Memory) : Prop where
  execute : ∀ accepts n,
    let chip' := chip.execute accepts (frame.take n)
    chip' = chip ∨
      ∃ m', chip' = chip.begin m' ∧ Within P base m' ∧ (frame.length ≤ n → m' = m)

theorem wp_write {first second : List UInt8} {m : Memory} {timeoutUs : UInt32}
    (h : Write P base { chip with wel := true } (first ++ second) m)
    (hm : Within P base chip.memory) (hs : Sound record) (hb : chip.busy = false)
    (hq : ∀ record, Sound record → Q .ok info ⟨⟨m, false, false⟩, record⟩)
    (hf : ∀ r bus, r ≠ .ok → Kept P base bus → Q r { info with faulted := true } bus) :
    wp (env P base) (do
      let result ← writeEnableUnlocked
      if result ≠ .ok then
        return result
      if !(← Prog.call (Call.send first second)) then
        return ← markFault .timeout
      finishWriteUnlocked timeoutUs) Q info ⟨chip, record⟩ := by
  rw [wp_bind]
  refine wp_writeEnableUnlocked hm hs hb (fun record hs => ?_) fun r bus hr hk => ?_
  case refine_2 =>
    rw [if_pos hr]
    exact hf r bus hr hk
  case refine_1 =>
  rw [if_neg (by decide), wp_bind]
  refine wp_send hm hs hb fun done accepts n hn => ?_
  have hs' : Sound (.send first second :: record) := hs.cons nofun
  have hx := h.execute accepts n
  generalize Nor.Chip.execute { chip with wel := true } accepts ((first ++ second).take n) = chip' at hx
  have hm' : Within P base chip'.memory := by
    rcases hx with rfl | ⟨m', rfl, hm', _⟩
    · exact hm
    · exact hm'
  cases done
  case false =>
    refine wp_markFault ⟨hm', hs'.heeded⟩ fun bus hk => ?_
    exact hf .timeout bus nofun hk
  case true =>
    have hw : chip'.wel = true := by
      rcases hx with rfl | ⟨m', rfl, _⟩ <;> rfl
    refine wp_finishWriteUnlocked hm' hs' hw (fun hb' record hs => ?_) hf
    rcases hx with rfl | ⟨m', rfl, _, he⟩
    · rw [hb] at hb'
      cases hb'
    · rw [he (hn rfl)]
      exact hq record hs

theorem address_addressed (h : addr.toNat < 2 ^ 24) :
    Nor.address (addr >>> 16).toUInt8 (addr >>> 8).toUInt8 addr.toUInt8 = addr.toNat := by
  simp only [Nor.address, UInt32.toNat_toUInt8, UInt32.toNat_shiftRight, Nat.shiftRight_eq_div_pow,
    UInt32.toNat_ofNat, Nat.reducePow, Nat.reduceMod]
  omega

-- What programming a range leaves in the memory.
def cleared (m : Memory) (addr len : Nat) (data : Memory) : Memory :=
  m.overlay addr len fun a => m a &&& data (a - addr)

-- A program that ends early has only reached a part of the range.
theorem Within.program_take {m : Memory} {data : List UInt8} {addr k : Nat}
    (hp : addr % Nor.pageSize + data.length ≤ Nor.pageSize)
    (hr : ∀ a, addr ≤ a ∧ a < addr + data.length → P a) (h : Within P base m) :
    Within P base (Nor.program m addr (data.take k)) := by
  intro a ha
  have hk : (data.take k).length ≤ data.length := List.length_take_le' ..
  rw [Nor.program_apply (by omega), if_neg, h a ha]
  intro hi
  exact ha <| hr a ⟨hi.left, by omega⟩

theorem Within.overlay {m f : Memory} {addr len : Nat} (hr : ∀ a, addr ≤ a ∧ a < addr + len → P a)
    (h : Within P base m) : Within P base (m.overlay addr len f) := by
  intro a ha
  rw [Memory.overlay_apply_of_not_mem fun hi => ha (hr a hi)]
  exact h a ha

theorem program_read {m data : Memory} {addr len : Nat}
    (hp : addr % Nor.pageSize + len ≤ Nor.pageSize) :
    Nor.program m addr (data.read 0 len) = cleared m addr len data := by
  funext a
  rw [Nor.program_apply (by simpa using hp), Memory.read_length, cleared, Memory.overlay]
  split
  case isFalse => rfl
  case isTrue h =>
    have hl : a - addr < len := by omega
    simp [Memory.read, List.getD, hl]

theorem wp_validateUnlocked {null : Bool}
    (hq : info.initialized → info.faulted = false → (len ≠ 0 → null = false) →
      addr.toNat + len.toNat ≤ info.capacity.toNat → Q .ok info bus)
    (hn : ∀ r, r ≠ .ok → Q r info bus) :
    wp (env P base) (validateUnlocked addr null len) Q info bus := by
  rw [validateUnlocked, wp_bind, wp_get]
  beta_reduce
  simp only [wp_ite, wp_pure]
  split
  case isTrue => exact hn _ nofun
  case isFalse hi =>
  split
  case isTrue => exact hn _ nofun
  case isFalse hf =>
  split
  case isTrue => exact hn _ nofun
  case isFalse hd =>
  split
  case isTrue => exact hn _ nofun
  case isFalse hc =>
  obtain ⟨ha, hl⟩ := not_or.mp hc
  have ha := UInt32.not_lt.mp ha
  have hl := UInt64.le_iff_toNat_le.mp <| UInt64.not_lt.mp hl
  rw [UInt32.toNat_toUInt64, UInt32.toNat_sub_of_le _ _ ha] at hl
  have ha := UInt32.le_iff_toNat_le.mp ha
  refine hq (by simpa using hi) (by simpa using hf) (fun h => ?_) (by omega)
  exact Bool.eq_false_iff.mpr fun hn => hd ⟨h, hn⟩

theorem wp_pageProgramUnlocked {data : Memory} (ha : addr.toNat + len.toNat ≤ 2 ^ 24) (hl : len ≠ 0)
    (hp : addr.toNat % Nor.pageSize + len.toNat ≤ Nor.pageSize)
    (hr : ∀ a, addr.toNat ≤ a ∧ a < addr.toNat + len.toNat → P a)
    (hm : Within P base chip.memory) (hs : Sound record) (hb : chip.busy = false)
    (hq : ∀ record, Sound record →
      Q .ok info ⟨⟨cleared chip.memory addr.toNat len.toNat data, false, false⟩, record⟩)
    (hf : ∀ r bus, r ≠ .ok → Kept P base bus → Q r { info with faulted := true } bus) :
    wp (env P base) (pageProgramUnlocked addr data len) Q info ⟨chip, record⟩ := by
  refine wp_write ⟨fun accepts n => ?_⟩ hm hs hb hq hf
  have hn : 0 < len.toNat := Nat.pos_of_ne_zero fun h => hl (UInt64.toNat_inj.mp h)
  have hx := Nor.Chip.execute_pageProgram { chip with wel := true } accepts (addr >>> 16).toUInt8
    (addr >>> 8).toUInt8 addr.toUInt8 (data.read 0 len.toNat) n
  rw [address_addressed (by omega), Memory.read_length] at hx
  refine hx.imp_right ?_
  rintro ⟨k, hk, he⟩
  refine ⟨_, he, ?_, fun hn => ?_⟩
  · refine hm.program_take ?_ ?_ <;> rw [Memory.read_length]
    · exact hp
    · exact hr
  · simp only [addressed, List.cons_append, List.nil_append, List.length_cons,
      Memory.read_length] at hn
    rw [hk (by omega)]
    exact program_read hp

-- A command without data goes the same way as one with data.
theorem cmd_bind {frame : List UInt8} {p : Driver Result} :
    (do
      let result ← cmd frame
      if result ≠ .ok then
        return result
      p) = (do
      if !(← Prog.call (Call.send frame [])) then
        return ← markFault .timeout
      p) := by
  rw [cmd, bind_assoc]
  congr
  funext done
  cases done <;> rfl

theorem write_sectorErase (ha : addr.toNat % Nor.sectorSize = 0)
    (hl : addr.toNat < 2 ^ 24) (hr : ∀ a, addr.toNat ≤ a ∧ a < addr.toNat + Nor.sectorSize → P a)
    (hm : Within P base chip.memory) :
    Write P base { chip with wel := true } (addressed Nor.sectorErase addr ++ [])
      (chip.memory.overlay addr.toNat Nor.sectorSize fun _ => 0xFF) := by
  rw [List.append_nil]
  refine ⟨fun accepts n => ?_⟩
  have hx := Nor.Chip.execute_sectorErase { chip with wel := true } accepts (addr >>> 16).toUInt8
    (addr >>> 8).toUInt8 addr.toUInt8 n
  rw [address_addressed hl, Nor.erase_eq ha] at hx
  exact hx.imp_right fun h => ⟨_, h, hm.overlay hr, fun _ => rfl⟩

-- When the driver accepts requests, the device has nothing left to do.
structure Ready (info : Info) (bus : Bus) : Prop where
  sound : info.initialized → info.faulted = false → Sound bus.record
  idle : info.initialized → info.faulted = false → bus.chip.busy = false

theorem wp_sectorErase {mhartid : Nat} (hc : info.capacity.toNat ≤ 2 ^ 24)
    (hr : ∀ a < info.capacity.toNat, addr.toNat ≤ a ∧ a < addr.toNat + Nor.sectorSize → P a)
    (hk : Kept P base bus) (hs : Ready info bus)
    (hq : ∀ record, Sound record → addr.toNat + Nor.sectorSize ≤ info.capacity.toNat →
      Q .ok info ⟨⟨bus.chip.memory.overlay addr.toNat Nor.sectorSize fun _ => 0xFF, false, false⟩, record⟩)
    (hn : ∀ r, r ≠ .ok → Q r info bus)
    (hf : ∀ r bus, r ≠ .ok → Kept P base bus → Q r { info with faulted := true } bus) :
    wp (env P base) (sectorErase mhartid addr) Q info bus := by
  rw [sectorErase, wp_ite]
  split
  case isTrue => exact hn _ nofun
  case isFalse =>
  rw [wp_ite]
  split
  case isTrue => exact hn _ nofun
  case isFalse ha =>
  rw [wp_bind]
  refine wp_validateUnlocked (fun hi hf' _ hl => ?_) fun r hr => ?_
  case refine_2 =>
    rw [if_pos hr]
    exact hn r hr
  case refine_1 =>
  have hl : addr.toNat + Nor.sectorSize ≤ info.capacity.toNat := hl
  have ha : addr.toNat % Nor.sectorSize = 0 := by
    have ha := congrArg UInt64.toNat (not_not.mp ha)
    simpa [eraseSize, Nor.sectorSize] using ha
  rw [if_neg (by decide)]
  obtain ⟨chip, record⟩ := bus
  have hw : addr.toNat < 2 ^ 24 := by
    have hp : 0 < Nor.sectorSize := by decide
    omega
  rw [cmd_bind]
  have hr' (a : Nat) (ha : addr.toNat ≤ a ∧ a < addr.toNat + Nor.sectorSize) : P a :=
    hr a (by omega) ha
  exact wp_write (write_sectorErase ha hw hr' hk.within) hk.within (hs.sound hi hf') (hs.idle hi hf')
    (fun record hs => hq record hs hl) hf

theorem cleared_cleared {m data : Memory} {addr done len : Nat} :
    cleared (cleared m addr done data) (addr + done) len (fun i => data (done + i)) =
      cleared m addr (done + len) data := by
  funext a
  simp only [cleared, Memory.overlay]
  by_cases hd : addr ≤ a ∧ a < addr + done
  case pos => rw [if_neg (by omega), if_pos hd, if_pos (by omega)]
  case neg =>
    rw [if_neg hd]
    by_cases hl : addr + done ≤ a ∧ a < addr + done + len
    case pos => rw [if_pos hl, if_pos (by omega), show done + (a - (addr + done)) = a - addr by omega]
    case neg => rw [if_neg hl, if_neg (by omega)]

theorem cleared_zero {m data : Memory} {addr : Nat} : cleared m addr 0 data = m := by
  funext a
  exact Memory.overlay_apply_of_not_mem (by omega)

-- What is left of a page, and no more than what is left of the data.
theorem chunk_toNat {chunk : UInt64}
    (h : chunk = programSize - addr.toUInt64 % programSize) :
    (if chunk > len then len else chunk).toNat =
      min (Nor.pageSize - addr.toNat % Nor.pageSize) len.toNat := by
  have hc : chunk.toNat = Nor.pageSize - addr.toNat % Nor.pageSize := by
    have hm : addr.toUInt64 % programSize ≤ programSize := by
      refine UInt64.le_iff_toNat_le.mpr ?_
      rw [UInt64.toNat_mod]
      exact (Nat.mod_lt _ (by decide)).le
    rw [h, UInt64.toNat_sub_of_le _ _ hm]
    simp [programSize, Nor.pageSize]
  split
  case isTrue h' =>
    have h' := UInt64.lt_iff_toNat_lt.mp h'
    omega
  case isFalse h' =>
    have h' := UInt64.le_iff_toNat_le.mp <| UInt64.not_lt.mp h'
    omega

-- The first `done` bytes are programmed, and the loop goes on with the others.
structure Programming (info : Info) (bus : Bus) (addr : UInt32) (data : Memory) (len : UInt64)
    (done : Nat) (addr' : UInt32) (data' : Memory) (len' : UInt64) (info' : Info) (bus' : Bus) :
    Prop where
  info_eq : info' = info
  sound : Sound bus'.record
  idle : bus'.chip.busy = false
  addr_eq : addr'.toNat = addr.toNat + done
  len_eq : len.toNat = done + len'.toNat
  data_eq : data' = fun i => data (done + i)
  memory_eq : bus'.chip.memory = cleared bus.chip.memory addr.toNat done data

-- Once the first pages are programmed, the rest is as much as that of a program which starts there.
theorem wp_program {mhartid : Nat} {data : Option Memory} (hc : info.capacity.toNat ≤ 2 ^ 24)
    (hr : ∀ a < info.capacity.toNat, addr.toNat ≤ a ∧ a < addr.toNat + len.toNat → P a)
    (hk : Kept P base bus) (hs : Ready info bus)
    (hq : ∀ chip record, Sound record → chip.busy = false →
      addr.toNat + len.toNat ≤ info.capacity.toNat →
      chip.memory = cleared bus.chip.memory addr.toNat len.toNat (data.getD fun _ => 0) →
      Q .ok info ⟨chip, record⟩)
    (hn : ∀ r, r ≠ .ok → Q r info bus)
    (hf : ∀ r bus, r ≠ .ok → Kept P base bus → Q r { info with faulted := true } bus) :
    wp (env P base) (program mhartid addr data len) Q info bus := by
  rw [program, wp_ite]
  split
  case isTrue => exact hn _ nofun
  case isFalse =>
  rw [wp_bind]
  refine wp_validateUnlocked (fun hi hf' _ hl => ?_) fun r hr => ?_
  case refine_2 =>
    rw [if_pos hr]
    exact hn r hr
  case refine_1 =>
  rw [if_neg (by decide)]
  generalize data.getD (fun _ => 0) = data at hq ⊢
  let Inv (n : Nat) (b : UInt32 × Memory × UInt64) (info' : Info) (bus' : Bus) : Prop :=
    n = b.snd.snd.toNat ∧
      ∃ done, Programming info bus addr data len done b.fst b.snd.fst b.snd.snd info' bus'
  refine wp_loop_of_lt (n := len.toNat) Inv ?_ (Nat.lt_succ_self _) ?_
  case refine_2 =>
    refine ⟨rfl, 0, rfl, hs.sound hi hf', hs.idle hi hf', rfl, (Nat.zero_add _).symm, ?_, ?_⟩
    · simp only [Nat.zero_add]
    · exact cleared_zero.symm
  rintro n ⟨addr', data', len'⟩ _ ⟨chip, record⟩ ⟨rfl, done, h⟩
  simp only at h ⊢
  obtain ⟨rfl, hs', hb, ha, hd, rfl, hm⟩ := h
  rw [programPage, wp_ite]
  split
  case isTrue h =>
    subst h
    obtain rfl : done = len.toNat := by simpa using hd.symm
    exact hq chip record hs' hb hl hm
  case isFalse h =>
  extract_lets chunk₀ chunk
  have hc : chunk.toNat = min (Nor.pageSize - addr'.toNat % Nor.pageSize) len'.toNat :=
    chunk_toNat rfl
  clear_value chunk
  have hl' : 0 < len'.toNat := Nat.pos_of_ne_zero fun he => h (UInt64.toNat_inj.mp he)
  have hp : addr'.toNat % Nor.pageSize < Nor.pageSize := Nat.mod_lt _ (by decide)
  have hz : chunk ≠ 0 := by
    rintro rfl
    simp only [UInt64.toNat_zero] at hc
    omega
  have hr' (a : Nat) (ha' : addr'.toNat ≤ a ∧ a < addr'.toNat + chunk.toNat) : P a :=
    hr a (by omega) (by omega)
  have hm' : Within P base chip.memory := by
    rw [show chip.memory = _ from hm]
    exact hk.within.overlay fun a ha => hr a (by omega) (by omega)
  rw [wp_bind]
  refine wp_pageProgramUnlocked (by omega) hz (by omega) hr' hm' hs' hb (fun record hs => ?_) ?_
  case refine_2 =>
    intro r bus hr hk
    rw [if_pos hr]
    exact hf r bus hr hk
  case refine_1 =>
  rw [if_neg (by decide)]
  have hx : chunk.toUInt32.toNat = chunk.toNat := by
    rw [UInt64.toNat_toUInt32, Nat.mod_eq_of_lt (by omega)]
  have ha' : (addr' + chunk.toUInt32).toNat = addr.toNat + (done + chunk.toNat) := by
    rw [UInt32.toNat_add, hx, Nat.mod_eq_of_lt (by omega)]
    omega
  have hn : (len' - chunk).toNat = len'.toNat - chunk.toNat :=
    UInt64.toNat_sub_of_le _ _ (UInt64.le_iff_toNat_le.mpr (by omega))
  have hd' : len.toNat = done + chunk.toNat + (len' - chunk).toNat := by omega
  refine ⟨(len' - chunk).toNat, by omega, rfl, done + chunk.toNat, rfl, hs, rfl, ha', hd', ?_, ?_⟩
  · simp only [Nat.add_assoc]
  · rw [show chip.memory = _ from hm, ha]
    exact cleared_cleared

end Writes

-- What holds between the calls.
structure Settled (layout : Layout) (P : Nat → Prop) (base : Memory) (info : Info) (bus : Bus) :
    Prop where
  kept : Kept P base bus
  ready : Ready info bus
  capacity : info.capacity ≤ layout.maxCapacity

namespace Settled

variable {layout : Layout}

theorem faulted (h : Settled layout P base info bus) {bus' : Bus} (hk : Kept P base bus') :
    Settled layout P base { info with faulted := true } bus' :=
  ⟨hk, ⟨nofun, nofun⟩, h.capacity⟩

theorem uninitialized {info : Info} (hk : Kept P base bus) (hi : info.initialized = false)
    (hc : info.capacity ≤ layout.maxCapacity) : Settled layout P base info bus := by
  refine ⟨hk, ⟨?_, ?_⟩, hc⟩
  all_goals
    rw [hi]
    exact nofun

theorem receive (cmd : List UInt8) (len : Nat) (finished : Bool)
    (h : Settled layout P base info bus) :
    Settled layout P base info ⟨bus.chip.settle finished, .receive cmd len :: bus.record⟩ := by
  refine ⟨⟨?_, nofun, h.kept.heeded⟩, ⟨fun hi hf => ?_, fun hi hf => ?_⟩, h.capacity⟩
  · rw [Nor.Chip.settle_memory]
    exact h.kept.within
  · exact (h.ready.sound hi hf).cons nofun
  · rw [Nor.Chip.settle_of_ready (h.ready.idle hi hf)]
    exact h.ready.idle hi hf

end Settled

theorem wp_init {layout : Layout} {mhartid : Nat} {hz : UInt32}
    (h : Settled layout P base info bus) :
    wp (env P base) (init layout mhartid hz) (fun _ => Settled layout P base) info bus := by
  rw [init, wp_ite]
  split
  case isTrue => exact h
  case isFalse =>
  rw [wp_ite]
  split
  case isTrue => exact h
  case isFalse =>
  rw [wp_bind, wp_set]
  beta_reduce
  rw [wp_bind, wp_call]
  refine ⟨h.kept, fun d _ => ?_⟩
  have hs : Sound (.receive [Nor.readId] 3 :: bus.record) := .init h.kept.heeded
  have hm : Within P base (bus.chip.settle d.finished).memory := by
    rw [Nor.Chip.settle_memory]
    exact h.kept.within
  simp only [env, handler]
  rw [wp_bind, wp_modify]
  -- The identification is of no importance.
  generalize (_ ++ _ : List UInt8) = id
  have hc : (0 : UInt32) ≤ layout.maxCapacity := UInt32.zero_le
  have hi : Settled layout P base ⟨id, 0, false, false⟩
      ⟨bus.chip.settle d.finished, .receive [Nor.readId] 3 :: bus.record⟩ :=
    .uninitialized ⟨hm, hs.heeded⟩ rfl hc
  rw [wp_ite]
  split
  case isTrue => exact wp_markFault hi.kept fun bus hk => hi.faulted hk
  case isFalse =>
  rw [wp_ite]
  split
  case isTrue => exact hi
  case isFalse =>
  rw [wp_ite]
  split
  case isTrue => exact hi
  case isFalse hc' =>
  have hc' := UInt32.not_lt.mp (not_or.mp hc').right
  rw [wp_bind, wp_modify]
  beta_reduce
  rw [wp_bind]
  refine wp_waitReadyUnlocked hm hs (fun f record hb hs => ?_) (fun bus hk => ?_)
  case refine_2 => exact .uninitialized hk rfl hc'
  case refine_1 =>
    rw [if_pos rfl, wp_bind, wp_modify]
    refine ⟨⟨?_, hs.heeded⟩, ⟨fun _ _ => hs, fun _ _ => hb⟩, hc'⟩
    rw [Nor.Chip.settle_memory]
    exact hm

theorem wp_read {layout : Layout} {mhartid : Nat} {addr : UInt32} {null : Bool} {len : UInt64}
    (h : Settled layout P base info bus) :
    wp (env P base) (read mhartid addr null len) (fun _ => Settled layout P base) info bus := by
  rw [read, wp_ite]
  split
  case isTrue => exact h
  case isFalse =>
  rw [wp_bind]
  refine wp_validateUnlocked (fun hi hf _ _ => ?_) fun r hr => ?_
  case refine_2 =>
    rw [if_pos hr]
    exact h
  case refine_1 =>
  rw [if_neg (by decide)]
  let Inv (n : Nat) (b : UInt32 × UInt64 × List UInt8) (info' : Info) (bus : Bus) : Prop :=
    info' = info ∧ Settled layout P base info bus ∧ n = b.snd.fst.toNat
  refine wp_loop_of_lt (n := len.toNat) Inv ?_ (Nat.lt_succ_self _) ⟨rfl, h, rfl⟩
  rintro n ⟨addr, len, data⟩ info bus ⟨rfl, h, rfl⟩
  rw [readChunk, wp_ite]
  split
  case isTrue => exact h
  case isFalse hl =>
  extract_lets chunk
  have hl : 0 < len.toNat := Nat.pos_of_ne_zero fun he => hl (UInt64.toNat_inj.mp he)
  have hc : 0 < chunk.toNat ∧ chunk.toNat ≤ len.toNat := by
    simp only [chunk]
    split
    case isTrue h => exact ⟨by decide, (UInt64.le_iff_toNat_le.mp (UInt64.le_of_lt h))⟩
    case isFalse   => exact ⟨hl, le_rfl⟩
  clear_value chunk
  rw [wp_bind, wp_call]
  refine ⟨h.kept, fun d _ => ?_⟩
  replace h := h.receive (addressed Nor.readData addr) chunk.toNat d.finished
  cases hd : d.done
  case false =>
    simp only [env, handler, hd]
    exact wp_seq (wp_markFault h.kept fun bus hk => h.faulted hk) fun _ _ _ h => h
  case true =>
    simp only [env, handler, hd]
    refine ⟨(len - chunk).toNat, ?_, rfl, h, rfl⟩
    rw [UInt64.toNat_sub_of_le _ _ (UInt64.le_iff_toNat_le.mpr hc.right)]
    omega

end Flash.Boot
