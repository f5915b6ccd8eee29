import HackyLens.Display.Theorems.Transfer

-- The batch of a session keeps what presenting it needs, whatever is drawn.

namespace Display

open App (Result)
open Prog

-- The session's batch for the overlay, as it is between the calls.
structure Drawing (board : Board) (session : Nat) (s : State) (w : World) : Prop where
  inv : Inv s w
  staging : Staging session s
  stream : s.pixelStreamActive = false
  clip : s.stage.clip = screenRect board
  counted : s.Counted
  built : s.frame.Built
  inside : ∀ r ∈ s.frame.dirty, (screenRect board).Covers r
  covered : ∀ r ∈ s.committed.dirty, Spanned s.frame.dirty r
  repair : ∀ r ∈ s.memory.overlayRepair.take s.overlayPlane.repairCount,
    (screenRect board).Covers r
  camera : w.pool.cameraReserved = false

variable {board : Board} {session : Nat} {s s' : State} {w w' : World} {admits : Decision → Prop}
variable {frame frame' : Frame} {command : Command} {text : List UInt8} {result : Result}

theorem Drawing.of_rest (h : Drawing board session s w) (hi : Inv s' w') (hr : s'.rest = s.rest)
    (hp : w'.pool = w.pool) (hc : s'.Counted) (hb : s'.frame.Built)
    (hd : ∀ r ∈ s'.frame.dirty, (screenRect board).Covers r)
    (hs : ∀ r ∈ s.committed.dirty, Spanned s'.frame.dirty r) : Drawing board session s' w' where
  inv     := hi
  staging := h.staging.of_rest hr
  stream  := (congrArg State.pixelStreamActive hr).trans h.stream
  clip    := (congrArg (·.stage.clip) hr).trans h.clip
  counted := hc
  built   := hb
  inside  := hd
  covered := committed_of_rest hr ▸ hs
  repair  := by
    show ∀ r ∈ s'.rest.memory.overlayRepair.take s'.rest.overlayPlane.repairCount, _
    rw [hr]
    exact h.repair
  camera  := hp ▸ h.camera

theorem Frame.append_inside {outer : Rect} (hb : frame.Built)
    (ha : frame.append command text = some frame') (hd : ∀ r ∈ frame.dirty, outer.Covers r)
    (hr : command.rect.empty = false → outer.Covers command.rect) :
    ∀ r ∈ frame'.dirty, outer.Covers r := by
  unfold Frame.append at ha
  split at ha
  case isTrue  => exact Option.some_inj.mp ha ▸ hd
  case isFalse =>
    split at ha
    case isTrue  => cases ha
    case isFalse =>
      obtain ⟨dirty, hx, rfl⟩ := Option.map_eq_some_iff.mp ha
      exact hb.damage.inside_add hx hd hr

theorem Drawing.append (h : Drawing board session s w) (ha : Appended command text s result s')
    (hi : Inv s' w) (hr : command.rect.empty = false → (screenRect board).Covers command.rect) :
    Drawing board session s' w := by
  unfold Appended at ha
  split at ha
  case h_1 => exact ha.right ▸ h
  case h_2 frame hf =>
    obtain ⟨-, he, ha⟩ := ha
    subst he
    have hb := h.built.append hf
    refine h.of_rest hi ha.rest rfl (ha.counted h.counted) hb.left ?_ fun r hr => ?_
    · exact Frame.append_inside h.built hf h.inside hr
    · exact hb.right r (h.covered r hr)

theorem Drawing.wp_clippedCommand (h : Drawing board session s w) {rect : Rect}
    {type : CommandType} {color : UInt16} (hv : rect.valid = true) :
    wp (panel admits) (clippedCommand session rect type color text) (fun result s' w' => w' = w ∧
      Drawing board session s' w ∧
      Appended ⟨type, color, 0, 0, rect.intersection (screenRect board)⟩ text s result s') s w := by
  have hs : wp (panel admits) (clippedCommand session rect type color text)
      (fun _ s' w' => Inv s' w') s w :=
    wp_restrict (fun _ _ => trivial) (safe_clippedCommand h.inv)
  refine wp_mono (wp_and hs (Display.wp_clippedCommand h.staging hv)) ?_
  rintro result s' w' ⟨hi, rfl, ha⟩
  rw [h.clip] at ha
  exact ⟨rfl, h.append ha hi Rect.covers_intersection, ha⟩

theorem Frame.Built.of_nil (h : frame.Built) (hc : frame.commands = []) : frame = .empty := by
  have hd := h.dirty
  rw [hc] at hd
  ext1
  · exact hc
  · exact h.unused hc
  · exact (Option.some_inj.mp hd).symm


theorem Drawing.checkpointed (h : Drawing board session s w) :
    Drawing board session s.checkpointed w :=
  h.of_rest (h.inv.staged rfl rfl rfl fun _ => h.staging.workspace) rfl rfl h.counted h.built
    h.inside h.covered

-- What is left of a batch is made the batch again.
theorem Drawing.wp_restore {s₁ : State} (h : Drawing board session s w) (hr : s₁.rest = s.rest)
    (hi : Inv s₁ w) (hre : Recoverable s.frame s₁) :
    wp (panel admits) (restore session s.frame.commands.length s.frame.text.length)
      (fun result s' w' => w' = w ∧ result = .ok ∧ Drawing board session s' w ∧
        s'.frame = s.frame ∧ s'.committed = s.committed) s₁ w := by
  have hs : wp (panel admits) (restore session s.frame.commands.length s.frame.text.length)
      (fun _ s' w' => Inv s' w') s₁ w :=
    wp_restrict (fun _ _ => trivial) (safe_restore hi)
  refine wp_mono (wp_and hs (Display.wp_restore (h.staging.of_rest hr) h.built hre)) ?_
  rintro result s' w' ⟨hi', rfl, rfl, hr', hf, hc⟩
  have hr' := hr'.trans hr
  refine ⟨rfl, rfl, h.of_rest hi' hr' rfl hc ?_ ?_ ?_, hf, committed_of_rest hr'⟩ <;> rw [hf]
  · exact h.built
  · exact h.inside
  · exact h.covered

-- The batch is dropped, but it can still be restored.
structure Dropped (frame : Frame) (s s' : State) (w : World) : Prop where
  inv : Inv s' w
  rest : s'.rest = s.rest
  counted : s'.Counted
  empty : s'.frame = .empty
  recoverable : Recoverable frame s'
  saved : s'.stage.rollbackFirstValid = true ∨ frame.commands = []

theorem Drawing.wp_restore_zero (h : Drawing board session s w) :
    wp (panel admits) (restore session 0 0) (fun result s' w' => w' = w ∧ result = .ok ∧
      Dropped s.frame s s' w) s w := by
  have hs : wp (panel admits) (restore session 0 0) (fun _ s' w' => Inv s' w') s w :=
    wp_restrict (fun _ _ => trivial) (safe_restore h.inv)
  refine wp_mono (wp_and hs (Display.wp_restore_zero h.staging)) ?_
  rintro result s' w' ⟨hi, rfl, rfl, hr, he, hc, hre, hv⟩
  exact ⟨rfl, rfl, hi, hr, hc, he, hre, hv⟩

-- The frame that is nothing but a cleared screen.
def Frame.cleared (board : Board) (color : UInt16) : Frame where
  commands := [⟨.clear, color, 0, 0, screenRect board⟩]
  text     := []
  dirty    := [screenRect board]

theorem Frame.append_clear (hb : (screenRect board).empty = false) (color : UInt16) :
    Frame.empty.append ⟨.clear, color, 0, 0, screenRect board⟩ [] = some (cleared board color) := by
  rw [Frame.append, if_neg (by simp [hb]), if_neg (by simp [Frame.empty, maxCommands]),
    dirtyAdd_eq hb]
  rfl

theorem Drawing.wp_clear {s₁ : State} {color : UInt16} (h : Drawing board session s w)
    (hd : Dropped s.frame s s₁ w) (hb : (screenRect board).empty = false) :
    wp (panel admits) (clear session color) (fun result s' w' => w' = w ∧ result = .ok ∧
      Drawing board session s' w ∧ s'.frame = .cleared board color ∧ s'.rest = s.rest ∧
      Recoverable s.frame s') s₁ w := by
  have hs : wp (panel admits) (clear session color) (fun _ s' w' => Inv s' w') s₁ w :=
    wp_restrict (fun _ _ => trivial) (safe_clear hd.inv)
  refine wp_mono (wp_and hs (Display.wp_clear (h.staging.of_rest hd.rest))) ?_
  rintro result s' w' ⟨hi, rfl, ha⟩
  have hclip : s₁.stage.clip = screenRect board :=
    (congrArg (·.stage.clip) hd.rest).trans h.clip
  have happ := Frame.append_clear hb color
  rw [Appended, hclip, hd.empty, happ] at ha
  obtain ⟨rfl, hf, ha⟩ := ha
  have hz : s₁.stage.commandCount = 0 := by rw [← frame_length, hd.empty]; rfl
  have hr := ha.rest.trans hd.rest
  refine ⟨rfl, rfl, ?_, hf, hr, hd.recoverable.above ha (.inr ⟨hz, hd.saved⟩) (.inr rfl)⟩
  have hself := Rect.Covers.refl hb
  refine h.of_rest hi hr rfl (ha.counted hd.counted) ?_ ?_ ?_ <;> rw [hf]
  · exact (Frame.Built.empty.append happ).left
  · exact fun r hr => List.mem_singleton.mp hr ▸ hself
  · intro r hr
    obtain ⟨outer, ho, hc⟩ := h.covered r hr
    exact ⟨_, List.mem_singleton_self _, (h.inside outer ho).trans hc⟩

end Display
