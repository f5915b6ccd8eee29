import HackyLens.Photo.Theorems.GifStream

-- The rows of a frame, in the order in which its pixels are stored.

namespace Gif

open Core Fat32 Prog

variable {height row start step sequence : Nat}

-- The rows of a pass.
def passRows (height start step : Nat) : List Nat :=
  List.range' start ((height - start + (step - 1)) / step) step

def passes : List (Nat × Nat) :=
  [(0, 8), (4, 8), (2, 4), (1, 2)]

def rowOrder (interlaced : Bool) (height : Nat) : List Nat :=
  if interlaced then
    passes.flatMap fun pass => passRows height pass.fst pass.snd
  else
    List.range height

theorem passRows_of_le (h : height ≤ start) (hs : 0 < step) : passRows height start step = [] := by
  rw [passRows, Nat.sub_eq_zero_of_le h, Nat.zero_add, Nat.div_eq_of_lt (by omega)]
  rfl

theorem passRows_of_lt (h : start < height) (hs : 0 < step) :
    passRows height start step = start :: passRows height (start + step) step := by
  have hd : (height - start + (step - 1)) / step =
      (height - (start + step) + (step - 1)) / step + 1 := by
    have ha : height - start + (step - 1) = height - start - 1 + step := by omega
    rw [ha, Nat.add_div_right _ hs]
    by_cases hl : start + step ≤ height
    case pos => rw [show height - (start + step) + (step - 1) = height - start - 1 by omega]
    case neg => rw [Nat.div_eq_of_lt (by omega), Nat.div_eq_of_lt (by omega)]
  rw [passRows, hd]
  rfl

theorem mem_passRows (hs : 0 < step) (hl : start < step) :
    row ∈ passRows height start step ↔ row < height ∧ row % step = start := by
  rw [passRows, List.mem_range']
  constructor
  case mp =>
    rintro ⟨i, hi, rfl⟩
    have hm := (Nat.le_div_iff_mul_le hs).mp (Nat.succ_le_of_lt hi)
    rw [Nat.succ_mul, Nat.mul_comm] at hm
    exact ⟨by omega, by rw [Nat.add_mul_mod_self_left, Nat.mod_eq_of_lt hl]⟩
  case mpr =>
    rintro ⟨hr, rfl⟩
    refine ⟨row / step, ?_, (Nat.mod_add_div row step).symm⟩
    refine Nat.lt_of_succ_le ((Nat.le_div_iff_mul_le hs).mpr ?_)
    have := Nat.mod_add_div row step
    rw [Nat.succ_mul, Nat.mul_comm]
    omega

theorem interlacePass_eq {rounds : Nat} (hs : 0 < step) (hr : height ≤ row + rounds) :
    interlacePass step height rounds row sequence =
      match (passRows height row step)[sequence]? with
      | some row => .inl row
      | none     => .inr (sequence - (passRows height row step).length) := by
  induction rounds generalizing row sequence with
  | zero =>
    rw [passRows_of_le (Nat.add_zero row ▸ hr) hs]
    rfl
  | succ rounds ih =>
    rw [interlacePass]
    split
    case isFalse h =>
      rw [passRows_of_le (Nat.le_of_not_lt h) hs]
      rfl
    case isTrue h =>
      rw [passRows_of_lt h hs]
      cases sequence
      case zero          => rfl
      case succ sequence =>
        rw [if_neg (Nat.succ_ne_zero sequence), Nat.succ_sub_one, ih (by omega),
          List.getElem?_cons_succ, List.length_cons, Nat.succ_sub_succ]

theorem interlaceRowFrom_eq {l : List (Nat × Nat)} (hl : ∀ pass ∈ l, 0 < pass.snd) :
    interlaceRowFrom height l sequence =
      (l.flatMap fun pass => passRows height pass.fst pass.snd)[sequence]?.getD height := by
  induction l generalizing sequence with
  | nil            => rfl
  | cons pass l ih =>
    obtain ⟨hp, hl⟩ := List.forall_mem_cons.mp hl
    rw [interlaceRowFrom, interlacePass_eq hp (Nat.le_add_left ..), List.flatMap_cons]
    by_cases h : sequence < (passRows height pass.fst pass.snd).length
    case pos => rw [List.getElem?_append_left h, List.getElem?_eq_getElem h, Option.getD_some]
    case neg =>
      rw [List.getElem?_append_right (Nat.le_of_not_lt h),
        List.getElem?_eq_none (Nat.le_of_not_lt h)]
      exact ih hl

-- The passes take every row once.
theorem rowOrder_perm (interlaced : Bool) (height : Nat) :
    (rowOrder interlaced height).Perm (List.range height) := by
  cases interlaced
  case false => exact .refl _
  case true =>
  have nodup {start step : Nat} (hs : 0 < step) : (passRows height start step).Nodup :=
    List.nodup_range' step hs
  refine (List.perm_ext_iff_of_nodup ?_ List.nodup_range).mpr fun row => ?_
  · simp only [rowOrder, passes, if_true, List.flatMap_cons, List.flatMap_nil, List.append_nil]
    refine .append (nodup (by decide)) (.append (nodup (by decide)) (.append (nodup (by decide))
      (nodup (by decide)) ?_) ?_) ?_
    all_goals
      intro row hr hr'
      simp only [List.mem_append, mem_passRows (show 0 < 8 by decide) (show 0 < 8 by decide),
        mem_passRows (show 0 < 8 by decide) (show 4 < 8 by decide),
        mem_passRows (show 0 < 4 by decide) (show 2 < 4 by decide),
        mem_passRows (show 0 < 2 by decide) (show 1 < 2 by decide)] at hr hr'
      omega
  · simp only [rowOrder, passes, if_true, List.flatMap_cons, List.flatMap_nil, List.append_nil,
      List.mem_append, mem_passRows (show 0 < 8 by decide) (show 0 < 8 by decide),
      mem_passRows (show 0 < 8 by decide) (show 4 < 8 by decide),
      mem_passRows (show 0 < 4 by decide) (show 2 < 4 by decide),
      mem_passRows (show 0 < 2 by decide) (show 1 < 2 by decide), List.mem_range]
    omega

-- The row that the decoder gives to the `j`th row of pixels.
def rowAt (interlaced : Bool) (height j : Nat) : Nat :=
  if interlaced then interlaceRow j height else j

theorem rowOrder_getElem? {interlaced : Bool} {j : Nat} (h : j < height) :
    (rowOrder interlaced height)[j]? = some (rowAt interlaced height j) := by
  have hj : j < (rowOrder interlaced height).length := by
    rw [(rowOrder_perm interlaced height).length_eq, List.length_range]
    exact h
  cases interlaced
  case false => exact List.getElem?_range h
  case true =>
    have hi : interlaceRowFrom height passes j =
        (passes.flatMap fun pass => passRows height pass.fst pass.snd)[j]?.getD height :=
      interlaceRowFrom_eq (by decide)
    rw [List.getElem?_eq_getElem hj]
    refine congrArg some ?_
    rw [rowAt, if_pos rfl, interlaceRow]
    refine Eq.trans ?_ hi.symm
    change _ = ((rowOrder true height)[j]?).getD height
    rw [List.getElem?_eq_getElem hj, Option.getD_some]

theorem rowAt_lt {interlaced : Bool} {j : Nat} (h : j < height) :
    rowAt interlaced height j < height := by
  have hm : rowAt interlaced height j ∈ rowOrder interlaced height :=
    List.mem_of_getElem? (rowOrder_getElem? h)
  exact List.mem_range.mp ((rowOrder_perm interlaced height).mem_iff.mp hm)

section Emit

variable {v : Volume} {frame : Frame} {palette : Nat → UInt16} {paletteSize count used : Nat}
variable {interlaced : Bool} {pixels string : List UInt8} {rows₀ rows : List Call} {s : Globals}

-- How the `j`th row of pixels is delivered.
def rowCall (frame : Frame) (palette : Nat → UInt16) (paletteSize : Nat) (interlaced : Bool)
    (pixels : List UInt8) (j : Nat) : Call :=
  .renderIndexedRow frame (rowAt interlaced frame.frameH j)
    ((pixels.drop (frame.frameW * j)).take frame.frameW) palette paletteSize

-- The first `count` pixels have been emitted, of which the last `used` are in the row buffer.
structure Drawn (frame : Frame) (palette : Nat → UInt16) (paletteSize : Nat) (interlaced : Bool)
    (pixels : List UInt8) (rows₀ : List Call) (count used : Nat) (s : Globals) (rows : List Call) :
    Prop where
  remainder : used = count % frame.frameW
  buffered : ∀ i < used, pixels[frame.frameW * (count / frame.frameW) + i]? = some (s.row i)
  delivered : rows = rows₀ ++ (List.range (count / frame.frameW)).map
    (rowCall frame palette paletteSize interlaced pixels)

-- Only the row buffer is different.
def Rowed (s s' : Globals) : Prop :=
  s' = { s with row := s'.row, emitted := s'.emitted }

theorem Rowed.refl : Rowed s s :=
  rfl

theorem Rowed.trans {s' s'' : Globals} (h : Rowed s s') (h' : Rowed s' s'') : Rowed s s'' := by
  rw [Rowed] at *
  rw [h', h]

theorem getElem?_row {row : Nat → UInt8} {base : Nat}
    (h : ∀ i < frame.frameW, pixels[base + i]? = some (row i)) :
    (List.range frame.frameW).map row = (pixels.drop base).take frame.frameW := by
  refine List.ext_getElem? fun i => ?_
  rw [List.getElem?_map, List.getElem?_take]
  split
  case isTrue hi => rw [List.getElem?_range hi, List.getElem?_drop, h i hi, Option.map_some]
  case isFalse hi =>
    rw [List.getElem?_eq_none (by rw [List.length_range]; exact Nat.le_of_not_lt hi),
      Option.map_none]

variable (hw : 0 < frame.frameW) (hl : pixels.length = frame.frameW * frame.frameH)

include hw hl in
theorem wp_card_emitIndex {Q : FileResult × Nat × Nat → Globals → List Call → Prop} {index : UInt8}
    (hi : index.toNat < paletteSize) (hx : pixels[count]? = some index)
    (h : Drawn frame palette paletteSize interlaced pixels rows₀ count used s rows)
    (hq : ∀ used' s' rows', Rowed s s' →
      Drawn frame palette paletteSize interlaced pixels rows₀ (count + 1) used' s' rows' →
      Q (.ok, count + 1, used') s' rows') :
    wp (card v) (emitIndex frame palette paletteSize interlaced index count used) Q s rows := by
  have hc := (List.getElem?_eq_some_iff.mp hx).fst
  rw [hl] at hc
  have hd := Nat.div_add_mod count frame.frameW
  have hm := Nat.mod_lt count hw
  rw [← h.remainder] at hd hm
  rw [emitIndex, wp_ite, if_neg (Nat.not_le.mpr hi), wp_ite, if_neg (Nat.not_le.mpr hc), wp_bind,
    storeRow, wp_bind]
  refine wp_card_check ?_
  rw [wp_modify]
  dsimp only
  have hr : ∀ i < used + 1, pixels[frame.frameW * (count / frame.frameW) + i]? =
      some (Function.update s.row used index i) := by
    intro i hi'
    by_cases he : i = used
    case pos => rw [he, hd, hx, Function.update_self]
    case neg =>
      rw [Function.update_of_ne he]
      exact h.buffered i (by omega)
  rw [wp_ite]
  split
  case isTrue hn =>
    have hs : count + 1 = frame.frameW * (count / frame.frameW) + (used + 1) := by omega
    have hn : used + 1 < frame.frameW := by omega
    have hq' : (count + 1) / frame.frameW = count / frame.frameW := by
      rw [hs, Nat.mul_add_div hw, Nat.div_eq_of_lt hn, Nat.add_zero]
    refine hq _ _ _ rfl ⟨?_, ?_, ?_⟩
    · rw [hs, Nat.mul_add_mod, Nat.mod_eq_of_lt hn]
    · rw [hq']
      exact hr
    · rw [hq']
      exact h.delivered
  case isFalse hn =>
    have hs : count + 1 = frame.frameW * (count / frame.frameW + 1) := by
      rw [Nat.mul_succ]
      omega
    have hq' : (count + 1) / frame.frameW = count / frame.frameW + 1 := by
      rw [hs, Nat.mul_div_cancel_left _ hw]
    have hj : count / frame.frameW < frame.frameH :=
      Nat.div_lt_of_lt_mul hc
    rw [hq', Nat.add_sub_cancel]
    change wp (card v) (if rowAt interlaced frame.frameH (count / frame.frameW) ≥ frame.frameH
      then _ else _) Q _ rows
    rw [wp_ite, if_neg (Nat.not_le.mpr (rowAt_lt hj)), wp_bind, wp_get]
    beta_reduce
    rw [wp_bind, wp_call]
    refine ⟨trivial, fun _ _ => hq _ _ _ rfl ⟨?_, ?_, ?_⟩⟩
    · rw [hs, Nat.mul_mod_right]
    · rintro _ ⟨⟩
    · rw [hq', List.range_succ, List.map_append, ← List.append_assoc, ← h.delivered]
      refine congrArg (rows ++ [·]) ?_
      rw [rowCall, ← getElem?_row fun i hi => hr i (by omega)]
      rfl

-- A string that has been pushed from its end on.
def Stacked (string : List UInt8) (s : Globals) : Prop :=
  ∀ i < string.length, string.reverse[i]? = some (s.lzwStack i)

theorem Stacked.head {index : UInt8} (h : Stacked (index :: string) s) :
    s.lzwStack string.length = index := by
  have hs := h string.length (Nat.lt_succ_self _)
  rw [List.reverse_cons, List.getElem?_append_right (by rw [List.length_reverse]),
    List.length_reverse, Nat.sub_self] at hs
  exact (Option.some_inj.mp hs).symm

theorem Stacked.tail {index : UInt8} (h : Stacked (index :: string) s) : Stacked string s := by
  intro i hi
  have hs := h i (Nat.lt_succ_of_lt hi)
  rwa [List.reverse_cons, List.getElem?_append_left (by rwa [List.length_reverse])] at hs

include hw hl in
theorem wp_card_emitStack {Q : FileResult × Nat × Nat → Globals → List Call → Prop}
    {rest : List UInt8} (hi : ∀ index ∈ string, index.toNat < paletteSize)
    (hx : pixels.drop count = string ++ rest) (ht : Stacked string s)
    (h : Drawn frame palette paletteSize interlaced pixels rows₀ count used s rows)
    (hq : ∀ used' s' rows', Rowed s s' →
      Drawn frame palette paletteSize interlaced pixels rows₀ (count + string.length) used' s'
        rows' →
      Q (.ok, count + string.length, used') s' rows') :
    wp (card v) (emitStack frame palette paletteSize interlaced string.length count used) Q s
      rows := by
  induction string generalizing count used s rows with
  | nil                => exact hq _ _ _ .refl h
  | cons index string ih =>
    obtain ⟨hi, hi'⟩ := List.forall_mem_cons.mp hi
    have hx₀ : pixels[count]? = some index := by
      rw [← Nat.add_zero count, ← List.getElem?_drop, hx]
      rfl
    have hx₁ : pixels.drop (count + 1) = string ++ rest := by
      rw [← List.drop_drop, hx]
      rfl
    rw [List.length_cons] at hq ⊢
    rw [emitStack, wp_bind]
    refine wp_card_check ?_
    rw [wp_bind, wp_get]
    beta_reduce
    rw [wp_bind, ht.head]
    refine wp_card_emitIndex hw hl hi hx₀ h fun used₁ s₁ rows₁ hr₁ h₁ => ?_
    dsimp only
    rw [wp_ite, if_neg (by decide)]
    have ht₁ : Stacked string s₁ := by
      intro i hi
      rw [hr₁]
      exact ht.tail i hi
    refine ih hi' hx₁ ht₁ h₁ fun used₂ s₂ rows₂ hr₂ h₂ => ?_
    rw [Nat.add_right_comm, Nat.add_assoc] at h₂ ⊢
    exact hq used₂ s₂ rows₂ (hr₁.trans hr₂) h₂

end Emit

end Gif
