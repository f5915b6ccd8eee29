import HackyLens.Display.Render

-- What a batch amounts to: its commands, their text and the regions that they damage.

namespace Display

namespace Rect

-- Each pixel of the inner rectangle is in the outer one, and there is one.
def Covers (outer inner : Rect) : Prop :=
  inner.empty = false ∧ outer.x ≤ inner.x ∧ outer.y ≤ inner.y ∧
    inner.x + inner.width ≤ outer.x + outer.width ∧
    inner.y + inner.height ≤ outer.y + outer.height

variable {r r₁ r₂ r₃ : Rect}

theorem empty_eq_false : r.empty = false ↔ 0 < r.width ∧ 0 < r.height := by
  simp [empty, Nat.pos_iff_ne_zero]

theorem overlaps_iff : r₁.overlaps r₂ = true ↔ r₁.x < r₂.x + r₂.width ∧ r₂.x < r₁.x + r₁.width ∧
    r₁.y < r₂.y + r₂.height ∧ r₂.y < r₁.y + r₁.height := by
  simp [overlaps, and_assoc]

theorem overlaps_comm : r₁.overlaps r₂ = r₂.overlaps r₁ := by
  rw [Bool.eq_iff_iff, overlaps_iff, overlaps_iff]
  omega

theorem Covers.refl (h : r.empty = false) : r.Covers r :=
  ⟨h, le_rfl, le_rfl, le_rfl, le_rfl⟩

theorem Covers.trans (h₁ : r₁.Covers r₂) (h₂ : r₂.Covers r₃) : r₁.Covers r₃ := by
  refine ⟨h₂.1, ?_, ?_, ?_, ?_⟩ <;> unfold Covers at * <;> omega

theorem Covers.outer_nonempty (h : r₁.Covers r₂) : r₁.empty = false := by
  have hi := empty_eq_false.mp h.1
  rw [empty_eq_false]
  unfold Covers at h
  omega

theorem Covers.overlaps (h : r₁.Covers r₂) : r₂.overlaps r₁ = true := by
  have hi := empty_eq_false.mp h.1
  rw [overlaps_iff]
  unfold Covers at h
  omega

-- What overlaps a part overlaps the whole.
theorem Covers.overlaps_of_overlaps (h : r₁.Covers r₂) (ho : r₂.overlaps r₃ = true) :
    r₁.overlaps r₃ = true := by
  rw [overlaps_iff] at *
  unfold Covers at h
  omega

theorem Covers.union_eq (h : r₁.Covers r₂) : r₂.union r₁ = r₁ := by
  unfold Covers at h
  ext <;> simp only [union] <;> omega

theorem union_covers_left (h : r₁.empty = false) : (r₁.union r₂).Covers r₁ := by
  refine ⟨h, ?_, ?_, ?_, ?_⟩ <;> simp only [union] <;> omega

theorem union_covers_right (h : r₂.empty = false) : (r₁.union r₂).Covers r₂ := by
  refine ⟨h, ?_, ?_, ?_, ?_⟩ <;> simp only [union] <;> omega

theorem Covers.union (h₁ : r₁.Covers r₂) (h₂ : r₁.Covers r₃) : r₁.Covers (r₂.union r₃) := by
  refine ⟨(union_covers_left h₁.1).outer_nonempty, ?_, ?_, ?_, ?_⟩ <;>
    simp only [Rect.union] <;> unfold Covers at * <;> omega

theorem intersection_eq : r₁.intersection r₂ =
    if min (r₁.x + r₁.width) (r₂.x + r₂.width) ≤ max r₁.x r₂.x ∨
        min (r₁.y + r₁.height) (r₂.y + r₂.height) ≤ max r₁.y r₂.y then
      zero
    else
      ⟨max r₁.x r₂.x, max r₁.y r₂.y,
        (min (r₁.x + r₁.width) (r₂.x + r₂.width) - max r₁.x r₂.x).toNat,
        (min (r₁.y + r₁.height) (r₂.y + r₂.height) - max r₁.y r₂.y).toNat⟩ :=
  rfl

theorem covers_intersection (h : (r₁.intersection r₂).empty = false) :
    r₂.Covers (r₁.intersection r₂) := by
  rw [intersection_eq] at *
  split at h
  case isTrue     => cases h
  case isFalse hn =>
    rw [if_neg hn]
    refine ⟨h, ?_, ?_, ?_, ?_⟩ <;> dsimp only <;> omega

theorem union_nonempty (h : r₁.empty = false) : (r₁.union r₂).empty = false :=
  (union_covers_left h).outer_nonempty

end Rect

-- The regions of a damage list share no pixel, none of them is empty, and they are not too many.
structure Damage (dirty : List Rect) : Prop where
  apart : dirty.Pairwise fun r₁ r₂ => r₁.overlaps r₂ = false
  nonempty : ∀ r ∈ dirty, r.empty = false
  bound : dirty.length ≤ maxDirtyRects

-- One of the regions covers the rectangle.
def Spanned (dirty : List Rect) (rect : Rect) : Prop :=
  ∃ r ∈ dirty, r.Covers rect

theorem Damage.nil : Damage [] where
  apart      := .nil
  nonempty _ := nofun
  bound      := Nat.zero_le _

variable {dirty dirty' rects : List Rect} {rect candidate : Rect} {index fuel : Nat}

theorem dirtyRemove_perm (hi : index < dirty.length) :
    (dirty.getD index .zero :: dirtyRemove dirty index).Perm dirty := by
  obtain rfl | ⟨front, last, rfl⟩ := dirty.eq_nil_or_concat
  · cases hi
  have hi : index ≤ front.length := by simpa [Nat.lt_succ_iff] using hi
  have hd : (front ++ [last]).getD index .zero = front.getD index last := by
    obtain hi | rfl := hi.lt_or_eq
    · simp [List.getD_eq_getElem?_getD, List.getElem?_append_left, hi]
    · simp [List.getD_eq_getElem?_getD]
  have hr : dirtyRemove (front ++ [last]) index = front.set index last := by
    obtain hi | rfl := hi.lt_or_eq
    · simp [dirtyRemove, hi]
    · simp [dirtyRemove]
      exact (List.set_eq_of_length_le le_rfl).symm
  rw [List.concat_eq_append, hd, hr]
  exact (List.getD_set_perm_cons ..).trans (List.perm_append_singleton ..).symm

-- What becomes of a candidate and of a list of regions that share no pixel.
structure Absorbed (candidate : Rect) (dirty : List Rect) (result : Rect × List Rect) : Prop where
  covers : result.1.Covers candidate
  mem : ∀ r ∈ result.2, r ∈ dirty
  apart : result.2.Pairwise fun r₁ r₂ => r₁.overlaps r₂ = false
  off : ∀ r ∈ result.2, result.1.overlaps r = false
  kept : ∀ r ∈ dirty, r ∈ result.2 ∨ result.1.Covers r
  length : result.2.length ≤ dirty.length
  shorter : (∃ r ∈ dirty, candidate.overlaps r = true) → result.2.length < dirty.length
  inside : ∀ outer : Rect, outer.Covers candidate → (∀ r ∈ dirty, outer.Covers r) →
    outer.Covers result.1

theorem dirtyAbsorb_absorbed (ha : dirty.Pairwise fun r₁ r₂ => r₁.overlaps r₂ = false)
    (hn : ∀ r ∈ dirty, r.empty = false) (hc : candidate.empty = false)
    (hf : dirty.length ≤ fuel) : Absorbed candidate dirty (dirtyAbsorb fuel candidate dirty) := by
  induction fuel generalizing candidate dirty with
  | zero =>
    have hd : dirty = [] := List.length_eq_zero_iff.mp (Nat.le_zero.mp hf)
    subst hd
    exact {
      covers  := .refl hc
      mem _   := id
      apart   := .nil
      off _   := nofun
      kept _  := nofun
      length  := le_rfl
      shorter := by simp
      inside _ hc _ := hc }
  | succ fuel ih =>
    unfold dirtyAbsorb
    split
    case h_1 hi =>
      have hi := List.findIdx?_eq_none_iff.mp hi
      exact {
        covers    := .refl hc
        mem _     := id
        apart     := ha
        off       := hi
        kept _    := .inl
        length    := le_rfl
        shorter h := by
          obtain ⟨r, hr, ho⟩ := h
          cases (hi r hr).symm.trans ho
        inside _ hc _ := hc }
    case h_2 index hi =>
      obtain ⟨hi, ho, -⟩ := List.findIdx?_eq_some_iff_getElem.mp hi
      have hp := dirtyRemove_perm hi
      have hd : dirty.getD index .zero ∈ dirty := hp.subset List.mem_cons_self
      generalize dirty.getD index .zero = found at hp hd ⊢
      have hl : (dirtyRemove dirty index).length + 1 = dirty.length := hp.length_eq
      have ha := (hp.pairwise_iff fun h => Rect.overlaps_comm.trans h).mpr ha
      have h := @ih (dirtyRemove dirty index) (candidate.union found) ha.tail
        (fun r hr => hn r (hp.subset (List.mem_cons_of_mem _ hr))) (Rect.union_nonempty hc)
        (by omega)
      exact {
        covers    := h.covers.trans (Rect.union_covers_left hc)
        mem r hr  := hp.subset (List.mem_cons_of_mem _ (h.mem r hr))
        apart     := h.apart
        off       := h.off
        kept r hr := by
          obtain rfl | hr := List.mem_cons.mp (hp.symm.subset hr)
          · exact .inr (h.covers.trans (Rect.union_covers_right (hn _ hd)))
          · exact h.kept r hr
        length    := h.length.trans (by omega)
        shorter _ := h.length.trans_lt (by omega)
        inside outer hc hs :=
          h.inside outer (hc.union (hs _ hd)) fun r hr =>
            hs r (hp.subset (List.mem_cons_of_mem _ hr)) }

theorem Damage.absorbed (h : Damage dirty) (hr : rect.empty = false) :
    Absorbed rect dirty (dirtyAbsorb dirty.length rect dirty) :=
  dirtyAbsorb_absorbed h.apart h.nonempty hr le_rfl

theorem dirtyAdd_eq (hr : rect.empty = false) :
    dirtyAdd dirty rect =
      if (dirtyAbsorb dirty.length rect dirty).2.length ≥ maxDirtyRects then none
      else some ((dirtyAbsorb dirty.length rect dirty).2 ++
        [(dirtyAbsorb dirty.length rect dirty).1]) :=
  if_neg (by simp [hr])

theorem Damage.add (h : Damage dirty) (ha : dirtyAdd dirty rect = some dirty') : Damage dirty' := by
  cases hr : rect.empty
  case true =>
    rw [dirtyAdd, if_pos hr] at ha
    exact Option.some_inj.mp ha ▸ h
  rw [dirtyAdd_eq hr] at ha
  have hb := h.absorbed hr
  generalize dirtyAbsorb dirty.length rect dirty = absorbed at hb ha
  split at ha
  case isTrue  => cases ha
  case isFalse hl =>
    cases ha
    constructor
    · refine List.pairwise_append.mpr ⟨hb.apart, List.pairwise_singleton .., ?_⟩
      intro r hr r' hr'
      rw [List.mem_singleton.mp hr', Rect.overlaps_comm]
      exact hb.off r hr
    · intro r hr
      obtain hr | hr := List.mem_append.mp hr
      · exact h.nonempty r (hb.mem r hr)
      · exact List.mem_singleton.mp hr ▸ hb.covers.outer_nonempty
    · rw [List.length_append]
      exact Nat.lt_of_not_le hl

-- What is damaged inside of a rectangle stays there.
theorem Damage.inside_add {outer : Rect} (h : Damage dirty)
    (ha : dirtyAdd dirty rect = some dirty') (hd : ∀ r ∈ dirty, outer.Covers r)
    (hr : rect.empty = false → outer.Covers rect) : ∀ r ∈ dirty', outer.Covers r := by
  cases he : rect.empty
  case true =>
    rw [dirtyAdd, if_pos he] at ha
    exact Option.some_inj.mp ha ▸ hd
  rw [dirtyAdd_eq he] at ha
  have hb := h.absorbed he
  generalize dirtyAbsorb dirty.length rect dirty = absorbed at hb ha
  split at ha
  case isTrue  => cases ha
  case isFalse =>
    cases ha
    intro r hm
    obtain hm | hm := List.mem_append.mp hm
    · exact hd r (hb.mem r hm)
    · exact List.mem_singleton.mp hm ▸ hb.inside outer (hr he) hd

-- What was covered stays covered, and so is the rectangle.
theorem Damage.spanned_add (h : Damage dirty) (ha : dirtyAdd dirty rect = some dirty') :
    (∀ r, Spanned dirty r → Spanned dirty' r) ∧ (rect.empty = false → Spanned dirty' rect) := by
  cases hr : rect.empty
  case true =>
    rw [dirtyAdd, if_pos hr] at ha
    cases ha
    exact ⟨fun _ => id, nofun⟩
  rw [dirtyAdd_eq hr] at ha
  have hb := h.absorbed hr
  generalize dirtyAbsorb dirty.length rect dirty = absorbed at hb ha
  split at ha
  case isTrue  => cases ha
  case isFalse hl =>
    cases ha
    have hm : absorbed.1 ∈ absorbed.2 ++ [absorbed.1] := by simp
    refine ⟨fun r ⟨outer, ho, hc⟩ => ?_, fun _ => ⟨absorbed.1, hm, hb.covers⟩⟩
    obtain hk | hk := hb.kept outer ho
    · exact ⟨outer, List.mem_append_left _ hk, hc⟩
    · exact ⟨absorbed.1, hm, hk.trans hc⟩

-- There is always room for what is covered already.
theorem Damage.add_spanned (h : Damage dirty) (hs : Spanned dirty rect) :
    ∃ dirty', dirtyAdd dirty rect = some dirty' := by
  obtain ⟨outer, ho, hc⟩ := hs
  have hb := h.absorbed hc.1
  have hl := hb.shorter ⟨outer, ho, hc.overlaps⟩
  rw [dirtyAdd_eq hc.1, if_neg (Nat.not_le.mpr (hl.trans_le h.bound))]
  exact ⟨_, rfl⟩

theorem Damage.addAll (h : Damage dirty) (ha : dirtyAddAll dirty rects = some dirty') :
    Damage dirty' ∧ (∀ r, Spanned dirty r → Spanned dirty' r) ∧
      ∀ r ∈ rects, r.empty = false → Spanned dirty' r := by
  induction rects generalizing dirty with
  | nil =>
    cases ha
    exact ⟨h, fun _ => id, fun _ => nofun⟩
  | cons rect rects ih =>
    obtain ⟨dirty₁, hd, ha⟩ := Option.bind_eq_some_iff.mp ha
    have hs := h.spanned_add hd
    obtain ⟨h, hk, hr⟩ := ih (h.add hd) ha
    refine ⟨h, fun r hd => hk r (hs.left r hd), ?_⟩
    intro r hm hn
    obtain rfl | hm := List.mem_cons.mp hm
    · exact hk r (hs.right hn)
    · exact hr r hm hn

theorem Damage.inside_addAll {outer : Rect} (h : Damage dirty)
    (ha : dirtyAddAll dirty rects = some dirty') (hd : ∀ r ∈ dirty, outer.Covers r)
    (hr : ∀ r ∈ rects, r.empty = false → outer.Covers r) : ∀ r ∈ dirty', outer.Covers r := by
  induction rects generalizing dirty with
  | nil =>
    cases ha
    exact hd
  | cons rect rects ih =>
    obtain ⟨dirty₁, hd', ha⟩ := Option.bind_eq_some_iff.mp ha
    refine ih (h.add hd') ha (h.inside_add hd' hd (hr rect List.mem_cons_self)) ?_
    exact fun r hm => hr r (List.mem_cons_of_mem _ hm)

theorem Damage.addAll_spanned (h : Damage dirty) (hs : ∀ r ∈ rects, Spanned dirty r) :
    ∃ dirty', dirtyAddAll dirty rects = some dirty' := by
  induction rects generalizing dirty with
  | nil => exact ⟨dirty, rfl⟩
  | cons rect rects ih =>
    obtain ⟨dirty₁, hd⟩ := h.add_spanned (hs rect List.mem_cons_self)
    have hk := (h.spanned_add hd).left
    obtain ⟨dirty', ha⟩ := ih (h.add hd) fun r hr => hk r (hs r (List.mem_cons_of_mem _ hr))
    exact ⟨dirty', Option.bind_eq_some_iff.mpr ⟨dirty₁, hd, ha⟩⟩

-- Regions that share no pixel are added as they are.
theorem Damage.addAll_eq (h : Damage (dirty ++ rects)) :
    dirtyAddAll dirty rects = some (dirty ++ rects) := by
  induction rects generalizing dirty with
  | nil => simp [dirtyAddAll]
  | cons rect rects ih =>
    have ha := (List.pairwise_append.mp h.apart).right.right
    have hn := h.nonempty rect (by simp)
    have hb := h.bound
    have hf : dirty.findIdx? rect.overlaps = none := by
      refine List.findIdx?_eq_none_iff.mpr fun r hr => ?_
      rw [Rect.overlaps_comm]
      exact ha r hr rect List.mem_cons_self
    have hs : dirtyAbsorb dirty.length rect dirty = (rect, dirty) := by
      cases hd : dirty.length with
      | zero      => rfl
      | succ fuel => rw [dirtyAbsorb, hf]
    have hd : dirtyAdd dirty rect = some (dirty ++ [rect]) := by
      rw [List.length_append, List.length_cons] at hb
      have hl : dirty.length < maxDirtyRects := by omega
      rw [dirtyAdd_eq hn, hs, if_neg (Nat.not_le.mpr hl)]
    rw [dirtyAddAll, List.foldlM_cons, hd]
    have hx : dirty ++ rect :: rects = (dirty ++ [rect]) ++ rects := by simp
    rw [hx] at h ⊢
    exact ih h

-- If nothing is too much, nothing is left out.
theorem dirtyAddAny_eq (ha : dirtyAddAll dirty rects = some dirty') :
    dirtyAddAny dirty rects = dirty' := by
  induction rects generalizing dirty with
  | nil =>
    cases ha
    rfl
  | cons rect rects ih =>
    obtain ⟨dirty₁, hd, ha⟩ := Option.bind_eq_some_iff.mp ha
    rw [dirtyAddAny, List.foldl_cons, hd]
    exact ih ha

-- The command as it is stored, with the place of its text.
def Command.place (command : Command) (textOffset : Nat) (text : List UInt8) : Command :=
  if text = [] then command else { command with textOffset, textLength := text.length }

theorem Command.place_rect {command : Command} {textOffset : Nat} {text : List UInt8} :
    (command.place textOffset text).rect = command.rect := by
  unfold place
  split <;> rfl

-- The content of a batch, or of the overlay that it became.
@[ext]
structure Frame where
  commands : List Command
  text : List UInt8
  dirty : List Rect
  deriving DecidableEq

namespace Frame

def empty : Frame :=
  ⟨[], [], []⟩

-- One more command, if there is room for it. A command without pixels is not stored.
def append (frame : Frame) (command : Command) (text : List UInt8) : Option Frame :=
  if command.rect.empty then
    some frame
  else if frame.commands.length ≥ maxCommands ∨
      text.length > maxTextBytes - frame.text.length then
    none
  else
    (dirtyAdd frame.dirty command.rect).map fun dirty =>
      ⟨frame.commands ++ [command.place frame.text.length text], frame.text ++ text, dirty⟩

-- The damage is that of the commands, and nothing is over its limit.
structure Built (frame : Frame) : Prop where
  dirty : dirtyAddAll [] (frame.commands.map (·.rect)) = some frame.dirty
  nonempty : ∀ c ∈ frame.commands, c.rect.empty = false
  commands : frame.commands.length ≤ maxCommands
  text : frame.text.length ≤ maxTextBytes
  unused : frame.commands = [] → frame.text = []

variable {frame frame' : Frame} {command : Command} {text : List UInt8}

theorem Built.empty : Built .empty where
  dirty      := rfl
  nonempty _ := nofun
  commands   := Nat.zero_le _
  text       := Nat.zero_le _
  unused _   := rfl

theorem Built.damage (h : frame.Built) : Damage frame.dirty :=
  (Damage.nil.addAll h.dirty).left

theorem Built.append (h : frame.Built) (ha : frame.append command text = some frame') :
    frame'.Built ∧ ∀ r, Spanned frame.dirty r → Spanned frame'.dirty r := by
  unfold Frame.append at ha
  split at ha
  case isTrue =>
    cases ha
    exact ⟨h, fun _ => id⟩
  case isFalse hr =>
    split at ha
    case isTrue => cases ha
    case isFalse hl =>
      obtain ⟨dirty, hd, rfl⟩ := Option.map_eq_some_iff.mp ha
      have hc := h.commands
      have ht := h.text
      refine ⟨?_, (h.damage.spanned_add hd).left⟩
      exact {
        dirty         := by
          rw [List.map_append, dirtyAddAll, List.foldlM_append]
          refine Option.bind_eq_some_iff.mpr ⟨frame.dirty, h.dirty, ?_⟩
          simpa [Command.place_rect] using hd
        nonempty c hm := by
          obtain hm | hm := List.mem_append.mp hm
          · exact h.nonempty c hm
          · rw [List.mem_singleton.mp hm, Command.place_rect]
            exact Bool.eq_false_iff.mpr hr
        commands      := by
          simp only [List.length_append, List.length_singleton]
          omega
        text          := by
          rw [List.length_append]
          omega
        unused hn     := by simp at hn }

end Frame
end Display
