import Mathlib.Data.List.Induction
import Mathlib.Data.List.Nodup
import Mathlib.Data.List.Sort

-- A choice from the best element to the worst, where what has been taken may exclude others, and
-- the order in which the best ones come first.

namespace Greedy

section Keep

variable {α : Type} (clash : α → α → Prop) [DecidableRel clash]

-- What is taken from a list whose best elements come first.
def keep (as : List α) : List α :=
  as.foldl (fun kept a => if ∃ b ∈ kept, clash b a then kept else kept ++ [a]) []

variable {clash} {as : List α} {a : α}

theorem keep_concat : keep clash (as ++ [a]) =
    if ∃ b ∈ keep clash as, clash b a then keep clash as else keep clash as ++ [a] := by
  rw [keep, List.foldl_append, List.foldl_cons, List.foldl_nil]
  rfl

theorem mem_of_mem_keep (h : a ∈ keep clash as) : a ∈ as := by
  induction as using List.reverseRecOn with
  | nil => exact h
  | append_singleton as b ih =>
    rw [keep_concat] at h
    split at h
    case isTrue  => exact List.mem_append_left _ (ih h)
    case isFalse =>
      obtain h | h := List.mem_append.mp h
      · exact List.mem_append_left _ (ih h)
      · exact List.mem_append_right _ h

theorem mem_keep_concat_iff {b : α} : b ∈ keep clash (as ++ [a]) ↔
    b ∈ keep clash as ∨ b = a ∧ ∀ c ∈ keep clash as, ¬clash c a := by
  rw [keep_concat]
  split
  case isTrue hclash =>
    obtain ⟨c, hc, hca⟩ := hclash
    exact ⟨.inl, fun h => h.resolve_right fun hb => hb.2 c hc hca⟩
  case isFalse hfree =>
    have hfree : ∀ c ∈ keep clash as, ¬clash c a := fun c hc hca => hfree ⟨c, hc, hca⟩
    rw [List.mem_append, List.mem_singleton]
    exact or_congr_right ⟨fun hb => ⟨hb, hfree⟩, fun hb => hb.1⟩

theorem keep_pairwise (as : List α) : (keep clash as).Pairwise fun b a => ¬clash b a := by
  induction as using List.reverseRecOn with
  | nil => exact List.Pairwise.nil
  | append_singleton as a ih =>
    rw [keep_concat]
    split
    case isTrue        => exact ih
    case isFalse hfree =>
      refine List.pairwise_append.mpr ⟨ih, List.pairwise_singleton _ _, fun b hb c hc hbc => ?_⟩
      rw [List.mem_singleton.mp hc] at hbc
      exact hfree ⟨b, hb, hbc⟩

-- What is taken is what no better element that is taken excludes, and nothing else is.
theorem mem_keep_iff_of_fixed {better : α → α → Prop} (hsorted : as.Pairwise better)
    (hasymm : ∀ b c, better b c → ¬better c b) {S : α → Prop}
    (hS : ∀ b, S b ↔ b ∈ as ∧ ∀ c, S c → better c b → ¬clash c b) (b : α) :
    S b ↔ b ∈ keep clash as := by
  induction as using List.reverseRecOn generalizing S b with
  | nil => exact (hS b).trans ⟨fun h => h.1, fun h => absurd h List.not_mem_nil⟩
  | append_singleton as a ih =>
    obtain ⟨hsorted, -, hlast⟩ := List.pairwise_append.mp hsorted
    have hbetter (c : α) (hc : c ∈ as) : better c a := hlast c hc a (List.mem_singleton_self a)
    have hmem (c : α) (hc : S c) : c ∈ as ∨ c = a := by
      obtain hc | hc := List.mem_append.mp ((hS c).mp hc).1
      · exact .inl hc
      · exact .inr (List.mem_singleton.mp hc)
    have hrest (c : α) : S c ∧ c ∈ as ↔ c ∈ as ∧ ∀ d, S d ∧ d ∈ as → better d c → ¬clash d c := by
      constructor
      · intro h
        exact ⟨h.2, fun d hd => ((hS c).mp h.1).2 d hd.1⟩
      · intro h
        refine ⟨(hS c).mpr ⟨List.mem_append_left _ h.1, fun d hd hdc => ?_⟩, h.1⟩
        obtain hd' | rfl := hmem d hd
        · exact h.2 d ⟨hd, hd'⟩ hdc
        · exact absurd (hbetter c h.1) (hasymm _ _ hdc)
    have hkeep (c : α) : S c ∧ c ∈ as ↔ c ∈ keep clash as := ih hsorted hrest c
    rw [mem_keep_concat_iff, ← hkeep b]
    constructor
    · intro h
      obtain hb | rfl := hmem b h
      · exact .inl ⟨h, hb⟩
      · refine .inr ⟨rfl, fun c hc => ?_⟩
        obtain ⟨hSc, hcas⟩ := (hkeep c).mpr hc
        exact ((hS b).mp h).2 c hSc (hbetter c hcas)
    · intro h
      obtain h | ⟨rfl, hfree⟩ := h
      · exact h.1
      · refine (hS b).mpr ⟨List.mem_append_right _ (List.mem_singleton_self b), fun c hc hcb => ?_⟩
        obtain hcas | rfl := hmem c hc
        · exact hfree c ((hkeep c).mp ⟨hc, hcas⟩)
        · exact absurd hcb (hasymm _ _ hcb)

end Keep

section Order

variable {α : Type} {le : α → α → Bool}

-- The sorted list begins with its first element and goes on with the others in order.
theorem mergeSort_eq_cons [BEq α] [LawfulBEq α]
    (htrans : ∀ a b c, le a b → le b c → le a c)
    (htotal : ∀ a b, le a b || le b a) (hantisymm : ∀ a b, le a b → le b a → a = b)
    {as : List α} {a : α} (ha : a ∈ as) (hfirst : ∀ b ∈ as, le a b) :
    as.mergeSort le = a :: (as.erase a).mergeSort le := by
  have hperm : (as.mergeSort le).Perm (a :: (as.erase a).mergeSort le) :=
    (List.mergeSort_perm as le).trans ((List.perm_cons_erase ha).trans
      ((List.mergeSort_perm (as.erase a) le).symm.cons a))
  refine hperm.eq_of_pairwise (fun b c _ _ => hantisymm b c)
    (List.pairwise_mergeSort htrans htotal as)
    (List.pairwise_cons.mpr ⟨fun b hb => ?_, List.pairwise_mergeSort htrans htotal _⟩)
  exact hfirst b (List.mem_of_mem_erase (List.mem_mergeSort.mp hb))

theorem filter_mergeSort (htrans : ∀ a b c, le a b → le b c → le a c)
    (htotal : ∀ a b, le a b || le b a) (hantisymm : ∀ a b, le a b → le b a → a = b)
    (as : List α) (f : α → Bool) :
    (as.mergeSort le).filter f = (as.filter f).mergeSort le := by
  have hperm : ((as.mergeSort le).filter f).Perm ((as.filter f).mergeSort le) :=
    ((List.mergeSort_perm as le).filter f).trans (List.mergeSort_perm (as.filter f) le).symm
  exact hperm.eq_of_pairwise (fun b c _ _ => hantisymm b c)
    ((List.pairwise_mergeSort htrans htotal as).filter f)
    (List.pairwise_mergeSort htrans htotal _)

end Order

end Greedy
