import Mathlib.Data.List.Induction
import Mathlib.Order.Lattice

-- A scan for the best one of the elements that may be taken. A later element has to be strictly
-- better.

namespace Best

variable {α K : Type} [LinearOrder K] (ok : α → Prop) [DecidablePred ok] (key : α → K)

def step (found : Option α × K) (a : α) : Option α × K :=
  if key a ≤ found.2 ∨ ¬ok a then found else (some a, key a)

-- The best one that is better than `least`.
def best (least : K) (as : List α) : Option α :=
  (as.foldl (step ok key) (none, least)).1

variable {ok key} {least : K} {as : List α} {a : α}

-- What has been found in a list: nothing, or the first one of the best ones.
inductive Found (ok : α → Prop) (key : α → K) (least : K) (as : List α) : Option α × K → Prop
  | nothing (h : ∀ b ∈ as, ok b → key b ≤ least) : Found ok key least as (none, least)
  | found {before after : List α} (a : α) (has : as = before ++ a :: after) (ha : ok a)
      (hleast : least < key a) (hbefore : ∀ b ∈ before, ok b → key b < key a)
      (hafter : ∀ b ∈ after, ok b → key b ≤ key a) : Found ok key least as (some a, key a)

theorem foldl_found (as : List α) :
    Found ok key least as (as.foldl (step ok key) (none, least)) := by
  induction as using List.reverseRecOn with
  | nil => exact .nothing fun _ h => absurd h (List.not_mem_nil)
  | append_singleton as b ih =>
    rw [List.foldl_append, List.foldl_cons, List.foldl_nil]
    generalize as.foldl (step ok key) (none, least) = found at ih
    cases ih with
    | nothing h =>
      rw [step]
      split
      case isTrue hskip  =>
        refine .nothing fun c hc hok => ?_
        obtain hc | hc := List.mem_append.mp hc
        · exact h c hc hok
        · rw [List.mem_singleton.mp hc] at hok ⊢
          exact hskip.resolve_right (not_not.mpr hok)
      case isFalse hbest =>
        obtain ⟨hbest, hb⟩ := not_or.mp hbest
        have hb := not_not.mp hb
        refine .found b rfl hb (not_le.mp hbest) (fun c hc hok => ?_)
          fun c hc => absurd hc (List.not_mem_nil)
        exact (h c hc hok).trans_lt (not_le.mp hbest)
    | @found before after a has ha hleast hbefore hafter =>
      rw [step]
      split
      case isTrue hskip  =>
        rw [has, List.append_assoc, List.cons_append]
        refine .found a rfl ha hleast hbefore fun c hc hok => ?_
        obtain hc | hc := List.mem_append.mp hc
        · exact hafter c hc hok
        · rw [List.mem_singleton.mp hc] at hok ⊢
          exact hskip.resolve_right (not_not.mpr hok)
      case isFalse hbest =>
        obtain ⟨hbest, hb⟩ := not_or.mp hbest
        have hb := not_not.mp hb
        have hlt := not_le.mp hbest
        refine .found b rfl hb (hleast.trans hlt) (fun c hc hok => ?_)
          fun c hc => absurd hc (List.not_mem_nil)
        rw [has] at hc
        obtain hc | hc := List.mem_append.mp hc
        · exact (hbefore c hc hok).trans hlt
        · obtain rfl | hc := List.mem_cons.mp hc
          · exact hlt
          · exact (hafter c hc hok).trans_lt hlt

theorem le_of_best_eq_none (h : best ok key least as = none) {b : α} (hb : b ∈ as) (hok : ok b) :
    key b ≤ least := by
  have hfound := @foldl_found α K _ ok _ key least as
  rw [best] at h
  generalize as.foldl (step ok key) (none, least) = found at hfound h
  cases hfound with
  | nothing hle => exact hle b hb hok
  | found a     => cases h

theorem best_eq_some (h : best ok key least as = some a) :
    ∃ before after, as = before ++ a :: after ∧ ok a ∧ least < key a ∧
      (∀ b ∈ before, ok b → key b < key a) ∧ ∀ b ∈ after, ok b → key b ≤ key a := by
  have hfound := @foldl_found α K _ ok _ key least as
  rw [best] at h
  generalize as.foldl (step ok key) (none, least) = found at hfound h
  cases hfound with
  | nothing                                  => cases h
  | found b has hb hleast hbefore hafter =>
    cases h
    exact ⟨_, _, has, hb, hleast, hbefore, hafter⟩

theorem mem_of_best_eq_some (h : best ok key least as = some a) :
    a ∈ as ∧ ok a ∧ least < key a := by
  obtain ⟨before, after, has, hok, hleast, -, -⟩ := best_eq_some h
  rw [has]
  exact ⟨List.mem_append_right _ List.mem_cons_self, hok, hleast⟩

theorem le_of_best_eq_some (h : best ok key least as = some a) {b : α} (hb : b ∈ as) (hok : ok b) :
    key b ≤ key a := by
  obtain ⟨before, after, has, -, -, hbefore, hafter⟩ := best_eq_some h
  rw [has] at hb
  obtain hb | hb := List.mem_append.mp hb
  · exact (hbefore b hb hok).le
  · obtain rfl | hb := List.mem_cons.mp hb
    · exact le_rfl
    · exact hafter b hb hok

end Best
