import Mathlib.Tactic.Common

-- Chains through a successor function, which go on as long as they lead to something that is live.

namespace Chain

variable {α : Type} {live : α → Prop}

inductive Reaches (next : α → α) (live : α → Prop) (a : α) : α → Prop
  | start : live a → Reaches next live a a
  | step {b} : Reaches next live a b → live (next b) → Reaches next live a (next b)

namespace Reaches

variable {next next' : α → α} {a b : α}

-- What is closed under the successors contains all that is reached.
theorem closed {P : α → Prop} (h : Reaches next live a b) (ha : P a)
    (hs : ∀ c, P c → live (next c) → P (next c)) : P b := by
  induction h with
  | start       => exact ha
  | step _ h ih => exact hs _ ih h

theorem isLive (h : Reaches next live a b) : live b := by
  induction h with
  | start h    => exact h
  | step _ h _ => exact h

theorem root_isLive (h : Reaches next live a b) : live a := by
  induction h with
  | start h     => exact h
  | step _ _ ih => exact ih

theorem cons (ha : live a) (h : Reaches next live (next a) b) : Reaches next live a b := by
  induction h with
  | start h     => exact .step (.start ha) h
  | step _ h ih => exact .step ih h

-- Only the links that are followed matter.
theorem mono (h : Reaches next live a b)
    (hn : ∀ c, Reaches next live a c → live (next c) → next' c = next c) :
    Reaches next' live a b := by
  induction h with
  | start h => exact .start h
  | @step c hc h ih =>
    have he := hn c hc h
    exact he ▸ .step ih (he.symm ▸ h)

end Reaches
end Chain
