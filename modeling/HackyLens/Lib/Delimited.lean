import Mathlib.Data.List.Basic
import Mathlib.Tactic

-- Cutting a stream into delimited packets of bounded length, one element at a time.
namespace Delimited

variable {α : Type _} [DecidableEq α] (delim : α) (limit : Nat)

inductive Outcome (α : Type _)
  | oversized
  | packet (elems : List α)

-- What the machine remembers of the unterminated rest of the stream: the rest itself, or, once it
-- is longer than `limit`, only that it is too long.
structure Machine (α : Type _) where
  buffer     : List α
  discarding : Bool

namespace Machine

def reset : Machine α where
  buffer     := []
  discarding := false

def feed (m : Machine α) (a : α) : Option (Outcome α) × Machine α :=
  if a ≠ delim then
    if m.discarding then (none, m)
    else if limit ≤ m.buffer.length then (none, { buffer := [], discarding := true })
    else (none, { m with buffer := m.buffer ++ [a] })
  else if m.discarding then (some .oversized, reset)
  else if m.buffer = [] then (none, reset)
  else (some (.packet m.buffer), reset)

def run (m : Machine α) : List α → List (Outcome α) × Machine α
  | [] => ([], m)
  | a :: stream =>
    let (outcome, m₁) := m.feed delim limit a
    let (outcomes, m₂) := m₁.run stream
    (outcome.toList ++ outcomes, m₂)

end Machine

-- The specification: cut at every delimiter, drop what is empty and the unterminated rest.
def segments (stream : List α) : List (List α) :=
  (stream.splitOn delim).dropLast.filter (· ≠ [])

def outcome (segment : List α) : Outcome α :=
  if segment.length ≤ limit then .packet segment else .oversized

variable {delim limit}

@[simp]
theorem segments_nil : segments delim ([] : List α) = [] := by
  simp [segments]

theorem segments_of_not_mem {rest : List α} (h : delim ∉ rest) : segments delim rest = [] := by
  simp [segments, List.splitOn_eq_singleton h]

-- What comes before a delimiter has no bearing on what comes after it.
theorem segments_append_delim (stream₁ stream₂ : List α) :
    segments delim (stream₁ ++ delim :: stream₂) =
      segments delim (stream₁ ++ [delim]) ++ segments delim stream₂ := by
  simp only [segments, List.splitOn_append_cons_self, List.splitOn_nil,
    List.dropLast_append_of_ne_nil (List.splitOn_ne_nil delim stream₂), List.dropLast_concat,
    List.filter_append]

theorem segments_append_cons {rest : List α} (h : delim ∉ rest) (stream : List α) :
    segments delim (rest ++ delim :: stream) =
      (if rest = [] then [] else [rest]) ++ segments delim stream := by
  simp only [segments, List.splitOn_append_cons_self_of_not_mem h]
  rw [List.dropLast_cons_of_ne_nil (List.splitOn_ne_nil delim stream)]
  by_cases hr : rest = [] <;> simp [hr]

namespace Machine

variable (limit) in
def ofRest (rest : List α) : Machine α :=
  if rest.length ≤ limit then { buffer := rest, discarding := false }
  else { buffer := [], discarding := true }

omit [DecidableEq α] in
@[simp]
theorem ofRest_nil : ofRest limit ([] : List α) = reset := by
  simp [ofRest, reset]

theorem feed_ofRest_of_ne {a : α} (rest : List α) (h : a ≠ delim) :
    (ofRest limit rest).feed delim limit a = (none, ofRest limit (rest ++ [a])) := by
  by_cases hl : rest.length ≤ limit
  case neg =>
    have : ¬ rest.length + 1 ≤ limit := by omega
    simp [ofRest, feed, h, hl, this]
  case pos =>
    by_cases hf : limit ≤ rest.length
    case pos =>
      have : ¬ rest.length + 1 ≤ limit := by omega
      simp [ofRest, feed, h, hl, hf, this]
    case neg =>
      have : rest.length + 1 ≤ limit := by omega
      simp [ofRest, feed, h, hl, hf, this]

theorem feed_ofRest_delim (rest : List α) :
    (ofRest limit rest).feed delim limit delim =
      (if rest = [] then none else some (outcome limit rest), reset) := by
  by_cases hl : rest.length ≤ limit
  case pos => by_cases hr : rest = [] <;> simp [ofRest, feed, outcome, hl, hr]
  case neg =>
    have hr : rest ≠ [] := by rintro rfl; simp at hl
    simp [ofRest, feed, outcome, hl, hr]

-- By induction on the stream; the machine state stands for the rest seen so far.
theorem run_ofRest {rest : List α} (h : delim ∉ rest) (stream : List α) :
    ((ofRest limit rest).run delim limit stream).1 =
      (segments delim (rest ++ stream)).map (outcome limit) := by
  induction stream generalizing rest
  case nil => simp [run, segments_of_not_mem h]
  case cons a stream hi =>
    by_cases ha : a = delim
    case pos =>
      subst ha
      have hn := @hi [] (by simp)
      simp only [ofRest_nil, List.nil_append] at hn
      simp only [run, feed_ofRest_delim, segments_append_cons h, hn]
      by_cases hr : rest = [] <;> simp [hr]
    case neg =>
      have hn := @hi (rest ++ [a]) (by simp [h, Ne.symm ha])
      simp only [List.append_assoc, List.singleton_append] at hn
      simp [run, feed_ofRest_of_ne rest ha, hn]

theorem run_reset (stream : List α) :
    (reset.run delim limit stream).1 = (segments delim stream).map (outcome limit) := by
  have hr : delim ∉ ([] : List α) := by simp
  simpa using run_ofRest hr stream

end Machine
end Delimited
