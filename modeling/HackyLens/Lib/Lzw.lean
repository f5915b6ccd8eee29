import HackyLens.Lib.BitStream

-- The compression by Lempel, Ziv and Welch with codes of up to 12 bits, as GIF has it. The literals
-- have `k` bits. What an encoder may emit is a relation, as it is free to clear its table whenever
-- it likes, and need not take the longest string that its table has.

namespace LZW

def tableSize : Nat := 4096

def clearCode (k : Nat) : Nat := 2 ^ k
def endCode (k : Nat) : Nat := clearCode k + 1

-- The code of the next entry.
def nextCode (k : Nat) (entries : List (List UInt8)) : Nat :=
  clearCode k + 2 + entries.length

-- A code has as many bits as it takes to write all that have been given out.
def width (k : Nat) (entries : List (List UInt8)) : Nat :=
  (nextCode k entries - 1).size

inductive Denotes (k : Nat) (entries : List (List UInt8)) : Nat → List UInt8 → Prop
  | literal {code} (h : code < clearCode k) : Denotes k entries code [.ofNat code]
  | entry {i string} (h : entries[i]? = some string) :
    Denotes k entries (clearCode k + 2 + i) string

-- The table after `string` has been emitted, in front of `rest`. The entry is the string with the
-- next symbol, without which it is of no more use.
def extend (k : Nat) (entries : List (List UInt8)) (string rest : List UInt8) :
    List (List UInt8) :=
  if nextCode k entries < tableSize then entries ++ [string ++ rest.take 1] else entries

-- `Encodes k entries symbols codes`: an encoder with these entries may emit the codes, each with
-- its width, for the symbols that are left.
inductive Encodes (k : Nat) : List (List UInt8) → List UInt8 → List (Nat × Nat) → Prop
  | finish {entries} : Encodes k entries [] [(endCode k, width k entries)]
  | clear {entries symbols codes} :
    Encodes k [] symbols codes → Encodes k entries symbols ((clearCode k, width k entries) :: codes)
  | code {entries code string rest codes} :
    Denotes k entries code string → Encodes k (extend k entries string rest) rest codes →
    Encodes k entries (string ++ rest) ((code, width k entries) :: codes)

variable {k code : Nat} {entries : List (List UInt8)} {string rest symbols : List UInt8}
variable {codes : List (Nat × Nat)}

def bits (codes : List (Nat × Nat)) : List Bool :=
  codes.flatMap fun c => BitStream.ofNat c.snd c.fst

@[simp]
theorem bits_cons {c : Nat × Nat} : bits (c :: codes) = BitStream.ofNat c.snd c.fst ++ bits codes :=
  rfl

example : Encodes 2 [] [1, 1, 1] [(4, 3), (1, 3), (6, 3), (5, 3)] := by
  have h₁ : Denotes 2 [] 1 [1] := .literal (by decide)
  have h₂ : Denotes 2 [[1, 1]] 6 [1, 1] := .entry (i := 0) rfl
  exact .clear (.code h₁ (.code h₂ .finish))

-- The entries of a table that an encoder can have.
structure Table (k : Nat) (entries : List (List UInt8)) : Prop where
  full : nextCode k entries ≤ tableSize
  length : ∀ i string, entries[i]? = some string → 0 < string.length ∧ string.length ≤ i + 2

theorem Table.nil (hk : k ≤ 8) : Table k [] := by
  have : 2 ^ k ≤ 2 ^ 8 := Nat.pow_le_pow_right (by decide) hk
  refine ⟨?_, ?_⟩
  · rw [nextCode, clearCode, tableSize, List.length_nil]
    omega
  · rintro i string ⟨⟩

theorem Denotes.length_pos (h : Denotes k entries code string) (ht : Table k entries) :
    0 < string.length := by
  cases h with
  | literal h => exact Nat.one_pos
  | entry h   => exact (ht.length _ _ h).left

-- A string has at most one symbol more than there are entries.
theorem Denotes.length_le (h : Denotes k entries code string) (ht : Table k entries) :
    string.length ≤ entries.length + 1 := by
  cases h with
  | literal h => exact Nat.le_add_left ..
  | entry h   =>
    have hi := (List.getElem?_eq_some_iff.mp h).fst
    have hl := (ht.length _ _ h).right
    omega

theorem Denotes.lt (h : Denotes k entries code string) : code < nextCode k entries := by
  cases h with
  | literal h =>
    rw [nextCode]
    omega
  | entry h =>
    have hi := (List.getElem?_eq_some_iff.mp h).fst
    rw [nextCode]
    omega

theorem Table.extend (ht : Table k entries) (h : Denotes k entries code string) :
    Table k (LZW.extend k entries string rest) := by
  rw [LZW.extend]
  split
  case isFalse => exact ht
  case isTrue hn =>
  refine ⟨?_, fun i string' hi => ?_⟩
  · rw [nextCode] at hn ⊢
    rw [List.length_append]
    exact hn
  · rcases Nat.lt_trichotomy i entries.length with hl | rfl | hl
    · rw [List.getElem?_append_left hl] at hi
      exact ht.length i string' hi
    · rw [List.getElem?_append_right (Nat.le_refl _), Nat.sub_self] at hi
      cases hi
      have := h.length_pos ht
      have := h.length_le ht
      have := List.length_take_le 1 rest
      rw [List.length_append]
      omega
    · rw [List.getElem?_eq_none (by rw [List.length_append]; exact hl)] at hi
      cases hi

theorem two_pow_le_nextCode : 2 ^ k + 2 ≤ nextCode k entries :=
  Nat.le_add_right ..

theorem lt_width : nextCode k entries - 1 < 2 ^ width k entries :=
  Nat.lt_size_self _

end LZW
