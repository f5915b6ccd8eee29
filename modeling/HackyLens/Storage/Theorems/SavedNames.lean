import Mathlib.Data.List.TakeWhile
import HackyLens.Photo.Theorems.Decoding
import HackyLens.Storage.SavedFile
import HackyLens.Storage.Theorems.Listing

-- The names of saved files: as they are displayed, packed into an entry, listed and parsed.

namespace Fat32

open Core

namespace Writer

-- What the names of a writer are made of.
def letters : Writer → List UInt8
  | photo _    => [0x49, 0x4D, 0x47]
  | screenshot => [0x53, 0x43, 0x52]
  | qrText     => [0x51, 0x52]

def ext : Writer → List UInt8
  | photo format => photoFormatExt format
  | screenshot   => [0x42, 0x4D, 0x50]
  | qrText       => [0x54, 0x58, 0x54]

def expected : Writer → Option (List UInt8)
  | photo _    => none
  | screenshot => some [0x62, 0x6D, 0x70]
  | qrText     => some [0x74, 0x78, 0x74]

end Writer

variable {n : UInt32} {value : UInt32} {digits digits' letters ext name : List UInt8}

theorem parseDigits_append :
    parseDigits (digits ++ digits') value = (parseDigits digits value).bind (parseDigits digits') := by
  induction digits generalizing value with
  | nil => rfl
  | cons c digits ih =>
    rw [List.cons_append, parseDigits, parseDigits]
    split
    · rfl
    · exact ih

theorem parseDigits_zeros {k : Nat} : parseDigits (.replicate k 0x30) 0 = some 0 := by
  induction k with
  | zero => rfl
  | succ k ih => exact ih

-- One decimal digit.
theorem digit {d : Nat} (h : d < 10) : ¬(UInt8.ofNat (0x30 + d) < 0x30 ∨ 0x39 < UInt8.ofNat (0x30 + d)) ∧
    (UInt8.ofNat (0x30 + d) - 0x30).toUInt32 = .ofNat d := by
  interval_cases d <;> decide

theorem parseDigits_digit {d : Nat} (h : d < 10) :
    parseDigits [.ofNat (0x30 + d)] value = some (value * 10 + .ofNat d) := by
  rw [parseDigits, if_neg (digit h).left, (digit h).right, parseDigits]

theorem parseDigits_decimal {n : Nat} : parseDigits (Photo.decimal n) 0 = some (.ofNat n) := by
  induction n using Nat.strong_induction_on with
  | _ n ih =>
    rw [Photo.decimal]
    split
    case isTrue hlt =>
      rw [parseDigits_digit hlt, UInt32.zero_mul, UInt32.zero_add]
    case isFalse hge =>
      rw [parseDigits_append, ih (n / 10) (by omega), Option.bind_some,
        parseDigits_digit (Nat.mod_lt _ (by decide))]
      have he : UInt32.ofNat n = .ofNat (n / 10 * 10 + n % 10) := by rw [Nat.div_add_mod']
      rw [he, UInt32.ofNat_add, UInt32.ofNat_mul]
      rfl

theorem mem_decimal {n : Nat} {c : UInt8} (h : c ∈ Photo.decimal n) : ∃ d < 10, c = .ofNat (0x30 + d) := by
  induction n using Nat.strong_induction_on with
  | _ n ih =>
    rw [Photo.decimal] at h
    split at h
    case isTrue hlt => exact ⟨n, hlt, List.mem_singleton.mp h⟩
    case isFalse hge =>
      rcases List.mem_append.mp h with h | h
      · exact ih (n / 10) (by omega) h
      · exact ⟨n % 10, Nat.mod_lt _ (by decide), List.mem_singleton.mp h⟩

theorem mem_printed05 {c : UInt8} (h : c ∈ printed05 n) : ∃ d < 10, c = .ofNat (0x30 + d) := by
  rcases List.mem_append.mp h with h | h
  · exact ⟨0, by decide, List.eq_of_mem_replicate h⟩
  · exact mem_decimal h

theorem parseDigits_printed05 : parseDigits (printed05 n) 0 = some n := by
  rw [printed05, parseDigits_append, parseDigits_zeros, Option.bind_some, parseDigits_decimal,
    UInt32.ofNat_toNat]

theorem printed05_length (h : n.toNat ≤ 99999) : (printed05 n).length = 5 := by
  have hl : (Photo.decimal n.toNat).length ≤ 4 + 1 := Files.decimal_length_le (by omega)
  rw [printed05, List.length_append, List.length_replicate]
  omega

-- The name of the file with an index.
def displayed (letters ext : List UInt8) (n : UInt32) : List UInt8 :=
  letters ++ printed05 n ++ 0x2E :: ext

theorem displayed_length (h : n.toNat ≤ 99999) (he : ext.length = 3) :
    (displayed letters ext n).length = letters.length + 9 := by
  rw [displayed, List.length_append, List.length_append, printed05_length h, List.length_cons, he]

-- The parser finds the index in the name again.
theorem parseIndex_displayed {expected : Option (List UInt8)} (h : n.toNat ≤ 99999) (hp : 0 < n)
    (he : ext.length = 3) (hx : expected = none ∨ expected = some (ext.map asciiLower)) :
    parseIndex (letters.map asciiLower) expected (displayed letters ext n) = some n := by
  have hlen := printed05_length h
  have hd : displayed letters ext n = letters ++ (printed05 n ++ 0x2E :: ext) := by
    rw [displayed, List.append_assoc]
  have hdrop : (displayed letters ext n).drop letters.length = printed05 n ++ 0x2E :: ext := by
    rw [hd, List.drop_left]
  have hback (k : Nat) : (displayed letters ext n).drop (letters.length + (5 + k)) =
      (0x2E :: ext).drop k := by
    rw [← List.drop_drop, hdrop, ← List.drop_drop, List.drop_left' hlen]
  have hdot : (displayed letters ext n).getD (letters.length + 5) 0 = 0x2E := by
    rw [List.getD_eq_getElem?_getD, ← List.head?_drop, hback 0]
    rfl
  rw [parseIndex, List.length_map, if_neg (by rw [displayed_length h he]; omega), if_neg, if_neg,
    if_neg, hdrop, List.take_left' hlen, parseDigits_printed05]
  · rw [Option.filter_some, if_pos (by simpa using hp)]
  · rcases hx with rfl | rfl
    · exact Bool.false_ne_true
    · rw [show letters.length + 6 = letters.length + (5 + 1) from rfl, hback 1]
      simp
  · rw [hdot]
    exact fun hn => hn rfl
  · rw [hd, List.take_left]
    exact fun hn => hn rfl

section Pack

variable {cluster size : UInt32} {attr : UInt8}

theorem read_makeShortEntry {first len : Nat} (h : first + len ≤ name.length)
    (hl : name.length = 11) :
    (makeShortEntry name attr cluster size).read first len = (name.drop first).take len := by
  refine List.ext_getElem ?_ fun i h₁ h₂ => ?_
  · rw [Memory.read_length, List.length_take, List.length_drop]
    omega
  · rw [Memory.read_length] at h₁
    simp only [Memory.read, List.getElem_map, List.getElem_range, List.getElem_take,
      List.getElem_drop, makeShortEntry]
    rw [if_pos (by omega), List.getD_eq_getElem?_getD, List.getElem?_eq_getElem (by omega),
      Option.getD_some]

-- Neither a space nor the end of a string.
def Plain (name : List UInt8) : Prop :=
  ∀ c ∈ name, c ≠ 0x20 ∧ c ≠ 0

instance : Decidable (Plain name) := List.decidableBAll _ _

theorem Plain.nameField {raw : Memory} {first len : Nat} (h : Plain name)
    (hr : raw.read first len = name) : nameField raw first len = name := by
  rw [Fat32.nameField, hr]
  exact List.takeWhile_eq_self_iff.mpr fun c hc => by simpa using (h c hc).left

theorem Plain.printed (h : Plain name) : printed name = name :=
  List.takeWhile_eq_self_iff.mpr fun c hc => by simpa using (h c hc).right

-- A name with eight characters before the dot is listed as it was packed.
theorem shortName_makeShortEntry {base : List UInt8} (hb : Plain base) (he : Plain ext)
    (hbl : base.length = 8) (hel : ext.length = 3) :
    shortName (makeShortEntry (makeShortName (base ++ 0x2E :: ext) ext) attr cluster size) =
      base ++ 0x2E :: ext := by
  have hs : makeShortName (base ++ 0x2E :: ext) ext = base ++ ext := by
    rw [makeShortName, padded, padded, List.take_left' hbl, List.take_of_length_le (by omega), hel]
    simp [hbl, hel]
  have hl : (makeShortName (base ++ 0x2E :: ext) ext).length = 11 := by
    rw [hs, List.length_append, hbl, hel]
  have hbase : nameField (makeShortEntry (makeShortName (base ++ 0x2E :: ext) ext) attr cluster
      size) 0 8 = base := by
    refine hb.nameField ?_
    rw [read_makeShortEntry (by omega) hl, hs, List.drop_zero, List.take_left' hbl]
  have hext : nameField (makeShortEntry (makeShortName (base ++ 0x2E :: ext) ext) attr cluster
      size) 8 3 = ext := by
    refine he.nameField ?_
    rw [read_makeShortEntry (by omega) hl, hs, List.drop_left' hbl,
      List.take_of_length_le (by omega)]
  have hne : ext.headD 0 ≠ 0 := by
    cases ext with
    | nil      => exact absurd hel (by decide)
    | cons c _ => exact (he c List.mem_cons_self).right
  rw [shortName, hbase, hext, if_pos hne, hb.printed, he.printed]

end Pack

namespace Writer

variable {w : Writer}

theorem ext_length : w.ext.length = 3 := by
  cases w with
  | photo format        => cases format <;> rfl
  | screenshot | qrText => rfl

theorem ext_plain : Plain w.ext := by
  cases w with
  | photo format        => cases format <;> decide
  | screenshot | qrText => decide

theorem letters_plain : Plain w.letters := by
  cases w with
  | photo _             => exact (by decide : Plain [0x49, 0x4D, 0x47])
  | screenshot | qrText => decide

theorem parseIndex_eq : w.parseIndex = Fat32.parseIndex (w.letters.map asciiLower) w.expected := by
  cases w with
  | photo _ | screenshot | qrText => rfl

theorem nextName_eq {g : Layout} : w.nextName g = g.nextName w.parseIndex w.letters w.ext := by
  cases w with
  | photo _ | screenshot | qrText => rfl

-- The name of a file of this writer.
def fileName (w : Writer) (n : UInt32) : List UInt8 :=
  displayed w.letters w.ext n

theorem parseIndex_fileName (h : n.toNat ≤ 99999) (hp : 0 < n) :
    w.parseIndex (w.fileName n) = some n := by
  rw [parseIndex_eq]
  refine parseIndex_displayed h hp ext_length ?_
  cases w with
  | photo _             => exact .inl rfl
  | screenshot | qrText => exact .inr (by decide)

theorem fileName_length (h : n.toNat ≤ 99999) : (w.fileName n).length ≤ 12 := by
  rw [fileName, displayed_length h ext_length]
  cases w with
  | photo _             => exact Nat.le_refl 12
  | screenshot | qrText => decide

-- Only the names of the texts do not have eight characters before the dot.
theorem shortName_fileName {attr : UInt8} {cluster size : UInt32} (hw : w ≠ qrText)
    (h : n.toNat ≤ 99999) :
    shortName (makeShortEntry (makeShortName (w.fileName n) w.ext) attr cluster size) =
      w.fileName n := by
  refine shortName_makeShortEntry ?_ ext_plain ?_ ext_length
  · intro c hc
    rcases List.mem_append.mp hc with hc | hc
    · exact letters_plain c hc
    · obtain ⟨d, hd, rfl⟩ := mem_printed05 hc
      interval_cases d <;> decide
  · rw [List.length_append, printed05_length h]
    cases w with
    | photo _ | screenshot => rfl
    | qrText               => exact absurd rfl hw

end Writer
end Fat32
