import HackyLens.Script.Preview
import Mathlib.Data.Nat.Count

-- The pages of a file that does not change, and the way through them and back.

namespace Micropython

-- A file has a size.
structure File where
  bytes : List UInt8
  bounded : bytes.length < UInt32.size

-- What the file system says of it as long as nothing fails.
def File.userfs (f : File) : Userfs where
  read offset capacity := .ok ((f.bytes.drop offset.toNat).take capacity)
  stat                 := .ok (.ofNat f.bytes.length)

-- The first line, and how long it is with its end.
def lineText : List UInt8 → List UInt8
  | []         => []
  | b :: bytes => if b = lf ∨ b = cr then [] else b :: lineText bytes

def lineLength : List UInt8 → Nat
  | []         => 0
  | b :: bytes =>
    if b = lf then 1
    else if b = cr then if bytes.head? = some lf then 2 else 1
    else lineLength bytes + 1

def shownLine (bytes : List UInt8) : List UInt8 :=
  ((lineText bytes).foldl Text.add .empty).finish

theorem lineLength_pos {bytes : List UInt8} (h : bytes ≠ []) : 0 < lineLength bytes := by
  cases bytes with
  | nil          => exact absurd rfl h
  | cons b bytes =>
    rw [lineLength]
    split_ifs <;> omega

theorem lineLength_le {bytes : List UInt8} : lineLength bytes ≤ bytes.length := by
  induction bytes with
  | nil             => exact Nat.le_refl _
  | cons b bytes ih =>
    rw [lineLength, List.length_cons]
    split
    case isTrue  => omega
    case isFalse =>
      split
      case isFalse => omega
      case isTrue  =>
        split
        case isFalse       => omega
        case isTrue hhead =>
          have hpos : bytes ≠ [] := fun hnil => by rw [hnil] at hhead; cases hhead
          have := List.length_pos_iff.mpr hpos
          omega

namespace Reader

variable {f : File} {r r' : Reader} {p : Nat}

-- The reader is at a place of the file, and has read some of the bytes around it.
structure At (f : File) (p : Nat) (r : Reader) : Prop where
  size : r.size.toNat = f.bytes.length
  cursor : r.cursor.toNat = p
  le : p ≤ f.bytes.length
  index : r.dataIndex ≤ r.data.length
  base : r.dataIndex ≤ p
  data : r.data <+: f.bytes.drop (p - r.dataIndex)

theorem size_toNat (f : File) : (UInt32.ofNat f.bytes.length).toNat = f.bytes.length :=
  UInt32.toNat_ofNat_of_lt' f.bounded

theorem succ_toNat {i : UInt32} {n : Nat} (h : i.toNat = n) (hn : n < f.bytes.length) :
    (i + 1).toNat = n + 1 := by
  have hb := f.bounded
  rw [UInt32.toNat_add, h]
  exact Nat.mod_eq_of_lt (Nat.lt_of_le_of_lt hn hb)

theorem At.lt_iff (h : At f p r) : r.cursor < r.size ↔ p < f.bytes.length := by
  rw [UInt32.lt_iff_toNat_lt, h.cursor, h.size]

-- The next byte has been read already.
theorem At.take (h : At f p r) (hp : p < f.bytes.length) (hi : r.dataIndex < r.data.length) :
    ∃ r', r.take = (.byte f.bytes[p], r') ∧ At f (p + 1) r' ∧ r'.dataIndex ≠ 0 := by
  have hbyte : r.data.getD r.dataIndex 0 = f.bytes[p] := by
    obtain ⟨rest, hrest⟩ := h.data
    have hget := congrArg (·[r.dataIndex]?) hrest
    rw [List.getElem?_append_left hi, List.getElem?_drop,
      Nat.sub_add_cancel h.base, List.getElem?_eq_getElem hp] at hget
    rw [List.getD_eq_getElem?_getD, hget, Option.getD_some]
  rw [Reader.take, hbyte]
  refine ⟨_, rfl, ⟨h.size, succ_toNat h.cursor hp, hp, hi, Nat.succ_le_succ h.base, ?_⟩,
    Nat.succ_ne_zero _⟩
  rw [Nat.add_sub_add_right]
  exact h.data

theorem At.get (h : At f p r) (hp : p < f.bytes.length) :
    ∃ r', r.get f.userfs = (.byte f.bytes[p], r') ∧ At f (p + 1) r' ∧ r'.dataIndex ≠ 0 := by
  rw [Reader.get, if_neg (UInt32.not_le.mpr (h.lt_iff.mpr hp))]
  split
  case isFalse hi => exact h.take hp (Nat.not_le.mp hi)
  case isTrue     =>
    have hread : f.userfs.read r.cursor previewReadChunk =
        .ok ((f.bytes.drop p).take previewReadChunk) := by
      rw [← h.cursor]
      rfl
    have hlen : 0 < ((f.bytes.drop p).take previewReadChunk).length := by
      rw [List.length_take, List.length_drop, previewReadChunk]
      omega
    rw [hread]
    dsimp only
    rw [if_neg (Nat.ne_of_gt hlen)]
    have hat : At f p { r with
        data      := (f.bytes.drop p).take previewReadChunk
        dataIndex := 0 } :=
      ⟨h.size, h.cursor, h.le, Nat.zero_le _, Nat.zero_le _, List.take_prefix _ _⟩
    exact hat.take hp hlen

theorem At.get_ended (h : At f f.bytes.length r) : r.get f.userfs = (.ended, r) := by
  rw [Reader.get, if_pos (UInt32.not_lt.mp fun hlt => Nat.lt_irrefl _ (h.lt_iff.mp hlt))]

theorem At.unget (h : At f (p + 1) r) (hi : r.dataIndex ≠ 0) : At f p r.unget := by
  have hc : r.cursor ≠ 0 := fun hz => by
    have hcursor := h.cursor
    rw [hz] at hcursor
    exact absurd hcursor.symm (Nat.succ_ne_zero p)
  have h1 : (1 : UInt32).toNat = 1 := rfl
  have hindex := h.index
  have hbase := h.base
  have hle := h.le
  have hb := f.bounded
  rw [Reader.unget, if_pos ⟨hi, hc⟩]
  refine ⟨h.size, ?_, by omega, ?_, ?_, ?_⟩
  · have hcursor := h.cursor
    have hone : (1 : UInt32) ≤ r.cursor := UInt32.le_iff_toNat_le.mpr (by omega)
    dsimp only
    rw [UInt32.toNat_sub_of_le _ _ hone, hcursor, h1, Nat.add_sub_cancel]
  · dsimp only
    omega
  · dsimp only
    omega
  · have hsub : p - (r.dataIndex - 1) = p + 1 - r.dataIndex := by omega
    dsimp only
    rw [hsub]
    exact h.data

theorem drop_head {i : Nat} : (f.bytes.drop i).head? = f.bytes[i]? := by
  rw [List.head?_drop]

-- The second end of a line is skipped if there is one.
theorem At.lineLoop {left : Nat} (text : Text) (consumed : Bool) (h : At f p r)
    (hl : f.bytes.length - p ≤ left) :
    ∃ r', lineLoop f.userfs left r text consumed =
        (.ok (consumed || decide (p < f.bytes.length),
          (lineText (f.bytes.drop p)).foldl Text.add text), r') ∧
      At f (p + lineLength (f.bytes.drop p)) r' := by
  induction left generalizing p r text consumed with
  | zero =>
    have hp : p = f.bytes.length := by have := h.le; omega
    subst hp
    rw [List.drop_length, decide_eq_false (Nat.lt_irrefl _), Bool.or_false]
    exact ⟨r, rfl, h⟩
  | succ left ih =>
    rw [Reader.lineLoop]
    split
    case isFalse hlt =>
      have hp : p = f.bytes.length := by have := h.le; have := mt h.lt_iff.mpr hlt; omega
      subst hp
      rw [List.drop_length, decide_eq_false (Nat.lt_irrefl _), Bool.or_false]
      exact ⟨r, rfl, h⟩
    case isTrue hlt =>
      have hp := h.lt_iff.mp hlt
      obtain ⟨r₁, hget, h₁, _⟩ := h.get hp
      rw [hget, List.drop_eq_getElem_cons hp, lineText, lineLength, decide_eq_true hp,
        Bool.or_true]
      dsimp only
      by_cases hlf : f.bytes[p] = lf
      case pos =>
        rw [if_pos hlf, if_pos (.inl hlf), if_pos hlf]
        exact ⟨r₁, rfl, h₁⟩
      case neg =>
        rw [if_neg hlf, if_neg hlf]
        by_cases hcr : f.bytes[p] = cr
        case neg =>
          rw [if_neg hcr, if_neg (not_or.mpr ⟨hlf, hcr⟩), if_neg hcr, List.foldl_cons,
            ← Nat.add_assoc, Nat.add_right_comm]
          exact ih _ _ h₁ (by omega)
        case pos =>
          rw [if_pos hcr, if_pos (.inr hcr), if_pos hcr, drop_head]
          by_cases hend : p + 1 = f.bytes.length
          case pos =>
            rw [hend] at h₁
            rw [h₁.get_ended, List.getElem?_eq_none (by omega),
              if_neg (Option.some_ne_none lf).symm, hend]
            exact ⟨r₁, rfl, h₁⟩
          case neg =>
            have hp₁ : p + 1 < f.bytes.length := by have := h₁.le; omega
            obtain ⟨r₂, hget₂, h₂, hindex⟩ := h₁.get hp₁
            rw [hget₂, List.getElem?_eq_getElem hp₁]
            dsimp only
            by_cases hnext : f.bytes[p + 1] = lf
            case pos =>
              rw [if_neg (not_not_intro hnext), if_pos (congrArg some hnext)]
              exact ⟨r₂, rfl, h₂⟩
            case neg =>
              rw [if_pos hnext, if_neg fun hs => hnext (Option.some.inj hs)]
              exact ⟨_, rfl, h₂.unget hindex⟩

theorem At.readLine (h : At f p r) (hp : p < f.bytes.length) :
    ∃ r' text, readLine f.userfs r = (.ok (true, text), r') ∧
      text.finish = shownLine (f.bytes.drop p) ∧
      At f (p + lineLength (f.bytes.drop p)) r' := by
  have hle : r.cursor ≤ r.size := UInt32.le_of_lt (h.lt_iff.mpr hp)
  have hleft : (r.size - r.cursor).toNat = f.bytes.length - p := by
    rw [UInt32.toNat_sub_of_le _ _ hle, h.size, h.cursor]
  obtain ⟨r', hloop, h'⟩ := h.lineLoop .empty false (Nat.le_refl _)
  rw [decide_eq_true hp, ← hleft] at hloop
  exact ⟨r', _, hloop, rfl, h'⟩

end Reader

-- Where the lines start. Behind the last one there is the end of the file.
def start (f : File) : Nat → Nat
  | 0     => 0
  | j + 1 => start f j + lineLength (f.bytes.drop (start f j))

variable {f : File} {i j k m n : Nat}

theorem start_le : start f j ≤ f.bytes.length := by
  induction j with
  | zero      => exact Nat.zero_le _
  | succ j ih =>
    have hle := @lineLength_le (f.bytes.drop (start f j))
    rw [List.length_drop] at hle
    rw [start]
    omega

theorem start_lt_succ (h : start f j < f.bytes.length) : start f j < start f (j + 1) := by
  have hpos := @lineLength_pos (f.bytes.drop (start f j)) fun hnil =>
    absurd (List.drop_eq_nil_iff.mp hnil) (Nat.not_le.mpr h)
  rw [start]
  omega

theorem start_le_succ : start f j ≤ start f (j + 1) :=
  Nat.le_add_right _ _

theorem start_mono (h : i ≤ j) : start f i ≤ start f j :=
  monotone_nat_of_le_succ (f := start f) (fun _ => start_le_succ) h

theorem le_start (h : start f j < f.bytes.length) : j ≤ start f j := by
  induction j with
  | zero      => exact Nat.zero_le _
  | succ j ih =>
    have hlt := Nat.lt_of_le_of_lt start_le_succ h
    exact Nat.succ_le_of_lt (Nat.lt_of_le_of_lt (ih hlt) (start_lt_succ hlt))

theorem exists_end (f : File) : ∃ j, f.bytes.length ≤ start f j := by
  refine ⟨f.bytes.length, Nat.not_lt.mp fun h => ?_⟩
  exact absurd (le_start h) (Nat.not_le.mpr h)

-- How many lines there are.
def lineCount (f : File) : Nat :=
  Nat.find (exists_end f)

theorem start_lt_iff : start f j < f.bytes.length ↔ j < lineCount f := by
  constructor
  · intro h
    refine Nat.not_le.mp fun hle => ?_
    have hend := Nat.find_spec (exists_end f)
    exact absurd (Nat.le_trans hend (start_mono hle)) (Nat.not_le.mpr h)
  · intro h
    exact Nat.not_le.mp (Nat.find_min (exists_end f) h)

theorem lineCount_le (f : File) : lineCount f ≤ f.bytes.length := by
  refine Nat.not_lt.mp fun h => ?_
  have hlt := start_lt_iff.mpr h
  exact absurd (le_start hlt) (Nat.not_le.mpr hlt)

-- A line as it is shown, with its number.
def row (f : File) (j : Nat) : UInt32 × List UInt8 :=
  (.ofNat (j + 1), shownLine (f.bytes.drop (start f j)))

-- The lines from `j` on of which there is room for `left`.
def rowsFrom (f : File) (j left : Nat) : List (UInt32 × List UInt8) :=
  (List.range' j (min left (lineCount f - j))).map (row f)

theorem rowsFrom_succ (h : j < lineCount f) :
    rowsFrom f j (n + 1) = row f j :: rowsFrom f (j + 1) n := by
  have hmin : min (n + 1) (lineCount f - j) = min n (lineCount f - (j + 1)) + 1 := by omega
  rw [rowsFrom, hmin, List.range'_succ, List.map_cons, rowsFrom]

theorem ofNat_succ (n : Nat) : UInt32.ofNat n + 1 = .ofNat (n + 1) := by
  rw [UInt32.ofNat_add]
  rfl

theorem rowLoop_eq {r : Reader} {rows : List (UInt32 × List UInt8)} (h : r.At f (start f j)) :
    ∃ r', rowLoop f.userfs n r (.ofNat (j + 1)) rows = (rows ++ rowsFrom f j n,
        .ofNat (j + min n (lineCount f - j) + 1), r', none) ∧
      r'.At f (start f (j + min n (lineCount f - j))) := by
  induction n generalizing j r rows with
  | zero =>
    rw [Nat.zero_min, rowsFrom, Nat.zero_min, List.range'_zero, List.map_nil, List.append_nil]
    exact ⟨r, rfl, h⟩
  | succ n ih =>
    rw [rowLoop]
    split
    case isTrue hge =>
      have hend : ¬j < lineCount f := fun hlt =>
        UInt32.not_lt.mpr hge (h.lt_iff.mpr (start_lt_iff.mpr hlt))
      have hmin : min (n + 1) (lineCount f - j) = 0 := by omega
      rw [hmin, rowsFrom, hmin, List.range'_zero, List.map_nil, List.append_nil]
      exact ⟨r, rfl, h⟩
    case isFalse hlt =>
      have hp := h.lt_iff.mp (UInt32.not_le.mp hlt)
      obtain ⟨r₁, text, hline, htext, h₁⟩ := h.readLine hp
      have hj := start_lt_iff.mp hp
      obtain ⟨r', hrows, h'⟩ := @ih (j + 1) r₁ (rows ++ [row f j]) h₁
      have hmin : j + 1 + min n (lineCount f - (j + 1)) = j + min (n + 1) (lineCount f - j) := by
        omega
      rw [hmin] at hrows h'
      refine ⟨r', ?_, h'⟩
      rw [hline]
      dsimp only
      rw [if_pos rfl, htext, ofNat_succ, rowsFrom_succ hj, List.append_cons rows (row f j)]
      exact hrows

-- The page that starts with line `9 * k`.
def page (f : File) (k : Nat) : Preview where
  rows        := rowsFrom f (previewLines * k) previewLines
  line        := .ofNat (previewLines * k + 1)
  hasPrevious := 0 < k
  hasNext     := previewLines * (k + 1) < lineCount f
  offset      := .ofNat (start f (previewLines * k))
  nextOffset  := .ofNat (start f (min (previewLines * (k + 1)) (lineCount f)))
  nextLine    := .ofNat (min (previewLines * (k + 1)) (lineCount f) + 1)
  size        := .ofNat f.bytes.length
  status      := .clear

theorem start_toNat (f : File) (j : Nat) : (UInt32.ofNat (start f j)).toNat = start f j :=
  UInt32.toNat_ofNat_of_lt' (Nat.lt_of_le_of_lt start_le f.bounded)

theorem load_eq (p : Preview) (h : previewLines * k < lineCount f) :
    p.load f.userfs (.ofNat (start f (previewLines * k))) (.ofNat (previewLines * k + 1)) =
      page f k := by
  have hsize := Reader.size_toNat f
  have hpos : 0 < f.bytes.length := Nat.lt_of_lt_of_le (Nat.zero_lt_of_lt h) (lineCount_le f)
  have hne : UInt32.ofNat f.bytes.length ≠ 0 := fun hz => by
    rw [hz] at hsize
    exact absurd hsize.symm (Nat.ne_of_gt hpos)
  have hat : Reader.At f (start f (previewLines * k))
      ⟨.ofNat f.bytes.length, .ofNat (start f (previewLines * k)), [], 0⟩ :=
    ⟨hsize, start_toNat f _, start_le, Nat.zero_le _, Nat.zero_le _, List.nil_prefix⟩
  obtain ⟨r', hrows, h'⟩ := @rowLoop_eq f (previewLines * k) previewLines _ [] hat
  have hmin : previewLines * k + min previewLines (lineCount f - previewLines * k) =
      min (previewLines * (k + 1)) (lineCount f) := by
    rw [Nat.mul_succ]
    omega
  rw [hmin, List.nil_append] at hrows
  rw [hmin] at h'
  have hcursor : r'.cursor = .ofNat (start f (min (previewLines * (k + 1)) (lineCount f))) :=
    UInt32.toNat_inj.mp (by rw [h'.cursor, start_toNat])
  have hprevious : UInt32.ofNat (start f (previewLines * k)) ≠ 0 ↔ 0 < k := by
    rw [ne_eq, ← UInt32.toNat_inj, start_toNat]
    constructor
    · intro hz
      exact Nat.pos_of_ne_zero fun hk => hz (by rw [hk]; rfl)
    · intro hk hz
      have hle := le_start (start_lt_iff.mpr h)
      rw [hz, previewLines] at hle
      exact absurd (Nat.le_trans hle (Nat.zero_le 0)) (by omega)
  have hnext : r'.cursor < r'.size ↔ previewLines * (k + 1) < lineCount f := by
    rw [h'.lt_iff, start_lt_iff]
    omega
  have hstat : f.userfs.stat = .ok (.ofNat f.bytes.length) := rfl
  rw [Preview.load, hstat]
  dsimp only
  rw [if_neg hne, hrows]
  dsimp only
  simp only [hnext, hprevious]
  rw [hcursor, page]

-- The byte is the last one of the end of a line.
def IsEnd (bytes : List UInt8) (i : Nat) : Prop :=
  bytes[i]? = some lf ∨ bytes[i]? = some cr ∧ bytes[i + 1]? ≠ some lf

instance (bytes : List UInt8) : DecidablePred (IsEnd bytes) :=
  fun _ => inferInstanceAs (Decidable (_ ∨ _))

theorem isEnd_drop {bytes : List UInt8} :
    IsEnd (bytes.drop k) i ↔ IsEnd bytes (k + i) := by
  rw [IsEnd, IsEnd, List.getElem?_drop, List.getElem?_drop, Nat.add_assoc]

theorem isEnd_cons_succ {b : UInt8} {bytes : List UInt8} :
    IsEnd (b :: bytes) (i + 1) ↔ IsEnd bytes i :=
  Iff.rfl

-- Only the last byte of a line ends it.
theorem not_isEnd {bytes : List UInt8} (h : i + 1 < lineLength bytes) : ¬IsEnd bytes i := by
  induction bytes generalizing i with
  | nil             => exact absurd h (Nat.not_lt_zero _)
  | cons b bytes ih =>
    rw [lineLength] at h
    split at h
    case isTrue => exact absurd h (by omega)
    case isFalse hlf =>
      split at h
      case isTrue hcr =>
        split at h
        case isFalse        => exact absurd h (by omega)
        case isTrue hhead =>
          have hi : i = 0 := by omega
          subst hi
          rw [List.head?_eq_getElem?] at hhead
          rintro (hb | ⟨-, hnext⟩)
          · exact hlf (Option.some.inj hb)
          · exact hnext hhead
      case isFalse hcr =>
        cases i with
        | succ i => exact isEnd_cons_succ.not.mpr (ih (by omega))
        | zero   =>
          rintro (hb | ⟨hb, -⟩)
          · exact hlf (Option.some.inj hb)
          · exact hcr (Option.some.inj hb)

theorem isEnd_last {bytes : List UInt8} (h : lineLength bytes < bytes.length) :
    IsEnd bytes (lineLength bytes - 1) := by
  induction bytes with
  | nil             => exact absurd h (Nat.not_lt_zero _)
  | cons b bytes ih =>
    rw [lineLength, List.length_cons] at h
    rw [lineLength]
    split
    case isTrue hlf => exact .inl (congrArg some hlf)
    case isFalse hlf =>
      rw [if_neg hlf] at h
      split
      case isTrue hcr =>
        split
        case isTrue hhead =>
          rw [List.head?_eq_getElem?] at hhead
          exact .inl hhead
        case isFalse hhead =>
          rw [List.head?_eq_getElem?] at hhead
          exact .inr ⟨congrArg some hcr, hhead⟩
      case isFalse hcr =>
        rw [if_neg hcr] at h
        have hlt : lineLength bytes < bytes.length := by omega
        have hpos := lineLength_pos (List.length_pos_iff.mp (Nat.zero_lt_of_lt hlt))
        have hsub : lineLength bytes + 1 - 1 = lineLength bytes - 1 + 1 := by omega
        rw [hsub, isEnd_cons_succ]
        exact ih hlt

theorem start_isEnd (h : start f (j + 1) < f.bytes.length) :
    IsEnd f.bytes (start f (j + 1) - 1) := by
  have hlt := Nat.lt_of_le_of_lt start_le_succ h
  have hpos := start_lt_succ hlt
  rw [start] at h hpos ⊢
  have hlast := @isEnd_last (f.bytes.drop (start f j)) (by rw [List.length_drop]; omega)
  rw [isEnd_drop] at hlast
  rw [Nat.add_sub_assoc (by omega)]
  exact hlast

-- So the line ends in front of a line are as many as there are lines.
theorem count_start (h : start f j < f.bytes.length) :
    Nat.count (IsEnd f.bytes) (start f j) = j := by
  induction j with
  | zero      => exact Nat.count_zero _
  | succ j ih =>
    have hlt := Nat.lt_of_le_of_lt start_le_succ h
    have hpos := start_lt_succ hlt
    obtain ⟨d, hd⟩ : ∃ d, start f (j + 1) = start f j + d + 1 :=
      ⟨start f (j + 1) - start f j - 1, by omega⟩
    have hlast := start_isEnd h
    have hnone : Nat.count (fun i => IsEnd f.bytes (start f j + i)) d = 0 := by
      refine Nat.count_iff_forall_not.mpr fun i hi => ?_
      rw [← isEnd_drop]
      refine not_isEnd ?_
      rw [start] at hd
      omega
    rw [hd, Nat.add_sub_cancel] at hlast
    rw [hd, Nat.count_succ, Nat.count_add, ih hlt, hnone, if_pos hlast, Nat.add_zero]

-- A line end tells which line comes behind it.
theorem isEnd_start (hi : IsEnd f.bytes i) (hm : start f (m + 1) < f.bytes.length)
    (hcount : Nat.count (IsEnd f.bytes) i = m) : start f (m + 1) = i + 1 := by
  have hpos := start_lt_succ (Nat.lt_of_le_of_lt start_le_succ hm)
  have hlast := start_isEnd hm
  have hall := count_start hm
  obtain ⟨e, he⟩ : ∃ e, start f (m + 1) = e + 1 := ⟨_, (Nat.sub_add_cancel (by omega)).symm⟩
  rw [he, Nat.add_sub_cancel] at hlast
  rw [he, Nat.count_succ, if_pos hlast] at hall
  rw [he, Nat.count_injective hlast hi (by omega)]

-- The byte that has been looked at last is the next one. In front of a line there may be none.
def Look (f : File) (q : Nat) (next : Option UInt8) : Prop :=
  next = f.bytes[q]? ∨ next = none ∧ IsEnd f.bytes (q - 1)

theorem Look.end_iff {next : Option UInt8} (h : Look f (i + 1) next) (hi : i < f.bytes.length) :
    f.bytes[i] = lf ∨ f.bytes[i] = cr ∧ next ≠ some lf ↔ IsEnd f.bytes i := by
  rw [IsEnd, List.getElem?_eq_getElem hi, Option.some_inj, Option.some_inj]
  obtain rfl | ⟨rfl, hend⟩ := h
  · rfl
  · rw [Nat.add_sub_cancel, IsEnd, List.getElem?_eq_getElem hi, Option.some_inj,
      Option.some_inj] at hend
    have hnone : (none : Option UInt8) ≠ some lf := (Option.some_ne_none lf).symm
    constructor
    · exact fun _ => hend
    · exact Or.imp_right fun h => ⟨h.1, hnone⟩

namespace Preview

theorem scanChunk_spec {separators found : UInt32} {next : Option UInt8}
    (hn : k + n ≤ f.bytes.length) (hnext : Look f (k + n) next) (hfound : found < separators) :
    (∃ i, scanChunk separators (.ofNat k) ((f.bytes.drop k).take n).reverse n found next =
        .page (.ofNat (i + 1)) ∧ i < k + n ∧ IsEnd f.bytes i ∧
        separators.toNat + Nat.count (IsEnd f.bytes) i =
          found.toNat + Nat.count (IsEnd f.bytes) (k + n)) ∨
    (∃ found' next',
        scanChunk separators (.ofNat k) ((f.bytes.drop k).take n).reverse n found next =
        .passed found' next' ∧ found' < separators ∧ Look f k next' ∧
        found'.toNat + Nat.count (IsEnd f.bytes) k =
          found.toNat + Nat.count (IsEnd f.bytes) (k + n)) := by
  induction n generalizing found next with
  | zero      => exact .inr ⟨found, next, rfl, hfound, hnext, rfl⟩
  | succ n ih =>
    have hlt : k + n < f.bytes.length := hn
    have hget : n < (f.bytes.drop k).length := by
      rw [List.length_drop]
      omega
    have hdata : ((f.bytes.drop k).take (n + 1)).reverse =
        f.bytes[k + n] :: ((f.bytes.drop k).take n).reverse := by
      rw [List.take_succ_eq_append_getElem hget, List.reverse_concat, List.getElem_drop]
    have hiff : f.bytes[k + n] = lf ∨ f.bytes[k + n] = cr ∧ next ≠ some lf ↔
        IsEnd f.bytes (k + n) :=
      Look.end_iff hnext hlt
    have hlook : Look f (k + n) (some f.bytes[k + n]) :=
      .inl (List.getElem?_eq_getElem hlt).symm
    have hsucc : (found + 1).toNat = found.toNat + 1 := by
      have h1 : (1 : UInt32).toNat = 1 := rfl
      have hmax := UInt32.lt_iff_toNat_lt.mp hfound
      have hsep := separators.toNat_lt
      rw [UInt32.toNat_add, h1]
      exact Nat.mod_eq_of_lt (by omega)
    rw [hdata, scanChunk, Nat.add_sub_cancel, ← Nat.add_assoc, Nat.count_succ]
    split
    case isFalse hend =>
      rw [if_neg (hiff.not.mp hend), Nat.add_zero]
      obtain ⟨i, hpage, hi, hrest⟩ | hpassed := ih (Nat.le_of_lt hlt) hlook hfound
      · exact .inl ⟨i, hpage, Nat.lt_succ_of_lt hi, hrest⟩
      · exact .inr hpassed
    case isTrue hend =>
      have hisEnd := hiff.mp hend
      rw [if_pos hisEnd]
      split
      case isTrue hlast =>
        refine .inl ⟨k + n, ?_, Nat.lt_succ_self _, hisEnd, ?_⟩
        · rw [Nat.add_assoc, UInt32.ofNat_add k (n + 1)]
        · rw [← hlast, hsucc, Nat.add_right_comm, Nat.add_assoc]
      case isFalse hlast =>
        have hmore : found + 1 < separators := by
          rw [UInt32.lt_iff_toNat_lt, hsucc]
          have hle := UInt32.lt_iff_toNat_lt.mp hfound
          have hne := mt UInt32.toNat_inj.mp hlast
          rw [hsucc] at hne
          omega
        obtain ⟨i, hpage, hi, hend', hcount⟩ | ⟨found', next', hpassed, hlt', hlook', hcount⟩ :=
          ih (Nat.le_of_lt hlt) hlook hmore
        · refine .inl ⟨i, hpage, Nat.lt_succ_of_lt hi, hend', ?_⟩
          rw [hcount, hsucc, Nat.add_assoc, Nat.add_comm 1]
        · refine .inr ⟨found', next', hpassed, hlt', hlook', ?_⟩
          rw [hcount, hsucc, Nat.add_assoc, Nat.add_comm 1]

-- The chunk in front of a position reaches up to it.
theorem chunk_start {position : UInt32} (h : position ≠ 0) : ∃ k m : Nat,
    (if position > .ofNat previewReadChunk then position - .ofNat previewReadChunk else 0) =
      UInt32.ofNat k ∧
    (position - UInt32.ofNat k).toNat = m ∧ k + m = position.toNat ∧ 0 < m := by
  have hchunk : (UInt32.ofNat previewReadChunk).toNat = previewReadChunk := rfl
  have hpos : 0 < position.toNat := Nat.pos_of_ne_zero fun hz => h (UInt32.toNat_inj.mp hz)
  split
  case isTrue hgt =>
    have hlt := UInt32.lt_iff_toNat_lt.mp hgt
    have hle := UInt32.le_of_lt hgt
    have hk : (UInt32.ofNat (position.toNat - previewReadChunk)).toNat =
        position.toNat - previewReadChunk :=
      UInt32.toNat_ofNat_of_lt' (Nat.lt_of_le_of_lt (Nat.sub_le _ _) position.toNat_lt)
    have hback : UInt32.ofNat (position.toNat - previewReadChunk) ≤ position := by
      rw [UInt32.le_iff_toNat_le, hk]
      exact Nat.sub_le _ _
    rw [hchunk] at hlt
    refine ⟨position.toNat - previewReadChunk, previewReadChunk, ?_, ?_, by omega, by decide⟩
    · rw [← UInt32.toNat_inj, UInt32.toNat_sub_of_le _ _ hle, hchunk, hk]
    · rw [UInt32.toNat_sub_of_le _ _ hback, hk]
      omega
  case isFalse =>
    refine ⟨0, position.toNat, rfl, ?_, Nat.zero_add _, hpos⟩
    exact congrArg UInt32.toNat (UInt32.sub_zero position)

-- The line end in front of the page is found, or there are too few.
theorem backLoop_spec {separators position found : UInt32} {next : Option UInt8}
    (hn : position.toNat ≤ n) (hp : position.toNat ≤ f.bytes.length)
    (hnext : Look f position.toNat next) (hfound : found < separators) :
    (∃ i, backLoop f.userfs separators n position found next = .ok (some (.ofNat (i + 1))) ∧
        i < position.toNat ∧ IsEnd f.bytes i ∧
        separators.toNat + Nat.count (IsEnd f.bytes) i =
          found.toNat + Nat.count (IsEnd f.bytes) position.toNat) ∨
    (backLoop f.userfs separators n position found next = .ok none ∧
      found.toNat + Nat.count (IsEnd f.bytes) position.toNat < separators.toNat) := by
  have hlt := UInt32.lt_iff_toNat_lt.mp hfound
  induction n generalizing position found next with
  | zero =>
    rw [Nat.le_zero.mp hn, Nat.count_zero, Nat.add_zero]
    exact .inr ⟨rfl, hlt⟩
  | succ n ih =>
    rw [backLoop]
    split
    case isFalse hdone =>
      have hzero : position = 0 := by
        by_contra hne
        exact hdone ⟨hne, hfound⟩
      rw [hzero, UInt32.toNat_zero, Nat.count_zero, Nat.add_zero]
      exact .inr ⟨rfl, hlt⟩
    case isTrue hmore =>
      obtain ⟨k, m, hstart, hsize, hkm, hm⟩ := chunk_start hmore.1
      have hk : (UInt32.ofNat k).toNat = k := by
        refine UInt32.toNat_ofNat_of_lt' ?_
        have := position.toNat_lt
        have hw : UInt32.size = 2 ^ 32 := rfl
        omega
      have hread : f.userfs.read (.ofNat k) m = .ok ((f.bytes.drop k).take m) := by
        rw [File.userfs]
        dsimp only
        rw [hk]
      have hlen : ((f.bytes.drop k).take m).length = m := by
        rw [List.length_take, List.length_drop]
        omega
      rw [← hkm] at hnext hp ⊢
      dsimp only
      rw [hstart, hsize, hread]
      dsimp only
      rw [if_neg (not_not_intro hlen), hlen]
      obtain ⟨i, hpage, hi, hend, hcount⟩ | ⟨found', next', hpassed, hfound', hnext', hcount⟩ :=
        scanChunk_spec hp hnext hfound
      · rw [hpage]
        exact .inl ⟨i, rfl, hi, hend, hcount⟩
      · rw [hpassed, ← hcount]
        dsimp only
        have hle : (UInt32.ofNat k).toNat ≤ n := by omega
        have hlook : Look f (UInt32.ofNat k).toNat next' := by
          rw [hk]
          exact hnext'
        obtain ⟨i, hpage, hi, hrest⟩ | hnone :=
          ih hle (by omega) hlook hfound' (UInt32.lt_iff_toNat_lt.mp hfound')
        · rw [hk] at hi hrest
          exact .inl ⟨i, hpage, by omega, hrest⟩
        · rw [hk] at hnone
          exact .inr hnone

theorem line_toNat (h : j < lineCount f) : (UInt32.ofNat (j + 1)).toNat = j + 1 :=
  UInt32.toNat_ofNat_of_lt' (Nat.lt_of_le_of_lt (Nat.le_trans h (lineCount_le f)) f.bounded)

theorem previousPage_page (h : previewLines * (k + 1) < lineCount f) :
    (page f (k + 1)).previousPage f.userfs = page f k := by
  have hstart := start_lt_iff.mpr h
  have hk : previewLines * k < lineCount f := by
    rw [Nat.mul_succ] at h
    omega
  have hline : (page f (k + 1)).line.toNat = previewLines * (k + 1) + 1 := line_toNat h
  have hnine : (UInt32.ofNat previewLines).toNat = previewLines := rfl
  have hwanted : (page f (k + 1)).line > .ofNat previewLines := by
    refine UInt32.lt_iff_toNat_lt.mpr ?_
    rw [hline, hnine, Nat.mul_succ]
    omega
  have hoffset : (page f (k + 1)).offset.toNat = start f (previewLines * (k + 1)) := start_toNat f _
  have hpos : ¬((page f (k + 1)).offset = 0 ∨ UInt32.ofNat previewLines = 0) := by
    rintro (hz | hz)
    · rw [hz] at hoffset
      have hle := le_start hstart
      rw [← hoffset, UInt32.toNat_zero, previewLines] at hle
      omega
    · cases hz
  have hback : (page f (k + 1)).line - .ofNat previewLines = .ofNat (previewLines * k + 1) := by
    rw [← UInt32.toNat_inj, UInt32.toNat_sub_of_le _ _ (UInt32.le_of_lt hwanted), hline, hnine,
      line_toNat hk, Nat.mul_succ]
    omega
  have hseparators : (UInt32.ofNat previewLines + 1).toNat = previewLines + 1 := rfl
  have hlook : Look f (page f (k + 1)).offset.toNat none := by
    have hsub : previewLines * (k + 1) = previewLines * (k + 1) - 1 + 1 := by
      rw [previewLines]
      omega
    rw [hoffset]
    rw [hsub] at hstart ⊢
    exact .inr ⟨rfl, start_isEnd hstart⟩
  have hfew : (0 : UInt32) < UInt32.ofNat previewLines + 1 := by decide
  rw [Preview.previousPage]
  rw [if_pos hwanted, if_neg hpos, hback]
  obtain ⟨i, hpage, hi, hend, hcount⟩ | ⟨hnone, hcount⟩ :=
    backLoop_spec (Nat.le_refl _) (by rw [hoffset]; exact start_le) hlook hfew
  case inl =>
    rw [hseparators, hoffset, count_start hstart, UInt32.toNat_zero, Nat.zero_add, Nat.mul_succ]
      at hcount
    have hk1 : previewLines * k = previewLines * k - 1 + 1 := by omega
    have hprev : start f (previewLines * k) = i + 1 := by
      have hlt := start_lt_iff.mpr hk
      rw [hk1] at hlt ⊢
      exact isEnd_start hend hlt (by omega)
    rw [hpage]
    dsimp only
    rw [← hprev]
    exact load_eq _ hk
  case inr =>
    rw [hseparators, hoffset, count_start hstart, UInt32.toNat_zero, Nat.zero_add, Nat.mul_succ]
      at hcount
    have hzero : k = 0 := by
      rw [previewLines] at hcount
      omega
    subst hzero
    rw [hnone]
    exact load_eq _ hk

theorem press_right_page (h : previewLines * (k + 1) < lineCount f) :
    (page f k).press f.userfs .right = page f (k + 1) := by
  have hnext : (page f k).hasNext = true := decide_eq_true h
  have hoffset : (page f k).nextOffset = .ofNat (start f (previewLines * (k + 1))) := by
    rw [page, Nat.min_eq_left (Nat.le_of_lt h)]
  have hline : (page f k).nextLine = .ofNat (previewLines * (k + 1) + 1) := by
    rw [page, Nat.min_eq_left (Nat.le_of_lt h)]
  rw [press, if_pos hnext, hoffset, hline]
  exact load_eq _ h

theorem press_left_page (h : previewLines * (k + 1) < lineCount f) :
    (page f (k + 1)).press f.userfs .left = page f k := by
  have hprevious : (page f (k + 1)).hasPrevious = true := decide_eq_true (Nat.succ_pos k)
  rw [press, if_pos hprevious]
  exact previousPage_page h

theorem press_page (button : Button) (h : previewLines * k < lineCount f) :
    ∃ m, previewLines * m < lineCount f ∧ (page f k).press f.userfs button = page f m := by
  cases button with
  | right =>
    by_cases hnext : previewLines * (k + 1) < lineCount f
    · exact ⟨k + 1, hnext, press_right_page hnext⟩
    · refine ⟨k, h, ?_⟩
      have hlast : ¬(page f k).hasNext = true := fun hmore => hnext (of_decide_eq_true hmore)
      rw [press, if_neg hlast]
  | left =>
    cases k with
    | zero => exact ⟨0, h, rfl⟩
    | succ k =>
      refine ⟨k, ?_, press_left_page h⟩
      rw [Nat.mul_succ] at h
      omega

theorem press_pages (presses : List Button) (h : previewLines * k < lineCount f) :
    ∃ m, previewLines * m < lineCount f ∧
      presses.foldl (press f.userfs) (page f k) = page f m := by
  induction presses generalizing k with
  | nil                  => exact ⟨k, h, rfl⟩
  | cons button presses ih =>
    obtain ⟨m, hm, hpress⟩ := press_page button h
    rw [List.foldl_cons, hpress]
    exact ih hm

theorem press_rights (h : previewLines * k < lineCount f) :
    (List.replicate k Button.right).foldl (press f.userfs) (page f 0) = page f k := by
  induction k with
  | zero      => rfl
  | succ k ih =>
    rw [List.replicate_succ', List.foldl_concat, ih (by rw [Nat.mul_succ] at h; omega)]
    exact press_right_page h

-- What the preview of a file is after it has been opened and some buttons have been pressed.
def browsed (f : File) (p : Preview) (presses : List Button) : Preview :=
  presses.foldl (press f.userfs) (p.load f.userfs 0 1)

def pageCount (f : File) : Nat :=
  (lineCount f + (previewLines - 1)) / previewLines

theorem lt_pageCount : k < pageCount f ↔ previewLines * k < lineCount f := by
  rw [pageCount, previewLines]
  omega

theorem lineCount_pos (h : f.bytes ≠ []) : 0 < lineCount f :=
  start_lt_iff.mp (List.length_pos_iff.mpr h)

theorem browsed_pages (p : Preview) (presses : List Button) (h : f.bytes ≠ []) :
    ∃ k, previewLines * k < lineCount f ∧ browsed f p presses = page f k := by
  have hload : p.load f.userfs 0 1 = page f 0 := @load_eq f 0 p (lineCount_pos h)
  rw [browsed, hload]
  exact press_pages presses (lineCount_pos h)

theorem browsed_rights (p : Preview) (h : k < pageCount f) :
    browsed f p (.replicate k .right) = page f k := by
  have hk := lt_pageCount.mp h
  have hload : p.load f.userfs 0 1 = page f 0 := @load_eq f 0 p (Nat.zero_lt_of_lt hk)
  rw [browsed, hload]
  exact press_rights hk

-- The file is its lines one after the other.
def lineBytes (f : File) (j : Nat) : List UInt8 :=
  (f.bytes.drop (start f j)).take (lineLength (f.bytes.drop (start f j)))

theorem take_start : (List.range n).flatMap (lineBytes f) = f.bytes.take (start f n) := by
  induction n with
  | zero      => rfl
  | succ n ih =>
    rw [List.range_succ, List.flatMap_append, ih, List.flatMap_singleton, lineBytes, start,
      List.take_add]

theorem all_lines (f : File) : (List.range (lineCount f)).flatMap (lineBytes f) = f.bytes := by
  rw [take_start]
  exact List.take_of_length_le (Nat.find_spec (exists_end f))

theorem pages_rows : (List.range n).flatMap (fun k => (page f k).rows) =
    (List.range (min (previewLines * n) (lineCount f))).map (row f) := by
  induction n with
  | zero      => rw [Nat.mul_zero, Nat.zero_min]; rfl
  | succ n ih =>
    rw [List.range_succ, List.flatMap_append, ih, List.flatMap_singleton, page, rowsFrom,
      Nat.mul_succ]
    by_cases h : previewLines * n ≤ lineCount f
    case pos =>
      have hmin : min (previewLines * n + previewLines) (lineCount f) =
          previewLines * n + min previewLines (lineCount f - previewLines * n) := by
        omega
      rw [Nat.min_eq_left h, hmin, List.range_eq_range', List.range_eq_range', ← List.map_append,
        ← @List.range'_append_1 0, Nat.zero_add]
    case neg =>
      have hzero : lineCount f - previewLines * n = 0 := by omega
      rw [hzero, Nat.min_zero, List.range'_zero, List.map_nil, List.append_nil,
        Nat.min_eq_right (by omega), Nat.min_eq_right (by omega)]

-- A line starts at the beginning or behind the end of another one.
def LineStart (f : File) (p : Nat) : Prop :=
  p < f.bytes.length ∧ (p ≠ 0 → IsEnd f.bytes (p - 1))

theorem start_lineStart (h : j < lineCount f) : LineStart f (start f j) := by
  have hlt := start_lt_iff.mpr h
  refine ⟨hlt, fun hne => ?_⟩
  cases j with
  | zero   => exact absurd rfl hne
  | succ j => exact start_isEnd hlt

-- The lines from `j` on are shown.
structure Shows (f : File) (j : Nat) (p : Preview) : Prop where
  lineStart : LineStart f p.offset.toNat
  offset : p.offset.toNat = start f j
  line : p.line.toNat = j + 1
  rows : p.rows = rowsFrom f j previewLines
  hasNext : p.hasNext = true ↔ j + previewLines < lineCount f

theorem page_shows (h : previewLines * k < lineCount f) :
    Shows f (previewLines * k) (page f k) := by
  have hoffset : (page f k).offset.toNat = start f (previewLines * k) := start_toNat f _
  refine ⟨?_, hoffset, line_toNat h, rfl, ?_⟩
  · rw [hoffset]
    exact start_lineStart h
  · rw [page, decide_eq_true_iff, Nat.mul_succ]

-- Every page shows lines from the start of one on, the way back leads to the page before, and the
-- pages together show all the lines.
theorem preview_paging (f : File) (p : Preview) (h : f.bytes ≠ []) :
    (∀ presses, ∃ k, k < pageCount f ∧ Shows f (previewLines * k) (browsed f p presses) ∧
      ((browsed f p presses).hasNext = true →
        browsed f p (presses ++ [.right, .left]) = browsed f p presses)) ∧
    (∀ k, k < pageCount f →
      ((browsed f p (.replicate k .right)).hasNext = true ↔ k + 1 < pageCount f)) ∧
    ((List.range (pageCount f)).flatMap fun k =>
        (browsed f p (.replicate k .right)).rows.map fun r => (r.1.toNat, r.2)) =
      ((List.range (lineCount f)).map fun j => (j + 1, shownLine (f.bytes.drop (start f j)))) ∧
    (List.range (lineCount f)).flatMap (lineBytes f) = f.bytes := by
  refine ⟨fun presses => ?_, fun k hk => ?_, ?_, all_lines f⟩
  · obtain ⟨k, hk, hpage⟩ := browsed_pages p presses h
    refine ⟨k, lt_pageCount.mpr hk, ?_, fun hnext => ?_⟩
    · rw [hpage]
      exact page_shows hk
    · have hmore : previewLines * (k + 1) < lineCount f := by
        rw [hpage] at hnext
        exact of_decide_eq_true hnext
      rw [browsed, List.foldl_append, ← browsed, hpage, List.foldl_cons, List.foldl_cons,
        List.foldl_nil, press_right_page hmore, press_left_page hmore]
  · rw [browsed_rights p hk, page, decide_eq_true_iff, lt_pageCount]
  · have hrows : ((List.range (pageCount f)).flatMap fun k =>
        (browsed f p (.replicate k .right)).rows.map fun r => (r.1.toNat, r.2)) =
        ((List.range (pageCount f)).flatMap fun k => (page f k).rows).map
          fun r => (r.1.toNat, r.2) := by
      rw [List.map_flatMap]
      refine List.flatMap_congr fun k hk => ?_
      rw [browsed_rights p (List.mem_range.mp hk)]
    have hall : min (previewLines * pageCount f) (lineCount f) = lineCount f := by
      rw [pageCount, previewLines]
      omega
    rw [hrows, pages_rows, hall, List.map_map]
    refine List.map_congr_left fun j hj => ?_
    have hj := line_toNat (List.mem_range.mp hj)
    rw [Function.comp_apply, row, hj]

theorem twoLines_bounded : [0x61, cr, lf, 0x62].length < UInt32.size := by
  decide

def twoLines : File where
  bytes   := [0x61, cr, lf, 0x62]
  bounded := twoLines_bounded

def unopened : Preview :=
  ⟨[], 0, false, false, 0, 0, 0, 0, .clear⟩

theorem preview_paging_twoLines : ∃ k, k < pageCount twoLines ∧
    Shows twoLines (previewLines * k) (browsed twoLines unopened [.right]) ∧
    ((browsed twoLines unopened [.right]).hasNext = true →
      browsed twoLines unopened ([.right] ++ [.right, .left]) =
        browsed twoLines unopened [.right]) :=
  (preview_paging twoLines unopened (by decide)).1 [.right]

end Preview
end Micropython
