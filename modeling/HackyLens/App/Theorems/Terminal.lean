import HackyLens.App.Terminal
import Mathlib.Tactic

-- What is shown of the history stays where it is.

namespace Terminal

variable {columns i j row target : Nat} {line : Line} {lines : List Line}

section Rows

theorem lineRows_pos : 0 < lineRows columns line := by
  rw [lineRows]
  split
  case isTrue => exact Nat.one_pos
  case isFalse h =>
    obtain ⟨hc, hl⟩ := not_or.mp h
    exact Nat.div_pos (by omega) (by omega)

theorem length_le_lineRows (line : Line) (hc : 0 < columns) :
    line.length ≤ lineRows columns line * columns := by
  rw [lineRows]
  split
  case isTrue h => omega
  case isFalse h =>
    have := Nat.lt_div_mul_add (a := line.length + columns - 1) hc
    omega

-- Which characters there are in the rows of a line.
theorem lt_lineRows_iff (line : Line) (hc : 0 < columns) :
    row < lineRows columns line ↔ row = 0 ∨ row * columns < line.length := by
  rw [lineRows]
  split
  case isTrue h =>
    have hl : line.length = 0 := by omega
    rw [hl]
    omega
  case isFalse h =>
    obtain ⟨_, hl⟩ := not_or.mp h
    rw [Nat.lt_div_iff_mul_lt hc]
    by_cases h0 : row = 0
    case pos =>
      rw [h0]
      omega
    case neg => omega

theorem lineRows_append_one (hc : 0 < columns) (c : UInt8) :
    lineRows columns line ≤ lineRows columns (line ++ [c]) ∧
      lineRows columns (line ++ [c]) ≤ lineRows columns line + 1 := by
  have hl : (line ++ [c]).length = line.length + 1 := List.length_append
  constructor
  case left =>
    by_contra hn
    have h := (lt_lineRows_iff line hc).mp (Nat.not_le.mp hn)
    have hn' := mt (lt_lineRows_iff (line ++ [c]) hc).mpr (Nat.lt_irrefl _)
    omega
  case right =>
    by_contra hn
    have h := (lt_lineRows_iff (line ++ [c]) hc).mp (Nat.not_le.mp hn)
    have hle := length_le_lineRows line hc
    rw [hl, Nat.succ_mul] at h
    omega

@[simp]
theorem rowsIn_nil : rowsIn columns [] = 0 := rfl

@[simp]
theorem rowsIn_cons :
    rowsIn columns (line :: lines) = lineRows columns line + rowsIn columns lines :=
  List.sum_cons

@[simp]
theorem rowsIn_append {lines' : List Line} :
    rowsIn columns (lines ++ lines') = rowsIn columns lines + rowsIn columns lines' := by
  simp [rowsIn]

-- The row `row` of line `i` is the row `target` of them all.
structure Located (columns : Nat) (lines : List Line) (target i row : Nat) : Prop where
  line : ∃ line, lines[i]? = some line ∧ row < lineRows columns line
  target : target = rowsIn columns (lines.take i) + row

theorem locate_eq_some : locate columns lines target = some (i, row) ↔
    Located columns lines target i row := by
  induction lines generalizing target i with
  | nil =>
    constructor
    case mp => exact fun h => nomatch h
    case mpr =>
      rintro ⟨⟨_, h, _⟩, _⟩
      cases h
  | cons line lines ih =>
    rw [locate]
    split
    case isTrue hlt =>
      constructor
      case mp =>
        intro h
        cases h
        exact ⟨⟨line, rfl, hlt⟩, by simp⟩
      case mpr =>
        rintro ⟨⟨l, hi, hr⟩, ht⟩
        cases i with
        | zero => simp [ht]
        | succ i =>
          rw [List.take_succ_cons, rowsIn_cons] at ht
          omega
    case isFalse hge =>
      rw [Option.map_eq_some_iff]
      constructor
      case mp =>
        rintro ⟨⟨i, row⟩, h, he⟩
        cases he
        obtain ⟨⟨l, hi, hr⟩, ht⟩ := ih.mp h
        refine ⟨⟨l, hi, hr⟩, ?_⟩
        rw [List.take_succ_cons, rowsIn_cons]
        omega
      case mpr =>
        rintro ⟨⟨l, hi, hr⟩, ht⟩
        cases i with
        | zero =>
          cases hi
          simp only [List.take_zero, rowsIn_nil] at ht
          omega
        | succ i =>
          rw [List.take_succ_cons, rowsIn_cons] at ht
          exact ⟨(i, row), ih.mpr ⟨⟨l, hi, hr⟩, by omega⟩, rfl⟩

theorem exists_located (h : target < rowsIn columns lines) :
    ∃ i row, Located columns lines target i row := by
  induction lines generalizing target with
  | nil => exact absurd h (Nat.not_lt_zero _)
  | cons line lines ih =>
    rw [rowsIn_cons] at h
    by_cases hl : target < lineRows columns line
    case pos => exact ⟨0, target, ⟨line, rfl, hl⟩, by simp⟩
    case neg =>
      obtain ⟨i, row, ⟨l, hi, hr⟩, ht⟩ := @ih (target - lineRows columns line) (by omega)
      refine ⟨i + 1, row, ⟨l, hi, hr⟩, ?_⟩
      rw [List.take_succ_cons, rowsIn_cons]
      omega

theorem lineRows_le_rowsIn (h : lines[i]? = some line) :
    rowsIn columns (lines.take i) + lineRows columns line ≤ rowsIn columns lines := by
  obtain ⟨hi, he⟩ := List.getElem?_eq_some_iff.mp h
  have hsplit : lines.take i ++ line :: lines.drop (i + 1) = lines := by
    rw [← he, List.cons_getElem_drop_succ, List.take_append_drop]
  have hrows := congrArg (rowsIn columns) hsplit
  rw [rowsIn_append, rowsIn_cons] at hrows
  omega

theorem Located.lt_rowsIn (h : Located columns lines target i row) (hj : i < j) :
    target < rowsIn columns (lines.take j) := by
  obtain ⟨⟨line, hline, hrow⟩, ht⟩ := h
  have hle := @lineRows_le_rowsIn columns i line (lines.take j)
    ((List.getElem?_take_of_lt hj).trans hline)
  rw [List.take_take, Nat.min_eq_left (Nat.le_of_lt hj)] at hle
  omega

-- The first lines are no longer there.
theorem Located.drop (h : Located columns lines target i row) (hj : j ≤ i) :
    Located columns (lines.drop j) (target - rowsIn columns (lines.take j)) (i - j) row := by
  obtain ⟨⟨line, hline, hrow⟩, ht⟩ := h
  have hsplit := congrArg (rowsIn columns) (List.take_append_drop j (lines.take i))
  rw [List.take_take, Nat.min_eq_left hj, rowsIn_append, List.drop_take] at hsplit
  refine ⟨⟨line, ?_, hrow⟩, by omega⟩
  rw [List.getElem?_drop, Nat.add_sub_cancel' hj, hline]

end Rows

section Concatenation

-- The rows of a line, one after the other.
theorem flatMap_chunks (line : Line) (columns n : Nat) :
    (List.range n).flatMap (fun row => (line.drop (row * columns)).take columns) =
      line.take (n * columns) := by
  induction n with
  | zero => simp
  | succ n ih =>
    rw [List.range_succ, List.flatMap_append, ih, List.flatMap_singleton, Nat.succ_mul,
      List.take_add]

-- The text of a row, as `State.rowText` finds it.
def textOf (columns : Nat) (lines : List Line) (target : Nat) : List UInt8 :=
  match locate columns lines target with
  | some (i, row) => ((lines.getD i []).drop (row * columns)).take columns
  | none          => []

theorem flatMap_textOf (hc : 0 < columns) :
    (List.range (rowsIn columns lines)).flatMap (textOf columns lines) = lines.flatten := by
  induction lines with
  | nil => rfl
  | cons line lines ih =>
    have first (row : Nat) (hr : row < lineRows columns line) :
        textOf columns (line :: lines) row = (line.drop (row * columns)).take columns := by
      rw [textOf, locate, if_pos hr]
      rfl
    have rest (row : Nat) : textOf columns (line :: lines) (lineRows columns line + row) =
        textOf columns lines row := by
      rw [textOf, locate, if_neg (by omega), Nat.add_sub_cancel_left, textOf]
      cases locate columns lines row
      case none   => rfl
      case some x => rfl
    rw [rowsIn_cons, List.range_add, List.flatMap_append, List.flatten_cons, List.flatMap_map]
    simp only [rest]
    rw [ih]
    refine congrArg (· ++ lines.flatten) ?_
    rw [List.flatMap_congr fun row hr => first row (List.mem_range.mp hr), flatMap_chunks]
    exact List.take_of_length_le (length_le_lineRows line hc)

end Concatenation

section History

-- What the terminal keeps of all lines that there have been.
def lastLines (lines : List Line) : List Line :=
  lines.drop (lines.length - historyLineCount)

theorem lastLines_length : (lastLines lines).length = min lines.length historyLineCount := by
  rw [lastLines, List.length_drop]
  omega

theorem lastLines_of_le (h : lines.length ≤ historyLineCount) : lastLines lines = lines := by
  rw [lastLines, Nat.sub_eq_zero_of_le h, List.drop_zero]

theorem lastLines_append (lines new : List Line) :
    lastLines (lastLines lines ++ new) = lastLines (lines ++ new) := by
  have hk : lines.length - historyLineCount ≤ lines.length := Nat.sub_le _ _
  have hd : lastLines lines ++ new = (lines ++ new).drop (lines.length - historyLineCount) :=
    (List.drop_append_of_le_length hk).symm
  have hl := congrArg List.length hd
  rw [List.length_drop, @List.length_append _ lines new] at hl
  have he : lines.length - historyLineCount +
      (lines.length + new.length - (lines.length - historyLineCount) - historyLineCount) =
        lines.length + new.length - historyLineCount := by
    simp only [historyLineCount]
    omega
  rw [lastLines, hl, hd, List.drop_drop, he, lastLines, List.length_append]

theorem lastLines_concat (lines : List Line) (line : Line) :
    lastLines (lines ++ [line]) = lines.drop (lines.length + 1 - historyLineCount) ++ [line] := by
  have h64 : historyLineCount = 64 := rfl
  rw [lastLines, List.length_append, List.length_singleton,
    List.drop_append_of_le_length (by omega)]

-- The lines with another character.
def grow (lines : List Line) (c : UInt8) : List Line :=
  if (lines.getLastD []).length ≥ historyLineLength then
    lines ++ [[c]]
  else
    lines.dropLast ++ [lines.getLastD [] ++ [c]]

theorem lastLines_grow (h : lines ≠ []) (c : UInt8) :
    lastLines (grow (lastLines lines) c) = lastLines (grow lines c) := by
  obtain ⟨pre, last, he⟩ := (List.eq_nil_or_concat lines).resolve_left h
  rw [List.concat_eq_append] at he
  rw [he, lastLines_concat, grow, grow]
  simp only [List.getLastD_concat, List.dropLast_concat]
  split
  case isTrue =>
    rw [← lastLines_concat, lastLines_append]
  case isFalse =>
    have hidem := lastLines_append (pre ++ [last ++ [c]]) []
    rw [List.append_nil, List.append_nil] at hidem
    rw [← lastLines_concat, hidem]

variable {s s' : State} {c : UInt8}

-- Where the ring has its lines.
structure Ring (s : State) : Prop where
  count_pos : 0 < s.count
  count_le : s.count ≤ historyLineCount
  head_lt : s.head < historyLineCount

@[simp]
theorem history_length : s.history.length = s.count := by
  simp [State.history]

theorem history_getElem? (hi : i < s.count) : s.history[i]? = some (s.lineAt i) := by
  simp [State.history, hi]

theorem Ring.history_setLine (h : Ring s) (hj : j < s.count) :
    (s.setLine j line).history = s.history.set j line := by
  have hn := h.count_le
  refine List.ext_getElem? fun i => ?_
  by_cases hi : i < s.count
  case pos =>
    have hset : (s.setLine j line).lineAt i = if j = i then line else s.lineAt i := by
      by_cases he : j = i
      case pos =>
        rw [if_pos he, he]
        exact Function.update_self ..
      case neg =>
        have hne : (s.head + i) % historyLineCount ≠ (s.head + j) % historyLineCount := by
          simp only [historyLineCount] at hn ⊢
          omega
        rw [if_neg he]
        exact Function.update_of_ne hne ..
    rw [List.getElem?_set, history_getElem? hi, history_getElem? (s := s.setLine j line) hi, hset,
      history_length]
    split
    case isTrue  => rfl
    case isFalse => rfl
  case neg =>
    have hle : s.count ≤ i := Nat.not_lt.mp hi
    rw [List.getElem?_eq_none, List.getElem?_eq_none]
    · rw [List.length_set, history_length]
      exact hle
    · rw [history_length]
      exact hle

theorem Ring.history_last (h : Ring s) :
    s.history.dropLast ++ [s.lineAt (s.count - 1)] = s.history := by
  have hpos := h.count_pos
  have hne : s.history ≠ [] := List.ne_nil_of_length_pos (by simpa using hpos)
  have hlast : s.history.getLast hne = s.lineAt (s.count - 1) := by
    have hg := history_getElem? (s := s) (Nat.sub_lt hpos Nat.one_pos)
    have hl : s.history[s.count - 1]? = s.history.getLast? := by
      rw [List.getLast?_eq_getElem?, history_length]
    rw [hl, List.getLast?_eq_some_getLast hne] at hg
    exact Option.some_inj.mp hg
  rw [← hlast, List.dropLast_append_getLast]

theorem Ring.history_setLast (h : Ring s) :
    (s.setLine (s.count - 1) line).history = s.history.dropLast ++ [line] := by
  have hl : s.history.dropLast.length = s.count - 1 := by simp
  rw [h.history_setLine (Nat.sub_lt h.count_pos Nat.one_pos), ← h.history_last, ← hl,
    List.set_append_right _ _ (by simp)]
  simp

theorem history_noteAddedRows (n : Nat) : (s.noteAddedRows n).history = s.history := by
  rw [State.noteAddedRows]
  split <;> rfl

theorem Ring.noteAddedRows (h : Ring s) (n : Nat) : Ring (s.noteAddedRows n) := by
  rw [State.noteAddedRows]
  split
  case isTrue  => exact h
  case isFalse => exact ⟨h.count_pos, h.count_le, h.head_lt⟩

theorem Ring.setLine (h : Ring s) : Ring (s.setLine j line) :=
  ⟨h.count_pos, h.count_le, h.head_lt⟩

-- Two rings with one line more in the second, or one line less in front.
theorem history_ext {lines : List Line} (hl : s.count = lines.length)
    (h : ∀ i < s.count, lines[i]? = some (s.lineAt i)) : s.history = lines := by
  refine List.ext_getElem? fun i => ?_
  by_cases hi : i < s.count
  case pos => rw [history_getElem? hi, h i hi]
  case neg =>
    have hle : s.count ≤ i := Nat.not_lt.mp hi
    rw [List.getElem?_eq_none (by rw [history_length]; exact hle), List.getElem?_eq_none (hl ▸ hle)]

theorem Ring.appendLine (h : Ring s) : Ring s.appendLine ∧
    s.appendLine.history = lastLines (s.history ++ [[]]) := by
  have hn := h.count_le
  have hh := h.head_lt
  have hpos := h.count_pos
  rw [lastLines_concat, history_length, State.appendLine]
  split
  case isTrue hlt =>
    have hring : Ring { s.setLine s.count [] with count := s.count + 1 } :=
      ⟨Nat.succ_pos _, hlt, h.head_lt⟩
    refine ⟨hring.noteAddedRows 1, ?_⟩
    rw [history_noteAddedRows, Nat.sub_eq_zero_of_le hlt, List.drop_zero]
    refine history_ext (by simp) fun i hi => ?_
    by_cases he : i = s.count
    case pos =>
      have hlast : (s.setLine s.count []).lineAt i = [] := by
        rw [he]
        exact Function.update_self ..
      have hg : (s.history ++ [[]])[i]? = some [] := by
        rw [he, ← @history_length s, List.getElem?_concat_length]
      exact hg.trans (congrArg some hlast.symm)
    case neg =>
      have hlt : i < s.count := Nat.lt_of_le_of_ne (Nat.lt_succ_iff.mp hi) he
      have hne : (s.head + i) % historyLineCount ≠ (s.head + s.count) % historyLineCount := by
        simp only [historyLineCount] at *
        omega
      rw [List.getElem?_append_left (by rw [history_length]; exact hlt), history_getElem? hlt]
      exact congrArg some (Function.update_of_ne hne ..).symm
  case isFalse hge =>
    have hring : Ring { s with head := (s.head + 1) % historyLineCount } :=
      ⟨h.count_pos, h.count_le, Nat.mod_lt _ (by decide)⟩
    refine ⟨hring.setLine.noteAddedRows 1, ?_⟩
    have hcount : s.count = historyLineCount := Nat.le_antisymm hn (Nat.not_lt.mp hge)
    rw [history_noteAddedRows, hring.history_setLast]
    refine congrArg (· ++ [[]]) (List.ext_getElem? fun i => ?_)
    have hone : s.count + 1 - historyLineCount = 1 := by omega
    rw [List.getElem?_dropLast, List.getElem?_drop, history_length, hone]
    split
    case isTrue hi =>
      have hi : i < s.count - 1 := hi
      have hnew := history_getElem? (s := { s with head := (s.head + 1) % historyLineCount })
        (show i < s.count by omega)
      rw [hnew, history_getElem? (show 1 + i < s.count by omega)]
      refine congrArg (some ∘ s.lines) ?_
      show ((s.head + 1) % historyLineCount + i) % historyLineCount =
        (s.head + (1 + i)) % historyLineCount
      rw [Nat.mod_add_mod, Nat.add_assoc]
    case isFalse hi =>
      have hi : ¬i < s.count - 1 := hi
      rw [List.getElem?_eq_none]
      rw [history_length]
      omega

end History

section Steps

-- Lines that another character or another line has been added to.
structure Extends (columns : Nat) (lines lines' : List Line) : Prop where
  length_le : lines.length ≤ lines'.length
  le_length : lines'.length ≤ lines.length + 1
  take : ∀ n < lines.length, lines'.take n = lines.take n
  line : ∀ (n : Nat) (l : Line), lines[n]? = some l →
    ∃ l' : Line, lines'[n]? = some l' ∧ lineRows columns l ≤ lineRows columns l'
  rows_le : rowsIn columns lines ≤ rowsIn columns lines'
  le_rows : rowsIn columns lines' ≤ rowsIn columns lines + 1

theorem extends_append (h : lineRows columns line = 1) :
    Extends columns lines (lines ++ [line]) := by
  constructor
  case length_le => simp
  case le_length => simp
  case take => exact fun i hi => List.take_append_of_le_length (Nat.le_of_lt hi)
  case line =>
    intro i l hl
    obtain ⟨hi, _⟩ := List.getElem?_eq_some_iff.mp hl
    exact ⟨l, (List.getElem?_append_left hi).trans hl, Nat.le_refl _⟩
  case rows_le => simp
  case le_rows => simp [h]

theorem extends_last {pre : List Line} (hc : 0 < columns) (c : UInt8) :
    Extends columns (pre ++ [line]) (pre ++ [line ++ [c]]) := by
  have hrows := @lineRows_append_one columns line hc c
  constructor
  case length_le => simp
  case le_length => simp
  case take =>
    intro i hi
    have hle : i ≤ pre.length := by
      rw [List.length_append, List.length_singleton] at hi
      omega
    rw [List.take_append_of_le_length hle, List.take_append_of_le_length hle]
  case line =>
    intro i l hl
    by_cases hi : i < pre.length
    case pos =>
      rw [List.getElem?_append_left hi] at hl ⊢
      exact ⟨l, hl, Nat.le_refl _⟩
    case neg =>
      have hlt := (List.getElem?_eq_some_iff.mp hl).choose
      have he : i = pre.length := by
        rw [List.length_append, List.length_singleton] at hlt
        omega
      rw [he, List.getElem?_concat_length] at hl ⊢
      cases hl
      exact ⟨_, rfl, hrows.left⟩
  case rows_le => simpa using hrows.left
  case le_rows =>
    simp only [rowsIn_append, rowsIn_cons, rowsIn_nil]
    omega

theorem lineRows_one (c : UInt8) (hc : 0 < columns) : lineRows columns [c] = 1 := by
  have hle := (@lineRows_append_one columns [] hc c).right
  have hpos := @lineRows_pos columns [c]
  rw [List.nil_append] at hle
  by_contra hn
  have h1 := (lt_lineRows_iff [c] hc).mp (show 1 < lineRows columns [c] by omega)
  simp only [List.length_singleton] at h1
  omega

theorem lineRows_nil : lineRows columns [] = 1 :=
  if_pos (.inr rfl)

theorem extends_grow (hc : 0 < columns) (h : lines ≠ []) (c : UInt8) :
    Extends columns lines (grow lines c) := by
  rw [grow]
  split
  case isTrue  => exact extends_append (lineRows_one c hc)
  case isFalse =>
    obtain ⟨pre, last, he⟩ := (List.eq_nil_or_concat lines).resolve_left h
    rw [List.concat_eq_append] at he
    rw [he, List.getLastD_concat, List.dropLast_concat]
    exact extends_last hc c

variable {s s' : State} {c : UInt8} {L : List Line}

-- What a character that is written does to the view.
structure Step (s s' : State) (L : List Line) : Prop where
  ring : Ring s'
  history : s'.history = lastLines L
  lines : Extends s.columns s.history L
  columns : s'.columns = s.columns
  rows : s'.rows = s.rows
  follow : s'.autoFollow = s.autoFollow
  offset : s'.scrollOffset = if s.autoFollow then 0 else
    min (s.scrollOffset + (rowsIn s.columns L - s.totalRows)) s'.maxScrollOffset

theorem Ring.history_ne_nil (h : Ring s) : s.history ≠ [] :=
  List.ne_nil_of_length_pos (history_length.symm ▸ h.count_pos)

-- What there is before the viewport is clamped.
theorem step_clamp (hring : Ring s') (hhistory : s'.history = lastLines L)
    (hlines : Extends s.columns s.history L) (hc : s'.columns = s.columns) (hr : s'.rows = s.rows)
    (hf : s'.autoFollow = s.autoFollow)
    (ho : s.autoFollow = false →
      s'.scrollOffset = s.scrollOffset + (rowsIn s.columns L - s.totalRows)) :
    Step s s'.clampViewport L := by
  refine ⟨⟨hring.count_pos, hring.count_le, hring.head_lt⟩, hhistory, hlines, hc, hr, hf, ?_⟩
  show (if s'.autoFollow then 0 else min s'.scrollOffset s'.maxScrollOffset) = _
  rw [hf]
  split
  case isTrue     => rfl
  case isFalse hn =>
    rw [ho (Bool.eq_false_iff.mpr hn)]
    rfl

theorem appendLine_eq : s.appendLine.columns = s.columns ∧ s.appendLine.rows = s.rows ∧
    s.appendLine.autoFollow = s.autoFollow ∧
    s.appendLine.scrollOffset = s.scrollOffset + if s.autoFollow then 0 else 1 := by
  rw [State.appendLine]
  split
  all_goals
    by_cases hf : s.autoFollow
    case pos => simp [State.noteAddedRows, State.setLine, hf]
    case neg => simp [State.noteAddedRows, State.setLine, hf]

theorem appendLine_offset (hl : lineRows s.columns line = 1) (hf : s.autoFollow = false) :
    s.appendLine.scrollOffset =
      s.scrollOffset + (rowsIn s.columns (s.history ++ [line]) - s.totalRows) := by
  have hadd : rowsIn s.columns (s.history ++ [line]) - s.totalRows = 1 := by
    simp [State.totalRows, hl]
  rw [hadd, appendLine_eq.right.right.right, hf]
  rfl

theorem step_newline (h : Ring s) : Step s s.appendLine.clampViewport (s.history ++ [[]]) := by
  obtain ⟨hring, hhistory⟩ := h.appendLine
  obtain ⟨hc, hr, hf, _⟩ := @appendLine_eq s
  exact step_clamp hring hhistory (extends_append lineRows_nil) hc hr hf
    (appendLine_offset lineRows_nil)

theorem Ring.lineAt_last (h : Ring s) : s.lineAt (s.count - 1) = s.history.getLastD [] := by
  rw [← h.history_last, List.getLastD_concat]

theorem noteAddedRows_eq (n : Nat) : s.noteAddedRows n =
    { s with scrollOffset := s.scrollOffset + if s.autoFollow then 0 else n } := by
  by_cases hf : s.autoFollow
  case pos =>
    rw [State.noteAddedRows, if_pos hf, if_pos hf]
    rfl
  case neg => rw [State.noteAddedRows, if_neg hf, if_neg hf]

theorem noteAddedRows_zero : s.noteAddedRows 0 = s := by
  rw [State.noteAddedRows]
  split <;> rfl

theorem put_full (hlen : (s.lineAt (s.count - 1)).length ≥ historyLineLength) (h : Ring s)
    (hc : 0 < s.columns) (c : UInt8) :
    s.put c = (s.appendLine.setLine (s.appendLine.count - 1) [c]).clampViewport := by
  have hcolumns := (@appendLine_eq s).left
  have hempty : s.appendLine.lineAt (s.appendLine.count - 1) = [] := by
    rw [h.appendLine.left.lineAt_last, h.appendLine.right, lastLines_concat, List.getLastD_concat]
  have hrows : ¬lineRows s.columns [c] > lineRows s.columns [] := by
    rw [lineRows_one c hc, lineRows_nil]
    exact Nat.lt_irrefl 1
  rw [State.put, if_pos hlen]
  simp only [hempty, List.nil_append, hcolumns]
  rw [if_neg hrows]

theorem put_room (hlen : ¬(s.lineAt (s.count - 1)).length ≥ historyLineLength) (c : UInt8) :
    s.put c = ((s.setLine (s.count - 1) (s.lineAt (s.count - 1) ++ [c])).noteAddedRows
      (lineRows s.columns (s.lineAt (s.count - 1) ++ [c]) -
        lineRows s.columns (s.lineAt (s.count - 1)))).clampViewport := by
  rw [State.put, if_neg hlen]
  split
  case isTrue    => rfl
  case isFalse h => rw [Nat.sub_eq_zero_of_le (Nat.not_lt.mp h), noteAddedRows_zero]

theorem step_put (h : Ring s) (hc : 0 < s.columns) (c : UInt8) :
    Step s (s.put c) (grow s.history c) := by
  have hextends := extends_grow hc h.history_ne_nil c
  have hlast := h.lineAt_last
  by_cases hlen : (s.lineAt (s.count - 1)).length ≥ historyLineLength
  case pos =>
    have hgrow : grow s.history c = s.history ++ [[c]] := by
      rw [grow, ← hlast, if_pos hlen]
    obtain ⟨hring, hhistory⟩ := h.appendLine
    obtain ⟨hcolumns, hr, hf, _⟩ := @appendLine_eq s
    have hset : (s.appendLine.setLine (s.appendLine.count - 1) [c]).history =
        lastLines (s.history ++ [[c]]) := by
      rw [hring.history_setLast, hhistory, lastLines_concat, lastLines_concat,
        List.dropLast_concat]
    rw [hgrow] at hextends ⊢
    rw [put_full hlen h hc]
    exact step_clamp hring.setLine hset hextends hcolumns hr hf
      (appendLine_offset (lineRows_one c hc))
  case neg =>
    have hgrow : grow s.history c = s.history.dropLast ++ [s.lineAt (s.count - 1) ++ [c]] := by
      rw [grow, ← hlast, if_neg hlen]
    rw [hgrow] at hextends ⊢
    rw [put_room hlen]
    have hle : (s.history.dropLast ++ [s.lineAt (s.count - 1) ++ [c]]).length ≤
        historyLineCount := by
      have hpos := h.count_pos
      have hcount := h.count_le
      simp only [List.length_append, List.length_dropLast, history_length, List.length_singleton]
      omega
    have htotal : s.totalRows = rowsIn s.columns s.history.dropLast +
        lineRows s.columns (s.lineAt (s.count - 1)) := by
      rw [State.totalRows, ← h.history_last]
      simp
    refine step_clamp (h.setLine.noteAddedRows _) ?_ hextends ?_ ?_ ?_ fun hf => ?_
    · rw [history_noteAddedRows, h.history_setLast, lastLines_of_le hle]
    · rw [noteAddedRows_eq]
      rfl
    · rw [noteAddedRows_eq]
      rfl
    · rw [noteAddedRows_eq]
      rfl
    · rw [noteAddedRows_eq, htotal]
      have hoff : (s.setLine (s.count - 1) (s.lineAt (s.count - 1) ++ [c])).autoFollow = false := hf
      simp only [hoff, rowsIn_append, rowsIn_cons, rowsIn_nil]
      show s.scrollOffset + _ = s.scrollOffset + _
      rw [Nat.add_zero, Nat.add_sub_add_left]
      rfl

theorem maxScrollOffset_eq : s.maxScrollOffset = s.totalRows - s.rows := by
  rw [State.maxScrollOffset]
  split <;> omega

theorem top_eq : s.top = s.totalRows - s.rows - s.scrollOffset := by
  rw [State.top, maxScrollOffset_eq]
  omega

-- The view moves up by as many rows as are no longer there.
theorem Step.top (h : Step s s' L) (hf : s.autoFollow = false) :
    s'.top = s.top - rowsIn s.columns (L.take (L.length - historyLineCount)) := by
  have hsplit := congrArg (rowsIn s.columns)
    (List.take_append_drop (L.length - historyLineCount) L)
  have htotal : s'.totalRows = rowsIn s.columns (L.drop (L.length - historyLineCount)) := by
    rw [State.totalRows, h.columns, h.history, lastLines]
  have hle := h.lines.rows_le
  have hge := h.lines.le_rows
  have hoffset := h.offset
  have hold : s.totalRows = rowsIn s.columns s.history := rfl
  rw [hf, if_neg Bool.false_ne_true, maxScrollOffset_eq, h.rows] at hoffset
  rw [top_eq, top_eq, h.rows, htotal, hoffset, htotal, hold]
  rw [rowsIn_append] at hsplit
  omega

theorem Step.located (h : Step s s' L) (ht : Located s.columns s.history target i row) :
    Located s.columns L target i row := by
  obtain ⟨⟨l, hl, hrow⟩, ht⟩ := ht
  have hi := (List.getElem?_eq_some_iff.mp hl).choose
  obtain ⟨l', hl', hle⟩ := h.lines.line i l hl
  refine ⟨⟨l', hl', Nat.lt_of_lt_of_le hrow hle⟩, ?_⟩
  rw [h.lines.take i hi, ht]

end Steps

section Written

variable {s s' s₁ s₂ s₃ : State} {c : UInt8} {L L₁ L₂ L₃ : List Line}
  {f : List Line → List Line}

-- What only depends on the end of the lines.
structure Edit (f : List Line → List Line) : Prop where
  lastLines : ∀ ls ≠ [], lastLines (f (lastLines ls)) = lastLines (f ls)
  length : ∀ ls ≠ [], ∃ n, (f ls).length = ls.length + n ∧
    (f (Terminal.lastLines ls)).length = (Terminal.lastLines ls).length + n

theorem edit_newline : Edit (· ++ [[]]) where
  lastLines ls _ := lastLines_append ls [[]]
  length _ _     := ⟨1, List.length_append, List.length_append⟩

theorem length_grow (pre : List Line) (c : UInt8) : (grow (pre ++ [line]) c).length =
    (pre ++ [line]).length + if line.length ≥ historyLineLength then 1 else 0 := by
  rw [grow]
  simp only [List.getLastD_concat, List.dropLast_concat]
  split
  case isTrue  => exact List.length_append
  case isFalse => simp

theorem edit_grow (c : UInt8) : Edit (grow · c) where
  lastLines _ h := lastLines_grow h c
  length ls h   := by
    obtain ⟨pre, last, he⟩ := (List.eq_nil_or_concat ls).resolve_left h
    rw [List.concat_eq_append] at he
    rw [he, lastLines_concat]
    exact ⟨_, length_grow pre c, length_grow _ c⟩

-- What the state is in relation to all lines that there have been.
structure Kept (s : State) (L : List Line) : Prop where
  ring : Ring s
  history : s.history = lastLines L
  columns_pos : 0 < s.columns
  rows_pos : 0 < s.rows
  offset_le : s.scrollOffset ≤ s.maxScrollOffset
  follow : s.autoFollow = true → s.scrollOffset = 0

theorem Kept.ne_nil (h : Kept s L) : L ≠ [] := by
  intro he
  have hne := h.ring.history_ne_nil
  rw [h.history, he] at hne
  exact hne rfl

-- The number of lines that are no longer there.
def dropped (L : List Line) : Nat :=
  L.length - historyLineCount

-- The top row is a row of a line, where the line is counted from the first one ever.
structure TopAt (s : State) (L : List Line) (n r : Nat) : Prop where
  kept : dropped L ≤ n
  located : Located s.columns s.history s.top (n - dropped L) r

-- The top row stays where it is, or is the oldest row if its line is dropped.
structure Stays (s s' : State) (L L' : List Line) : Prop where
  columns : s'.columns = s.columns
  rows : s'.rows = s.rows
  follow : s'.autoFollow = s.autoFollow
  dropped_le : dropped L ≤ dropped L'
  top_le : s.autoFollow = false → s'.top ≤ s.top
  top : s.autoFollow = false → ∀ n r, TopAt s L n r →
    if n < dropped L' then s'.top = 0 else TopAt s' L' n r

theorem Stays.refl (s : State) (L : List Line) : Stays s s L L where
  columns    := rfl
  rows       := rfl
  follow     := rfl
  dropped_le := Nat.le_refl _
  top_le _   := Nat.le_refl _
  top _ n r h := by
    rw [if_neg (Nat.not_lt.mpr h.kept)]
    exact h

theorem Stays.trans (h₁ : Stays s₁ s₂ L₁ L₂) (h₂ : Stays s₂ s₃ L₂ L₃) : Stays s₁ s₃ L₁ L₃ where
  columns    := h₂.columns.trans h₁.columns
  rows       := h₂.rows.trans h₁.rows
  follow     := h₂.follow.trans h₁.follow
  dropped_le := Nat.le_trans h₁.dropped_le h₂.dropped_le
  top_le hf  := Nat.le_trans (h₂.top_le (h₁.follow.trans hf)) (h₁.top_le hf)
  top hf n r h := by
    have hf₂ := h₁.follow.trans hf
    have htop := h₁.top hf n r h
    by_cases hn : n < dropped L₂
    case pos =>
      rw [if_pos hn] at htop
      rw [if_pos (Nat.lt_of_lt_of_le hn h₂.dropped_le)]
      exact Nat.le_zero.mp (htop ▸ h₂.top_le hf₂)
    case neg =>
      rw [if_neg hn] at htop
      exact h₂.top hf₂ n r htop

theorem Step.stays (h : Step s s' (f s.history)) (hk : Kept s L) (hf : Edit f) :
    Stays s s' L (f L) := by
  obtain ⟨m, hlen, hlen'⟩ := hf.length L hk.ne_nil
  rw [← hk.history] at hlen'
  have hl : s.history.length = min L.length historyLineCount := by rw [hk.history, lastLines_length]
  have hd : dropped (f L) = dropped L + dropped (f s.history) := by
    simp only [dropped, historyLineCount] at hl ⊢
    omega
  refine ⟨h.columns, h.rows, h.follow, by omega, fun hf => ?_, fun hf n r ht => ?_⟩
  · rw [h.top hf]
    exact Nat.sub_le _ _
  · have hloc := h.located ht.located
    have htop := h.top hf
    have hkept := ht.kept
    split
    case isTrue hn =>
      have hlt : n - dropped L < dropped (f s.history) := by omega
      rw [htop]
      exact Nat.sub_eq_zero_of_le (Nat.le_of_lt (hloc.lt_rowsIn hlt))
    case isFalse hn =>
      have hle : dropped (f s.history) ≤ n - dropped L := by omega
      have hnew := hloc.drop hle
      refine ⟨Nat.not_lt.mp hn, ?_⟩
      rw [h.columns, h.history, htop, hd, Nat.sub_add_eq]
      exact hnew

theorem Step.kept (h : Step s s' (f s.history)) (hk : Kept s L) (hf : Edit f) : Kept s' (f L) where
  ring        := h.ring
  history     := by rw [h.history, hk.history, hf.lastLines L hk.ne_nil]
  columns_pos := h.columns ▸ hk.columns_pos
  rows_pos    := h.rows ▸ hk.rows_pos
  offset_le   := by
    rw [h.offset]
    split
    case isTrue  => exact Nat.zero_le _
    case isFalse => exact Nat.min_le_right _ _
  follow ha   := by rw [h.offset, if_pos (h.follow ▸ ha)]

theorem Edit.written (hf : Edit f) (hk : Kept s L) (h : Step s s' (f s.history)) :
    Kept s' (f L) ∧ Stays s s' L (f L) :=
  ⟨h.kept hk hf, h.stays hk hf⟩

-- What one character makes of all lines that there have been.
def addChar (lines : List Line) (c : UInt8) : List Line :=
  if c = 13 then
    lines
  else if c = 10 then
    lines ++ [[]]
  else if c = 9 then
    grow (grow (grow (grow lines 32) 32) 32) 32
  else
    grow lines (if c < 32 ∨ c > 126 then 63 else c)

theorem written_put (hk : Kept s L) (c : UInt8) :
    Kept (s.put c) (grow L c) ∧ Stays s (s.put c) L (grow L c) :=
  Edit.written (f := (grow · c)) (edit_grow c) hk (step_put hk.ring hk.columns_pos c)

theorem written_putc (hk : Kept s L) (c : UInt8) :
    Kept (s.putc c) (addChar L c) ∧ Stays s (s.putc c) L (addChar L c) := by
  rw [State.putc, addChar]
  split
  case isTrue  => exact ⟨hk, .refl s L⟩
  case isFalse =>
  split
  case isTrue => exact Edit.written (f := (· ++ [[]])) edit_newline hk (step_newline hk.ring)
  case isFalse =>
  split
  case isTrue =>
    obtain ⟨hk₁, h₁⟩ := written_put hk 32
    obtain ⟨hk₂, h₂⟩ := written_put hk₁ 32
    obtain ⟨hk₃, h₃⟩ := written_put hk₂ 32
    obtain ⟨hk₄, h₄⟩ := written_put hk₃ 32
    exact ⟨hk₄, h₁.trans (h₂.trans (h₃.trans h₄))⟩
  case isFalse => exact written_put hk _

-- The text ends before the first 0.
def cut (text : List UInt8) : List UInt8 :=
  text.takeWhile (· ≠ 0)

theorem written_write (hk : Kept s L) (text : List UInt8) :
    Kept (s.write text) ((cut text).foldl addChar L) ∧
      Stays s (s.write text) L ((cut text).foldl addChar L) := by
  induction text generalizing s L with
  | nil => exact ⟨hk, .refl s L⟩
  | cons c text ih =>
    rw [State.write, cut, List.takeWhile_cons]
    by_cases hc : c = 0
    case pos =>
      rw [if_pos hc, if_neg (by simpa using hc)]
      exact ⟨hk, .refl s L⟩
    case neg =>
      rw [if_neg hc, if_pos (by simpa using hc), List.foldl_cons]
      obtain ⟨hk₁, h₁⟩ := written_putc hk c
      obtain ⟨hk₂, h₂⟩ := ih hk₁
      exact ⟨hk₂, h₁.trans h₂⟩

end Written

section View

variable {s s' : State} {L : List Line}

theorem Kept.total_pos (h : Kept s L) : 0 < s.totalRows := by
  have hline := history_getElem? h.ring.count_pos
  have hle := @lineRows_le_rowsIn s.columns 0 _ _ hline
  have hpos := @lineRows_pos s.columns (s.lineAt 0)
  rw [List.take_zero, rowsIn_nil] at hle
  rw [State.totalRows]
  omega

theorem Kept.top_lt (h : Kept s L) : s.top < s.totalRows := by
  have hrows := h.rows_pos
  have htotal := h.total_pos
  rw [top_eq]
  omega

theorem Kept.exists_topAt (h : Kept s L) : ∃ n r, TopAt s L n r := by
  obtain ⟨i, r, hloc⟩ := exists_located h.top_lt
  refine ⟨dropped L + i, r, Nat.le_add_right _ _, ?_⟩
  rw [Nat.add_sub_cancel_left]
  exact hloc

theorem rowText_eq : s.rowText target = textOf s.columns s.history target := by
  rw [State.rowText, textOf]
  cases hloc : locate s.columns s.history target with
  | none   => rfl
  | some x =>
    obtain ⟨i, r⟩ := x
    obtain ⟨⟨l, hl, _⟩, _⟩ := locate_eq_some.mp hloc
    have hi := (List.getElem?_eq_some_iff.mp hl).choose
    rw [history_length] at hi
    have hline := history_getElem? hi
    simp only [List.getD_eq_getElem?_getD, hline, Option.getD_some]

-- The text of all rows.
theorem Kept.flatMap_rowText (h : Kept s L) :
    (List.range s.totalRows).flatMap s.rowText = (lastLines L).flatten := by
  rw [← h.history, ← flatMap_textOf h.columns_pos, State.totalRows]
  exact congrArg (List.flatMap · _) (funext fun _ => rowText_eq)

-- The row is in the view.
def Shown (s : State) (n : Nat) : Prop :=
  s.top ≤ n ∧ n < s.top + s.rows

theorem Kept.shown_last (h : Kept s L) (hf : s.autoFollow = true) : Shown s (s.totalRows - 1) := by
  have hrows := h.rows_pos
  have htotal := h.total_pos
  have htop := @top_eq s
  rw [h.follow hf] at htop
  exact ⟨by omega, by omega⟩

-- The first character of the top row is in the top row again, unless this is behind the end.
def Anchored (s s' : State) : Prop :=
  ∀ i r, Located s.columns s.history s.top i r →
    ∃ n, Located s'.columns s'.history n i (r * s.columns / s'.columns) ∧
      s'.top = min n s'.maxScrollOffset

theorem setGeometry_cases (columns rows : UInt16) (h : s.top < s.totalRows) :
    s.setGeometry columns rows = s ∨
    ∃ c r, 0 < c ∧ 0 < r ∧
      if s.autoFollow then
        s.setGeometry columns rows = { s with columns := c, rows := r, scrollOffset := 0 }
      else
        ∃ i row, Located s.columns s.history s.top i row ∧
          s.setGeometry columns rows =
            let s' := { s with columns := c, rows := r }
            let desired := rowsIn c (s.history.take i) + row * s.columns / c
            { s' with scrollOffset := s'.maxScrollOffset - min desired s'.maxScrollOffset } := by
  have pos (x : UInt16) : 0 < if x ≠ 0 then x.toNat else 1 := by
    split
    case isTrue hx  => exact Nat.pos_of_ne_zero fun he => hx (UInt16.toNat_inj.mp he)
    case isFalse hx => exact Nat.one_pos
  obtain ⟨i, row, hloc⟩ := exists_located h
  have hc := pos columns
  have hr := pos rows
  rw [State.setGeometry, locate_eq_some.mpr hloc]
  generalize (if columns ≠ 0 then columns.toNat else 1) = c at hc ⊢
  generalize (if rows ≠ 0 then rows.toNat else 1) = r at hr ⊢
  dsimp only
  split
  case isTrue  => exact .inl rfl
  case isFalse =>
    refine .inr ⟨c, r, hc, hr, ?_⟩
    split
    case isTrue  => rfl
    case isFalse => exact ⟨i, row, hloc, rfl⟩

theorem Kept.setGeometry (h : Kept s L) (columns rows : UInt16) :
    Kept (s.setGeometry columns rows) L := by
  obtain he | ⟨c, r, hc, hr, he⟩ := setGeometry_cases columns rows h.top_lt
  case inl => exact he.symm ▸ h
  case inr =>
    have hring (n : Nat) : Ring { s with columns := c, rows := r, scrollOffset := n } :=
      ⟨h.ring.count_pos, h.ring.count_le, h.ring.head_lt⟩
    split at he
    case isTrue hf =>
      rw [he]
      exact ⟨hring 0, h.history, hc, hr, Nat.zero_le _, fun _ => rfl⟩
    case isFalse hf =>
      obtain ⟨i, row, _, he⟩ := he
      rw [he]
      exact ⟨hring _, h.history, hc, hr, Nat.sub_le _ _, fun ha => absurd ha hf⟩

theorem Kept.anchored (h : Kept s L) (hf : s.autoFollow = false) (columns rows : UInt16) :
    Anchored s (s.setGeometry columns rows) := by
  intro i r hloc
  obtain he | ⟨c, r', hc, hr, he⟩ := setGeometry_cases columns rows h.top_lt
  case inl =>
    rw [he, Nat.mul_div_cancel _ h.columns_pos]
    refine ⟨s.top, hloc, (Nat.min_eq_left ?_).symm⟩
    exact Nat.sub_le _ _
  case inr =>
    rw [hf, if_neg Bool.false_ne_true] at he
    obtain ⟨i', row, hloc', he⟩ := he
    have hsame := (locate_eq_some.mpr hloc).symm.trans (locate_eq_some.mpr hloc')
    cases hsame
    rw [he]
    obtain ⟨⟨l, hl, hrow⟩, ht⟩ := hloc
    refine ⟨_, ⟨⟨l, hl, ?_⟩, rfl⟩, ?_⟩
    · rw [lt_lineRows_iff l hc]
      obtain h0 | hlt := (lt_lineRows_iff l h.columns_pos).mp hrow
      case inl => exact .inl (by rw [h0, Nat.zero_mul, Nat.zero_div])
      case inr => exact .inr (Nat.lt_of_le_of_lt (Nat.div_mul_le_self _ _) hlt)
    · have hsub (d m : Nat) : m - min (m - min d m) m = min d m := by omega
      exact hsub _ _

end View

section Run

variable {s : State} {L : List Line}

theorem Kept.scrollUp (h : Kept s L) : Kept s.scrollUp L := by
  rw [State.scrollUp]
  split
  case isTrue hlt => exact ⟨⟨h.ring.count_pos, h.ring.count_le, h.ring.head_lt⟩, h.history,
    h.columns_pos, h.rows_pos, hlt, fun ha => absurd ha Bool.false_ne_true⟩
  case isFalse => exact h

theorem Kept.scrollDown (h : Kept s L) : Kept s.scrollDown L := by
  refine ⟨⟨h.ring.count_pos, h.ring.count_le, h.ring.head_lt⟩, h.history, h.columns_pos,
    h.rows_pos, Nat.le_trans (Nat.sub_le _ 1) h.offset_le, fun ha => ?_⟩
  obtain hf | h0 := (Bool.or_eq_true _ _).mp ha
  case inl => exact Nat.sub_eq_zero_of_le (h.follow hf ▸ Nat.zero_le _)
  case inr => exact of_decide_eq_true h0

theorem Kept.followLatest (h : Kept s L) : Kept s.followLatest L :=
  ⟨⟨h.ring.count_pos, h.ring.count_le, h.ring.head_lt⟩, h.history, h.columns_pos, h.rows_pos,
    Nat.zero_le _, fun _ => rfl⟩

theorem kept_init (columns rows : UInt16) : Kept (State.init columns rows) [[]] := by
  have pos (x : UInt16) : 0 < if x ≠ 0 then x.toNat else 1 := by
    split
    case isTrue hx  => exact Nat.pos_of_ne_zero fun he => hx (UInt16.toNat_inj.mp he)
    case isFalse hx => exact Nat.one_pos
  have h64 : 0 < historyLineCount := by decide
  exact ⟨⟨Nat.one_pos, h64, h64⟩, rfl, pos columns, pos rows, Nat.zero_le _,
    fun _ => rfl⟩

-- The text of all calls.
def written (ops : List Op) : List UInt8 :=
  ops.flatMap fun
    | .write text => cut text
    | _           => []

-- All lines of a text.
def textLines (text : List UInt8) : List Line :=
  text.foldl addChar [[]]

theorem kept_run (h : Kept s L) (ops : List Op) :
    Kept (run s ops) ((written ops).foldl addChar L) := by
  induction ops generalizing s L with
  | nil => exact h
  | cons op ops ih =>
    rw [written, List.flatMap_cons, List.foldl_append]
    cases op with
    | write text      => exact ih (written_write h text).left
    | scrollUp        => exact ih h.scrollUp
    | scrollDown      => exact ih h.scrollDown
    | followLatest    => exact ih h.followLatest
    | setGeometry c r => exact ih (h.setGeometry c r)

-- What the view is, and what becomes of it.
structure Steady (s : State) (text : List UInt8) : Prop where
  offset_le : s.scrollOffset ≤ s.maxScrollOffset
  offset_follow : s.autoFollow = true → s.scrollOffset = 0
  last_shown : s.autoFollow = true → Shown s (s.totalRows - 1)
  write : s.autoFollow = false → ∀ new, ∃ n r, TopAt s (textLines text) n r ∧
    if n < dropped (textLines (text ++ cut new)) then
      (s.write new).top = 0
    else
      TopAt (s.write new) (textLines (text ++ cut new)) n r
  setGeometry : s.autoFollow = false → ∀ columns rows, Anchored s (s.setGeometry columns rows)
  rows : (List.range s.totalRows).flatMap s.rowText = (lastLines (textLines text)).flatten

theorem view_stays (columns rows : UInt16) (ops : List Op) :
    Steady (run (State.init columns rows) ops) (written ops) := by
  have hk := kept_run (kept_init columns rows) ops
  refine ⟨hk.offset_le, hk.follow, hk.shown_last, fun hf new => ?_, hk.anchored,
    hk.flatMap_rowText⟩
  obtain ⟨n, r, htop⟩ := hk.exists_topAt
  refine ⟨n, r, htop, ?_⟩
  rw [textLines, List.foldl_append]
  exact (written_write hk new).right.top hf n r htop

-- While the view follows, the first character of the top row is left behind: of four lines, two
-- are shown, and then one.
theorem view_follows_geometry : ¬∀ columns rows ops columns' rows',
    let s := run (State.init columns rows) ops
    Anchored s (s.setGeometry columns' rows') := by
  intro h
  have hanchored := h 10 2 [.write [97, 10, 98, 10, 99, 10]] 10 1
  obtain ⟨n, hn, htop⟩ := hanchored 2 0 (locate_eq_some.mp (by decide))
  have hn' : n = 2 := by
    rw [hn.target]
    decide
  rw [hn'] at htop
  exact absurd htop (by decide)

end Run

end Terminal
