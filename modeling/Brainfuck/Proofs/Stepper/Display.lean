import Mathlib.Algebra.GroupWithZero.Nat
import Mathlib.Data.List.Basic
import Brainfuck.Proofs.Number.Decimal
import Brainfuck.Proofs.Stepper.Watching
import Brainfuck.Proofs.Tape.Window

/-! # The rows of a block

A block shows the cells of the window in one row, and in the next one a mark that is meant to stand under the
cell of the pointer. All columns are at least three characters wide, but only the mark keeps to three: a cell
of more digits moves what is to the right of it, and the mark is under the cell of the pointer as long as the
cells before that one stand out by no more than one character together. -/
namespace Brainfuck

/-! ## Entries of a row -/

section

variable {α : Type*} {sep entry : List α} {left right : List (List α)}

lemma intercalate_cons_eq_append (sep entry : List α) (right : List (List α)) :
    sep.intercalate (entry :: right) = entry ++ right.flatMap (sep ++ ·) := by
  induction right generalizing entry with
  | nil => simp
  | cons next right ih => rw [List.intercalate_cons_cons, ih next, List.flatMap_cons]; simp

/-- What stands before an entry, the entry, and what stands behind it. -/
lemma intercalate_append_cons (sep entry : List α) (left right : List (List α)) :
    sep.intercalate (left ++ entry :: right) =
      left.flatMap (· ++ sep) ++ (entry ++ right.flatMap (sep ++ ·)) := by
  induction left with
  | nil => exact intercalate_cons_eq_append sep entry right
  | cons first left ih =>
    rw [List.cons_append, List.intercalate_cons_of_ne_nil (by simp), ih, List.flatMap_cons]
    simp

end

/-- The number of the entry to which a character in a row of cells belongs: as many bars are to the left of
it, and it is no bar and not one of the brackets around the row. -/
def entryAt? (row : List Char) (i : Nat) : Option Nat :=
  match row[i]? with
  | none => none
  | some c =>
    if c = '|' ∨ c = ']' ∨ '[' ∉ row.take i then none else some ((row.take i).count '|')

lemma entryAt?_of_inside {before entry behind : List Char} {i : Nat} (hbracket : '[' ∈ before)
    (hentry : ∀ c ∈ entry, c ≠ '|' ∧ c ≠ ']') (hle : before.length ≤ i)
    (hlt : i < before.length + entry.length) :
    entryAt? (before ++ (entry ++ behind)) i = some (before.count '|') := by
  obtain ⟨j, rfl⟩ := Nat.exists_eq_add_of_le hle
  have hj : j < entry.length := by omega
  have hchar : (before ++ (entry ++ behind))[before.length + j]? = some entry[j] := by
    rw [List.getElem?_append_right hle, Nat.add_sub_cancel_left, List.getElem?_append_left hj,
      List.getElem?_eq_getElem hj]
  have htake : (before ++ (entry ++ behind)).take (before.length + j) = before ++ entry.take j := by
    rw [List.take_length_add_append, List.take_append_of_le_length hj.le]
  have hcount : (entry.take j).count '|' = 0 := by
    apply List.count_eq_zero_of_not_mem
    intro hmem
    exact (hentry '|' (List.mem_of_mem_take hmem)).1 rfl
  obtain ⟨hbar, hclose⟩ := hentry _ (List.getElem_mem hj)
  simp [entryAt?, hchar, htake, hbar, hclose, hbracket, hcount]

/-- To the left of a bar there are fewer bars than with it. -/
lemma entryAt?_ne_of_left {before behind : List Char} {i : Nat} (hle : i ≤ before.length) :
    entryAt? (before ++ '|' :: behind) i ≠ some ((before ++ ['|']).count '|') := by
  have htake : (before ++ '|' :: behind).take i = before.take i := List.take_append_of_le_length hle
  have hcount : (before.take i).count '|' ≤ before.count '|' := (List.take_sublist i before).count_le _
  intro h
  unfold entryAt? at h
  rw [htake, List.count_append] at h
  split at h
  · cases h
  next c hc =>
    have hsame := (Option.ite_none_left_eq_some.1 h).2
    have : (before.take i).count '|' = before.count '|' + 1 := Option.some.inj hsame
    omega

namespace Stepper

/-! ## Columns -/

lemma toList_column (n : Nat) :
    (column n).toList = List.replicate (3 - (toString n).length) ' ' ++ Nat.toDigits 10 n := by
  simp [column]

lemma length_column (n : Nat) : (column n).length = 3 + ((toString n).length - 3) := by
  rw [← String.length_toList, toList_column, List.length_append, List.length_replicate,
    ← Numeral.toList_toString, String.length_toList]
  omega

/-- A column is made of blanks and digits. -/
lemma of_mem_column {n : Nat} {c : Char} (h : c ∈ (column n).toList) : c = ' ' ∨ c.isDigit = true := by
  rw [toList_column, List.mem_append] at h
  obtain h | h := h
  · exact .inl (List.eq_of_mem_replicate h)
  · exact .inr (Numeral.isDigit_of_mem_toDigits h)

lemma ne_of_mem_column {n : Nat} {c d : Char} (h : c ∈ (column n).toList) (hblank : d ≠ ' ')
    (hdigit : d.isDigit = false) : c ≠ d := by
  rintro rfl
  obtain rfl | hc := of_mem_column h
  · exact hblank rfl
  · rw [hdigit] at hc
    cases hc

/-- By how many characters the columns of cells stand out over three each. -/
def overhang (cells : List Nat) : Nat := (cells.map fun v => (toString v).length - 3).sum

lemma length_columns (cells : List Nat) :
    (cells.flatMap fun v => (column v).toList ++ ['|']).length = 4 * cells.length + overhang cells := by
  induction cells with
  | nil => rfl
  | cons v cells ih =>
    rw [List.flatMap_cons, List.length_append, ih, List.length_append, String.length_toList, length_column]
    simp only [overhang, List.length_cons, List.length_nil, List.map_cons, List.sum_cons]
    omega

lemma count_columns (cells : List Nat) :
    (cells.flatMap fun v => (column v).toList ++ ['|']).count '|' = cells.length := by
  induction cells with
  | nil => rfl
  | cons v cells ih =>
    have hcolumn : (column v).toList.count '|' = 0 := by
      apply List.count_eq_zero_of_not_mem
      intro hmem
      exact ne_of_mem_column hmem (by decide) (by decide) rfl
    rw [List.flatMap_cons, List.count_append, ih, List.count_append, hcolumn]
    simp
    omega

/-! ## The row of the cells -/

/-- The row of some cells. -/
def cellRow (cells : List Nat) : String := "Memory:   [" ++ "|".intercalate (cells.map column) ++ "]"

/-- The row in which a mark stands between blank columns. -/
def markRow (before behind : Nat) : String :=
  "Pointer:   " ++ " ".intercalate (List.replicate before "   " ++ " ^ " :: List.replicate behind "   ")

/-- A row of cells up to the place where the cell begins that has these before it. -/
def rowBefore (left : List Nat) : List Char :=
  "Memory:   [".toList ++ left.flatMap fun v => (column v).toList ++ ['|']

lemma length_rowBefore (left : List Nat) :
    (rowBefore left).length = 11 + (4 * left.length + overhang left) := by
  unfold rowBefore
  rw [List.length_append, length_columns]
  rfl

lemma count_rowBefore (left : List Nat) : (rowBefore left).count '|' = left.length := by
  unfold rowBefore
  rw [List.count_append, count_columns]
  exact Nat.zero_add _

lemma rowBefore_concat (left : List Nat) (v : Nat) :
    rowBefore (left ++ [v]) = (rowBefore left ++ (column v).toList) ++ ['|'] := by
  unfold rowBefore
  simp

lemma toList_cellRow (left : List Nat) (v : Nat) (right : List Nat) :
    ∃ behind, (cellRow (left ++ v :: right)).toList = rowBefore left ++ ((column v).toList ++ behind) := by
  refine ⟨(right.map fun v => (column v).toList).flatMap (['|'] ++ ·) ++ [']'], ?_⟩
  have hcolumns : ((left ++ v :: right).map column).map String.toList =
      (left.map fun v => (column v).toList) ++ (column v).toList :: right.map fun v => (column v).toList := by
    simp [Function.comp_def]
  rw [cellRow, String.toList_append, String.toList_append, String.toList_intercalate, hcolumns]
  have hbar : "|".toList = ['|'] := rfl
  have hclose : "]".toList = [']'] := rfl
  rw [hbar, hclose, intercalate_append_cons, List.flatMap_map]
  unfold rowBefore
  simp only [List.append_assoc]

/-- In a row of cells the characters of a column belong to its cell. -/
lemma entryAt?_column {left behind : List Char} {v i : Nat} (hbracket : '[' ∈ left) (hle : left.length ≤ i)
    (hlt : i < left.length + 3) :
    entryAt? (left ++ ((column v).toList ++ behind)) i = some (left.count '|') := by
  have hcolumn : 3 ≤ (column v).toList.length := by
    rw [String.length_toList, length_column]
    omega
  have hplain : ∀ c ∈ (column v).toList, c ≠ '|' ∧ c ≠ ']' := fun c hc =>
    ⟨ne_of_mem_column hc (by decide) (by decide), ne_of_mem_column hc (by decide) (by decide)⟩
  exact entryAt?_of_inside hbracket hplain hle (by omega)

/-- No character before the last bar to the left of a cell belongs to this cell. -/
lemma entryAt?_rowBefore_ne {left : List Nat} {behind : List Char} {i : Nat} (hi : 11 < i)
    (hlt : i < (rowBefore left).length) : entryAt? (rowBefore left ++ behind) i ≠ some left.length := by
  obtain rfl | ⟨init, v, rfl⟩ := left.eq_nil_or_concat'
  · rw [length_rowBefore] at hlt
    exact absurd hlt hi.not_gt
  · have hcount := count_rowBefore (init ++ [v])
    rw [rowBefore_concat, List.length_append, List.length_singleton] at hlt
    rw [rowBefore_concat] at hcount ⊢
    rw [List.append_assoc, List.singleton_append, ← hcount]
    exact entryAt?_ne_of_left (by omega)

/-- The mark is under the cell with so many cells before it exactly if these stand out by one character at
most. -/
theorem entryAt?_cellRow_iff (left : List Nat) (v : Nat) (right : List Nat) :
    entryAt? (cellRow (left ++ v :: right)).toList (12 + 4 * left.length) = some left.length ↔
      overhang left ≤ 1 := by
  obtain ⟨behind, hrow⟩ := toList_cellRow left v right
  have hlength := length_rowBefore left
  rw [hrow]
  constructor
  · intro hentry
    by_contra hwide
    -- Two characters more move the bar in front of the cell to the mark, or past it.
    exact entryAt?_rowBefore_ne (by omega) (by omega) hentry
  · intro hle
    have hbracket : '[' ∈ rowBefore left := List.mem_append_left _ (by decide)
    rw [entryAt?_column hbracket (by omega) (by omega), count_rowBefore]

/-! ## The row of the mark -/

lemma toList_markRow (before behind : Nat) : ∃ left right : List Char,
    (markRow before behind).toList = left ++ '^' :: right ∧ left.length = 12 + 4 * before ∧
      '^' ∉ left ∧ '^' ∉ right := by
  refine ⟨"Pointer:   ".toList ++ (List.replicate before "   ".toList).flatMap (· ++ [' ']) ++ [' '],
    ' ' :: (List.replicate behind "   ".toList).flatMap ([' '] ++ ·), ?_, ?_, ?_, ?_⟩
  · have hcolumns : (List.replicate before "   " ++ " ^ " :: List.replicate behind "   ").map String.toList =
        List.replicate before "   ".toList ++ " ^ ".toList :: List.replicate behind "   ".toList := by
      simp
    have hblank : " ".toList = [' '] := rfl
    rw [markRow, String.toList_append, String.toList_intercalate, hcolumns, hblank, intercalate_append_cons]
    simp
  · simp
    omega
  · simp
  · simp

/-- There is one mark. -/
lemma count_markRow (before behind : Nat) : (markRow before behind).toList.count '^' = 1 := by
  obtain ⟨left, right, hrow, -, hleft, hright⟩ := toList_markRow before behind
  rw [hrow, List.count_append, List.count_cons_self, List.count_eq_zero_of_not_mem hleft,
    List.count_eq_zero_of_not_mem hright]

/-- The mark keeps to columns of three characters. -/
lemma idxOf_markRow (before behind : Nat) : (markRow before behind).toList.idxOf '^' = 12 + 4 * before := by
  obtain ⟨left, right, hrow, hlength, hleft, -⟩ := toList_markRow before behind
  rw [hrow, List.idxOf_append_of_notMem hleft, List.idxOf_cons_self, hlength]
  rfl

/-! ## The block -/

variable {s : Stepper} {t : Tape} {first last : Nat}

/-- The cells from one index to another. -/
def cellsBetween (t : Tape) (first last : Nat) : List Nat := (t.cells.toList.take (last + 1)).drop first

/-- The cells that are shown to the left of the pointer. -/
def cellsBefore (t : Tape) (first : Nat) : List Nat := (t.cells.toList.take t.pointer).drop first

lemma shownIndices_eq (h : t.window s.range = (first, last)) :
    s.shownIndices t = List.range' first (last + 1 - first) := by
  rw [shownIndices, h, List.range'_eq_map_range]

lemma cellsBetween_eq_map (h : t.Views s.range first last) :
    (List.range' first (last + 1 - first)).map (fun i => t.cells[i]?.getD 0) = cellsBetween t first last := by
  have hlast : last < t.cells.size := h.last_lt
  apply List.ext_getElem
  · simp [cellsBetween]
    omega
  · intro i hi _
    have hlt : first + i < t.cells.size := by
      simp at hi
      omega
    simp [cellsBetween, hlt]

lemma length_cellsBefore (t : Tape) (first : Nat) : (cellsBefore t first).length = t.pointer - first := by
  have hpointer := t.pointer_lt
  simp [cellsBefore]
  omega

/-- The cell under the pointer is among those that are shown. -/
lemma cellsBetween_eq (h : t.Views s.range first last) : ∃ right,
    cellsBetween t first last = cellsBefore t first ++ t.read :: right := by
  have hfirst := h.first_le
  have hpointer := h.le_last
  have hlast : last < t.cells.toList.length := h.last_lt
  let shown := t.cells.toList.take (last + 1)
  have hlength : shown.length = last + 1 := List.length_take_of_le hlast
  have hbefore : shown.take t.pointer = t.cells.toList.take t.pointer := by
    rw [List.take_take, Nat.min_eq_left (by omega)]
  have hread : shown[t.pointer] = t.read := by simp [shown, Tape.read]
  refine ⟨shown.drop (t.pointer + 1), ?_⟩
  calc
    shown.drop first = (shown.take t.pointer ++ shown.drop t.pointer).drop first := by
      rw [List.take_append_drop]
    _ = (shown.take t.pointer).drop first ++ shown.drop t.pointer :=
      List.drop_append_of_le_length (by rw [List.length_take, hlength]; omega)
    _ = cellsBefore t first ++ t.read :: shown.drop (t.pointer + 1) := by
      rw [hbefore, List.drop_eq_getElem_cons (by omega : t.pointer < shown.length), hread]
      rfl

lemma marks_eq (h : t.Views s.range first last) :
    (List.range' first (last + 1 - first)).map (fun i => if i = t.pointer then " ^ " else "   ") =
      List.replicate (t.pointer - first) "   " ++ " ^ " :: List.replicate (last - t.pointer) "   " := by
  have hfirst := h.first_le
  have hpointer := h.le_last
  have hblank (start n : Nat) (hoff : ∀ i ∈ List.range' start n, i ≠ t.pointer) :
      (List.range' start n).map (fun i => if i = t.pointer then " ^ " else "   ") = List.replicate n "   " := by
    rw [List.map_congr_left fun i hi => if_neg (hoff i hi), List.map_const', List.length_range']
  have hsplit : List.range' first (last + 1 - first) =
      List.range' first (t.pointer - first) ++ t.pointer :: List.range' (t.pointer + 1) (last - t.pointer) := by
    have hsize : last + 1 - first = (t.pointer - first) + (last - t.pointer + 1) := by omega
    rw [hsize, ← List.range'_append_1, Nat.add_sub_cancel' hfirst, List.range'_succ]
  rw [hsplit, List.map_append, List.map_cons, if_pos rfl]
  congr 1
  · apply hblank
    intro i hi
    simp at hi
    omega
  · congr 1
    apply hblank
    intro i hi
    simp at hi
    omega

/-- The rows of a block. -/
lemma block_eq (m : Machine) (op : Option Operator) (h : m.tape.window s.range = (first, last)) :
    s.block m op =
      [ "", cellRow (cellsBetween m.tape first last),
        markRow (m.tape.pointer - first) (last - m.tape.pointer),
        "Address:   " ++ " ".intercalate ((List.range' first (last + 1 - first)).map column),
        "Output:   " ++ (if s.output.isEmpty then "(empty)" else Text.quotedCodes s.output.toList),
        m.location.text ++ ": " ++ m.source.charText ++ "    " ++ (Prospect.of m op).text ] := by
  have hviews := Tape.window_eq_iff.1 h
  have hvalues : (List.range' first (last + 1 - first)).map (fun i => column (m.tape.cells[i]?.getD 0)) =
      (cellsBetween m.tape first last).map column := by
    rw [← cellsBetween_eq_map hviews, List.map_map]
    rfl
  unfold block
  simp only [shownIndices_eq h, hvalues, marks_eq hviews]
  rfl

/-- A number of up to three digits does not stand out. -/
lemma overhang_eq_zero {cells : List Nat} (h : ∀ v ∈ cells, v < 1000) : overhang cells = 0 := by
  induction cells with
  | nil => rfl
  | cons v cells ih =>
    obtain ⟨hv, hcells⟩ := List.forall_mem_cons.1 h
    have hlength : (toString v).length ≤ 3 := by
      rw [← String.length_toList, Numeral.toList_toString]
      exact (Nat.length_toDigits_le_iff (by omega) (by omega)).2 hv
    have hrest : (cells.map fun v => (toString v).length - 3).sum = 0 := ih hcells
    rw [overhang, List.map_cons, List.sum_cons, hrest, Nat.sub_eq_zero_of_le hlength]

lemma mem_cells_of_mem_cellsBefore {v : Nat} (h : v ∈ cellsBefore t first) : v ∈ t.cells :=
  Array.mem_toList_iff.1 (List.mem_of_mem_take (List.mem_of_mem_drop h))

/-- The window of a tape is the one row of cells around the pointer that has the wanted size, cut to the
tape, and is centred as far as the ends allow. A block shows these cells, one after another and none from
outside the tape, with their addresses, and one mark. The mark is in the column of the pointer among columns
of three characters, so it is under the cell of the pointer exactly if the cells shown before that one stand
out by one character at most. So it is if no cell has more than three digits. -/
theorem block_views_tape (s : Stepper) (m : Machine) (op : Option Operator) :
    (∀ (t : Tape) (width : Int) (first last : Nat),
      t.window width = (first, last) ↔ t.Views width first last) ∧
    ∃ first last : Nat,
      m.tape.window s.range = (first, last) ∧
      s.shownIndices m.tape = List.range' first (last + 1 - first) ∧
      (∀ i ∈ s.shownIndices m.tape, i < m.tape.length) ∧
      s.block m op =
        [ "", cellRow (cellsBetween m.tape first last),
          markRow (m.tape.pointer - first) (last - m.tape.pointer),
          "Address:   " ++ " ".intercalate ((List.range' first (last + 1 - first)).map column),
          "Output:   " ++ (if s.output.isEmpty then "(empty)" else Text.quotedCodes s.output.toList),
          m.location.text ++ ": " ++ m.source.charText ++ "    " ++ (Prospect.of m op).text ] ∧
      (markRow (m.tape.pointer - first) (last - m.tape.pointer)).toList.count '^' = 1 ∧
      let marked := entryAt? (cellRow (cellsBetween m.tape first last)).toList
        ((markRow (m.tape.pointer - first) (last - m.tape.pointer)).toList.idxOf '^')
      (marked = some (m.tape.pointer - first) ↔ overhang (cellsBefore m.tape first) ≤ 1) ∧
      (m.tape.cellMax < 1000 → marked = some (m.tape.pointer - first)) := by
  refine ⟨fun t width first last => Tape.window_eq_iff, ?_⟩
  obtain ⟨⟨first, last⟩, h⟩ : ∃ window, m.tape.window s.range = window := ⟨_, rfl⟩
  obtain ⟨right, hcells⟩ := cellsBetween_eq (Tape.window_eq_iff.1 h)
  have hmarked : entryAt? (cellRow (cellsBetween m.tape first last)).toList
        ((markRow (m.tape.pointer - first) (last - m.tape.pointer)).toList.idxOf '^') =
      some (m.tape.pointer - first) ↔ overhang (cellsBefore m.tape first) ≤ 1 := by
    rw [idxOf_markRow, hcells, ← length_cellsBefore]
    exact entryAt?_cellRow_iff _ _ _
  refine ⟨first, last, h, shownIndices_eq h, shownIndices_lt s m.tape, block_eq m op h, count_markRow _ _,
    hmarked, ?_⟩
  intro hmax
  have hsmall : ∀ v ∈ cellsBefore m.tape first, v < 1000 := fun v hv =>
    (m.tape.cells_le v (mem_cells_of_mem_cellsBefore hv)).1.trans_lt hmax
  exact hmarked.2 ((overhang_eq_zero hsmall).trans_le (Nat.zero_le 1))

/-- A cell of six digits pushes the cell of the pointer out from under the mark, which comes to stand under
the cell before it. -/
theorem mark_under_another_cell :
    let m := ((Machine.ofText { tapeLength := 3, cellMax := 100000 } #[45, 62, 43] []).afterCalls 2).fetch.machine
    m.tape.pointer = 1 ∧ m.tape.window 10 = (0, 2) ∧
      (({} : Stepper).block m (some .increment)).drop 1 =
        [ "Memory:   [100000|  0|  0]", "Pointer:        ^     ", "Address:     0   1   2",
          "Output:   (empty)", "L1 C3: +    Increase value at position 1 (0 -> 1)" ] ∧
      entryAt? "Memory:   [100000|  0|  0]".toList ("Pointer:        ^     ".toList.idxOf '^') = some 0 := by
  decide +kernel

end Stepper

end Brainfuck
