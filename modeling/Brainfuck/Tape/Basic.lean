import Brainfuck.Diagnostic
import Brainfuck.Fault

/-! # The tape

A tape is a row of cells with a pointer on one of them. Cells count modulo the largest value plus
one. A pointer that would leave the tape is set on the cell at the opposite end, however far it would
have gone, and the wrap is told to the caller. Both bounds are kept in the type: the pointer is on
the tape, and no cell exceeds the largest value or the width of a cell. -/
namespace Brainfuck

/-- Cells are signed words of 64 bits, so that the values from here on cannot be stored. -/
def cellCapacity : Nat := wordLimit

/-- A row of cells with a pointer on one of them. -/
structure Tape where
  cells : Array Nat
  pointer : Nat
  cellMax : Nat
  pointer_lt : pointer < cells.size
  cellMax_pos : 0 < cellMax
  cells_le : ∀ v ∈ cells, v ≤ cellMax ∧ v < cellCapacity

namespace Tape

def length (t : Tape) : Nat := t.cells.size

def modulus (t : Tape) : Nat := t.cellMax + 1

/-- A tape of zeros with the pointer on its first cell. -/
def blank (length cellMax : Nat) (hl : 0 < length) (hc : 0 < cellMax) : Tape where
  cells := Array.replicate length 0
  pointer := 0
  cellMax := cellMax
  pointer_lt := by simpa using hl
  cellMax_pos := hc
  cells_le := by
    intro v hv
    have : v = 0 := (Array.mem_replicate.1 hv).2
    subst this
    exact ⟨Nat.zero_le _, by decide⟩

/-- A blank tape of the wanted size, which has at least one cell of at least two values. -/
def ofSize (length cellMax : Int) : Except Fault Tape :=
  if hl : 1 ≤ length then
    if hc : 1 ≤ cellMax then .ok (blank length.toNat cellMax.toNat (by omega) (by omega))
    else .error .cellRangeEmpty
  else .error .tapeTooShort

def read (t : Tape) : Nat :=
  have := t.pointer_lt
  t.cells[t.pointer]

/-- The pointer set on a cell of the tape. -/
def pointAt (t : Tape) (i : Nat) (h : i < t.cells.size) : Tape :=
  { t with pointer := i, pointer_lt := h }

/-- Moves the pointer, and tells at which end it left the tape if it did. -/
def move (t : Tape) (d : Int) : Tape × Option Wrap :=
  let target := t.pointer + d
  if target ≥ t.length then (t.pointAt 0 (Nat.zero_lt_of_lt t.pointer_lt), some .overflow)
  else if target < 0 then
    (t.pointAt (t.length - 1) (Nat.sub_lt (Nat.zero_lt_of_lt t.pointer_lt) Nat.one_pos),
      some .underflow)
  else if h : target.toNat < t.cells.size then (t.pointAt target.toNat h, none)
  else (t, none)

/-- A number folded into the values of a cell. -/
def fold (t : Tape) (v : Int) : Nat := (v % t.modulus).toNat

/-- A folded number is a value of a cell. -/
theorem fold_le (t : Tape) (v : Int) : t.fold v ≤ t.cellMax := by
  have h0 : (0 : Int) < t.modulus := by unfold modulus; omega
  have h1 := Int.emod_lt_of_pos v h0
  have h2 := Int.emod_nonneg v (Int.ne_of_gt h0)
  have h3 : (t.modulus : Int) = t.cellMax + 1 := by simp [modulus]
  unfold fold
  omega

/-- Stores a number under the pointer, folded into the values of a cell. It fails, and nothing is
stored, if the folded value does not fit the width of a cell. -/
def write (t : Tape) (v : Int) : Except Fault Tape :=
  if h : t.fold v < cellCapacity then
    .ok {
      cells := t.cells.set t.pointer (t.fold v) t.pointer_lt
      pointer := t.pointer
      cellMax := t.cellMax
      pointer_lt := by simpa using t.pointer_lt
      cellMax_pos := t.cellMax_pos
      cells_le := by
        intro w hw
        rcases Array.mem_or_eq_of_mem_set hw with hw | rfl
        · exact t.cells_le w hw
        · exact ⟨t.fold_le v, h⟩ }
  else .error .cellTooLarge

/-- Adds to the value under the pointer. -/
def adjust (t : Tape) (d : Int) : Except Fault Tape := t.write (t.read + d)

/-- The value of a cell; a negative index counts from the end of the tape. An index that no machine
word holds is refused before it is compared with the length. -/
def get (t : Tape) (index : Int) : Except Fault Nat :=
  if !fitsWord index then .error (.notAnIndex index)
  else
    let i := if index < 0 then index + t.length else index
    match if i < 0 then none else t.cells[i.toNat]? with
    | some v => .ok v
    | none => .error (.noSuchCell index t.length)

/-- The first and the last index of about `width` cells around the pointer, moved where needed to
lie on the tape. At least one cell is shown, and at most all. -/
def window (t : Tape) (width : Int) : Nat × Nat :=
  let w := (max 1 (min width t.length)).toNat
  let start := t.pointer - w / 2
  let stop := min (start + w - 1) (t.length - 1)
  (stop + 1 - w, stop)

/-- The cells that are not zero, with their indices. -/
def nonzero (t : Tape) : List (Nat × Nat) :=
  t.cells.toList.zipIdx.filterMap fun (v, i) => if v = 0 then none else some (i, v)

end Tape

end Brainfuck
