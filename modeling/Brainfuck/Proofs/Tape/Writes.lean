import Mathlib.Data.List.Basic
import Brainfuck.Tape.Basic

/-! # What storing a number comes to

A number is folded into the values of a cell, and stored under the pointer if there is room for what it is
folded to. All else stays as it is. -/
namespace Brainfuck.Tape

variable {t u : Tape} {v : Int} {f : Fault}

lemma read_le (t : Tape) : t.read ≤ t.cellMax := (t.cells_le _ (Array.getElem_mem _)).1

lemma read_lt (t : Tape) : t.read < cellCapacity := (t.cells_le _ (Array.getElem_mem _)).2

lemma getElem?_pointer (t : Tape) : t.cells[t.pointer]? = some t.read := Array.getElem?_eq_getElem t.pointer_lt

/-! ## Folded numbers -/

lemma natCast_fold (t : Tape) (v : Int) : (t.fold v : Int) = v % (t.cellMax + 1) := by
  have hpos : 0 ≤ v % (t.cellMax + 1 : Int) := Int.emod_nonneg _ (by omega)
  simp only [fold, modulus, Int.natCast_add, Int.natCast_one]
  omega

lemma fold_natCast (t : Tape) (v : Nat) : t.fold v = v % (t.cellMax + 1) := by
  unfold fold modulus
  omega

lemma fold_read_sub_one (t : Tape) : t.fold (t.read + -1) = (t.read + t.cellMax) % (t.cellMax + 1) := by
  have hmod : ((t.read : Int) + -1) % ((t.cellMax + 1 : Nat) : Int) =
      (((t.read + t.cellMax : Nat) : Int)) % ((t.cellMax + 1 : Nat) : Int) := by
    rw [← Int.add_emod_right]
    congr 1
    omega
  unfold fold modulus
  rw [hmod]
  omega

/-! ## Storing them -/

/-- A cell takes every number when it has room for its largest value. -/
lemma exists_write (h : t.cellMax < cellCapacity) (v : Int) : ∃ u, t.write v = .ok u := by
  have hfits : t.fold v < cellCapacity := Nat.lt_of_le_of_lt (t.fold_le v) h
  exact ⟨_, dif_pos hfits⟩

/-- A number is stored unless its value is too large for the width of a cell. -/
lemma write_eq_error_iff (v : Int) :
    t.write v = .error f ↔ cellCapacity ≤ t.fold v ∧ f = .cellTooLarge := by
  unfold write
  split
  next h => simp [Nat.not_le_of_lt h]
  next h => simp [Nat.le_of_not_lt h, eq_comm]

theorem write_eq_ok (h : t.write v = .ok u) :
    u.pointer = t.pointer ∧ u.cellMax = t.cellMax ∧ u.cells = t.cells.set t.pointer (t.fold v) t.pointer_lt := by
  unfold write at h
  split at h
  · cases h
    exact ⟨rfl, rfl, rfl⟩
  · cases h

lemma length_write (h : t.write v = .ok u) : u.length = t.length := by
  rw [length, (write_eq_ok h).2.2, Array.size_set]
  rfl

/-- The cell under the pointer holds the number, and every other cell what it held. -/
lemma getElem?_write (h : t.write v = .ok u) (i : Nat) :
    u.cells[i]? = if t.pointer = i then some (t.fold v) else t.cells[i]? := by
  rw [(write_eq_ok h).2.2, Array.getElem?_set]

/-- What was stored is read again. -/
lemma read_of_write (h : t.write v = .ok u) : u.read = t.fold v := by
  have hcell := getElem?_write h u.pointer
  rw [getElem?_pointer, (write_eq_ok h).1, if_pos rfl] at hcell
  exact Option.some.inj hcell

end Brainfuck.Tape
