import Mathlib.Data.List.Basic
import Brainfuck.Tape.Basic

/-! # Moves of the pointer

A move sets the pointer on a cell and leaves the cells alone. It goes as far as it should unless it would
leave the tape, and then it tells at which end. One cell to the right is the next cell of the tape taken as a
ring, which is left only at its last cell, and one to the left is the cell before, which is left only at its
first. -/
namespace Brainfuck.Tape

variable {t u : Tape} {d : Int} {w : Wrap}

lemma move_over (h : t.length ≤ t.pointer + d) :
    t.move d = (t.pointAt 0 (Nat.zero_lt_of_lt t.pointer_lt), some .overflow) := by
  simp [move, h]

lemma move_under (h : t.pointer + d < 0) :
    t.move d = (t.pointAt (t.length - 1) (Nat.sub_lt (Nat.zero_lt_of_lt t.pointer_lt) Nat.one_pos),
      some .underflow) := by
  have hend : ¬ (t.pointer : Int) + d ≥ t.length := by omega
  simp [move, h, hend]

lemma move_within {p : Nat} (h : t.pointer + d = p) (hp : p < t.cells.size) :
    t.move d = (t.pointAt p hp, none) := by
  have hend : ¬ (p : Int) ≥ t.length := by simp only [length]; omega
  have hstart : ¬ (p : Int) < 0 := by omega
  simp only [move, h, if_neg hend, if_neg hstart, Int.toNat_natCast, dif_pos hp]

/-- What a move comes to. -/
theorem move_cases (t : Tape) (d : Int) :
    (∃ hp, t.length ≤ t.pointer + d ∧ t.move d = (t.pointAt 0 hp, some .overflow)) ∨
    (∃ hp, t.pointer + d < 0 ∧ t.move d = (t.pointAt (t.length - 1) hp, some .underflow)) ∨
    ∃ (p : Nat) (hp : p < t.cells.size), t.pointer + d = p ∧ t.move d = (t.pointAt p hp, none) := by
  by_cases hover : (t.length : Int) ≤ t.pointer + d
  · exact .inl ⟨_, hover, move_over hover⟩
  by_cases hunder : (t.pointer : Int) + d < 0
  · exact .inr (.inl ⟨_, hunder, move_under hunder⟩)
  obtain ⟨p, hp⟩ := Int.eq_ofNat_of_zero_le (Int.not_lt.1 hunder)
  have hlt : p < t.cells.size := by
    simp only [length] at hover
    omega
  exact .inr (.inr ⟨p, hlt, hp, move_within hp hlt⟩)

/-- A pointer that stays on the tape moves by so much. -/
lemma move_of_stays (h : t.move d = (u, none)) :
    ∃ hp, u = t.pointAt u.pointer hp ∧ t.pointer + d = u.pointer := by
  obtain ⟨hp, -, hmove⟩ | ⟨hp, -, hmove⟩ | ⟨p, hp, hsum, hmove⟩ := t.move_cases d
  · simp [hmove] at h
  · simp [hmove] at h
  · obtain ⟨rfl, -⟩ := Prod.mk.inj (hmove.symm.trans h)
    exact ⟨hp, rfl, hsum⟩

lemma move_eq_pointAt (t : Tape) (d : Int) : ∃ p hp, (t.move d).1 = t.pointAt p hp := by
  obtain ⟨hp, -, hmove⟩ | ⟨hp, -, hmove⟩ | ⟨p, hp, -, hmove⟩ := t.move_cases d
  all_goals exact ⟨_, hp, congrArg Prod.fst hmove⟩

@[simp] lemma move_length (t : Tape) (d : Int) : (t.move d).1.length = t.length := by
  obtain ⟨p, hp, hmove⟩ := t.move_eq_pointAt d
  rw [hmove]
  rfl

lemma cellMax_move (t : Tape) (d : Int) : (t.move d).1.cellMax = t.cellMax := by
  obtain ⟨p, hp, hmove⟩ := t.move_eq_pointAt d
  rw [hmove]
  rfl

/-! ## One cell -/

/-- Moving to the right leaves the tape from its last cell. -/
lemma move_right (t : Tape) :
    ∃ hp, t.move 1 = (t.pointAt ((t.pointer + 1) % t.cells.size) hp,
      if t.pointer + 1 = t.cells.size then some .overflow else none) := by
  have hlt := t.pointer_lt
  by_cases hend : t.pointer + 1 = t.cells.size
  · simp only [hend, Nat.mod_self, if_true]
    exact ⟨by omega, move_over (by simp only [length]; omega)⟩
  · simp only [Nat.mod_eq_of_lt (show t.pointer + 1 < t.cells.size by omega), if_neg hend]
    exact ⟨by omega, move_within (by omega) _⟩

/-- Moving to the left leaves the tape from its first cell. -/
lemma move_left (t : Tape) :
    ∃ hp, t.move (-1) = (t.pointAt ((t.pointer + (t.cells.size - 1)) % t.cells.size) hp,
      if t.pointer = 0 then some .underflow else none) := by
  have hlt := t.pointer_lt
  by_cases hstart : t.pointer = 0
  · simp only [hstart, Nat.zero_add, Nat.mod_eq_of_lt (show t.cells.size - 1 < t.cells.size by omega),
      if_true]
    exact ⟨by omega, move_under (by omega)⟩
  · have hmod : (t.pointer + (t.cells.size - 1)) % t.cells.size = t.pointer - 1 := by
      rw [show t.pointer + (t.cells.size - 1) = t.pointer - 1 + t.cells.size by omega,
        Nat.add_mod_right, Nat.mod_eq_of_lt (by omega)]
    simp only [hmod, if_neg hstart]
    exact ⟨by omega, move_within (by omega) _⟩

lemma wrap_right (h : (t.move 1).2 = some w) : w = .overflow := by
  obtain ⟨hp, hmove⟩ := t.move_right
  rw [hmove] at h
  dsimp only at h
  split at h
  · exact (Option.some.inj h).symm
  · cases h

lemma wrap_left (h : (t.move (-1)).2 = some w) : w = .underflow := by
  obtain ⟨hp, hmove⟩ := t.move_left
  rw [hmove] at h
  dsimp only at h
  split at h
  · exact (Option.some.inj h).symm
  · cases h

end Brainfuck.Tape
