import Mathlib.Tactic.Lemma
import Brainfuck.Tape.Basic

/-! # The window on a tape

The cells that are shown are a row around the pointer. As many are shown as are wanted, but at least one and at
most all, and the pointer is in the middle of them unless the row has to be moved to lie on the tape. This
leaves one row only. -/
namespace Brainfuck.Tape

/-- How many cells are shown where a width is wanted. -/
def shownSize (t : Tape) (width : Int) : Int := max 1 (min width t.length)

/-- A row of cells around the pointer. -/
structure Views (t : Tape) (width : Int) (first last : Nat) : Prop where
  first_le : first ≤ t.pointer
  le_last : t.pointer ≤ last
  last_lt : last < t.length
  size_eq : (last : Int) - first + 1 = t.shownSize width
  at_start : (t.pointer : Int) - t.shownSize width / 2 < 0 → first = 0
  at_end : (t.pointer : Int) - t.shownSize width / 2 + t.shownSize width > t.length → last = t.length - 1
  centred : 0 ≤ (t.pointer : Int) - t.shownSize width / 2 →
    (t.pointer : Int) - t.shownSize width / 2 + t.shownSize width ≤ t.length →
    (first : Int) = t.pointer - t.shownSize width / 2

variable {t : Tape} {width : Int} {first last : Nat}

lemma shownSize_pos (t : Tape) (width : Int) : 1 ≤ t.shownSize width := Int.le_max_left ..

lemma shownSize_le (t : Tape) (width : Int) : t.shownSize width ≤ t.length := by
  have := t.pointer_lt
  unfold shownSize length
  omega

/-- The window in plain arithmetic. -/
lemma exists_window_eq (t : Tape) (width : Int) : ∃ size : Nat, (size : Int) = t.shownSize width ∧
    t.window width = (min (t.pointer - size / 2 + size - 1) (t.length - 1) + 1 - size,
      min (t.pointer - size / 2 + size - 1) (t.length - 1)) := by
  have hpos := t.shownSize_pos width
  exact ⟨(t.shownSize width).toNat, by omega, rfl⟩

lemma views_window (t : Tape) (width : Int) : t.Views width (t.window width).1 (t.window width).2 := by
  have hpointer : t.pointer < t.length := t.pointer_lt
  have hpos := t.shownSize_pos width
  have hle := t.shownSize_le width
  obtain ⟨size, hsize, hwindow⟩ := t.exists_window_eq width
  constructor <;> rw [hwindow] <;> simp only <;> omega

lemma Views.first_unique {first' last' : Nat} (h : t.Views width first last) (h' : t.Views width first' last') :
    first = first' := by
  have hsize := h.size_eq
  have hsize' := h'.size_eq
  by_cases hstart : (t.pointer : Int) - t.shownSize width / 2 < 0
  · rw [h.at_start hstart, h'.at_start hstart]
  by_cases hend : (t.pointer : Int) - t.shownSize width / 2 + t.shownSize width > t.length
  · have := h.at_end hend
    have := h'.at_end hend
    omega
  · have := h.centred (by omega) (by omega)
    have := h'.centred (by omega) (by omega)
    omega

/-- The window is the one row around the pointer that has the wanted size and is as near to the middle as the
ends of the tape allow. -/
theorem window_eq_iff : t.window width = (first, last) ↔ t.Views width first last := by
  have hwindow := t.views_window width
  constructor
  · intro h
    rwa [h] at hwindow
  · intro h
    have hfirst := hwindow.first_unique h
    have hsize := hwindow.size_eq
    have hsize' := h.size_eq
    exact Prod.ext hfirst (by omega)

end Brainfuck.Tape
