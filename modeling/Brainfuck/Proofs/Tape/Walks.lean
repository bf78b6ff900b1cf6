import Mathlib.Algebra.Ring.Int.Defs
import Brainfuck.Proofs.Tape.Moves

/-! # Walks of the pointer

A pointer that goes by one cell at a time goes around its tape as around a ring. Laid out in a line, the tape
is followed by copies of itself on both sides: each overflow leads into the next copy and each underflow into
the one before, so the pointer and the wraps together tell how far the walk has come. -/
namespace Brainfuck

/-- At which end of a tape of some length a cell lies that is not on it. -/
def Wrap.beyond (length target : Int) : Option Wrap :=
  if length ≤ target then some .overflow else if target < 0 then some .underflow else none

/-- How many overflows there are more than underflows. -/
def Wrap.turns (told : List (Option Wrap)) : Int :=
  (told.count (some .overflow) : Int) - told.count (some .underflow)

lemma Wrap.turns_cons (w : Option Wrap) (told : List (Option Wrap)) :
    turns (w :: told) = turns [w] + turns told := by
  simp only [turns, List.count_cons, List.count_nil]
  omega

namespace Tape

variable {t u : Tape} {d : Int} {ds : List Int}

/-- Moves one after another, with what each of them tells. -/
def walk (t : Tape) : List Int → Tape × List (Option Wrap)
  | [] => (t, [])
  | d :: ds =>
    let (moved, wrap) := t.move d
    let (last, told) := moved.walk ds
    (last, wrap :: told)

lemma walk_cons (t : Tape) (d : Int) (ds : List Int) :
    t.walk (d :: ds) = (((t.move d).1.walk ds).1, (t.move d).2 :: ((t.move d).1.walk ds).2) := rfl

lemma walk_append (t : Tape) (ds es : List Int) :
    t.walk (ds ++ es) =
      (((t.walk ds).1.walk es).1, (t.walk ds).2 ++ ((t.walk ds).1.walk es).2) := by
  induction ds generalizing t with
  | nil => rfl
  | cons d ds ih => rw [List.cons_append, walk_cons, ih, walk_cons, List.cons_append]

/-! ## One move -/

/-- A move tells of a wrap if it would end off the tape. -/
lemma move_snd (t : Tape) (d : Int) : (t.move d).2 = Wrap.beyond t.length (t.pointer + d) := by
  obtain ⟨hp, hover, hmove⟩ | ⟨hp, hunder, hmove⟩ | ⟨p, hp, hsum, hmove⟩ := t.move_cases d
  · rw [hmove, Wrap.beyond, if_pos hover]
  · rw [hmove, Wrap.beyond, if_neg (by omega), if_pos hunder]
  · have hlt : p < t.length := hp
    rw [hmove, hsum, Wrap.beyond, if_neg (by omega), if_neg (by omega)]

/-- A move by one cell ends where it should, but for the length of the tape if it wraps. -/
lemma move_unwound (t : Tape) (hd : d = 1 ∨ d = -1) :
    ((t.move d).1.pointer : Int) + t.length * Wrap.turns [(t.move d).2] = t.pointer + d := by
  have hlt : t.pointer < t.length := t.pointer_lt
  obtain ⟨hp, hover, hmove⟩ | ⟨hp, hunder, hmove⟩ | ⟨p, hp, hsum, hmove⟩ := t.move_cases d
  · have hturns : Wrap.turns [some .overflow] = 1 := rfl
    rw [hmove, hturns]
    simp only [pointAt]
    omega
  · have hturns : Wrap.turns [some .underflow] = -1 := rfl
    rw [hmove, hturns]
    simp only [pointAt]
    omega
  · have hturns : Wrap.turns [none] = 0 := rfl
    rw [hmove, hturns]
    simp only [pointAt]
    omega

/-- Moves on tapes of the same length go alike. -/
lemma move_congr (hpointer : u.pointer = t.pointer) (hlength : u.length = t.length) (d : Int) :
    (u.move d).1.pointer = (t.move d).1.pointer ∧ (u.move d).2 = (t.move d).2 := by
  refine ⟨?_, by rw [move_snd, move_snd, hpointer, hlength]⟩
  obtain ⟨hp, hover, hmove⟩ | ⟨hp, hunder, hmove⟩ | ⟨p, hp, hsum, hmove⟩ := t.move_cases d
  · rw [hmove, move_over (by rw [hpointer, hlength]; exact hover)]
    rfl
  · rw [hmove, move_under (by rw [hpointer]; exact hunder)]
    exact congrArg (· - 1) hlength
  · have hp' : p < u.cells.size := by
      simp only [length] at hlength
      omega
    rw [hmove, move_within (by rw [hpointer, hsum]) hp']
    rfl

/-! ## Many moves -/

lemma walk_length (t : Tape) (ds : List Int) :
    (t.walk ds).1.length = t.length ∧ (t.walk ds).2.length = ds.length := by
  induction ds generalizing t with
  | nil => exact ⟨rfl, rfl⟩
  | cons d ds ih =>
    obtain ⟨hlength, htold⟩ := ih (t.move d).1
    rw [walk_cons]
    exact ⟨hlength.trans (t.move_length d), congrArg (· + 1) htold⟩

lemma walk_cells (t : Tape) (ds : List Int) : (t.walk ds).1.cells = t.cells := by
  induction ds generalizing t with
  | nil => rfl
  | cons d ds ih =>
    obtain ⟨p, hp, hmove⟩ := t.move_eq_pointAt d
    rw [walk_cons, ih, hmove]
    rfl

/-- Walks on tapes of the same length go alike. -/
lemma walk_congr (hpointer : u.pointer = t.pointer) (hlength : u.length = t.length) (ds : List Int) :
    (u.walk ds).1.pointer = (t.walk ds).1.pointer ∧ (u.walk ds).2 = (t.walk ds).2 := by
  induction ds generalizing t u with
  | nil => exact ⟨hpointer, rfl⟩
  | cons d ds ih =>
    obtain ⟨hmoved, htold⟩ := move_congr hpointer hlength d
    obtain ⟨hlast, hrest⟩ := ih hmoved (by rw [move_length, move_length, hlength])
    simp only [walk_cons]
    exact ⟨hlast, by rw [htold, hrest]⟩

/-- The pointer and the wraps tell how far a walk has come. -/
theorem walk_unwound (t : Tape) (hds : ∀ d ∈ ds, d = 1 ∨ d = -1) :
    ((t.walk ds).1.pointer : Int) + t.length * Wrap.turns (t.walk ds).2 = t.pointer + ds.sum := by
  induction ds generalizing t with
  | nil =>
    have hturns : Wrap.turns [] = 0 := rfl
    simp [walk, hturns]
  | cons d ds ih =>
    obtain ⟨hd, hds⟩ := List.forall_mem_cons.1 hds
    have hrest := ih (t.move d).1 hds
    have hmove := t.move_unwound hd
    rw [move_length] at hrest
    rw [walk_cons]
    dsimp only
    rw [Wrap.turns_cons, List.sum_cons, Int.mul_add]
    omega

/-- So a walk is taken modulo the length of the tape. -/
theorem walk_eq_mod (t : Tape) (hds : ∀ d ∈ ds, d = 1 ∨ d = -1) :
    ((t.walk ds).1.pointer : Int) = (t.pointer + ds.sum) % t.length ∧
      Wrap.turns (t.walk ds).2 = (t.pointer + ds.sum) / t.length := by
  have hlt : (t.walk ds).1.pointer < t.length := (t.walk_length ds).1 ▸ (t.walk ds).1.pointer_lt
  have hlt' : ((t.walk ds).1.pointer : Int) < t.length := by omega
  rw [← t.walk_unwound hds]
  constructor
  · rw [Int.add_mul_emod_self_left, Int.emod_eq_of_lt (by omega) hlt']
  · rw [Int.add_mul_ediv_left _ _ (by omega), Int.ediv_eq_zero_of_lt (by omega) hlt', Int.zero_add]

/-- What each move of a walk tells. -/
theorem walk_told (t : Tape) (hds : ∀ d ∈ ds, d = 1 ∨ d = -1) {k : Nat} (hd : ds[k]? = some d) :
    (t.walk ds).2[k]? =
      some (Wrap.beyond t.length ((t.pointer + (ds.take k).sum) % t.length + d)) := by
  obtain ⟨hk, rfl⟩ := List.getElem?_eq_some_iff.1 hd
  have hsplit : ds.take k ++ ds[k] :: ds.drop (k + 1) = ds := by simp
  have hbefore : ∀ d ∈ ds.take k, d = 1 ∨ d = -1 := fun d hd => hds d (List.mem_of_mem_take hd)
  obtain ⟨hlength, htold⟩ := t.walk_length (ds.take k)
  have hcount : (t.walk (ds.take k)).2.length = k := by rw [htold, List.length_take_of_le (Nat.le_of_lt hk)]
  have htaken : (t.walk ds).2[k]? = some ((t.walk (ds.take k)).1.move ds[k]).2 := by
    conv_lhs => rw [← hsplit, walk_append, List.getElem?_append_right (Nat.le_of_eq hcount), hcount, Nat.sub_self]
    rfl
  rw [htaken, move_snd, hlength, (t.walk_eq_mod hbefore).1]

end Tape

end Brainfuck
