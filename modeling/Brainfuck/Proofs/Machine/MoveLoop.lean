import Brainfuck.Proofs.Machine.Stages
import Brainfuck.Proofs.Tree.Store

/-! # The loop that moves a value

A loop that counts its cell down, counts the next cell up and comes back adds its cell to the next one.
Each round is told by the values of the two cells that it has still to move and has moved, so that the run
goes by induction on the value of the first. On the last cell of the tape the next one is the first, and the
pointer leaves the tape twice in a round. -/
namespace Brainfuck

namespace Tape

variable {t u : Tape} {r a b : Nat}

/-- The cell to the right of the pointer, which is the first one on the last cell. -/
def next (t : Tape) : Nat := (t.pointer + 1) % t.length

/-- A tape that differs from another one in the values of the current cell and of the next one, with the
pointer on one of the two. -/
structure Pair (t : Tape) (r a b : Nat) (u : Tape) : Prop where
  size_eq : u.cells.size = t.cells.size
  cellMax_eq : u.cellMax = t.cellMax
  pointer_eq : u.pointer = r
  cell_eq (i : Nat) : u.cells[i]? =
    if i = t.pointer then some a else if i = t.next then some b else t.cells[i]?

lemma Pair.read_eq (h : t.Pair r a b u) :
    some u.read = if r = t.pointer then some a else if r = t.next then some b else t.cells[r]? := by
  rw [← h.cell_eq r, ← h.pointer_eq]
  exact (Array.getElem?_eq_getElem u.pointer_lt).symm

lemma next_ne_pointer (h : 2 ≤ t.length) : t.next ≠ t.pointer := by
  have hlt : t.pointer < t.length := t.pointer_lt
  unfold next
  by_cases hend : t.pointer + 1 = t.length
  · rw [hend, Nat.mod_self]
    omega
  · rw [Nat.mod_eq_of_lt (by omega)]
    omega

/-- The values stay when the pointer moves. -/
lemma Pair.pointAt {i : Nat} (h : t.Pair r a b u) (hi : i < u.cells.size) :
    t.Pair i a b (u.pointAt i hi) :=
  ⟨h.size_eq, h.cellMax_eq, rfl, h.cell_eq⟩

/-- The current cell is counted down. -/
lemma Pair.down (h : t.Pair t.pointer (a + 1) b u) (hroom : t.cellMax < cellCapacity) :
    ∃ u', u.adjust (-1) = .ok u' ∧ t.Pair t.pointer a b u' := by
  have hread : u.read = a + 1 := by simpa using h.read_eq
  have hle : a + 1 ≤ u.cellMax := hread ▸ u.read_le
  obtain ⟨u', hwrite⟩ := exists_write (h.cellMax_eq ▸ hroom) (u.read + -1)
  obtain ⟨hpointer, hmax, hcells⟩ := write_eq_ok hwrite
  have hfold : u.fold (u.read + -1) = a := by
    rw [fold_read_sub_one, hread, show a + 1 + u.cellMax = a + (u.cellMax + 1) by omega,
      Nat.add_mod_right, Nat.mod_eq_of_lt (by omega)]
  refine ⟨u', hwrite, ?_, hmax.trans h.cellMax_eq, hpointer.trans h.pointer_eq, fun i => ?_⟩
  · rw [hcells, Array.size_set, h.size_eq]
  · simp only [hcells, Array.getElem?_set, h.pointer_eq, hfold, h.cell_eq]
    by_cases hi : i = t.pointer <;> simp [hi, eq_comm]

/-- The next cell is counted up. -/
lemma Pair.up (h : t.Pair t.next a b u) (hroom : t.cellMax < cellCapacity) (hlength : 2 ≤ t.length) :
    ∃ u', u.adjust 1 = .ok u' ∧ t.Pair t.next a ((b + 1) % (t.cellMax + 1)) u' := by
  have hne := next_ne_pointer hlength
  have hread : u.read = b := by simpa [hne] using h.read_eq
  obtain ⟨u', hwrite⟩ := exists_write (h.cellMax_eq ▸ hroom) (u.read + 1)
  obtain ⟨hpointer, hmax, hcells⟩ := write_eq_ok hwrite
  have hfold : u.fold (u.read + 1) = (b + 1) % (t.cellMax + 1) := by
    rw [← h.cellMax_eq, ← hread]
    exact u.fold_natCast (u.read + 1)
  refine ⟨u', hwrite, ?_, hmax.trans h.cellMax_eq, hpointer.trans h.pointer_eq, fun i => ?_⟩
  · rw [hcells, Array.size_set, h.size_eq]
  · simp only [hcells, Array.getElem?_set, h.pointer_eq, hfold, h.cell_eq]
    by_cases hi : i = t.next
    · simp [hi, hne]
    · simp [hi, Ne.symm hi]

/-- The pointer moves to the next cell. -/
lemma Pair.right (h : t.Pair t.pointer a b u) :
    ∃ u', u.move 1 = (u', if t.pointer + 1 = t.length then some .overflow else none) ∧
      t.Pair t.next a b u' := by
  obtain ⟨hp, hmove⟩ := u.move_right
  simp only [h.pointer_eq, h.size_eq] at hmove
  exact ⟨_, hmove, h.pointAt _⟩

/-- The pointer moves back. -/
lemma Pair.left (h : t.Pair t.next a b u) (hlength : 2 ≤ t.length) :
    ∃ u', u.move (-1) = (u', if t.pointer + 1 = t.length then some .underflow else none) ∧
      t.Pair t.pointer a b u' := by
  obtain ⟨hp, hmove⟩ := u.move_left
  have hlt : t.pointer < t.length := t.pointer_lt
  have hsize : u.cells.size = t.length := h.size_eq
  have hback : (t.next + (t.length - 1)) % t.length = t.pointer ∧
      (t.next = 0 ↔ t.pointer + 1 = t.length) := by
    unfold next
    by_cases hend : t.pointer + 1 = t.length
    · rw [hend, Nat.mod_self, Nat.zero_add, Nat.mod_eq_of_lt (by omega)]
      omega
    · rw [Nat.mod_eq_of_lt (show t.pointer + 1 < t.length by omega),
        show t.pointer + 1 + (t.length - 1) = t.pointer + t.length by omega, Nat.add_mod_right,
        Nat.mod_eq_of_lt hlt]
      omega
  simp only [h.pointer_eq, hsize, hback.1, hback.2] at hmove
  exact ⟨_, hmove, h.pointAt _⟩

end Tape

namespace Machine

open Brackets

/-- The operators of the loop. -/
def moveLoop : List Operator := [.loopStart, .decrement, .right, .increment, .left, .loopEnd]

variable {e : Edition} {m : Machine} {t u : Tape} {a b k wraps : Nat}

/-- Both readings of the brackets find the end of the loop. -/
lemma skipEnd_moveLoop (scan : SkipScan) : skipEnd scan 0 moveLoop 1 = some 6 := by
  cases scan <;> rfl

/-- Where the control is when a value is still to be moved: behind the opening bracket, or behind the loop
if the value is zero. -/
def moving : Nat → Control
  | 0 => ⟨6, []⟩
  | _ + 1 => ⟨1, [1]⟩

/-- How often the pointer leaves the tape in a round. -/
def wrapsInRound (t : Tape) : Nat := if t.pointer + 1 = t.length then 2 else 0

/-- One round of the loop moves one. -/
theorem Stage.round (h : Stage e m k (moving (a + 1)) u wraps) (hm : m.Unlimited)
    (he : e.operators = moveLoop) (hu : t.Pair t.pointer (a + 1) b u) (hroom : t.cellMax < cellCapacity)
    (hlength : 2 ≤ t.length) :
    ∃ u', t.Pair t.pointer a ((b + 1) % (t.cellMax + 1)) u' ∧
      Stage e m (k + 5) (moving a) u' (wraps + wrapsInRound t) := by
  have hop (i : Nat) : e.operators[i]? = moveLoop[i]? := by rw [he]
  obtain ⟨u₁, hdown, hu₁⟩ := hu.down hroom
  obtain ⟨u₂, hright, hu₂⟩ := hu₁.right
  obtain ⟨u₃, hup, hu₃⟩ := hu₂.up hroom hlength
  obtain ⟨u₄, hleft, hu₄⟩ := hu₃.left hlength
  have h₁ := h.next hm (hop 1) (does_decrement hdown)
  have h₂ := h₁.next hm (hop 2) (does_right hright)
  have h₃ := h₂.next hm (hop 3) (does_increment hup)
  have h₄ := h₃.next hm (hop 4) (does_left hleft)
  have hread : u₄.read = a := by simpa using hu₄.read_eq
  have hloop : Does e .loopEnd ⟨6, [1]⟩ u₄ (moving a) u₄ 0 := by
    cases a with
    | zero => exact does_leave hread
    | succ a => exact does_repeat (by rw [hread]; exact Nat.succ_ne_zero a)
  have h₅ := h₄.next hm (hop 5) hloop
  have hwraps : (if t.pointer + 1 = t.length then some Wrap.overflow else none).toList.length +
      (if t.pointer + 1 = t.length then some Wrap.underflow else none).toList.length =
      wrapsInRound t := by
    unfold wrapsInRound
    split <;> rfl
  refine ⟨u₄, hu₄, ?_⟩
  rw [← hwraps, ← Nat.add_assoc]
  exact h₅

/-- The loop moves its value in so many rounds. -/
theorem Stage.moved (h : Stage e m k (moving a) u wraps) (hm : m.Unlimited) (he : e.operators = moveLoop)
    (hu : t.Pair t.pointer a b u) (hb : b ≤ t.cellMax) (hroom : t.cellMax < cellCapacity)
    (hlength : 2 ≤ t.length) :
    ∃ u', t.Pair t.pointer 0 ((a + b) % (t.cellMax + 1)) u' ∧
      Stage e m (k + 5 * a) ⟨6, []⟩ u' (wraps + a * wrapsInRound t) := by
  induction a generalizing k b u wraps with
  | zero =>
    rw [Nat.zero_add, Nat.mod_eq_of_lt (Nat.lt_succ_of_le hb), Nat.zero_mul]
    exact ⟨u, hu, h⟩
  | succ a ih =>
    obtain ⟨u₁, hu₁, h₁⟩ := h.round hm he hu hroom hlength
    have hb₁ : (b + 1) % (t.cellMax + 1) ≤ t.cellMax := Nat.le_of_lt_succ (Nat.mod_lt _ (Nat.succ_pos _))
    obtain ⟨u', hu', h'⟩ := ih h₁ hu₁ hb₁
    have hsum : (a + (b + 1) % (t.cellMax + 1)) % (t.cellMax + 1) = (a + 1 + b) % (t.cellMax + 1) := by
      rw [Nat.add_mod_mod, show a + (b + 1) = a + 1 + b by omega]
    have hsteps : k + 5 + 5 * a = k + 5 * (a + 1) := by omega
    have hwraps : wraps + wrapsInRound t + a * wrapsInRound t = wraps + (a + 1) * wrapsInRound t := by
      rw [Nat.succ_mul]
      omega
    exact ⟨u', hsum ▸ hu', hsteps ▸ hwraps ▸ h'⟩

/-- The loop begins unless its value is zero. -/
lemma At.begin (h : m.At e {}) (hm : m.Unlimited) (he : e.operators = moveLoop) :
    Stage e m 1 (moving m.tape.read) m.tape 0 := by
  have hop : e.operators[0]? = some .loopStart := by rw [he]; rfl
  have hdoes : Does e .loopStart ⟨1, []⟩ m.tape (moving m.tape.read) m.tape 0 := by
    cases hv : m.tape.read with
    | zero => exact does_skip hop hv (by rw [he]; exact skipEnd_moveLoop e.scan)
    | succ a => exact does_enter hop (by rw [hv]; exact Nat.succ_ne_zero a)
  exact h.stage.next hm hop hdoes

/-- The loop that moves a value adds. Over a tape of two cells or more, where every value of a cell has room,
a program of these operators ends after one step and five more for each unit of the current cell, in either
reading of the brackets and decoded in advance or not. The current cell is zero then, the next one is the
sum, and the other cells and the pointer are as they were. The pointer leaves the tape twice in each round
if the current cell is the last one, and else never. -/
theorem move_loop_adds (s : Settings) (hlimit : s.stepLimit = none) {text : Array UInt8}
    (htext : Decoding.operators text.toList = moveLoop) (console : List Char) {t : Tape}
    (hlength : 2 ≤ t.length) (hroom : t.cellMax < cellCapacity) {w : Nat} (hw : t.cells[t.next]? = some w)
    {n : Nat} (hn : 1 + 5 * t.read < n) :
    let m := start s (Source.ofText s text).1 console (some t)
    let o := m.run n
    o.result = .ok () ∧ o.machine.finished = true ∧ o.machine.steps = 1 + 5 * t.read ∧
    (∀ j < 1 + 5 * t.read, (m.afterCalls j).step.result = .ok true) ∧
    o.machine.tape.cells = (t.cells.setIfInBounds t.pointer 0).setIfInBounds t.next
      ((t.read + w) % (t.cellMax + 1)) ∧
    o.machine.tape.pointer = t.pointer ∧ o.machine.tape.cellMax = t.cellMax ∧
    o.machine.frames = [] ∧ o.machine.halted = false ∧ o.machine.hitStepLimit = false ∧
    o.machine.output = #[] ∧ o.machine.console = console ∧
    Event.wraps o.events = if t.pointer + 1 = t.length then 2 * t.read else 0 := by
  intro m o
  let e := Edition.ofSettings s text
  have he : e.operators = moveLoop := htext
  have hm : m.Unlimited := ⟨rfl, rfl, hlimit⟩
  have hat : m.At e {} := ⟨Edition.ofText_holds s text, rfl, rfl, by simp⟩
  have hpair : t.Pair t.pointer t.read w t := by
    refine ⟨rfl, rfl, rfl, fun i => ?_⟩
    split
    next hi => exact hi ▸ Array.getElem?_eq_getElem t.pointer_lt
    next =>
      split
      next hi => exact hi ▸ hw
      next => rfl
  have hle : w ≤ t.cellMax := (t.cells_le w (Array.mem_of_getElem? hw)).1
  obtain ⟨u, hu, hstage⟩ : ∃ u, t.Pair t.pointer 0 ((t.read + w) % (t.cellMax + 1)) u ∧
      Stage e m (1 + 5 * t.read) ⟨6, []⟩ u (0 + t.read * wrapsInRound t) :=
    (hat.begin hm he).moved hm he hpair hle hroom hlength
  have hend : e.operators[6]? = none := by rw [he]; rfl
  obtain ⟨source, op, events, hrun, hwraps⟩ := hstage.run_eq hm hat hend hn
  have ho : o = _ := hrun
  rw [ho]
  refine ⟨rfl, rfl, Nat.zero_add _, hstage.going, ?_, hu.pointer_eq, hu.cellMax_eq, rfl, rfl, rfl, rfl,
    rfl, hwraps.trans ?_⟩
  · refine Array.ext_getElem? fun i => ?_
    have hne := Tape.next_ne_pointer hlength
    have hlt : t.pointer < t.cells.size := t.pointer_lt
    have hnext : t.next < t.cells.size := Nat.mod_lt _ (Nat.zero_lt_of_lt hlt)
    change u.cells[i]? = _
    rw [hu.cell_eq]
    by_cases hp : i = t.pointer
    · subst hp
      simp [hne, hlt]
    · by_cases hq : i = t.next
      · subst hq
        simp [hne, hnext]
      · simp [hp, hq, Ne.symm hp, Ne.symm hq]
  · unfold wrapsInRound
    split <;> simp [Nat.mul_comm]

/-- From the last cell of a tape of two the value is moved to the first one, and the pointer leaves the tape
at both ends. -/
theorem move_loop_adds_around :
    let t : Tape := ⟨#[250, 9], 1, 255, by decide, by decide, by decide⟩
    let m := start { skipScan := .legacy } (Source.ofText { skipScan := .legacy }
      #[91, 45, 62, 43, 60, 93]).1 [] (some t)
    (2 ≤ t.length ∧ t.cellMax < cellCapacity ∧ t.cells[t.next]? = some 250) ∧
      (m.run 50).machine.tape.cells = #[3, 0] ∧ Event.wraps (m.run 50).events = 18 := by
  intro t m
  have htext : Decoding.operators (#[91, 45, 62, 43, 60, 93] : Array UInt8).toList = moveLoop := rfl
  have hw : t.cells[t.next]? = some 250 := by decide
  have hn : 1 + 5 * t.read < 50 := by decide
  have hmoved := move_loop_adds { skipScan := .legacy } rfl htext [] (by decide) (by decide) hw hn
  obtain ⟨-, -, -, -, hcells, -, -, -, -, -, -, -, hwraps⟩ := hmoved
  exact ⟨⟨by decide, by decide, hw⟩, hcells.trans (by decide), hwraps.trans (by decide)⟩

end Machine

end Brainfuck
