import Mathlib.Order.Bounds.Basic
import Brainfuck.Pacing.Governor

/-! # The next prompt

A governor is asked about one instruction after another, and whenever it prompts, it takes the answer
before it is asked again. What the answer was decides when it prompts next: it lets a count of calls go
by and then prompts at the first call that is not input, or it prompts at the first closing bracket over
a zero, or it never prompts again. Between two prompts a governor either counts down or waits for a kind
of call and stays as it is until one comes. -/
namespace Brainfuck

/-- If two sets of numbers agree up to the first member of one of them, they have the same first
member. -/
lemma isLeast_iff_of_agree {A B : Set Nat} (h : ∀ j, (∀ l < j, l ∉ B) → (j ∈ A ↔ j ∈ B)) (j : Nat) :
    IsLeast A j ↔ IsLeast B j := by
  constructor
  · rintro ⟨hj, hleast⟩
    have hbefore : ∀ l < j, l ∉ B := by
      intro l
      induction l using Nat.strongRecOn with
      | ind l ih =>
        intro hlj hl
        have hagree := h l fun l' hl' => ih l' hl' (hl'.trans hlj)
        exact Nat.not_le_of_lt hlj (hleast (hagree.2 hl))
    refine ⟨(h j hbefore).1 hj, ?_⟩
    intro l hl
    by_contra hlj
    exact hbefore l (Nat.lt_of_not_le hlj) hl
  · rintro ⟨hj, hleast⟩
    have hbefore : ∀ l < j, l ∉ B := fun l hlj hl => Nat.not_le_of_lt hlj (hleast hl)
    refine ⟨(h j hbefore).2 hj, ?_⟩
    intro l hl
    by_contra hlj
    have hlj := Nat.lt_of_not_le hlj
    exact hbefore l hlj ((h l fun l' hl' => hbefore l' (hl'.trans hlj)).1 hl)

namespace Governor

/-- A call of a governor: the operator at hand, the value of the cell, and the command that is the answer
if there is a prompt. -/
structure Call where
  operator : Option Operator
  value : Int
  answer : Command

/-- Whether a governor prompts when it is called. -/
def PromptsAt (g : Governor) (c : Call) : Prop := (g.decide c.operator c.value).2 = .prompt

/-- The governor after a call, and after the answer if there was a prompt. -/
def next (g : Governor) (c : Call) : Governor :=
  match g.decide c.operator c.value with
  | (g, .prompt) => g.apply c.answer
  | (g, _) => g

/-- The governor before each call of a row of calls. -/
def before (g : Governor) (calls : Nat → Call) : Nat → Governor
  | 0 => g
  | i + 1 => (before g calls i).next (calls i)

variable {g : Governor} {c : Call} {calls : Nat → Call} {i j k r : Nat} {Q : Call → Prop}

/-! ## One call -/

lemma next_of_prompts (h : g.PromptsAt c) : g.next c = g.apply c.answer := by
  unfold next
  rcases hdecide : g.decide c.operator c.value with ⟨g', d⟩
  obtain rfl : d = .prompt := by simpa [PromptsAt, hdecide] using h
  rfl

/-- A governor that prompts at a kind of call, and that any other call leaves as it is. -/
structure WaitsFor (g : Governor) (Q : Call → Prop) : Prop where
  prompts_iff : ∀ c, g.PromptsAt c ↔ Q c
  next_eq : ∀ c, ¬ Q c → g.next c = g

/-- A loop is about to be left at a closing bracket over a zero, whichever loop that is. -/
lemma waitsFor_untilLoopExit (r : Int) :
    WaitsFor ⟨.untilLoopExit, r⟩ (fun c => c.operator = some .loopEnd ∧ c.value = 0) := by
  constructor
  · intro c
    by_cases hexit : c.operator = some .loopEnd ∧ c.value = 0
    · simp [PromptsAt, decide, atLoopExit, hexit]
    · by_cases hop : c.operator = some .input <;> simp [PromptsAt, decide, atLoopExit, hexit, hop]
  · intro c hexit
    by_cases hop : c.operator = some .input <;> simp [next, decide, atLoopExit, hexit, hop]

end Governor

end Brainfuck
