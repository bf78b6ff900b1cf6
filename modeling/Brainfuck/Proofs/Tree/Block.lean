import Brainfuck.Proofs.Brackets.Nesting
import Brainfuck.Proofs.Tree.Store

/-! # Syntax trees

A program whose brackets nest properly is a block: a sequence of actions and loops, where a loop has a
block as its body. A block has a meaning of its own, without positions and jumps: a loop runs its body
while the current cell is not zero. -/
namespace Brainfuck

open Brackets

/-- A sequence of actions and loops. -/
inductive Block
  | done
  | act (a : Action) (rest : Block)
  | loop (body rest : Block)
  deriving DecidableEq, Repr

namespace Block

variable {b body rest : Block} {cellMax : Nat} {σ τ ρ : Store} {ops : List Operator} {i j : Nat}

/-- The operators that spell a block. -/
def operators : Block → List Operator
  | done => []
  | act a rest => a.operator :: rest.operators
  | loop body rest => .loopStart :: (body.operators ++ .loopEnd :: rest.operators)

/-- A block runs from one store to another. -/
inductive Eval (cellMax : Nat) : Block → Store → Store → Prop
  | done (σ : Store) : Eval cellMax done σ σ
  | act {a : Action} {rest : Block} {σ τ : Store} (hrest : Eval cellMax rest (σ.act cellMax a) τ) :
    Eval cellMax (act a rest) σ τ
  | leave {body rest : Block} {σ τ : Store} (hv : σ.value = 0) (hrest : Eval cellMax rest σ τ) :
    Eval cellMax (loop body rest) σ τ
  | again {body rest : Block} {σ ρ τ : Store} (hv : σ.value ≠ 0) (hbody : Eval cellMax body σ ρ)
    (hloop : Eval cellMax (loop body rest) ρ τ) : Eval cellMax (loop body rest) σ τ

theorem balanced_operators (b : Block) : Balanced b.operators := by
  induction b with
  | done => exact .nil
  | act a rest ih => exact .action a ih
  | loop body rest ihbody ihrest => exact .loop ihbody ihrest

/-- Operators that are balanced are spelled by a block. -/
theorem exists_of_balanced (h : Balanced ops) : ∃ b : Block, b.operators = ops := by
  induction h with
  | nil => exact ⟨done, rfl⟩
  | action a _ ih =>
    obtain ⟨rest, rfl⟩ := ih
    exact ⟨act a rest, rfl⟩
  | loop _ _ ihbody ihrest =>
    obtain ⟨body, rfl⟩ := ihbody
    obtain ⟨rest, rfl⟩ := ihrest
    exact ⟨loop body rest, rfl⟩

lemma operator_injective {a a' : Action} (h : a.operator = a'.operator) : a = a' := by
  cases a <;> cases a' <;> simp [Action.operator] at h ⊢

/-- The operators tell the block that they spell. -/
theorem operators_injective {b b' : Block} (h : b.operators = b'.operators) : b = b' := by
  induction b generalizing b' with
  | done => cases b' <;> simp [operators] at h ⊢
  | act a rest ih =>
    cases b' with
    | done => simp [operators] at h
    | act a' rest' =>
      obtain ⟨ha, hrest⟩ := List.cons.inj h
      rw [operator_injective ha, ih hrest]
    | loop body' rest' => exact absurd (List.cons.inj h).1 a.operator_ne_loopStart
  | loop body rest ihbody ihrest =>
    cases b' with
    | done => simp [operators] at h
    | act a' rest' => exact absurd (List.cons.inj h).1.symm a'.operator_ne_loopStart
    | loop body' rest' =>
      -- a scan finds the end of both bodies at the same bracket
      have htail := (List.cons.inj h).2
      have hlength := skipLength_loop body.balanced_operators rest.operators
      rw [htail, skipLength_loop body'.balanced_operators] at hlength
      obtain ⟨hbody, hrest⟩ := List.append_inj htail (by simpa using hlength.symm)
      rw [ihbody hbody, ihrest (List.cons.inj hrest).2]

/-- A block runs to one store only. -/
theorem Eval.unique (h : Eval cellMax b σ τ) (h' : Eval cellMax b σ ρ) : τ = ρ := by
  induction h generalizing ρ with
  | done => cases h'; rfl
  | act _ ih =>
    cases h' with
    | act h' => exact ih h'
  | leave hv _ ih =>
    cases h' with
    | leave _ h' => exact ih h'
    | again hv' => exact absurd hv hv'
  | again hv _ _ ihbody ihloop =>
    cases h' with
    | leave hv' => exact absurd hv' hv
    | again _ hbody hloop =>
      obtain rfl := ihbody hbody
      exact ihloop hloop

lemma act_of_drop {a : Action} {tail : List Operator}
    (h : ops.drop i = (act a rest).operators ++ tail) :
    ops[i]? = some a.operator ∧ ops.drop (i + 1) = rest.operators ++ tail := by
  constructor
  · rw [← List.head?_drop, h]
    rfl
  · rw [← List.drop_drop, h]
    rfl

/-- A loop at some place among operators has its brackets around its body. -/
theorem partners_of_drop {tail : List Operator}
    (h : ops.drop i = (loop body rest).operators ++ tail) :
    Partners ops i (i + body.operators.length + 1) ∧
      ops.drop (i + 1) = body.operators ++ (.loopEnd :: (rest.operators ++ tail)) ∧
      ops.drop (i + body.operators.length + 2) = rest.operators ++ tail := by
  have hopening : ops[i]? = some .loopStart := by
    rw [← List.head?_drop, h]
    rfl
  have hbody : ops.drop (i + 1) = body.operators ++ (.loopEnd :: (rest.operators ++ tail)) := by
    rw [← List.drop_drop, h]
    simp [operators]
  refine ⟨?_, hbody, ?_⟩
  · rw [partners_iff_skipLength hopening, hbody]
    exact ⟨_, skipLength_loop body.balanced_operators _, by omega⟩
  · rw [show i + body.operators.length + 2 = i + 1 + (body.operators.length + 1) by omega,
      ← List.drop_drop, hbody]
    simp

end Block

end Brainfuck
