import Brainfuck.Proofs.Machine.Control
import Brainfuck.Proofs.Tree.Block

/-! # Walks over operators

A walk goes from operator to operator as a run does, with positions, jumps and a stack of loops, but
over a store and without a source. Where a block stands among the operators, a walk through it ends
exactly if the block has a meaning, and comes out behind it with the store that the block runs to. -/
namespace Brainfuck

open Brackets

/-- The action that an operator stands for. -/
def Operator.action? : Operator → Option Action
  | right => some .right
  | left => some .left
  | increment => some .increment
  | decrement => some .decrement
  | output => some .output
  | input => some .input
  | loopStart => none
  | loopEnd => none

namespace Walk

variable {ops : List Operator} {cellMax : Nat}

/-- One operator of a walk. There is none at the end, nor after a loop that is skipped without one. -/
def next (ops : List Operator) (cellMax : Nat) : Control × Store → Option (Control × Store)
  | (⟨i, ls⟩, σ) =>
    match ops[i]? with
    | none => none
    | some .loopStart =>
      if σ.value = 0 then (skipEnd .nested 0 ops (i + 1)).map fun k => (⟨k, ls⟩, σ)
      else some (⟨i + 1, (i + 1) :: ls⟩, σ)
    | some .loopEnd =>
      match ls with
      | [] => some (⟨i + 1, []⟩, σ)
      | l :: ls => if σ.value = 0 then some (⟨i + 1, ls⟩, σ) else some (⟨l, l :: ls⟩, σ)
    | some op => some (⟨i + 1, ls⟩, op.action?.elim σ (σ.act cellMax))

/-- So many operators of a walk. -/
def after (ops : List Operator) (cellMax : Nat) : Nat → Control × Store → Option (Control × Store)
  | 0, x => some x
  | n + 1, x => (next ops cellMax x).bind (after ops cellMax n)

variable {i j k n : Nat} {ls : List Nat} {a : Action} {b body rest : Block} {σ τ ρ : Store}
  {x y : Control × Store} {tail : List Operator}

lemma next_act (h : ops[i]? = some a.operator) :
    next ops cellMax (⟨i, ls⟩, σ) = some (⟨i + 1, ls⟩, σ.act cellMax a) := by
  cases a <;> simp [next, h, Action.operator, Operator.action?]

lemma next_enter (h : ops[i]? = some .loopStart) (hv : σ.value ≠ 0) :
    next ops cellMax (⟨i, ls⟩, σ) = some (⟨i + 1, (i + 1) :: ls⟩, σ) := by
  simp [next, h, hv]

lemma next_skip (h : Partners ops i j) (hv : σ.value = 0) :
    next ops cellMax (⟨i, ls⟩, σ) = some (⟨j + 1, ls⟩, σ) := by
  simp [next, h.opening, hv, (partners_iff_skipEnd h.opening j).1 h]

/-- A walk at the end of a loop that it is inside of goes on as it would at the start of the loop. -/
theorem next_loopEnd (h : Partners ops i j) :
    next ops cellMax (⟨j, (i + 1) :: ls⟩, σ) = next ops cellMax (⟨i, ls⟩, σ) := by
  by_cases hv : σ.value = 0
  · rw [next_skip h hv]
    simp [next, h.closing, hv]
  · rw [next_enter h.opening hv]
    simp [next, h.closing, hv]

lemma after_add (m n : Nat) (x : Control × Store) :
    after ops cellMax (m + n) x = (after ops cellMax m x).bind (after ops cellMax n) := by
  induction m generalizing x with
  | zero => simp [after]
  | succ m ih =>
    rw [Nat.add_right_comm, after, after]
    cases next ops cellMax x with
    | none => rfl
    | some y => simp [ih]

/-- A walk through a loop from its end is one from its start. -/
lemma after_loopEnd (h : Partners ops i j) (n : Nat) :
    after ops cellMax (n + 1) (⟨j, (i + 1) :: ls⟩, σ) = after ops cellMax (n + 1) (⟨i, ls⟩, σ) := by
  rw [after, after, next_loopEnd h]

/-- A walk comes out of a block with the store that the block runs to. -/
theorem after_of_eval (h : b.Eval cellMax σ τ) (hb : ops.drop i = b.operators ++ tail)
    (ls : List Nat) :
    ∃ n, after ops cellMax n (⟨i, ls⟩, σ) = some (⟨i + b.operators.length, ls⟩, τ) := by
  induction h generalizing i ls tail with
  | done σ => exact ⟨0, rfl⟩
  | act _ ih =>
    obtain ⟨hop, hrest⟩ := Block.act_of_drop hb
    obtain ⟨n, hn⟩ := ih hrest ls
    refine ⟨n + 1, ?_⟩
    rw [after, next_act hop, Option.bind_some, hn]
    simp [Block.operators, Nat.add_assoc, Nat.add_comm 1]
  | leave hv _ ih =>
    obtain ⟨hpartners, -, hrest⟩ := Block.partners_of_drop hb
    obtain ⟨n, hn⟩ := ih hrest ls
    refine ⟨n + 1, ?_⟩
    rw [after, next_skip hpartners hv, Option.bind_some, hn]
    simp [Block.operators]
    omega
  | again hv _ _ ihbody ihloop =>
    obtain ⟨hpartners, hbody, -⟩ := Block.partners_of_drop hb
    obtain ⟨m, hm⟩ := ihbody hbody ((i + 1) :: ls)
    obtain ⟨n, hn⟩ := ihloop hb ls
    cases n with
    | zero => simp [after, Block.operators] at hn
    | succ n =>
      refine ⟨m + (n + 1) + 1, ?_⟩
      rw [after, next_enter hpartners.opening hv, Option.bind_some, after_add, hm, Option.bind_some,
        Nat.add_right_comm, after_loopEnd hpartners, hn]

/-- A walk that ends comes out of the blocks that it goes into, with the stores that they run to. -/
theorem eval_of_after (h : after ops cellMax n (⟨i, ls⟩, σ) = none)
    (hb : ops.drop i = b.operators ++ tail) :
    ∃ τ m, m ≤ n ∧ b.Eval cellMax σ τ ∧
      after ops cellMax m (⟨i + b.operators.length, ls⟩, τ) = none := by
  -- the induction is on the length of the walk, since a loop may run its body again
  induction n using Nat.strongRecOn generalizing b i ls σ tail with
  | ind n ih =>
    cases n with
    | zero => simp [after] at h
    | succ n =>
      cases b with
      | done => exact ⟨σ, n + 1, Nat.le_refl _, .done σ, h⟩
      | act a rest =>
        obtain ⟨hop, hrest⟩ := Block.act_of_drop hb
        rw [after, next_act hop, Option.bind_some] at h
        obtain ⟨τ, m, hm, hτ, hend⟩ := ih n (Nat.lt_succ_self n) h hrest
        refine ⟨τ, m, by omega, .act hτ, ?_⟩
        rw [← hend]
        simp [Block.operators, Nat.add_assoc, Nat.add_comm 1]
      | loop body rest =>
        obtain ⟨hpartners, hbody, hrest⟩ := Block.partners_of_drop hb
        by_cases hv : σ.value = 0
        · rw [after, next_skip hpartners hv, Option.bind_some] at h
          obtain ⟨τ, m, hm, hτ, hend⟩ := ih n (Nat.lt_succ_self n) h hrest
          refine ⟨τ, m, by omega, .leave hv hτ, ?_⟩
          rw [← hend]
          congr 3
          simp [Block.operators]
          omega
        · rw [after, next_enter hpartners.opening hv, Option.bind_some] at h
          obtain ⟨ρ, m, hm, hρ, hend⟩ := ih n (Nat.lt_succ_self n) h hbody
          cases m with
          | zero => simp [after] at hend
          | succ m =>
            rw [Nat.add_right_comm, after_loopEnd hpartners] at hend
            obtain ⟨τ, k, hk, hτ, hend⟩ := ih (m + 1) (by omega) hend hb
            exact ⟨τ, k, by omega, .again hv hρ hτ, hend⟩

end Walk

end Brainfuck
