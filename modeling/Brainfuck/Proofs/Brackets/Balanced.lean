import Mathlib.Data.List.Basic
import Brainfuck.Program.Source

/-! # Balanced operators

An operator that is no bracket is an action. A list of operators is balanced when its brackets nest
properly. The scan that leaves a skipped loop counts depths, and the number of operators it draws is
`skipLength`; in the nested reading it ends at the bracket up to which the operators are balanced. -/
namespace Brainfuck

/-- What an operator does that is no bracket. -/
inductive Action
  | right
  | left
  | increment
  | decrement
  | output
  | input
  deriving DecidableEq, Repr

/-- The operator that stands for an action. -/
def Action.operator : Action → Operator
  | right => .right
  | left => .left
  | increment => .increment
  | decrement => .decrement
  | output => .output
  | input => .input

/-- An operator opens a loop, closes one, or is an action. -/
theorem Operator.bracket_or_action (op : Operator) :
    op = .loopStart ∨ op = .loopEnd ∨ ∃ a : Action, op = a.operator := by
  cases op with
  | loopStart => exact .inl rfl
  | loopEnd => exact .inr (.inl rfl)
  | right => exact .inr (.inr ⟨.right, rfl⟩)
  | left => exact .inr (.inr ⟨.left, rfl⟩)
  | increment => exact .inr (.inr ⟨.increment, rfl⟩)
  | decrement => exact .inr (.inr ⟨.decrement, rfl⟩)
  | output => exact .inr (.inr ⟨.output, rfl⟩)
  | input => exact .inr (.inr ⟨.input, rfl⟩)

@[simp] lemma Action.operator_ne_loopStart (a : Action) : a.operator ≠ .loopStart := by
  cases a <;> decide

@[simp] lemma Action.operator_ne_loopEnd (a : Action) : a.operator ≠ .loopEnd := by
  cases a <;> decide

namespace Brackets

/-- Every opening bracket is closed and every closing bracket closes one. -/
inductive Balanced : List Operator → Prop
  | nil : Balanced []
  | action (a : Action) {ops : List Operator} (h : Balanced ops) : Balanced (a.operator :: ops)
  | loop {body rest : List Operator} (hbody : Balanced body) (hrest : Balanced rest) :
    Balanced (.loopStart :: (body ++ .loopEnd :: rest))

theorem Balanced.append {xs ys : List Operator} (hx : Balanced xs) (hy : Balanced ys) :
    Balanced (xs ++ ys) := by
  induction hx with
  | nil => exact hy
  | action a _ ih => exact .action a ih
  | loop hbody _ _ ih => simpa using Balanced.loop hbody ih

/-- Two brackets are partners when the operators between them are balanced. -/
structure Partners (ops : List Operator) (i j : Nat) : Prop where
  lt : i < j
  opening : ops[i]? = some .loopStart
  closing : ops[j]? = some .loopEnd
  between : Balanced ((ops.take j).drop (i + 1))

/-- How many operators a scan draws that is inside a loop at the given depth and goes on until that
loop ends, if it ends. -/
def skipLength (scan : SkipScan) (depth : Nat) : List Operator → Option Nat
  | [] => none
  | op :: ops =>
    match Source.depthAfter scan depth op with
    | none => some 1
    | some depth => (skipLength scan depth ops).map (· + 1)

@[simp] lemma depthAfter_action (scan : SkipScan) (depth : Nat) (a : Action) :
    Source.depthAfter scan depth a.operator = some depth := by
  cases a <;> rfl

@[simp] lemma skipLength_nil (scan : SkipScan) (depth : Nat) : skipLength scan depth [] = none := rfl

@[simp] lemma skipLength_action (scan : SkipScan) (depth : Nat) (a : Action) (ops : List Operator) :
    skipLength scan depth (a.operator :: ops) = (skipLength scan depth ops).map (· + 1) := by
  simp [skipLength]

@[simp] lemma skipLength_nested_open (depth : Nat) (ops : List Operator) :
    skipLength .nested depth (.loopStart :: ops) =
      (skipLength .nested (depth + 1) ops).map (· + 1) := rfl

@[simp] lemma skipLength_nested_close (ops : List Operator) :
    skipLength .nested 0 (.loopEnd :: ops) = some 1 := rfl

@[simp] lemma skipLength_nested_close_succ (depth : Nat) (ops : List Operator) :
    skipLength .nested (depth + 1) (.loopEnd :: ops) =
      (skipLength .nested depth ops).map (· + 1) := rfl

@[simp] lemma skipLength_legacy_open (depth : Nat) (ops : List Operator) :
    skipLength .legacy depth (.loopStart :: ops) = (skipLength .legacy depth ops).map (· + 1) := rfl

@[simp] lemma skipLength_legacy_close (depth : Nat) (ops : List Operator) :
    skipLength .legacy depth (.loopEnd :: ops) = some 1 := rfl

/-- The legacy scan does not look at the depth. -/
theorem skipLength_legacy_depth (depth depth' : Nat) (ops : List Operator) :
    skipLength .legacy depth ops = skipLength .legacy depth' ops := by
  induction ops with
  | nil => rfl
  | cons op ops ih =>
    obtain rfl | rfl | ⟨a, rfl⟩ := op.bracket_or_action
    · simp [ih]
    · rfl
    · simp [ih]

/-- A scan draws at least the bracket it ends with, and no more operators than there are. -/
theorem skipLength_bounds {scan : SkipScan} {depth n : Nat} {ops : List Operator}
    (h : skipLength scan depth ops = some n) : 0 < n ∧ n ≤ ops.length := by
  induction ops generalizing depth n with
  | nil => simp at h
  | cons op ops ih =>
    unfold skipLength at h
    split at h
    · cases h
      simp
    · obtain ⟨m, hm, rfl⟩ := Option.map_eq_some_iff.1 h
      have := (ih hm).2
      simp only [List.length_cons]
      omega

lemma skipLength_eq_succ {scan : SkipScan} {depth n : Nat} {ops : List Operator}
    (h : skipLength scan depth ops = some n) : ∃ m, n = m + 1 :=
  Nat.exists_eq_succ_of_ne_zero (Nat.ne_of_gt (skipLength_bounds h).1)

/-- Only a closing bracket ends a scan. -/
lemma eq_loopEnd_of_depthAfter {scan : SkipScan} {depth : Nat} {op : Operator}
    (h : Source.depthAfter scan depth op = none) : op = .loopEnd := by
  obtain rfl | rfl | ⟨a, rfl⟩ := op.bracket_or_action
  · cases scan <;> simp [Source.depthAfter] at h
  · rfl
  · simp at h

/-- The last operator that a scan draws is a closing bracket. -/
theorem getElem?_of_skipLength {scan : SkipScan} {depth n : Nat} {ops : List Operator}
    (h : skipLength scan depth ops = some (n + 1)) : ops[n]? = some .loopEnd := by
  induction ops generalizing depth n with
  | nil => simp at h
  | cons op ops ih =>
    unfold skipLength at h
    split at h
    case h_1 hend =>
      cases h
      simp [eq_loopEnd_of_depthAfter hend]
    case h_2 =>
      obtain ⟨m, hm, hmn⟩ := Option.map_eq_some_iff.1 h
      obtain rfl : m = n := by omega
      obtain ⟨m, rfl⟩ := skipLength_eq_succ hm
      simpa using ih hm

/-- Balanced operators leave the scan as deep as it was. -/
theorem skipLength_balanced {body : List Operator} (h : Balanced body) (depth : Nat)
    (rest : List Operator) :
    skipLength .nested depth (body ++ rest) =
      (skipLength .nested depth rest).map (body.length + ·) := by
  induction h generalizing depth rest with
  | nil => simp
  | action a _ ih =>
    simp only [List.cons_append, skipLength_action, ih, Option.map_map, List.length_cons]
    congr 1
    funext n
    simp only [Function.comp_apply]
    omega
  | loop _ _ ihbody ihrest =>
    simp only [List.cons_append, List.append_assoc, skipLength_nested_open, ihbody,
      skipLength_nested_close_succ, ihrest, Option.map_map, List.length_cons, List.length_append]
    congr 1
    funext n
    simp only [Function.comp_apply]
    omega

/-- A scan of a loop ends with the bracket that closes it. -/
theorem skipLength_loop {body : List Operator} (h : Balanced body) (rest : List Operator) :
    skipLength .nested 0 (body ++ .loopEnd :: rest) = some (body.length + 1) := by
  simp [skipLength_balanced h]

/-- A nested scan draws balanced operators and a closing bracket, and then goes on at the depth
outside of the loop that this bracket closes. -/
theorem exists_balanced_of_skipLength {depth n : Nat} {ops : List Operator}
    (h : skipLength .nested depth ops = some n) :
    ∃ body rest, Balanced body ∧ ops = body ++ .loopEnd :: rest ∧
      match depth with
      | 0 => n = body.length + 1
      | depth + 1 => (skipLength .nested depth rest).map (body.length + 1 + ·) = some n := by
  -- an opening bracket is followed by two scans, the second of them on what the first one leaves
  induction hl : ops.length using Nat.strongRecOn generalizing depth n ops with
  | ind l ih =>
    subst hl
    cases ops with
    | nil => simp at h
    | cons op ops =>
      obtain rfl | rfl | ⟨a, rfl⟩ := op.bracket_or_action
      · obtain ⟨m, hm, rfl⟩ := Option.map_eq_some_iff.1 h
        obtain ⟨body, rest, hbody, rfl, hrest⟩ := ih ops.length (by simp) hm rfl
        obtain ⟨k, hk, rfl⟩ := Option.map_eq_some_iff.1 hrest
        obtain ⟨after, rest, hafter, rfl, hn⟩ := ih rest.length (by simp; omega) hk rfl
        refine ⟨.loopStart :: (body ++ .loopEnd :: after), rest, .loop hbody hafter, by simp, ?_⟩
        cases depth with
        | zero =>
          simp only [List.length_cons, List.length_append]
          omega
        | succ depth =>
          obtain ⟨i, hi, rfl⟩ := Option.map_eq_some_iff.1 hn
          simp only [hi, List.length_cons, List.length_append, Option.map_some, Option.some.injEq]
          omega
      · refine ⟨[], ops, .nil, rfl, ?_⟩
        cases depth with
        | zero => simpa using h.symm
        | succ depth => simpa [Nat.add_comm] using h
      · obtain ⟨m, hm, rfl⟩ := Option.map_eq_some_iff.1 ((skipLength_action ..).symm.trans h)
        obtain ⟨body, rest, hbody, rfl, hrest⟩ := ih ops.length (by simp) hm rfl
        refine ⟨a.operator :: body, rest, .action a hbody, rfl, ?_⟩
        cases depth with
        | zero => simpa using hrest
        | succ depth =>
          obtain ⟨i, hi, rfl⟩ := Option.map_eq_some_iff.1 hrest
          simp only [hi, List.length_cons, Option.map_some, Option.some.injEq]
          omega

/-- The nested scan from an opening bracket ends just after its partner. -/
theorem partners_iff_skipLength {ops : List Operator} {i : Nat} (hi : ops[i]? = some .loopStart)
    (j : Nat) :
    Partners ops i j ↔ ∃ n, skipLength .nested 0 (ops.drop (i + 1)) = some n ∧ j = i + n := by
  constructor
  · intro h
    have hj : ops.drop (i + 1) = (ops.take j).drop (i + 1) ++ .loopEnd :: ops.drop (j + 1) := by
      obtain ⟨hlt, hget⟩ := List.getElem?_eq_some_iff.1 h.closing
      conv_lhs => rw [← List.take_append_drop j ops, List.drop_eq_getElem_cons hlt, hget]
      rw [List.drop_append_of_le_length]
      simp only [List.length_take]
      have := h.lt
      omega
    refine ⟨_, hj ▸ skipLength_loop h.between _, ?_⟩
    have := h.lt
    have := (List.getElem?_eq_some_iff.1 h.closing).1
    simp only [List.length_drop, List.length_take]
    omega
  · rintro ⟨n, hn, rfl⟩
    obtain ⟨body, rest, hbody, hops, rfl⟩ := exists_balanced_of_skipLength hn
    have hclosing := getElem?_of_skipLength hn
    rw [List.getElem?_drop] at hclosing
    refine ⟨by omega, hi, by rw [← hclosing]; congr 1; omega, ?_⟩
    rw [List.drop_take, hops, show i + (body.length + 1) - (i + 1) = body.length by omega]
    simpa using hbody

/-- Behind how many operators a scan stands that starts behind the first `i` of them and comes to an
end. -/
def skipEnd (scan : SkipScan) (depth : Nat) (ops : List Operator) (i : Nat) : Option Nat :=
  (skipLength scan depth (ops.drop i)).map (i + ·)

lemma skipEnd_of_length_le {scan : SkipScan} {depth i : Nat} {ops : List Operator}
    (h : ops.length ≤ i) : skipEnd scan depth ops i = none := by
  simp [skipEnd, List.drop_of_length_le h]

lemma skipEnd_of_ends {scan : SkipScan} {depth i : Nat} {ops : List Operator} {op : Operator}
    (h : ops[i]? = some op) (hd : Source.depthAfter scan depth op = none) :
    skipEnd scan depth ops i = some (i + 1) := by
  obtain ⟨hi, rfl⟩ := List.getElem?_eq_some_iff.1 h
  rw [skipEnd, List.drop_eq_getElem_cons hi, skipLength, hd, Option.map_some]

lemma skipEnd_of_goes_on {scan : SkipScan} {depth depth' i : Nat} {ops : List Operator}
    {op : Operator} (h : ops[i]? = some op) (hd : Source.depthAfter scan depth op = some depth') :
    skipEnd scan depth ops i = skipEnd scan depth' ops (i + 1) := by
  obtain ⟨hi, rfl⟩ := List.getElem?_eq_some_iff.1 h
  rw [skipEnd, List.drop_eq_getElem_cons hi, skipLength, hd, skipEnd]
  simp [Function.comp_def, Nat.add_comm, Nat.add_left_comm]

theorem skipEnd_bounds {scan : SkipScan} {depth i j : Nat} {ops : List Operator}
    (h : skipEnd scan depth ops i = some j) : i < j ∧ j ≤ ops.length := by
  obtain ⟨n, hn, rfl⟩ := Option.map_eq_some_iff.1 h
  have := skipLength_bounds hn
  rw [List.length_drop] at this
  omega

/-- The nested scan from an opening bracket ends just behind its partner. -/
theorem partners_iff_skipEnd {ops : List Operator} {i : Nat} (hi : ops[i]? = some .loopStart)
    (j : Nat) : Partners ops i j ↔ skipEnd .nested 0 ops (i + 1) = some (j + 1) := by
  rw [partners_iff_skipLength hi, skipEnd, Option.map_eq_some_iff]
  refine exists_congr fun n => and_congr_right fun _ => ?_
  omega

/-- A nested scan from an opening bracket leads just behind its partner, if it comes to an end. -/
theorem partners_of_skipEnd {ops : List Operator} {i k : Nat} (hi : ops[i]? = some .loopStart)
    (h : skipEnd .nested 0 ops (i + 1) = some k) : ∃ j, k = j + 1 ∧ Partners ops i j := by
  cases k with
  | zero => exact absurd (skipEnd_bounds h).1 (Nat.not_lt_zero _)
  | succ j => exact ⟨j, rfl, (partners_iff_skipEnd hi j).2 h⟩

theorem skipEnd_eq_none_iff {ops : List Operator} {i : Nat} (hi : ops[i]? = some .loopStart) :
    skipEnd .nested 0 ops (i + 1) = none ↔ ∀ j, ¬ Partners ops i j := by
  refine ⟨fun h j hj => ?_, fun h => ?_⟩
  · rw [partners_iff_skipEnd hi, h] at hj
    cases hj
  · cases hk : skipEnd .nested 0 ops (i + 1) with
    | none => rfl
    | some k =>
      obtain ⟨j, -, hj⟩ := partners_of_skipEnd hi hk
      exact absurd hj (h j)

end Brackets

end Brainfuck
