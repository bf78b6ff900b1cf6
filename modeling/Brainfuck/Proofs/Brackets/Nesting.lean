import Brainfuck.Proofs.Brackets.Balanced

/-! # Static nesting

The loops that are open at a point of a program are found by matching brackets with a stack. A loop
is known by the number of operators up to and including its opening bracket. The stack decides which
brackets are partners, and a closing bracket without a partner is a stray one. -/
namespace Brainfuck.Brackets

variable {α β : Type} {ops : List Operator} {i j k l : Nat} {ls : List Nat}

/-- The stack after one more operator. An opening bracket puts its label on the stack, and a closing
bracket takes off the last label, if there is one. -/
def stackStep (stack : List α) : Operator × α → List α
  | (.loopStart, a) => a :: stack
  | (.loopEnd, _) => stack.tail
  | _ => stack

/-- The labels of the brackets that are left open, the innermost first. -/
def leftOpen (xs : List (Operator × α)) : List α := xs.foldl stackStep []

/-- The loops that are open after the first `i` operators. -/
def openLoops (ops : List Operator) (i : Nat) : List Nat := leftOpen ((ops.take i).zipIdx 1)

/-- A closing bracket without a partner. -/
def Stray (ops : List Operator) (j : Nat) : Prop :=
  ops[j]? = some .loopEnd ∧ ∀ i, ¬ Partners ops i j

@[simp] lemma stackStep_open (stack : List α) (a : α) :
    stackStep stack (.loopStart, a) = a :: stack := rfl

@[simp] lemma stackStep_close (stack : List α) (a : α) :
    stackStep stack (.loopEnd, a) = stack.tail := rfl

@[simp] lemma stackStep_action (stack : List α) (act : Action) (a : α) :
    stackStep stack (act.operator, a) = stack := by
  cases act <;> rfl

/-- Matching does not look at the labels. -/
theorem leftOpen_map (f : α → β) (xs : List (Operator × α)) :
    leftOpen (xs.map fun x => (x.1, f x.2)) = (leftOpen xs).map f := by
  have step (stack : List α) (x : Operator × α) :
      stackStep (stack.map f) (x.1, f x.2) = (stackStep stack x).map f := by
    obtain ⟨op, a⟩ := x
    obtain rfl | rfl | ⟨act, rfl⟩ := op.bracket_or_action <;> simp
  suffices ∀ stack : List α,
      (xs.map fun x => (x.1, f x.2)).foldl stackStep (stack.map f) =
        (xs.foldl stackStep stack).map f from this []
  induction xs with
  | nil => simp
  | cons x xs ih =>
    intro stack
    simp only [List.map_cons, List.foldl_cons]
    rw [step, ih]

/-- Balanced operators leave the stack as it was. -/
theorem foldl_stackStep_balanced {body : List Operator} (h : Balanced body) (n : Nat)
    (stack : List Nat) : (body.zipIdx n).foldl stackStep stack = stack := by
  induction h generalizing n stack with
  | nil => rfl
  | action a _ ih => simp [ih]
  | loop _ _ ihbody ihrest => simp [List.zipIdx_append, ihbody, ihrest]

@[simp] lemma openLoops_zero (ops : List Operator) : openLoops ops 0 = [] := by
  simp [openLoops, leftOpen]

/-- One more operator changes the open loops by one step of the stack. -/
theorem openLoops_succ {op : Operator} (h : ops[i]? = some op) :
    openLoops ops (i + 1) = stackStep (openLoops ops i) (op, i + 1) := by
  obtain ⟨hi, _⟩ := List.getElem?_eq_some_iff.1 h
  simp only [openLoops, leftOpen, List.take_add_one, h, Option.toList_some, List.zipIdx_append,
    List.foldl_append, List.length_take, Nat.min_eq_left (Nat.le_of_lt hi)]
  simp [Nat.add_comm]

lemma openLoops_open (h : ops[i]? = some .loopStart) :
    openLoops ops (i + 1) = (i + 1) :: openLoops ops i := by
  rw [openLoops_succ h, stackStep_open]

lemma openLoops_close (h : ops[i]? = some .loopEnd) :
    openLoops ops (i + 1) = (openLoops ops i).tail := by
  rw [openLoops_succ h, stackStep_close]

lemma openLoops_action {a : Action} (h : ops[i]? = some a.operator) :
    openLoops ops (i + 1) = openLoops ops i := by
  rw [openLoops_succ h, stackStep_action]

/-- Behind the last operator nothing changes. -/
lemma openLoops_of_getElem?_eq_none (h : ops[i]? = none) :
    openLoops ops (i + 1) = openLoops ops i := by
  have : ops.length ≤ i := List.getElem?_eq_none_iff.1 h
  simp [openLoops, List.take_of_length_le this, List.take_of_length_le (Nat.le_succ_of_le this)]

/-- The same loops are open before and after balanced operators. -/
theorem openLoops_of_balanced (hij : i ≤ j) (h : Balanced ((ops.take j).drop i)) :
    openLoops ops j = openLoops ops i := by
  have hsplit : ops.take j = ops.take i ++ (ops.take j).drop i := by
    conv_lhs => rw [← List.take_append_drop i (ops.take j), List.take_take, Nat.min_eq_left hij]
  unfold openLoops leftOpen
  rw [hsplit, List.zipIdx_append, List.foldl_append, foldl_stackStep_balanced h]

/-- A closing bracket leaves open what was open before its partner. -/
theorem openLoops_of_partners (h : Partners ops i j) :
    openLoops ops j = (i + 1) :: openLoops ops i ∧ openLoops ops (j + 1) = openLoops ops i := by
  have hj : openLoops ops j = (i + 1) :: openLoops ops i := by
    rw [openLoops_of_balanced h.lt h.between, openLoops_open h.opening]
  exact ⟨hj, by rw [openLoops_close h.closing, hj, List.tail_cons]⟩

private lemma take_drop_succ {op : Operator} (h : ops[j]? = some op) (hij : i ≤ j) :
    (ops.take (j + 1)).drop i = (ops.take j).drop i ++ [op] := by
  rw [List.take_add_one, h, Option.toList_some, List.drop_append_of_le_length]
  have := (List.getElem?_eq_some_iff.1 h).1
  simp only [List.length_take]
  omega

/-- The innermost open loop is one whose bracket has balanced operators behind it. -/
theorem balanced_of_openLoops (h : openLoops ops j = l :: ls) :
    ∃ i, l = i + 1 ∧ i < j ∧ ops[i]? = some .loopStart ∧ openLoops ops i = ls ∧
      Balanced ((ops.take j).drop (i + 1)) := by
  induction j using Nat.strongRecOn generalizing l ls with
  | ind j ih =>
    cases j with
    | zero => simp at h
    | succ j =>
      cases hop : ops[j]? with
      | none =>
        rw [openLoops_of_getElem?_eq_none hop] at h
        obtain ⟨i, hl, hij, hopen, hls, hb⟩ := ih j (by omega) h
        have hlen := List.getElem?_eq_none_iff.1 hop
        refine ⟨i, hl, by omega, hopen, hls, ?_⟩
        rwa [List.take_of_length_le (by omega), ← List.take_of_length_le hlen]
      | some op =>
        obtain rfl | rfl | ⟨a, rfl⟩ := op.bracket_or_action
        · rw [openLoops_open hop] at h
          obtain ⟨rfl, rfl⟩ := List.cons.inj h
          refine ⟨j, rfl, by omega, hop, rfl, ?_⟩
          rw [List.drop_of_length_le (by simp only [List.length_take]; omega)]
          exact .nil
        · -- the loop closed here lies behind the one that is innermost now
          rw [openLoops_close hop] at h
          cases hj : openLoops ops j with
          | nil => simp [hj] at h
          | cons m ms =>
            obtain rfl : ms = l :: ls := by simpa [hj] using h
            obtain ⟨p, -, hpj, hp, hms, hb⟩ := ih j (by omega) hj
            obtain ⟨i, hl, hip, hi, hls, hb'⟩ := ih p (by omega) hms
            refine ⟨i, hl, by omega, hi, hls, ?_⟩
            have hmid : (ops.take (j + 1)).drop (i + 1) = (ops.take p).drop (i + 1) ++
                .loopStart :: ((ops.take j).drop (p + 1) ++ .loopEnd :: []) := by
              rw [take_drop_succ hop (by omega)]
              have hcut := List.take_append_drop (p - i) ((ops.take j).drop (i + 1))
              rw [List.take_drop, List.take_take, List.drop_drop,
                show min (i + 1 + (p - i)) j = p + 1 by omega,
                show i + 1 + (p - i) = p + 1 by omega, take_drop_succ hp (by omega)] at hcut
              rw [← hcut]
              simp
            rw [hmid]
            exact hb'.append (.loop hb .nil)
        · rw [openLoops_action hop] at h
          obtain ⟨i, hl, hij, hi, hls, hb⟩ := ih j (by omega) h
          refine ⟨i, hl, by omega, hi, hls, ?_⟩
          rw [take_drop_succ hop (by omega)]
          exact hb.append (.action a .nil)

/-- At a closing bracket the stack has its partner on top. -/
theorem partners_iff_openLoops (hj : ops[j]? = some .loopEnd) :
    Partners ops i j ↔ ∃ ls, openLoops ops j = (i + 1) :: ls := by
  constructor
  · intro h
    exact ⟨_, (openLoops_of_partners h).1⟩
  · rintro ⟨ls, h⟩
    obtain ⟨i', hi', hlt, hopen, -, hb⟩ := balanced_of_openLoops h
    obtain rfl : i = i' := by omega
    exact ⟨hlt, hopen, hj, hb⟩

/-- A closing bracket is stray exactly when no loop is open before it. -/
theorem stray_iff : Stray ops j ↔ ops[j]? = some .loopEnd ∧ openLoops ops j = [] := by
  refine and_congr_right fun hj => ⟨fun h => ?_, fun h i hp => ?_⟩
  · cases hls : openLoops ops j with
    | nil => rfl
    | cons l ls =>
      obtain ⟨i, rfl, -⟩ := balanced_of_openLoops hls
      exact absurd ((partners_iff_openLoops hj).2 ⟨ls, hls⟩) (h i)
  · obtain ⟨ls, hls⟩ := (partners_iff_openLoops hj).1 hp
    simp [h] at hls

instance : DecidablePred (Stray ops) := fun _ => decidable_of_iff' _ stray_iff

/-- When a loop is the innermost one, what is open outside of it was open before it. -/
theorem openLoops_of_cons (h : openLoops ops j = l :: ls) :
    0 < l ∧ l ≤ j ∧ openLoops ops l = l :: ls := by
  obtain ⟨i, rfl, hij, hi, rfl, -⟩ := balanced_of_openLoops h
  exact ⟨by omega, by omega, openLoops_open hi⟩

/-- A loop that is open later was open all the time since its bracket. -/
theorem mem_openLoops_of_le (h : l ∈ openLoops ops j) (hl : l ≤ k) (hk : k ≤ j) :
    l ∈ openLoops ops k := by
  induction hk with
  | refl => exact h
  | @step j hkj ih =>
    have hkj : k ≤ j := hkj
    refine ih ?_
    cases hop : ops[j]? with
    | none => rwa [openLoops_of_getElem?_eq_none hop] at h
    | some op =>
      obtain rfl | rfl | ⟨a, rfl⟩ := op.bracket_or_action
      · rw [openLoops_open hop, List.mem_cons] at h
        exact h.resolve_left (by omega)
      · rw [openLoops_close hop] at h
        exact List.mem_of_mem_tail h
      · rwa [openLoops_action hop] at h

/-- No closing bracket is stray while a loop is open. -/
theorem not_stray_of_mem (h : l ∈ openLoops ops j) (hl : l ≤ k) (hk : k ≤ j) : ¬ Stray ops k := by
  intro hs
  have := mem_openLoops_of_le h hl hk
  simp [(stray_iff.1 hs).2] at this

/-- A bracket that no bracket closes stays open. -/
theorem mem_openLoops_of_unclosed (hi : ops[i]? = some .loopStart)
    (h : ∀ j, ¬ Partners ops i j) (hk : i + 1 ≤ k) : i + 1 ∈ openLoops ops k := by
  induction hk with
  | refl => simp [openLoops_open hi]
  | @step k _ ih =>
    cases hop : ops[k]? with
    | none => rwa [openLoops_of_getElem?_eq_none hop]
    | some op =>
      obtain rfl | rfl | ⟨a, rfl⟩ := op.bracket_or_action
      · rw [openLoops_open hop]
        exact List.mem_cons_of_mem _ ih
      · cases hls : openLoops ops k with
        | nil => simp [hls] at ih
        | cons l ls =>
          rw [openLoops_close hop, hls, List.tail_cons]
          rw [hls, List.mem_cons] at ih
          refine ih.resolve_left ?_
          rintro rfl
          exact h k ((partners_iff_openLoops hop).2 ⟨ls, hls⟩)
      · rwa [openLoops_action hop]

end Brainfuck.Brackets
