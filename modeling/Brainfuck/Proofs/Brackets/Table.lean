import Brainfuck.Proofs.Brackets.Balanced

/-! # The table of partners

The table of a program is made in one pass over all of it, and a scan starts anew at each opening
bracket. Both come to the same closing bracket, in either reading of the brackets. -/
namespace Brainfuck.Brackets

variable {scan : SkipScan} {ops : List Operator} {i j : Nat}

/-- Whether or not the depth is counted, a scan may be taken to be one loop deeper after an opening
bracket. -/
lemma skipLength_open (scan : SkipScan) (depth : Nat) (ops : List Operator) :
    skipLength scan depth (.loopStart :: ops) = (skipLength scan (depth + 1) ops).map (· + 1) := by
  cases scan with
  | nested => rfl
  | legacy => rw [skipLength_legacy_open, skipLength_legacy_depth depth (depth + 1)]

/-- A bracket that is pending at depth `d` is to be paired where a scan ends that is at depth `d`. -/
def PairsPending (scan : SkipScan) (pending : List Nat) (index : Nat) (ops : List Operator)
    (i j : Nat) : Prop :=
  ∃ d n, pending[d]? = some i ∧ skipLength scan d ops = some (n + 1) ∧ j = index + n

/-- A bracket still to be met is to be paired where a scan ends that starts behind it. -/
def PairsAhead (scan : SkipScan) (index : Nat) (ops : List Operator) (i j : Nat) : Prop :=
  ∃ k n, i = index + k ∧ ops[k]? = some .loopStart ∧
    skipLength scan 0 (ops.drop (k + 1)) = some n ∧ j = i + n

lemma pairsPending_open {pending : List Nat} {index : Nat} :
    PairsPending scan (index :: pending) (index + 1) ops i j ↔
      PairsPending scan pending index (.loopStart :: ops) i j ∨
        (i = index ∧ ∃ n, skipLength scan 0 ops = some n ∧ j = i + n) := by
  constructor
  · rintro ⟨d, n, hd, hn, hj⟩
    cases d with
    | zero => exact .inr ⟨by simpa using hd.symm, n + 1, hn, by simp at hd; omega⟩
    | succ d => exact .inl ⟨d, n + 1, by simpa using hd, by simp [skipLength_open, hn], by omega⟩
  · rintro (⟨d, n, hd, hn, hj⟩ | ⟨rfl, n, hn, hj⟩)
    · rw [skipLength_open] at hn
      obtain ⟨m, hm, hmn⟩ := Option.map_eq_some_iff.1 hn
      obtain ⟨m, rfl⟩ := skipLength_eq_succ hm
      exact ⟨d + 1, m, by simpa using hd, hm, by omega⟩
    · obtain ⟨m, rfl⟩ := skipLength_eq_succ hn
      exact ⟨0, m, rfl, hn, by omega⟩

lemma pairsPending_close {pending : List Nat} {index : Nat} :
    PairsPending scan pending index (.loopEnd :: ops) i j ↔
      (i, j) ∈ (close scan pending).1.map (·, index) ∨
        PairsPending scan (close scan pending).2 (index + 1) ops i j := by
  cases scan with
  | legacy =>
    constructor
    · rintro ⟨d, n, hd, hn, hj⟩
      obtain rfl : n = 0 := by simpa using hn.symm
      exact .inl (List.mem_map.2 ⟨i, List.mem_iff_getElem?.2 ⟨d, hd⟩, by simp [hj]⟩)
    · rintro (h | ⟨d, n, hd, -⟩)
      · obtain ⟨p, hp, hpi⟩ := List.mem_map.1 h
        obtain ⟨d, hd⟩ := List.mem_iff_getElem?.1 hp
        cases hpi
        exact ⟨d, 0, hd, rfl, rfl⟩
      · simp [close] at hd
  | nested =>
    cases pending with
    | nil => simp [PairsPending, close]
    | cons p pending =>
      constructor
      · rintro ⟨d, n, hd, hn, hj⟩
        cases d with
        | zero =>
          obtain rfl : n = 0 := by simpa using hn.symm
          exact .inl (by simpa [close, hj] using hd.symm)
        | succ d =>
          obtain ⟨m, hm, hmn⟩ := Option.map_eq_some_iff.1 hn
          obtain ⟨m, rfl⟩ := skipLength_eq_succ hm
          exact .inr ⟨d, m, by simpa [close] using hd, hm, by omega⟩
      · rintro (h | ⟨d, n, hd, hn, hj⟩)
        · obtain ⟨rfl, rfl⟩ : i = p ∧ j = index := by simpa [close] using h
          exact ⟨0, 0, rfl, rfl, rfl⟩
        · exact ⟨d + 1, n + 1, by simpa [close] using hd, by simp [hn], by omega⟩

lemma pairsPending_action {pending : List Nat} {index : Nat} (a : Action) :
    PairsPending scan pending index (a.operator :: ops) i j ↔
      PairsPending scan pending (index + 1) ops i j := by
  constructor
  · rintro ⟨d, n, hd, hn, hj⟩
    rw [skipLength_action] at hn
    obtain ⟨m, hm, hmn⟩ := Option.map_eq_some_iff.1 hn
    obtain ⟨m, rfl⟩ := skipLength_eq_succ hm
    exact ⟨d, m, hd, hm, by omega⟩
  · rintro ⟨d, n, hd, hn, hj⟩
    exact ⟨d, n + 1, hd, by simp [hn], by omega⟩

lemma pairsAhead_cons {index : Nat} (op : Operator) :
    PairsAhead scan index (op :: ops) i j ↔
      (op = .loopStart ∧ i = index ∧ ∃ n, skipLength scan 0 ops = some n ∧ j = i + n) ∨
        PairsAhead scan (index + 1) ops i j := by
  constructor
  · rintro ⟨k, n, hi, hk, hn, hj⟩
    cases k with
    | zero => exact .inl ⟨by simpa using hk, hi, n, by simpa using hn, hj⟩
    | succ k => exact .inr ⟨k, n, by omega, by simpa using hk, by simpa using hn, hj⟩
  · rintro (⟨rfl, rfl, n, hn, hj⟩ | ⟨k, n, hi, hk, hn, hj⟩)
    · exact ⟨0, n, rfl, rfl, by simpa using hn, hj⟩
    · exact ⟨k + 1, n, by omega, by simpa using hk, by simpa using hn, hj⟩

/-- The pass over a program pairs the brackets that are pending and those still to be met. -/
theorem mem_pairsFrom {pending : List Nat} {index : Nat} :
    (i, j) ∈ pairsFrom scan pending index ops ↔
      PairsPending scan pending index ops i j ∨ PairsAhead scan index ops i j := by
  induction ops generalizing pending index with
  | nil => simp [pairsFrom, PairsPending, PairsAhead]
  | cons op ops ih =>
    rw [pairsAhead_cons]
    obtain rfl | rfl | ⟨a, rfl⟩ := op.bracket_or_action
    · rw [pairsFrom, ih, pairsPending_open, or_assoc, and_iff_right rfl]
    · simp [pairsFrom, ih, pairsPending_close, or_assoc]
    · have hpairs : pairsFrom scan pending index (a.operator :: ops) =
          pairsFrom scan pending (index + 1) ops := by cases a <;> rfl
      simp [hpairs, ih, pairsPending_action]

/-- The pairs of a program are the opening brackets from which a scan comes to an end, each with the
bracket where it ends. -/
theorem mem_pairs : (i, j) ∈ pairs scan ops ↔
    ops[i]? = some .loopStart ∧ ∃ n, skipLength scan 0 (ops.drop (i + 1)) = some n ∧ j = i + n := by
  rw [pairs, mem_pairsFrom]
  constructor
  · rintro (⟨d, n, hd, -⟩ | ⟨k, n, hi, hk, hn, hj⟩)
    · simp at hd
    · obtain rfl : i = k := by omega
      exact ⟨hk, n, hn, hj⟩
  · rintro ⟨hi, n, hn, hj⟩
    exact .inr ⟨i, n, by omega, hi, hn, hj⟩

/-- Entering pairs into a table leaves a row alone that none of them is for, and otherwise fills it,
when there is one pair only that it can be filled from. -/
lemma getElem?_foldl_setIfInBounds (ps : List (Nat × Nat)) (t : Array (Option Nat)) (hi : i < t.size)
    (h : ∀ j', (i, j') ∈ ps → j' = j) :
    (ps.foldl (fun t (i, j) => t.setIfInBounds i (some j)) t)[i]? =
      if (i, j) ∈ ps then some (some j) else t[i]? := by
  induction ps generalizing t with
  | nil => simp
  | cons p ps ih =>
    rw [List.foldl_cons, ih _ (by simpa using hi) fun j' hj' => h j' (.tail _ hj')]
    obtain ⟨i', j'⟩ := p
    by_cases hp : i' = i
    · subst hp
      obtain rfl := h j' (.head _)
      simp [hi]
    · simp [hp, Ne.symm hp]

/-- The partner of an opening bracket is where a scan from it ends, in either reading. -/
theorem getElem?_table (hi : ops[i]? = some .loopStart) :
    ((table scan ops)[i]?).join.map (· + 1) = skipEnd scan 0 ops (i + 1) := by
  have hlt := (List.getElem?_eq_some_iff.1 hi).1
  have hpairs (j : Nat) : (i, j) ∈ pairs scan ops ↔
      ∃ n, skipLength scan 0 (ops.drop (i + 1)) = some n ∧ j = i + n := by
    rw [mem_pairs, and_iff_right hi]
  unfold table skipEnd
  cases hn : skipLength scan 0 (ops.drop (i + 1)) with
  | none =>
    rw [getElem?_foldl_setIfInBounds (j := 0) _ _ (by simpa using hlt) (by simp [hpairs, hn])]
    simp [hpairs, hn, hlt]
  | some n =>
    rw [getElem?_foldl_setIfInBounds (j := i + n) _ _ (by simpa using hlt) (by simp [hpairs, hn])]
    simp [hpairs, hn, Nat.add_right_comm]

end Brainfuck.Brackets
