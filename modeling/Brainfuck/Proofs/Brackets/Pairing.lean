import Mathlib.Data.Nat.Find
import Brainfuck.Proofs.Brackets.Nesting
import Brainfuck.Proofs.Brackets.Table

/-! # The pairs of a table

In the nested reading the table pairs partners, so no closing bracket is paired twice and no two pairs
cross, and the brackets that it leaves out are closing ones before all opening ones. In the legacy
reading it pairs an opening bracket with the first closing bracket behind it. The two tables are the
same exactly if no bracket opens between an opening bracket and the first closing bracket behind it. -/
namespace Brainfuck.Brackets

variable {scan : SkipScan} {ops : List Operator} {i i' j j' l n : Nat}

/-- The first closing bracket behind an operator. -/
structure ClosesFirst (ops : List Operator) (i j : Nat) : Prop where
  lt : i < j
  closing : ops[j]? = some .loopEnd
  first : ∀ k, i < k → k < j → ops[k]? ≠ some .loopEnd

/-- No bracket opens between an opening bracket and the first closing bracket behind it. -/
def Unnested (ops : List Operator) : Prop :=
  ∀ i j, ops[i]? = some .loopStart → ClosesFirst ops i j →
    ∀ k, i < k → k < j → ops[k]? ≠ some .loopStart

/-- The brackets that a table pairs with none. -/
def leftOut (partners : Array (Option Nat)) (ops : List Operator) : List Operator :=
  (ops.zipIdx.filter fun (op, i) =>
    (op = .loopStart ∧ partners[i]? = some none) ∨ (op = .loopEnd ∧ some i ∉ partners)).map (·.1)

/-! ## Partners -/

lemma Partners.right_unique (h : Partners ops i j) (h' : Partners ops i j') : j = j' := by
  have hend := (partners_iff_skipEnd h.opening j).1 h
  rw [(partners_iff_skipEnd h.opening j').1 h', Option.some.injEq] at hend
  omega

lemma Partners.left_unique (h : Partners ops i j) (h' : Partners ops i' j) : i = i' := by
  have hopen := (openLoops_of_partners h).1
  rw [(openLoops_of_partners h').1, List.cons.injEq] at hopen
  omega

/-- Only loops whose brackets are among the first operators are open behind these. -/
lemma le_of_mem_openLoops (h : l ∈ openLoops ops i) : l ≤ i := by
  induction i with
  | zero => simp at h
  | succ i ih =>
    cases hop : ops[i]? with
    | none => exact Nat.le_succ_of_le (ih (openLoops_of_getElem?_eq_none hop ▸ h))
    | some op =>
      obtain rfl | rfl | ⟨a, rfl⟩ := op.bracket_or_action
      · rw [openLoops_open hop, List.mem_cons] at h
        exact h.elim Nat.le_of_eq fun h => Nat.le_succ_of_le (ih h)
      · rw [openLoops_close hop] at h
        exact Nat.le_succ_of_le (ih (List.mem_of_mem_tail h))
      · exact Nat.le_succ_of_le (ih (openLoops_action hop ▸ h))

/-- A pair that begins inside of another one ends inside of it. -/
theorem Partners.lt_of_inside (h : Partners ops i j) (h' : Partners ops i' j') (hi : i < i')
    (hj : i' < j) : j' < j := by
  have hne : j' ≠ j := by
    rintro rfl
    exact absurd (h.left_unique h') (Nat.ne_of_lt hi)
  by_contra hge
  -- the outer loop would still be open at the end of the inner one, which lies behind its own end
  have houter : i + 1 ∈ openLoops ops j := by simp [(openLoops_of_partners h).1]
  have hinner : i + 1 ∈ openLoops ops j' := by
    rw [(openLoops_of_partners h').1]
    exact .tail _ (mem_openLoops_of_le houter hi (Nat.le_of_lt hj))
  have hend := mem_openLoops_of_le hinner (Nat.succ_le_succ (Nat.le_of_lt h.lt)) (by omega)
  rw [(openLoops_of_partners h).2] at hend
  have := le_of_mem_openLoops hend
  omega

/-- A stray bracket stands before every bracket that is not closed. -/
theorem Stray.lt_of_unclosed (hj : Stray ops j) (hi : ops[i]? = some .loopStart)
    (h : ∀ j, ¬ Partners ops i j) : j < i := by
  have hne : j ≠ i := by
    rintro rfl
    simp [hj.1] at hi
  by_contra hge
  have hlt : i + 1 ≤ j := by omega
  exact not_stray_of_mem (mem_openLoops_of_unclosed hi h hlt) hlt (Nat.le_refl _) hj

/-! ## First closing brackets -/

/-- The legacy scan ends with the first closing bracket that it meets. -/
lemma skipLength_legacy_iff {depth : Nat} : skipLength .legacy depth ops = some (n + 1) ↔
    ops[n]? = some .loopEnd ∧ ∀ k < n, ops[k]? ≠ some .loopEnd := by
  induction ops generalizing n with
  | nil => simp
  | cons op ops ih =>
    by_cases hend : op = .loopEnd
    · subst hend
      cases n with
      | zero => simp
      | succ n =>
        refine iff_of_false (by simp) fun h => ?_
        exact h.2 0 (Nat.succ_pos n) rfl
    · have hstep : skipLength .legacy depth (op :: ops) =
          (skipLength .legacy depth ops).map (· + 1) := by
        obtain rfl | rfl | ⟨a, rfl⟩ := op.bracket_or_action
        · rfl
        · exact absurd rfl hend
        · simp
      rw [hstep, Option.map_eq_some_iff]
      cases n with
      | zero =>
        refine iff_of_false ?_ (by simp [hend])
        rintro ⟨m, hm, hmn⟩
        exact Nat.ne_of_gt (skipLength_bounds hm).1 (by omega)
      | succ n =>
        have hfirst : (∀ k < n + 1, (op :: ops)[k]? ≠ some .loopEnd) ↔
            ∀ k < n, ops[k]? ≠ some .loopEnd := by
          rw [Nat.forall_lt_succ_left]
          exact and_iff_right (by simpa using hend)
        rw [hfirst, List.getElem?_cons_succ, ← ih]
        simp

/-- The legacy scan from an operator ends just behind the first closing bracket that follows. -/
theorem closesFirst_iff_skipEnd :
    ClosesFirst ops i j ↔ skipEnd .legacy 0 ops (i + 1) = some (j + 1) := by
  rw [skipEnd, Option.map_eq_some_iff]
  constructor
  · intro h
    obtain ⟨n, rfl⟩ := Nat.exists_eq_add_of_le (Nat.succ_le_of_lt h.lt)
    refine ⟨n + 1, skipLength_legacy_iff.2 ⟨?_, fun k hk => ?_⟩, rfl⟩
    · rw [List.getElem?_drop]
      exact h.closing
    · rw [List.getElem?_drop]
      exact h.first _ (by omega) (by omega)
  · rintro ⟨m, hm, hj⟩
    obtain ⟨n, rfl⟩ := skipLength_eq_succ hm
    obtain rfl : j = i + 1 + n := by omega
    obtain ⟨hclosing, hfirst⟩ := skipLength_legacy_iff.1 hm
    rw [List.getElem?_drop] at hclosing
    refine ⟨by omega, hclosing, fun k hik hkj => ?_⟩
    have hk := hfirst (k - (i + 1)) (by omega)
    rwa [List.getElem?_drop, show i + 1 + (k - (i + 1)) = k by omega] at hk

/-! ## Rows of the table -/

lemma size_table : (table scan ops).size = ops.length := by
  have hsize (ps : List (Nat × Nat)) (t : Array (Option Nat)) :
      (ps.foldl (fun t p => t.setIfInBounds p.1 (some p.2)) t).size = t.size := by
    induction ps generalizing t with
    | nil => rfl
    | cons p ps ih => rw [List.foldl_cons, ih, Array.size_setIfInBounds]
  exact (hsize _ _).trans Array.size_replicate

/-- A row of the table is filled where a scan from its opening bracket ends. -/
theorem table_eq_some_iff : ((table scan ops)[i]?).join = some j ↔
    ops[i]? = some .loopStart ∧ skipEnd scan 0 ops (i + 1) = some (j + 1) := by
  by_cases hi : ops[i]? = some .loopStart
  · rw [and_iff_right hi, ← getElem?_table hi, Option.map_eq_some_iff]
    simp
  · have hpairs (j : Nat) : (i, j) ∉ pairs scan ops := fun h => hi (mem_pairs.1 h).1
    have hrow : ((table scan ops)[i]?).join = none := by
      by_cases hlt : i < ops.length
      · rw [table, getElem?_foldl_setIfInBounds (j := 0) _ _ (by simpa using hlt) (by simp [hpairs])]
        simp [hpairs, hlt]
      · rw [Array.getElem?_eq_none (by rw [size_table]; omega)]
        rfl
    simp [hrow, hi]

theorem table_nested_iff : ((table .nested ops)[i]?).join = some j ↔ Partners ops i j := by
  rw [table_eq_some_iff]
  constructor
  · rintro ⟨hi, hend⟩
    exact (partners_iff_skipEnd hi j).2 hend
  · exact fun h => ⟨h.opening, (partners_iff_skipEnd h.opening j).1 h⟩

theorem table_legacy_iff : ((table .legacy ops)[i]?).join = some j ↔
    ops[i]? = some .loopStart ∧ ClosesFirst ops i j := by
  rw [table_eq_some_iff, closesFirst_iff_skipEnd]

/-! ## Brackets without a pair -/

lemma eq_replicate_of_pairwise {xs : List Operator} (hx : ∀ x ∈ xs, x = .loopStart ∨ x = .loopEnd)
    (h : xs.Pairwise fun x y => x = .loopStart → y ≠ .loopEnd) :
    ∃ m n, xs = List.replicate m .loopEnd ++ List.replicate n .loopStart := by
  induction xs with
  | nil => exact ⟨0, 0, rfl⟩
  | cons x xs ih =>
    obtain ⟨hx, hxs⟩ := List.forall_mem_cons.1 hx
    obtain ⟨hfirst, hrest⟩ := List.pairwise_cons.1 h
    rcases hx with rfl | rfl
    · -- behind an opening bracket there are only opening ones
      have hall : xs = List.replicate xs.length .loopStart :=
        List.eq_replicate_of_mem fun y hy => (hxs y hy).resolve_right (hfirst y hy rfl)
      exact ⟨0, xs.length + 1, congrArg _ hall⟩
    · obtain ⟨m, n, rfl⟩ := ih hxs hrest
      exact ⟨m + 1, n, rfl⟩

lemma unclosed_of_row (h : (table .nested ops)[i]? = some none) (j : Nat) : ¬ Partners ops i j := by
  rw [← table_nested_iff, h]
  simp

lemma stray_of_not_mem (hj : ops[j]? = some .loopEnd) (h : some j ∉ table .nested ops) :
    Stray ops j := by
  refine ⟨hj, fun i hi => h ?_⟩
  rw [← table_nested_iff, Option.join_eq_some_iff] at hi
  exact Array.mem_of_getElem? hi

/-- The nested table leaves out closing brackets and then opening ones. -/
theorem leftOut_nested (ops : List Operator) : ∃ m n,
    leftOut (table .nested ops) ops = List.replicate m .loopEnd ++ List.replicate n .loopStart := by
  apply eq_replicate_of_pairwise
  · intro x hx
    obtain ⟨⟨op, i⟩, hmem, rfl⟩ := List.mem_map.1 hx
    have hleft := (List.mem_filter.1 hmem).2
    simp only [decide_eq_true_eq] at hleft
    exact hleft.imp And.left And.left
  · have horder : ops.zipIdx.Pairwise fun x y => x.2 < y.2 := by
      rw [← List.pairwise_map (f := Prod.snd), List.zipIdx_map_snd]
      exact List.pairwise_lt_range'
    rw [leftOut, List.pairwise_map]
    refine (horder.filter _).imp_of_mem fun {x y} hx hy hlt hopen hclose => ?_
    obtain ⟨hx, hleft⟩ := List.mem_filter.1 hx
    obtain ⟨hy, hleft'⟩ := List.mem_filter.1 hy
    have hopening := List.mem_zipIdx_iff_getElem?.1 hx
    have hclosing := List.mem_zipIdx_iff_getElem?.1 hy
    simp only [hopen, hclose, decide_eq_true_eq, true_and, reduceCtorEq, false_and, or_false,
      false_or] at hleft hleft' hopening hclosing
    have hbefore := (stray_of_not_mem hclosing hleft').lt_of_unclosed hopening (unclosed_of_row hleft)
    omega

/-! ## Both readings -/

lemma balanced_of_actions (h : ∀ op ∈ ops, op ≠ .loopStart ∧ op ≠ .loopEnd) : Balanced ops := by
  induction ops with
  | nil => exact .nil
  | cons op ops ih =>
    obtain ⟨hop, hops⟩ := List.forall_mem_cons.1 h
    obtain rfl | rfl | ⟨a, rfl⟩ := op.bracket_or_action
    · exact absurd rfl hop.1
    · exact absurd rfl hop.2
    · exact .action a (ih hops)

lemma ClosesFirst.partners (h : ClosesFirst ops i j) (hi : ops[i]? = some .loopStart)
    (hnone : ∀ k, i < k → k < j → ops[k]? ≠ some .loopStart) : Partners ops i j := by
  refine ⟨h.lt, hi, h.closing, balanced_of_actions fun op hop => ?_⟩
  obtain ⟨n, hn⟩ := List.mem_iff_getElem?.1 hop
  rw [List.getElem?_drop, List.getElem?_take] at hn
  split at hn
  next hlt =>
    refine ⟨?_, ?_⟩ <;> rintro rfl
    · exact hnone _ (by omega) hlt hn
    · exact h.first _ (by omega) hlt hn
  next => simp at hn

/-- If there is a closing bracket behind an operator, there is a first one. -/
lemma exists_closesFirst (hij : i < j) (hj : ops[j]? = some .loopEnd) :
    ∃ j', ClosesFirst ops i j' := by
  have hex : ∃ k, i < k ∧ ops[k]? = some .loopEnd := ⟨j, hij, hj⟩
  obtain ⟨hlt, hclosing⟩ := Nat.find_spec hex
  exact ⟨_, hlt, hclosing, fun k hik hk hclosing => Nat.find_min hex hk ⟨hik, hclosing⟩⟩

/-- The two tables are the same exactly if there are no brackets inside of brackets. -/
theorem table_legacy_eq_nested_iff : table .legacy ops = table .nested ops ↔ Unnested ops := by
  constructor
  · -- a bracket inside would be paired with the same closing bracket
    intro htable i j hi hj k hik hkj hk
    have hpartners {l : Nat} (hl : ops[l]? = some .loopStart) (hlj : ClosesFirst ops l j) :
        Partners ops l j := table_nested_iff.1 (htable ▸ table_legacy_iff.2 ⟨hl, hlj⟩)
    have hinner : ClosesFirst ops k j :=
      ⟨hkj, hj.closing, fun l hkl hlj => hj.first l (Nat.lt_trans hik hkl) hlj⟩
    exact absurd ((hpartners hi hj).left_unique (hpartners hk hinner)) (Nat.ne_of_lt hik)
  · intro h
    have hrow (i j : Nat) : ((table .legacy ops)[i]?).join = some j ↔
        ((table .nested ops)[i]?).join = some j := by
      rw [table_legacy_iff, table_nested_iff]
      constructor
      · rintro ⟨hi, hj⟩
        exact hj.partners hi (h i j hi hj)
      · intro hij
        obtain ⟨j', hj'⟩ := exists_closesFirst hij.lt hij.closing
        have hpartners := hj'.partners hij.opening (h i j' hij.opening hj')
        exact ⟨hij.opening, hij.right_unique hpartners ▸ hj'⟩
    refine Array.ext (by rw [size_table, size_table]) fun i hi hi' => ?_
    have := Option.ext (hrow i)
    rwa [Array.getElem?_eq_getElem hi, Array.getElem?_eq_getElem hi', Option.join_some,
      Option.join_some] at this

end Brainfuck.Brackets
