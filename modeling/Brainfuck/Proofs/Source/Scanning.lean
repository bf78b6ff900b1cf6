import Brainfuck.Proofs.Brackets.Pairing
import Brainfuck.Proofs.Source.Edition

/-! # Scanning a source

What a scan for the end of a loop comes to is told by the operators that the source still yields, and not
by what kind of source it is. So the table of a listing can be compared with a scan: from every opening
bracket, whatever stands before it, the table leads to where the scan stops, and to nowhere if the scan
reaches the end of the program. -/
namespace Brainfuck

open Brackets

namespace Source

/-- A source from which the operators of a list are drawn, and then the end of the program. -/
def Yields : List Operator → Source → Prop
  | [], s => ∃ s' reports, s.next = .ok ⟨s', reports, none⟩
  | op :: ops, s => ∃ s' reports, s.next = .ok ⟨s', reports, some op⟩ ∧ Yields ops s'

variable {s : Source} {scan scan' : SkipScan} {depth depth' n : Nat} {ops ops' : List Operator}

/-- No more than one list of operators is drawn from a source. -/
theorem Yields.unique (h : s.Yields ops) (h' : s.Yields ops') : ops = ops' := by
  induction ops generalizing s ops' with
  | nil =>
    obtain ⟨_, _, hnext⟩ := h
    cases ops' with
    | nil => rfl
    | cons op' ops' =>
      obtain ⟨_, _, hnext', -⟩ := h'
      simp [hnext] at hnext'
  | cons op ops ih =>
    obtain ⟨_, _, hnext, h⟩ := h
    cases ops' with
    | nil =>
      obtain ⟨_, _, hnext'⟩ := h'
      simp [hnext] at hnext'
    | cons op' ops' =>
      obtain ⟨_, _, hnext', h'⟩ := h'
      simp only [hnext, Except.ok.injEq, Decoded.mk.injEq, Option.some.injEq] at hnext'
      obtain ⟨rfl, -, rfl⟩ := hnext'
      rw [ih h h']

/-- A scan stops behind as many operators as it has to draw, or else at the end of the program. -/
theorem Yields.skip (h : s.Yields ops) (scan : SkipScan) (depth : Nat) :
    (∀ n, skipLength scan depth ops = some n →
      (s.skip scan depth).found = .ok true ∧ (s.skip scan depth).source.Yields (ops.drop n)) ∧
    (skipLength scan depth ops = none → (s.skip scan depth).found = .ok false) := by
  induction ops generalizing s depth with
  | nil =>
    obtain ⟨s', reports, hnext⟩ := h
    simp [skip_of_none hnext]
  | cons op ops ih =>
    obtain ⟨s', reports, hnext, h⟩ := h
    cases hd : depthAfter scan depth op with
    | none => simpa [skipLength, hd, skip_of_some_none hnext hd] using h
    | some depth' =>
      obtain ⟨hsome, hnone⟩ := ih h depth'
      simp only [skipLength, hd, skip_of_some_some hnext hd, Option.map_eq_some_iff,
        Option.map_eq_none_iff]
      refine ⟨?_, hnone⟩
      rintro _ ⟨n, hn, rfl⟩
      simpa using hsome n hn

/-- A scan has one operator to draw exactly if that one ends it. -/
lemma skipLength_eq_one_iff (op : Operator) (ops : List Operator) :
    skipLength scan depth (op :: ops) = some 1 ↔ depthAfter scan depth op = none := by
  unfold skipLength
  cases hd : depthAfter scan depth op with
  | none => simp
  | some depth' =>
    refine iff_of_false (fun h => ?_) (by simp)
    obtain ⟨m, hm, hm0⟩ := Option.map_eq_some_iff.1 h
    exact Nat.ne_of_gt (skipLength_bounds hm).1 (by omega)

/-- Scans that have as many operators to draw come to the same. -/
theorem Yields.skip_congr (h : s.Yields ops)
    (hlength : skipLength scan depth ops = skipLength scan' depth' ops) :
    s.skip scan depth = s.skip scan' depth' := by
  induction ops generalizing s depth depth' with
  | nil =>
    obtain ⟨s', reports, hnext⟩ := h
    rw [skip_of_none hnext, skip_of_none hnext]
  | cons op ops ih =>
    obtain ⟨s', reports, hnext, h⟩ := h
    have hends : depthAfter scan depth op = none ↔ depthAfter scan' depth' op = none := by
      rw [← skipLength_eq_one_iff op ops, ← skipLength_eq_one_iff op ops, hlength]
    cases hd : depthAfter scan depth op with
    | none => rw [skip_of_some_none hnext hd, skip_of_some_none hnext (hends.1 hd)]
    | some d =>
      obtain ⟨d', hd'⟩ : ∃ d', depthAfter scan' depth' op = some d' :=
        Option.ne_none_iff_exists'.1 fun hnone => by simp [hends.2 hnone] at hd
      simp only [skipLength, hd, hd'] at hlength
      have hrest := Option.map_injective (fun _ _ => Nat.succ.inj) hlength
      rw [skip_of_some_some hnext hd, skip_of_some_some hnext hd', ih h hrest]

/-- A scan that starts behind some of the operators stops behind as many as `skipEnd` says. -/
theorem Yields.skipEnd_iff {i : Nat} (h : s.Yields (ops.drop i)) (scan : SkipScan) (depth : Nat) :
    (∀ k, skipEnd scan depth ops i = some k ↔ (s.skip scan depth).found = .ok true ∧
      k ≤ ops.length ∧ (s.skip scan depth).source.Yields (ops.drop k)) ∧
    (skipEnd scan depth ops i = none ↔ (s.skip scan depth).found = .ok false) := by
  obtain ⟨hsome, hnone⟩ := h.skip scan depth
  cases hn : skipLength scan depth (ops.drop i) with
  | none => simp [skipEnd, hn, hnone hn]
  | some n =>
    obtain ⟨hfound, hyields⟩ := hsome n hn
    have hend : skipEnd scan depth ops i = some (i + n) := by simp [skipEnd, hn]
    have hle := (skipEnd_bounds hend).2
    rw [List.drop_drop] at hyields
    refine ⟨fun k => ?_, by simp [hend, hfound]⟩
    rw [hend, Option.some.injEq]
    constructor
    · rintro rfl
      exact ⟨hfound, hle, hyields⟩
    · rintro ⟨-, hk, hyields'⟩
      have hlength := congrArg List.length (hyields.unique hyields')
      simp only [List.length_drop] at hlength
      omega

end Source

/-- A cursor yields the operators of its listing from its index on. -/
theorem Cursor.yields {c : Cursor} {i : Nat} (h : c.index = i) :
    (Source.compiled c).Yields ((c.listing.code.toList.map (·.operator)).drop i) := by
  induction hn : c.listing.code.size - i generalizing c i with
  | zero =>
    have hend : (c.listing.code.size : Int) ≤ c.index := by omega
    rw [List.drop_of_length_le (by simp; omega)]
    exact ⟨_, _, by rw [Source.next, Cursor.next, if_pos hend]; rfl⟩
  | succ n ih =>
    have hlt : i < c.listing.code.size := by omega
    have hmore : ¬ (c.listing.code.size : Int) ≤ c.index := by omega
    have hinstruction : c.instruction? = some c.listing.code[i] := by
      have hneg : ¬ (i : Int) < 0 := by omega
      simp [Cursor.instruction?, h, hneg, hlt]
    rw [List.drop_eq_getElem_cons (by simpa using hlt)]
    refine ⟨_, [], ?_, ih (c := { c with
      index := c.index + 1
      location := c.listing.code[i].location
      lastByte := c.listing.code[i].byte }) (i := i + 1) (by simp [h]) (by simp; omega)⟩
    simp [Source.next, Cursor.next, hmore, hinstruction, Except.map]

/-- A source of an edition yields the operators that are not behind it. -/
theorem Edition.Holds.yields {e : Edition} {s : Source} {i : Nat} (h : e.Holds i s) :
    s.Yields (e.operators.drop i) := by
  induction hn : e.operators.length - i generalizing s i with
  | zero =>
    obtain ⟨s', -, hnext⟩ := h.next
    rw [List.getElem?_eq_none (by omega)] at hnext
    rw [List.drop_of_length_le (by omega)]
    exact ⟨s', _, hnext⟩
  | succ n ih =>
    have hlt : i < e.operators.length := by omega
    obtain ⟨s', hs', hnext⟩ := h.next
    rw [List.getElem?_eq_getElem hlt] at hnext
    rw [List.drop_eq_getElem_cons hlt]
    exact ⟨s', _, hnext, ih hs' (by omega)⟩

namespace Listing

variable {scan : SkipScan} {code : List Instruction} {endLocation : Location} {i : Nat}

/-- A cursor finds the end of a loop where a scan from its bracket ends. -/
lemma matchingEnd_ofInstructions {c : Cursor}
    (hc : c.listing = ofInstructions scan code endLocation)
    (hi : (code.map (·.operator))[i]? = some .loopStart) :
    c.matchingEnd (i + 1 : Nat) =
      (skipEnd scan 0 (code.map (·.operator)) (i + 1)).map Int.ofNat := by
  have hpos : ¬ (i : Int) + 1 ≤ 0 := by omega
  rw [← getElem?_table hi]
  cases hj : ((table scan (code.map (·.operator)))[i]?).join <;>
    simp [Cursor.matchingEnd, hc, ofInstructions, hpos, hj]

/-- The table of a listing is right, and agrees with the scan. In the nested reading it pairs an opening
bracket with the closing bracket up to which the operators between are balanced, so no two pairs end
alike or cross, and the brackets that are left out are closing ones followed by opening ones. In the
legacy reading it pairs an opening bracket with the first closing bracket behind it. In both, the
position that the listing gives for the end of a loop is where a scan stops that starts behind the
opening bracket, whatever source it draws from, and there is none exactly if the scan reaches the end
of the program. -/
theorem partners_agree_with_scan (code : List Instruction) (endLocation : Location) :
    let ops := code.map (·.operator)
    let listing (scan : SkipScan) := ofInstructions scan code endLocation
    let partner (scan : SkipScan) (i : Nat) := ((listing scan).partners[i]?).join
    (∀ i j, partner .nested i = some j ↔ i < j ∧ ops[i]? = some .loopStart ∧
      ops[j]? = some .loopEnd ∧ Balanced ((ops.take j).drop (i + 1))) ∧
    (∀ i i' j, partner .nested i = some j → partner .nested i' = some j → i = i') ∧
    (∀ i j i' j', partner .nested i = some j → partner .nested i' = some j' →
      i < i' → i' < j → j' < j) ∧
    (∃ m n, leftOut (listing .nested).partners ops =
      List.replicate m .loopEnd ++ List.replicate n .loopStart) ∧
    (∀ i j, partner .legacy i = some j ↔ ops[i]? = some .loopStart ∧ ClosesFirst ops i j) ∧
    ∀ scan (i : Nat), ops[i]? = some .loopStart →
      let c : Cursor := { listing := listing scan, index := i + 1 }
      (Source.compiled c).Yields (ops.drop (i + 1)) ∧
      ∀ s : Source, s.Yields (ops.drop (i + 1)) →
        (∀ j : Nat, c.matchingEnd c.index = some ((j : Int) + 1) ↔ (s.skip scan 0).found = .ok true ∧
          j < ops.length ∧ (s.skip scan 0).source.Yields (ops.drop (j + 1))) ∧
        (c.matchingEnd c.index = none ↔ (s.skip scan 0).found = .ok false) := by
  intro ops listing partner
  have hnested (i j : Nat) : partner .nested i = some j ↔ Partners ops i j := table_nested_iff
  refine ⟨fun i j => (hnested i j).trans ⟨fun h => ⟨h.lt, h.opening, h.closing, h.between⟩,
    fun h => ⟨h.1, h.2.1, h.2.2.1, h.2.2.2⟩⟩, fun i i' j h h' => ?_, fun i j i' j' h h' => ?_,
    leftOut_nested ops, fun _ _ => table_legacy_iff, fun scan i hi => ?_⟩
  · exact ((hnested i j).1 h).left_unique ((hnested i' j).1 h')
  · exact ((hnested i j).1 h).lt_of_inside ((hnested i' j').1 h')
  · intro c
    refine ⟨Cursor.yields (c := c) (i := i + 1) rfl, fun s hs => ?_⟩
    have hend : c.matchingEnd c.index = (skipEnd scan 0 ops (i + 1)).map Int.ofNat :=
      matchingEnd_ofInstructions (c := c) rfl hi
    obtain ⟨hsome, hnone⟩ := hs.skipEnd_iff scan 0
    refine ⟨fun j => ?_, by rw [hend, Option.map_eq_none_iff, hnone]⟩
    have hnext : (j : Int) + 1 = Int.ofNat (j + 1) := rfl
    rw [← Nat.succ_le_iff, ← hsome (j + 1), hend, hnext, Option.map_eq_some_iff]
    exact ⟨fun ⟨k, hk, hkj⟩ => Int.ofNat.inj hkj ▸ hk, fun hk => ⟨_, hk, rfl⟩⟩

end Listing

end Brainfuck
