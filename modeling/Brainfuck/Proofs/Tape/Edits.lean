import Mathlib.Algebra.Ring.Int.Defs
import Mathlib.Algebra.Ring.Nat
import Mathlib.Data.List.DropRight
import Brainfuck.Machine.Step
import Brainfuck.Proofs.Tape.Moves
import Brainfuck.Proofs.Tape.Writes

/-! # Edits of a tape

What a cell holds is told by what was done while the pointer was on it: the number that was stored last, or
what it held at first if none was, and everything that was added since, folded into the values of a cell. -/
namespace Brainfuck

/-- What can be done to a tape: the pointer is moved, or the cell under it is added to or stored in. -/
inductive Edit
  | move (d : Int)
  | adjust (d : Int)
  | write (v : Int)
  deriving DecidableEq, Repr

namespace Edit

variable {i j : Nat} {b d v : Int} {e : Edit} {trail : List (Nat × Edit)}

/-- The number that an edit, made with the pointer on some cell, stores in the cell `i`. -/
def stored? (i : Nat) : Nat × Edit → Option Int
  | (j, .write v) => if j = i then some v else none
  | _ => none

/-- What an edit, made with the pointer on some cell, adds to the cell `i`. -/
def added? (i : Nat) : Nat × Edit → Option Int
  | (j, .adjust d) => if j = i then some d else none
  | _ => none

/-- The number that was stored last in a cell. -/
def lastStored (i : Nat) (trail : List (Nat × Edit)) : Option Int := (trail.filterMap (stored? i)).getLast?

/-- All that was added to a cell since a number was last stored in it. -/
def addedSince (i : Nat) (trail : List (Nat × Edit)) : Int :=
  ((trail.rtakeWhile fun x => (stored? i x).isNone).filterMap (added? i)).sum

/-- What a cell that held `b` would hold if cells had no bounds. -/
def tally (i : Nat) (b : Int) (trail : List (Nat × Edit)) : Int :=
  (lastStored i trail).getD b + addedSince i trail

@[simp] lemma tally_nil (i : Nat) (b : Int) : tally i b [] = b := Int.add_zero b

lemma tally_concat_stored {x : Nat × Edit} (h : stored? i x = some v) : tally i b (trail ++ [x]) = v := by
  simp [tally, lastStored, addedSince, h]

lemma tally_concat {x : Nat × Edit} (h : stored? i x = none) :
    tally i b (trail ++ [x]) = tally i b trail + (added? i x).getD 0 := by
  have hlast : lastStored i (trail ++ [x]) = lastStored i trail := by simp [lastStored, h]
  have hsince : addedSince i (trail ++ [x]) = addedSince i trail + (added? i x).getD 0 := by
    cases hadded : added? i x <;> simp [addedSince, h, hadded]
  rw [tally, hlast, hsince, ← Int.add_assoc, tally]

@[simp] lemma tally_move : tally i b (trail ++ [(j, .move d)]) = tally i b trail :=
  (tally_concat rfl).trans (Int.add_zero _)

@[simp] lemma tally_adjust :
    tally i b (trail ++ [(j, .adjust d)]) = if j = i then tally i b trail + d else tally i b trail := by
  rw [tally_concat rfl, added?]
  split <;> simp

@[simp] lemma tally_write :
    tally i b (trail ++ [(j, .write v)]) = if j = i then v else tally i b trail := by
  by_cases hj : j = i
  · have hstored : stored? i (j, .write v) = some v := if_pos hj
    rw [if_pos hj, tally_concat_stored hstored]
  · have hstored : stored? i (j, .write v) = none := if_neg hj
    rw [if_neg hj, tally_concat hstored]
    exact Int.add_zero _

/-- A cell that the pointer was never on holds what it held. -/
lemma tally_of_apart (h : ∀ x ∈ trail, x.1 ≠ i) : tally i b trail = b := by
  induction trail using List.reverseRecOn with
  | nil => exact tally_nil i b
  | append_singleton trail x ih =>
    obtain ⟨htrail, hx⟩ := List.forall_mem_append.1 h
    obtain ⟨j, e⟩ := x
    have hj : j ≠ i := hx _ (.head _)
    cases e <;> simp [hj, ih htrail]

end Edit

namespace Tape

open Edit

variable {t u : Tape} {d v : Int} {i w : Nat} {e : Edit} {f : Fault}

/-! ## One edit -/

/-- Only a number that is still too large when it is folded is refused. -/
lemma write_refused_iff (v : Int) :
    t.write v = .error f ↔ 2 ^ 63 ≤ v % (t.cellMax + 1 : Int) ∧ f = .cellTooLarge := by
  have hcapacity : (cellCapacity : Int) = 2 ^ 63 := rfl
  rw [write_eq_error_iff, ← natCast_fold, ← hcapacity, Int.ofNat_le]

def edit (t : Tape) : Edit → Except Fault Tape
  | .move d => .ok (t.move d).1
  | .adjust d => t.adjust d
  | .write v => t.write v

/-- The tape after an edit. One that is refused leaves the tape as it is. -/
def edited (t : Tape) (e : Edit) : Tape :=
  match t.edit e with
  | .ok u => u
  | .error _ => t

lemma edited_of_ok (h : t.edit e = .ok u) : t.edited e = u := by simp [edited, h]

lemma edited_of_error (h : t.edit e = .error f) : t.edited e = t := by simp [edited, h]

/-- No edit changes the bounds of a tape. -/
lemma edited_bounds (t : Tape) (e : Edit) :
    (t.edited e).length = t.length ∧ (t.edited e).cellMax = t.cellMax := by
  cases hedit : t.edit e with
  | error f => simp [edited_of_error hedit]
  | ok u =>
    rw [edited_of_ok hedit]
    cases e with
    | move d =>
      cases hedit
      exact ⟨t.move_length d, t.cellMax_move d⟩
    | adjust d | write v => exact ⟨length_write hedit, (write_eq_ok hedit).2.1⟩

/-- If there is room for the largest value, nothing is refused. -/
lemma edit_accepted (h : t.cellMax < 2 ^ 63) (e : Edit) : ∃ u, t.edit e = .ok u := by
  cases e with
  | move d => exact ⟨_, rfl⟩
  | adjust d | write v => exact exists_write h _

/-! ## Many edits -/

def editedBy (t : Tape) (es : List Edit) : Tape := es.foldl edited t

@[simp] lemma editedBy_nil (t : Tape) : t.editedBy [] = t := rfl

@[simp] lemma editedBy_concat (t : Tape) (es : List Edit) (e : Edit) :
    t.editedBy (es ++ [e]) = (t.editedBy es).edited e := by
  simp [editedBy]

/-- The edits that are accepted, each with the cell that the pointer is on when it is made. -/
def trail (t : Tape) : List Edit → List (Nat × Edit)
  | [] => []
  | e :: es =>
    match t.edit e with
    | .ok u => (t.pointer, e) :: u.trail es
    | .error _ => t.trail es

lemma trail_concat (t : Tape) (es : List Edit) (e : Edit) :
    t.trail (es ++ [e]) = t.trail es ++ (t.editedBy es).trail [e] := by
  induction es generalizing t with
  | nil => rfl
  | cons e' es ih =>
    rw [List.cons_append, trail, trail]
    cases hedit : t.edit e' with
    | ok u => simp [ih, editedBy, edited_of_ok hedit]
    | error f => simp [ih, editedBy, edited_of_error hedit]

lemma editedBy_bounds (t : Tape) (es : List Edit) :
    (t.editedBy es).length = t.length ∧ (t.editedBy es).cellMax = t.cellMax := by
  induction es using List.reverseRecOn with
  | nil => exact ⟨rfl, rfl⟩
  | append_singleton es e ih =>
    obtain ⟨hlength, hmax⟩ := (t.editedBy es).edited_bounds e
    rw [editedBy_concat]
    exact ⟨hlength.trans ih.1, hmax.trans ih.2⟩

/-- If nothing is refused, the trail tells of all the edits. -/
lemma getElem?_trail (h : t.cellMax < 2 ^ 63) (es : List Edit) (k : Nat) :
    (t.trail es)[k]? = es[k]?.map fun e => ((t.editedBy (es.take k)).pointer, e) := by
  induction es generalizing t k with
  | nil => rfl
  | cons e es ih =>
    obtain ⟨u, hedit⟩ := edit_accepted h e
    have hu := edited_of_ok hedit
    have hmax : u.cellMax = t.cellMax := hu ▸ (t.edited_bounds e).2
    have htrail : t.trail (e :: es) = (t.pointer, e) :: u.trail es := by simp [trail, hedit]
    cases k with
    | zero => simp [htrail]
    | succ k => simp [htrail, ih (hmax ▸ h), editedBy, hu]

/-- The cells of a trail are those that the pointer was on. -/
lemma trail_pointers (t : Tape) (es : List Edit) :
    ∀ x ∈ t.trail es, ∃ k < es.length, x.1 = (t.editedBy (es.take k)).pointer := by
  induction es using List.reverseRecOn with
  | nil => simp [trail]
  | append_singleton es e ih =>
    rw [trail_concat]
    intro x hx
    rcases List.mem_append.1 hx with hx | hx
    · obtain ⟨k, hk, heq⟩ := ih x hx
      refine ⟨k, by simp; omega, ?_⟩
      rw [heq, List.take_append_of_le_length (Nat.le_of_lt hk)]
    · refine ⟨es.length, by simp, ?_⟩
      rw [List.take_left]
      cases hedit : (t.editedBy es).edit e <;> simp [trail, hedit] at hx
      rw [hx]

/-- A cell that holds a sum, folded, holds the sum that an edit makes of it. -/
theorem cell_edited {x : Int} {before : List (Nat × Edit)} (h : t.cells[i]? = some w)
    (hw : (w : Int) = tally i x before % (t.cellMax + 1)) (e : Edit) :
    ∃ w', (t.edited e).cells[i]? = some w' ∧
      (w' : Int) = tally i x (before ++ t.trail [e]) % (t.cellMax + 1) := by
  cases hedit : t.edit e with
  | error f =>
    rw [edited_of_error hedit]
    exact ⟨w, h, by simpa [trail, hedit] using hw⟩
  | ok u =>
    have htrail : t.trail [e] = [(t.pointer, e)] := by simp [trail, hedit]
    rw [edited_of_ok hedit, htrail]
    cases e with
    | move d =>
      obtain ⟨p, hp, hmove⟩ := t.move_eq_pointAt d
      cases hedit
      exact ⟨w, by rw [hmove]; exact h, by simpa using hw⟩
    | adjust d =>
      rw [getElem?_write hedit, tally_adjust]
      split
      next hpointer =>
        have hread : t.read = w := by
          subst hpointer
          exact Option.some.inj (t.getElem?_pointer.symm.trans h)
        refine ⟨_, rfl, ?_⟩
        rw [natCast_fold, hread, hw, Int.emod_add_emod]
      next => exact ⟨w, h, hw⟩
    | write v =>
      rw [getElem?_write hedit, tally_write]
      split
      next => exact ⟨_, rfl, natCast_fold t v⟩
      next => exact ⟨w, h, hw⟩

theorem cell_editedBy (h : t.cells[i]? = some w) (es : List Edit) :
    ∃ w', (t.editedBy es).cells[i]? = some w' ∧
      (w' : Int) = tally i w (t.trail es) % (t.cellMax + 1) := by
  induction es using List.reverseRecOn with
  | nil =>
    have hle : w ≤ t.cellMax := (t.cells_le w (Array.mem_of_getElem? h)).1
    refine ⟨w, h, ?_⟩
    rw [trail, tally_nil, Int.emod_eq_of_lt (by omega) (by omega)]
  | append_singleton es e ih =>
    obtain ⟨w', hcell, hw'⟩ := ih
    have hmax := (t.editedBy_bounds es).2
    rw [editedBy_concat, trail_concat]
    rw [← hmax] at hw' ⊢
    exact cell_edited hcell hw' e

/-- A cell that the pointer is never on holds what it held. -/
lemma cell_untouched (es : List Edit) (h : ∀ k ≤ es.length, (t.editedBy (es.take k)).pointer ≠ i) :
    (t.editedBy es).cells[i]? = t.cells[i]? := by
  have hapart : ∀ x ∈ t.trail es, x.1 ≠ i := by
    intro x hx
    obtain ⟨k, hk, hpointer⟩ := t.trail_pointers es x hx
    exact hpointer ▸ h k (Nat.le_of_lt hk)
  cases hcell : t.cells[i]? with
  | none =>
    have hlength := (t.editedBy_bounds es).1
    simp only [length] at hlength
    rwa [Array.getElem?_eq_none_iff, hlength, ← Array.getElem?_eq_none_iff]
  | some w =>
    have hle : w ≤ t.cellMax := (t.cells_le w (Array.mem_of_getElem? hcell)).1
    obtain ⟨w', hcell', hw'⟩ := cell_editedBy hcell es
    rw [tally_of_apart hapart, Int.emod_eq_of_lt (by omega) (by omega)] at hw'
    rw [hcell', Int.ofNat_inj.1 hw']

/-- Edits keep the pointer on the tape and the cells among their values. If there is room for the largest
value, none is refused. A cell comes to the number that was stored last in it and the sum of what was added
since, folded, and a cell that the pointer was never on keeps its value. Only a number that is still too large
when it is folded is refused, and then nothing is changed. -/
theorem cells_sum_edits (t : Tape) (es : List Edit) :
    (∀ k, (t.editedBy (es.take k)).length = t.length ∧ (t.editedBy (es.take k)).pointer < t.length ∧
      ∀ w ∈ (t.editedBy (es.take k)).cells, w ≤ t.cellMax) ∧
    (t.cellMax < 2 ^ 63 → ∀ k e, es[k]? = some e →
      (∃ u, (t.editedBy (es.take k)).edit e = .ok u ∧ t.editedBy (es.take (k + 1)) = u) ∧
      (t.trail es)[k]? = some ((t.editedBy (es.take k)).pointer, e)) ∧
    (∀ i (w : Nat), t.cells[i]? = some w → ∃ w' : Nat, (t.editedBy es).cells[i]? = some w' ∧
      (w' : Int) =
        ((lastStored i (t.trail es)).getD w + addedSince i (t.trail es)) % (t.cellMax + 1)) ∧
    (∀ i, (∀ k ≤ es.length, (t.editedBy (es.take k)).pointer ≠ i) →
      (t.editedBy es).cells[i]? = t.cells[i]?) ∧
    (∀ v f, t.write v = .error f ↔ 2 ^ 63 ≤ v % (t.cellMax + 1 : Int) ∧ f = .cellTooLarge) ∧
    (∀ d f, t.adjust d = .error f ↔ 2 ^ 63 ≤ (t.read + d) % (t.cellMax + 1 : Int) ∧ f = .cellTooLarge) ∧
    (∀ e f, t.edit e = .error f → t.edited e = t) ∧
    ∀ (m : Machine) d f, m.tape = t → t.adjust d = .error f → m.add d = ⟨m, [], .error f⟩ := by
  refine ⟨fun k => ?_, fun hmax k e he => ⟨?_, ?_⟩, fun i w h => cell_editedBy h es,
    fun i => cell_untouched es, fun v f => write_refused_iff v, fun d f => write_refused_iff _,
    fun e f => edited_of_error, ?_⟩
  · obtain ⟨hlength, hcellMax⟩ := t.editedBy_bounds (es.take k)
    refine ⟨hlength, hlength ▸ (t.editedBy (es.take k)).pointer_lt, fun w hw => ?_⟩
    exact hcellMax ▸ ((t.editedBy (es.take k)).cells_le w hw).1
  · obtain ⟨u, hu⟩ := edit_accepted ((t.editedBy_bounds (es.take k)).2 ▸ hmax) e
    refine ⟨u, hu, ?_⟩
    rw [List.take_add_one, he, Option.toList_some, editedBy_concat, edited_of_ok hu]
  · rw [getElem?_trail hmax, he, Option.map_some]
  · rintro m d f rfl hf
    simp [Machine.add, hf]

/-- Storing at one end of a tape, adding at the other, and a number that no cell has room for. -/
theorem cells_sum_edits_around :
    let t := blank 3 255 (by decide) (by decide)
    let es : List Edit := [.adjust 300, .move (-7), .write (-1), .adjust 5, .move 9, .adjust 1]
    (∃ u, (t.editedBy (es.take 5)).edit (.adjust 1) = .ok u ∧ t.editedBy es = u) ∧
    (∃ w : Nat, (t.editedBy es).cells[0]? = some w ∧ (w : Int) = 301 % 256) ∧
    (∃ w : Nat, (t.editedBy es).cells[2]? = some w ∧ (w : Int) = 4 % 256) ∧
    (t.editedBy es).cells[1]? = some 0 ∧
    (blank 3 (2 ^ 63) (by decide) (by decide)).adjust (-1) = .error .cellTooLarge := by
  intro t es
  obtain ⟨-, haccepted, hcell, hapart, -⟩ := t.cells_sum_edits es
  obtain ⟨-, -, -, -, -, hadjust, -⟩ := (blank 3 (2 ^ 63) (by decide) (by decide)).cells_sum_edits []
  have hfirst : (lastStored 0 (t.trail es)).getD (0 : Nat) + addedSince 0 (t.trail es) = 301 := by decide
  have hlast : (lastStored 2 (t.trail es)).getD (0 : Nat) + addedSince 2 (t.trail es) = 4 := by decide
  refine ⟨?_, ?_, ?_, ?_, ?_⟩
  · exact (haccepted (by decide) 5 (.adjust 1) rfl).1
  · exact hfirst ▸ hcell 0 0 rfl
  · exact hlast ▸ hcell 2 0 rfl
  · exact hapart 1 (by decide)
  · exact (hadjust (-1) _).2 ⟨by decide, rfl⟩

end Tape

end Brainfuck
