import Mathlib.Data.List.Basic
import Brainfuck.Program.Reader

/-! # What a text spells

The operators of a text, the offset and the place behind each of them and the remarks on its other
bytes, all told from the bytes alone and without a reader. A place is behind so many operators; one
more than there are is the end of the text. -/
namespace Brainfuck.Decoding

variable {bytes : List UInt8} {i j p q s : Nat}

/-- The operators that a text spells. -/
def operators (bytes : List UInt8) : List Operator := bytes.filterMap Operator.ofByte?

/-- The offset just behind the first `i` operators, or the end of the text if it has fewer. -/
def offset : List UInt8 → Nat → Nat
  | _, 0 => 0
  | [], _ + 1 => 0
  | b :: bytes, i + 1 =>
    (if (Operator.ofByte? b).isSome then offset bytes i else offset bytes (i + 1)) + 1

/-- The place just behind the first `i` operators. -/
def place (bytes : List UInt8) (i : Nat) : Location := Location.after (bytes.take (offset bytes i))

/-- The remark on a byte, made at the place behind it. -/
def remark? (l : Location) (b : UInt8) : Option Diagnostic :=
  if (Operator.ofByte? b).isSome then none else (Reader.problemOf b).map (·.diagnosticAt l)

/-- The remarks on bytes that are read from a place on. -/
def remarksFrom (l : Location) : List UInt8 → List Diagnostic
  | [] => []
  | b :: bytes => (remark? (l.advance b) b).toList ++ remarksFrom (l.advance b) bytes

/-- The remarks on the bytes of a text between two offsets. -/
def remarks (bytes : List UInt8) (p q : Nat) : List Diagnostic :=
  remarksFrom (Location.after (bytes.take p)) ((bytes.take q).drop p)

@[simp] lemma offset_zero (bytes : List UInt8) : offset bytes 0 = 0 := by
  cases bytes <;> rfl

@[simp] lemma place_zero (bytes : List UInt8) : place bytes 0 = {} := by
  simp [place, Location.after]

@[simp] lemma offset_nil (i : Nat) : offset [] i = 0 := by
  cases i <;> rfl

lemma offset_cons_some {b : UInt8} {op : Operator} (h : Operator.ofByte? b = some op) (i : Nat) :
    offset (b :: bytes) (i + 1) = offset bytes i + 1 := by
  simp [offset, h]

lemma offset_cons_none {b : UInt8} (h : Operator.ofByte? b = none) (i : Nat) :
    offset (b :: bytes) (i + 1) = offset bytes (i + 1) + 1 := by
  simp [offset, h]

/-- The operators up to an offset are the first ones, and the others are behind it. -/
theorem operators_take_offset (bytes : List UInt8) (i : Nat) :
    operators (bytes.take (offset bytes i)) = (operators bytes).take i := by
  induction bytes generalizing i with
  | nil => simp [operators]
  | cons b bytes ih =>
    cases i with
    | zero => simp [operators]
    | succ i =>
      cases h : Operator.ofByte? b with
      | some op => simpa [offset_cons_some h, operators, h] using ih i
      | none => simpa [offset_cons_none h, operators, h] using ih (i + 1)

theorem operators_drop_offset (bytes : List UInt8) (i : Nat) :
    operators (bytes.drop (offset bytes i)) = (operators bytes).drop i := by
  induction bytes generalizing i with
  | nil => simp [operators]
  | cons b bytes ih =>
    cases i with
    | zero => simp [operators]
    | succ i =>
      cases h : Operator.ofByte? b with
      | some op => simpa [offset_cons_some h, operators, h] using ih i
      | none => simpa [offset_cons_none h, operators, h] using ih (i + 1)

theorem offset_le_length (bytes : List UInt8) (i : Nat) : offset bytes i ≤ bytes.length := by
  induction bytes generalizing i with
  | nil => simp
  | cons b bytes ih =>
    cases i with
    | zero => simp
    | succ i =>
      cases h : Operator.ofByte? b with
      | some op => simpa [offset_cons_some h] using ih i
      | none => simpa [offset_cons_none h] using ih (i + 1)

/-- Behind more operators than there are is the end of the text. -/
theorem offset_of_length_lt (h : (operators bytes).length < i) : offset bytes i = bytes.length := by
  induction bytes generalizing i with
  | nil => simp
  | cons b bytes ih =>
    cases i with
    | zero => simp at h
    | succ i =>
      cases hb : Operator.ofByte? b with
      | some op =>
        rw [offset_cons_some hb, ih (by simpa [operators, hb] using h), List.length_cons]
      | none =>
        rw [offset_cons_none hb, ih (by simpa [operators, hb] using h), List.length_cons]

/-- Offsets are counted on from one place to another. -/
theorem offset_add (bytes : List UInt8) (i j : Nat) :
    offset bytes (i + j) = offset bytes i + offset (bytes.drop (offset bytes i)) j := by
  induction bytes generalizing i with
  | nil => simp
  | cons b bytes ih =>
    cases i with
    | zero => simp
    | succ i =>
      rw [show i + 1 + j = i + j + 1 by omega]
      cases h : Operator.ofByte? b with
      | some op =>
        simp only [offset_cons_some h, List.drop_succ_cons, ih i]
        omega
      | none =>
        have := ih (i + 1)
        rw [show i + 1 + j = i + j + 1 by omega] at this
        simp only [offset_cons_none h, List.drop_succ_cons, this]
        omega

theorem offset_mono (h : i ≤ j) : offset bytes i ≤ offset bytes j := by
  obtain ⟨k, rfl⟩ := Nat.exists_eq_add_of_le h
  rw [offset_add]
  exact Nat.le_add_right ..

/-- Between two offsets the place goes on byte by byte. -/
theorem after_take (bytes : List UInt8) (h : p ≤ q) :
    Location.after (bytes.take q) =
      ((bytes.take q).drop p).foldl Location.advance (Location.after (bytes.take p)) := by
  rw [← Location.after_append]
  conv_lhs => rw [← List.take_append_drop p (bytes.take q), List.take_take, Nat.min_eq_left h]

theorem remarksFrom_append (l : Location) (xs ys : List UInt8) :
    remarksFrom l (xs ++ ys) = remarksFrom l xs ++ remarksFrom (xs.foldl Location.advance l) ys := by
  induction xs generalizing l with
  | nil => rfl
  | cons b xs ih => simp [remarksFrom, ih]

/-- Remarks are made in the order of the text. -/
theorem remarks_append (bytes : List UInt8) (hpq : p ≤ q) (hqs : q ≤ s) :
    remarks bytes p q ++ remarks bytes q s = remarks bytes p s := by
  have hcut : (bytes.take s).drop p = (bytes.take q).drop p ++ (bytes.take s).drop q := by
    conv_lhs => rw [← List.take_append_drop (q - p) ((bytes.take s).drop p)]
    rw [List.take_drop, List.take_take, List.drop_drop, show p + (q - p) = q by omega,
      Nat.min_eq_left hqs]
  rw [remarks, remarks, remarks, hcut, remarksFrom_append, ← after_take bytes hpq]

@[simp] lemma remarks_self (bytes : List UInt8) (p : Nat) : remarks bytes p p = [] := by
  rw [remarks, List.drop_eq_nil_of_le (List.length_take_le ..)]
  rfl

/-- The decoder remarks on nothing but bytes that spell nothing, and at their place. -/
theorem remark?_eq_some {l : Location} {b : UInt8} {d : Diagnostic} (h : remark? l b = some d) :
    d.isDecode ∧ d.location = some l ∧ isLayout b = false := by
  unfold remark? at h
  split at h
  · simp at h
  · obtain ⟨problem, hp, rfl⟩ := Option.map_eq_some_iff.1 h
    unfold Reader.problemOf at hp
    split at hp
    · simp at hp
    · split at hp <;> cases hp <;> simp_all [Problem.diagnosticAt, Diagnostic.isDecode, Problem.category]

theorem isDecode_of_mem_remarksFrom {l : Location} {d : Diagnostic} (h : d ∈ remarksFrom l bytes) :
    d.isDecode := by
  induction bytes generalizing l with
  | nil => simp [remarksFrom] at h
  | cons b bytes ih =>
    rcases List.mem_append.1 h with h | h
    · exact (remark?_eq_some (Option.mem_toList.1 h)).1
    · exact ih h

theorem isDecode_of_mem_remarks {d : Diagnostic} (h : d ∈ remarks bytes p q) : d.isDecode :=
  isDecode_of_mem_remarksFrom h

end Brainfuck.Decoding
