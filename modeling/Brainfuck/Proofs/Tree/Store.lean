import Brainfuck.Proofs.Machine.Calls
import Brainfuck.Proofs.Tape.Moves
import Brainfuck.Proofs.Tape.Writes

/-! # Actions on a store

What a program works on is a row of cells with a pointer, the text still to be read and the text
written. The actions are told here in plain arithmetic, and on cells that hold no more than the
largest code point a machine does the same, without a fault. -/
namespace Brainfuck

/-- Cells with a pointer on one of them, the input still to be read, and the output. -/
structure Store where
  cells : List Nat
  pointer : Nat
  input : List Char
  output : List Nat
  deriving DecidableEq, Repr

namespace Store

/-- The value of the current cell. -/
def value (σ : Store) : Nat := σ.cells[σ.pointer]?.getD 0

/-- The store with another value in the current cell. -/
def put (σ : Store) (v : Nat) : Store := { σ with cells := σ.cells.set σ.pointer v }

/-- What an action does, where cells hold values up to a largest one. -/
def act (cellMax : Nat) (σ : Store) : Action → Store
  | .right => { σ with pointer := (σ.pointer + 1) % σ.cells.length }
  | .left => { σ with pointer := (σ.pointer + (σ.cells.length - 1)) % σ.cells.length }
  | .increment => σ.put ((σ.value + 1) % (cellMax + 1))
  | .decrement => σ.put ((σ.value + cellMax) % (cellMax + 1))
  | .output => { σ with output := σ.output ++ [σ.value] }
  | .input =>
    match σ.input with
    | [] => σ
    | c :: rest => { σ with input := rest }.put (c.toNat % (cellMax + 1))

end Store

namespace Machine

/-- What the program of a machine works on. -/
def store (m : Machine) : Store :=
  ⟨m.tape.cells.toList, m.tape.pointer, m.console, m.output.toList⟩

lemma store_value (m : Machine) : m.store.value = m.tape.read := by
  simp [store, Store.value, Tape.read, m.tape.pointer_lt]

/-- A machine whose cells are characters, and which reads its console character by character. -/
structure Plain (m : Machine) : Prop where
  cellMax_le : m.tape.cellMax ≤ lastCodePoint
  lineInput : m.lineInput = false

lemma Plain.cellMax_lt {m : Machine} (h : m.Plain) : m.tape.cellMax < cellCapacity :=
  Nat.lt_of_le_of_lt h.cellMax_le (by decide)

lemma walk_store (m : Machine) {d : Int} {p : Nat} {hp : p < m.tape.cells.size} {wrap : Option Wrap}
    (h : m.tape.move d = (m.tape.pointAt p hp, wrap)) :
    (m.walk d).result = .ok () ∧ (m.walk d).machine.store = { m.store with pointer := p } ∧
      (m.walk d).machine.tape.cellMax = m.tape.cellMax := by
  unfold walk
  rw [h]
  cases wrap <;> exact ⟨rfl, rfl, rfl⟩

lemma Plain.add_store {m : Machine} (h : m.Plain) (d : Int) :
    (m.add d).result = .ok () ∧
      (m.add d).machine.store = m.store.put (m.tape.fold (m.tape.read + d)) ∧
      (m.add d).machine.tape.cellMax = m.tape.cellMax := by
  obtain ⟨t', hwrite⟩ := Tape.exists_write h.cellMax_lt (m.tape.read + d)
  obtain ⟨hpointer, hmax, hcells⟩ := Tape.write_eq_ok hwrite
  simp [add, Tape.adjust, hwrite, withTape, store, Store.put, hcells, hpointer, hmax]

/-- A machine carries an action out on its store as the action is meant. -/
theorem Plain.execute_action {m : Machine} (h : m.Plain) (a : Action) :
    (m.execute a.operator).result = .ok () ∧
      (m.execute a.operator).machine.store = m.store.act m.tape.cellMax a ∧
      (m.execute a.operator).machine.tape.cellMax = m.tape.cellMax := by
  cases a with
  | right =>
    obtain ⟨hp, hmove⟩ := m.tape.move_right
    exact m.walk_store hmove
  | left =>
    obtain ⟨hp, hmove⟩ := m.tape.move_left
    exact m.walk_store hmove
  | increment =>
    obtain ⟨hok, hstore, hcellMax⟩ := h.add_store 1
    have hfold := m.tape.fold_natCast (m.tape.read + 1)
    refine ⟨hok, hstore.trans ?_, hcellMax⟩
    rw [Store.act, store_value, ← hfold]
    rfl
  | decrement =>
    obtain ⟨hok, hstore, hcellMax⟩ := h.add_store (-1)
    refine ⟨hok, hstore.trans ?_, hcellMax⟩
    rw [Store.act, store_value, m.tape.fold_read_sub_one]
  | output =>
    have hle := Nat.le_trans m.tape.read_le h.cellMax_le
    simp only [Action.operator, execute, write, if_pos hle]
    refine ⟨trivial, ?_, trivial⟩
    simp only [Store.act, store_value]
    simp [store]
  | input =>
    simp only [Action.operator, execute, read, readConsole, h.lineInput]
    cases hin : m.console with
    | nil => simp [store, Store.act, hin]
    | cons c rest =>
      obtain ⟨t', hwrite⟩ := Tape.exists_write h.cellMax_lt c.toNat
      obtain ⟨hpointer, hmax, hcells⟩ := Tape.write_eq_ok hwrite
      have hfold := m.tape.fold_natCast c.toNat
      simp [store, Store.act, hin, hwrite, withTape, hcells, hpointer, hmax, Store.put, hfold]

end Machine

end Brainfuck
