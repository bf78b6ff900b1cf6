import Brainfuck.Proofs.Machine.Faults
import Brainfuck.Proofs.Machine.Surroundings
import Brainfuck.Proofs.Machine.Wraps
import Brainfuck.Proofs.Stepper.Watching
import Brainfuck.Proofs.Text.Lines

/-! # One console for the program and the operator

A stepper without commands of its own reads them from the console that the program reads too. Whole lines
are taken from the front of the console: one for each input operator, and for each prompt as many as it
takes to find a command. Nothing else takes any, so that no line is lost or split. -/
namespace Brainfuck

open Text

namespace Tape

/-- The cells after a line was read: that under the pointer holds the first character of the line without
its break, and is as it was if there is none. -/
def cellsWithLine (t : Tape) (line : Option (List Char)) : List Nat :=
  match (chomp (line.getD [])).head? with
  | none => t.cells.toList
  | some c => t.cells.toList.set t.pointer (c.toNat % (t.cellMax + 1))

end Tape

namespace Machine

variable {m x : Machine} {op : Operator} {events : List Event}

/-- A machine with the console of another one, which it reads in the same way. -/
def SameConsole (m m' : Machine) : Prop := m'.console = m.console ∧ m'.lineInput = m.lineInput

lemma sameConsole_of_surroundings {m' : Machine} (h : m'.surroundings = m.surroundings) :
    m.SameConsole m' :=
  ⟨congrArg Surroundings.console h, congrArg Surroundings.lineInput h⟩

lemma sameConsole_fetch (m : Machine) : m.SameConsole m.fetch.machine ∧ m.fetch.machine.tape = m.tape :=
  ⟨sameConsole_of_surroundings m.surroundings_fetch, m.still_fetch.2⟩

/-- A machine whose console is read by lines takes the first one, if there is one. -/
theorem read_line (hline : m.lineInput = true) :
    m.read.result = .ok () ∧ lines m.read.machine.console = (lines m.console).tail ∧
      m.read.machine.lineInput = true ∧ m.read.machine.tape.pointer = m.tape.pointer ∧
      m.read.machine.tape.cells.toList = m.tape.cellsWithLine (lines m.console).head? := by
  have hread : readConsole m.lineInput m.console =
      ((chomp ((lines m.console).head?.getD [])).head?, (splitLine m.console).2) := by
    simp [readConsole, hline, splitLine_fst]
  unfold read Tape.cellsWithLine
  rw [hread]
  cases (chomp ((lines m.console).head?.getD [])).head? with
  | none => exact ⟨rfl, lines_splitLine_snd _, hline, rfl, rfl⟩
  | some c =>
    obtain ⟨t', hwrite⟩ := m.tape.write_char_ok c
    obtain ⟨hpointer, -, hcells⟩ := Tape.write_eq_ok hwrite
    have hfold : m.tape.fold c.toNat = c.toNat % (m.tape.cellMax + 1) := m.tape.fold_natCast c.toNat
    rw [hfold] at hcells
    have hlist := (congrArg Array.toList hcells).trans (Array.toList_set ..)
    simp only [hwrite]
    exact ⟨trivial, lines_splitLine_snd _, hline, hpointer, hlist⟩

end Machine

namespace Governor

end Governor

namespace Watched

open Machine

variable {w : Watched} {x : Machine} {events : List Event} {op : Operator} {f : Fault} {g : Governor}
  {d : Decision} {line : String}

/-- A machine that has drawn an operator and stands before the console as it was. -/
structure Draws (w : Watched) (x : Machine) (op : Operator) : Prop where
  result : w.machine.fetch.result = .ok (some op)
  console : x.console = w.machine.console
  lineInput : x.lineInput = true
  tape : x.tape = w.machine.tape

namespace Draws

variable {s : Stepper} {command : Command} {rest : List Char}

end Draws

/-- The watched machine after `k` calls of a step, whatever these return. -/
def afterCalls (w : Watched) : Nat → Watched
  | 0 => w
  | k + 1 => (afterCalls w k).step.watched

lemma afterCalls_succ (w : Watched) (k : Nat) : w.afterCalls (k + 1) = w.step.watched.afterCalls k := by
  induction k with
  | zero => rfl
  | succ k ih => exact congrArg (·.step.watched) ih

end Watched

end Brainfuck
