import Brainfuck.Program.Source
import Brainfuck.Tape.Basic
import Brainfuck.Text.Blank

/-! # The machine

A machine is a source of operators, a tape, the text it has still to read, the text it has written
and the loops it is inside of. It has no tree of loops: entering a loop notes the position just after
the opening bracket, and a closing bracket over a cell that is not zero goes back to the innermost
note. All the state of a run is here; what happens in it is told as a list of events. -/
namespace Brainfuck

/-- A note of a loop that was entered: the position after its bracket, and the place of the bracket. -/
structure Frame where
  position : Int
  location : Location
  deriving DecidableEq, Repr

/-- A running program. The innermost loop is first in the list of frames, and output is a row of code
points, which need not be characters when cells are large. -/
structure Machine where
  source : Source
  tape : Tape
  stepLimit : Option Nat
  skipScan : SkipScan
  console : List Char
  lineInput : Bool := false
  frames : List Frame := []
  output : Array Nat := #[]
  current : Option Operator := none
  steps : Nat := 0
  halted : Bool := false
  finished : Bool := false
  hitStepLimit : Bool := false

inductive Event.Kind
  | pending
  | applied
  | output (code : Nat)
  | loopEntered
  | loopSkipped
  | loopRepeated (target : Location)
  | loopExited
  | diagnostic (remark : Diagnostic)
  deriving DecidableEq, Repr

/-- Something that happened in a run, with the operator, the place, the pointer and the value under
it at that moment. -/
structure Event where
  kind : Event.Kind
  operator : Option Operator
  location : Location
  pointer : Nat
  value : Nat
  deriving DecidableEq, Repr

/-- The remark that an event carries. -/
def Event.remark? (e : Event) : Option Diagnostic :=
  match e.kind with
  | .diagnostic d => some d
  | _ => none

/-- The code point that an event writes. -/
def Event.written? (e : Event) : Option Nat :=
  match e.kind with
  | .output code => some code
  | _ => none

def Event.remarks (events : List Event) : List Diagnostic := events.filterMap Event.remark?

def Event.written (events : List Event) : List Nat := events.filterMap Event.written?

/-- What came of an operation: the machine after it, what happened in it, and its result. A fault
leaves the machine as it was when the fault was met. -/
structure Outcome (α : Type) where
  machine : Machine
  events : List Event
  result : Except Fault α

namespace Outcome

/-- The outcome with earlier events put in front. -/
def after {α : Type} (o : Outcome α) (events : List Event) : Outcome α :=
  { o with events := events ++ o.events }

/-- Goes on with another operation, unless there was a fault. -/
def bind {α β : Type} (o : Outcome α) (f : α → Machine → Outcome β) : Outcome β :=
  match o with
  | ⟨m, events, .ok a⟩ => (f a m).after events
  | ⟨m, events, .error fault⟩ => ⟨m, events, .error fault⟩

end Outcome

namespace Machine

def location (m : Machine) : Location := m.source.location

/-- The event that tells of the present state. -/
def event (m : Machine) (kind : Event.Kind) (op : Option Operator) : Event :=
  ⟨kind, op, m.location, m.tape.pointer, m.tape.read⟩

/-- The event of a remark made while the operator in hand is carried out. -/
def reportEvent (m : Machine) (d : Diagnostic) : Event :=
  { m.event (.diagnostic d) m.current with location := d.location.getD m.location }

def problemEvent (m : Machine) (p : Problem) : Event :=
  m.event (.diagnostic (p.diagnosticAt m.location)) m.current

def withTape (m : Machine) (t : Tape) : Machine := { m with tape := t }

def withSource (m : Machine) (s : Source) : Machine := { m with source := s }

end Machine

end Brainfuck
