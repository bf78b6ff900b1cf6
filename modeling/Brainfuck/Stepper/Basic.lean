import Brainfuck.Machine.Run
import Brainfuck.Pacing.Governor
import Brainfuck.Stepper.Prospect

/-! # Stepping through a program

A stepper watches a machine and shows, before each instruction, the cells around the pointer, what was
written so far and what the instruction is about to do. The governor decides whether to ask the
operator how to go on. The commands come from a text of their own or from the console that the
program reads too. Nothing the stepper does changes the program that is watched, except that a count of
more digits than numbers are written with cannot be told, which ends the run. -/
namespace Brainfuck

/-- What a watched run shows and how it is paced. Numbers of more than the given digits are not
written. -/
structure Stepper where
  governor : Governor := {}
  range : Int := 10
  digits : Option Nat := some Numeral.maxDigits
  output : Array Nat := #[]
  deriving Repr, Inhabited

namespace Stepper

/-- A number in at least three places. -/
def column (n : Nat) : String :=
  let places := toString n
  String.ofList (List.replicate (3 - places.length) ' ') ++ places

/-- The indices of the cells that are shown. -/
def shownIndices (s : Stepper) (t : Tape) : List Nat :=
  let (first, last) := t.window s.range
  (List.range (last + 1 - first)).map (first + ·)

/-- The block that shows the state before an instruction. -/
def block (s : Stepper) (m : Machine) (op : Option Operator) : List String :=
  let t := m.tape
  let indices := s.shownIndices t
  let values := indices.map fun i => column (t.cells[i]?.getD 0)
  let marks := indices.map fun i => if i = t.pointer then " ^ " else "   "
  let written := if s.output.isEmpty then "(empty)" else Text.quotedCodes s.output.toList
  [ "",
    "Memory:   [" ++ "|".intercalate values ++ "]",
    "Pointer:   " ++ " ".intercalate marks,
    "Address:   " ++ " ".intercalate (indices.map column),
    "Output:   " ++ written,
    m.location.text ++ ": " ++ m.source.charText ++ "    " ++ (Prospect.of m op).text ]

/-- The line that ends a block and says what is waited for. -/
def closing (g : Governor) (digits : Option Nat) : Decision → Except Fault String
  | .awaitInput => .ok "Enter one character to step the program."
  | .prompt => .ok Command.help
  | .proceed => g.status digits

/-- Shows the state before an instruction and decides whether to ask the operator. A last line that
cannot be told is missing from what is shown. -/
def announce (s : Stepper) (m : Machine) (op : Option Operator) :
    Stepper × List String × Except Fault Decision :=
  let (governor, decision) := s.governor.decide op m.tape.read
  let told := { s with governor := governor }
  match closing governor s.digits decision with
  | .error fault => (told, s.block m op, .error fault)
  | .ok line => (told, s.block m op ++ [line], .ok decision)

/-- Settles how to go on. Only a prompt takes lines from the commands, until one of them is a
command. -/
def respond (s : Stepper) (decision : Decision) (commands : List Char) : Stepper × List Char :=
  match decision with
  | .prompt =>
    let (command, rest) := Command.read commands
    ({ s with governor := s.governor.apply command }, rest)
  | _ => (s, commands)

/-- Takes note of what a step wrote. -/
def noteOutput (s : Stepper) (events : List Event) : Stepper :=
  { s with output := s.output ++ Event.written events }

end Stepper

/-- A machine with a stepper that watches it. Without commands of its own the stepper takes its
commands from the console of the machine. -/
structure Watched where
  machine : Machine
  stepper : Stepper
  commands : Option (List Char)

namespace Watched

/-- A machine put under a stepper. From then on its console is read by lines. -/
def attach (m : Machine) (s : Stepper) (commands : Option (List Char)) : Watched :=
  ⟨{ m with lineInput := true }, s, commands⟩

/-- What came of drawing an operator under a stepper: what was shown, what happened, and the operator
with what is to be done about it unless the run is over. -/
structure Presented where
  watched : Watched
  shown : List String
  events : List Event
  result : Except Fault (Option (Operator × Decision))

/-- What came of a step of a watched machine: what was shown, what happened and whether to go on. -/
structure StepResult where
  watched : Watched
  shown : List String
  events : List Event
  result : Except Fault Bool

/-- Draws an operator and shows it. -/
def present (w : Watched) : Presented :=
  match w.machine.fetch with
  | ⟨m, events, .error fault⟩ => ⟨{ w with machine := m }, [], events, .error fault⟩
  | ⟨m, events, .ok none⟩ => ⟨{ w with machine := m }, [], events, .ok none⟩
  | ⟨m, events, .ok (some op)⟩ =>
    let (stepper, shown, decision) := w.stepper.announce m (some op)
    ⟨{ w with machine := m, stepper := stepper }, shown, events,
      decision.map fun decision => some (op, decision)⟩

/-- Settles how to go on, with a command if one is due. -/
def settle (w : Watched) (decision : Decision) : Watched :=
  match w.commands with
  | some commands =>
    let (stepper, rest) := w.stepper.respond decision commands
    { w with stepper := stepper, commands := some rest }
  | none =>
    let (stepper, rest) := w.stepper.respond decision w.machine.console
    { w with stepper := stepper, machine := { w.machine with console := rest } }

/-- Settles how to go on and carries out the operator that was shown. -/
def complete (w : Watched) (op : Operator) (decision : Decision) : StepResult :=
  let w := w.settle decision
  let o := w.machine.complete op
  ⟨{ w with machine := o.machine, stepper := w.stepper.noteOutput o.events }, [], o.events, o.result⟩

/-- Draws an operator, shows it and carries it out. -/
def step (w : Watched) : StepResult :=
  match w.present with
  | ⟨w, shown, events, .error fault⟩ => ⟨w, shown, events, .error fault⟩
  | ⟨w, shown, events, .ok none⟩ => ⟨w, shown, events, .ok false⟩
  | ⟨w, shown, events, .ok (some (op, decision))⟩ =>
    let r := w.complete op decision
    { r with shown := shown, events := events ++ r.events }

/-- Takes up to `n` steps, gathering what was shown and what happened. -/
def stepsFrom (shown : Array String) (events : Array Event) :
    Nat → Watched → Watched × Array String × Array Event × Except Fault Unit
  | 0, w => (w, shown, events, .ok ())
  | n + 1, w =>
    match w.step with
    | ⟨w, lines, more, .ok true⟩ => stepsFrom (shown ++ lines) (events ++ more) n w
    | ⟨w, lines, more, .ok false⟩ => (w, shown ++ lines, events ++ more, .ok ())
    | ⟨w, lines, more, .error fault⟩ => (w, shown ++ lines, events ++ more, .error fault)

def run (w : Watched) (n : Nat) : Watched × List String × List Event × Except Fault Unit :=
  match w.machine.source.opened with
  | .error fault => (w, [], [], .error fault)
  | .ok source =>
    let (w, shown, events, result) := stepsFrom #[] #[] n { w with machine := w.machine.withSource source }
    ({ w with machine := w.machine.withSource w.machine.source.closed },
      shown.toList, events.toList, result)

end Watched

end Brainfuck
