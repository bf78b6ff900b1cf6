import Brainfuck.Machine.Basic

/-! # One step

A step draws an operator and then carries it out. Between the two it tells that the operator is
pending, which is the moment at which a run can be watched and held up. Nothing a program does wrong
is a fault: leaving the tape, a bracket without its partner and a byte without meaning are remarked
on, and only a skipped loop without an end halts the machine. -/
namespace Brainfuck

namespace Machine

/-- Moves the pointer by one cell and warns if it left the tape. -/
def walk (m : Machine) (d : Int) : Outcome Unit :=
  let (tape, wrap) := m.tape.move d
  let moved := m.withTape tape
  match wrap with
  | none => ⟨moved, [], .ok ()⟩
  | some w => ⟨moved, [moved.problemEvent (.wrapped w tape.length)], .ok ()⟩

def add (m : Machine) (d : Int) : Outcome Unit :=
  match m.tape.adjust d with
  | .ok tape => ⟨m.withTape tape, [], .ok ()⟩
  | .error fault => ⟨m, [], .error fault⟩

def lastCodePoint : Nat := 0x10FFFF

/-- Writes the cell under the pointer as a character. -/
def write (m : Machine) : Outcome Unit :=
  let code := m.tape.read
  if code ≤ lastCodePoint then
    let written := { m with output := m.output.push code }
    ⟨written, [written.event (.output code) (some .output)], .ok ()⟩
  else ⟨m, [], .error (.ofCode code)⟩

/-- Takes a character from the console. A console read by lines gives the first character of a line
and drops the rest of it. -/
def readConsole (lineInput : Bool) (console : List Char) : Option Char × List Char :=
  if lineInput then
    let (line, rest) := Text.splitLine console
    ((Text.chomp line).head?, rest)
  else (console.head?, console.tail)

/-- Reads a character into the cell under the pointer, which stays as it is if there is none. -/
def read (m : Machine) : Outcome Unit :=
  let (char, rest) := readConsole m.lineInput m.console
  let m := { m with console := rest }
  match char with
  | none => ⟨m, [], .ok ()⟩
  | some c =>
    match m.tape.write c.toNat with
    | .ok tape => ⟨m.withTape tape, [], .ok ()⟩
    | .error fault => ⟨m, [], .error fault⟩

/-- Leaves the loop that was noted last and is skipped. If its end is not found, the note stays and
the machine halts. -/
def skipLoop (m : Machine) : Outcome Unit :=
  let (position, reports) := m.source.position
  let before := reports.map m.reportEvent
  match m.source.matchingEnd position with
  | some target =>
    match m.source.seek target none with
    | .ok (source, reports) =>
      ⟨{ m with source := source, frames := m.frames.tail }, before ++ reports.map m.reportEvent,
        .ok ()⟩
    | .error fault => ⟨m, before, .error fault⟩
  | none =>
    let skipped := m.source.skip m.skipScan 0
    let events := before ++ skipped.reports.map m.reportEvent
    let m := m.withSource skipped.source
    match skipped.found with
    | .ok true => ⟨{ m with frames := m.frames.tail }, events, .ok ()⟩
    | .ok false => ⟨{ m with halted := true }, events ++ [m.problemEvent .unclosedLoop], .ok ()⟩
    | .error fault => ⟨m, events, .error fault⟩

/-- An opening bracket notes its loop, which is entered unless the cell is zero. -/
def startLoop (m : Machine) : Outcome Unit :=
  let (position, reports) := m.source.position
  let before := reports.map m.reportEvent
  let m := { m with frames := ⟨position, m.location⟩ :: m.frames }
  if m.tape.read ≠ 0 then ⟨m, before ++ [m.event .loopEntered (some .loopStart)], .ok ()⟩
  else m.skipLoop.after (before ++ [m.event .loopSkipped (some .loopStart)])

/-- A closing bracket goes back to the innermost loop, or leaves it if the cell is zero. -/
def endLoop (m : Machine) : Outcome Unit :=
  match m.frames with
  | [] => ⟨m, [m.problemEvent .unopenedLoop], .ok ()⟩
  | frame :: outer =>
    if m.tape.read = 0 then
      let left := { m with frames := outer }
      ⟨left, [left.event .loopExited (some .loopEnd)], .ok ()⟩
    else
      match m.source.seek frame.position (some frame.location) with
      | .ok (source, reports) =>
        let back := m.withSource source
        ⟨back, reports.map m.reportEvent ++
          [back.event (.loopRepeated frame.location) (some .loopEnd)], .ok ()⟩
      | .error fault => ⟨m, [], .error fault⟩

def execute (m : Machine) : Operator → Outcome Unit
  | .right => m.walk 1
  | .left => m.walk (-1)
  | .increment => m.add 1
  | .decrement => m.add (-1)
  | .output => m.write
  | .input => m.read
  | .loopStart => m.startLoop
  | .loopEnd => m.endLoop

/-- Whether as many operators were carried out as are allowed. -/
def limitReached (m : Machine) : Bool :=
  match m.stepLimit with
  | none => false
  | some limit => limit ≤ m.steps

/-- Draws the next operator and makes it the current one. There is none once the run is over, which
it is at the end of the program and when the step limit is reached. -/
def fetch (m : Machine) : Outcome (Option Operator) :=
  if m.finished then ⟨m, [], .ok none⟩
  else if m.limitReached then ⟨{ m with finished := true, hitStepLimit := true }, [], .ok none⟩
  else
    match m.source.next with
    | .error fault => ⟨m, [], .error fault⟩
    | .ok d =>
      let drawn := m.withSource d.source
      let events := d.reports.map drawn.reportEvent
      match d.operator with
      | none => ⟨{ drawn with finished := true }, events, .ok none⟩
      | some op =>
        let pending := { drawn with current := some op }
        ⟨pending, events ++ [pending.event .pending (some op)], .ok (some op)⟩

/-- Counts the step in which an operator was carried out. A halted machine is finished. -/
def count (m : Machine) (op : Operator) : Outcome Bool :=
  let counted := { m with steps := m.steps + 1, finished := m.halted || m.finished }
  ⟨counted, [counted.event .applied (some op)], .ok (!m.halted)⟩

/-- Carries out the pending operator and counts the step. The result tells whether to go on. -/
def complete (m : Machine) (op : Operator) : Outcome Bool :=
  (m.execute op).bind fun _ m => m.count op

/-- Draws an operator and carries it out. The result tells whether to go on. -/
def step (m : Machine) : Outcome Bool :=
  m.fetch.bind fun op m =>
    match op with
    | none => ⟨m, [], .ok false⟩
    | some op => m.complete op

end Machine

end Brainfuck
