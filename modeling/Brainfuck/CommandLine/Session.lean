import Brainfuck.Collector
import Brainfuck.CommandLine.Dialect
import Brainfuck.CommandLine.Options
import Brainfuck.Machine.Load
import Brainfuck.Settings.Load
import Brainfuck.Stepper.Basic

/-! # Running a program from the command line

A command line is first prepared: the program is looked for, its dialect is told from its name and the
settings are loaded. Whatever prevents the start is told on one line and nothing is run, or it is a failure
that is not told. A prepared session is then run step by step, from a console that may go on in bytes which
are no text and to an output that takes characters only. At the end the status tells whether the program ran
to its end or stopped inside a loop that does not close. -/
namespace Brainfuck

/-- How the command line ends. -/
inductive ExitStatus
  | ok
  | fatal
  | halted
  deriving DecidableEq, Repr

namespace ExitStatus

def code : ExitStatus → Nat
  | ok => 0
  | fatal => 1
  | halted => 2

end ExitStatus

/-- Text for the two channels of the command line. -/
structure Printed where
  out : String := ""
  err : String := ""
  deriving DecidableEq, Repr, Inhabited

namespace Printed

/-- What is printed first and then. -/
def append (a b : Printed) : Printed := ⟨a.out ++ b.out, a.err ++ b.err⟩

instance : Append Printed := ⟨append⟩

def line (text : String) : Printed := ⟨text ++ "\n", ""⟩

end Printed

/-- A program that is ready to run, alone or under a stepper, and whether its diagnostics are printed. The
text on the console of the machine may be followed by bytes that are no text. -/
structure Session where
  machine : Machine
  stepper : Option Stepper
  echo : Bool
  undecodable : Bool := false

namespace Session

/-- A code point as text, if it is a character. -/
def codeText? (code : Nat) : Option String :=
  if code.isValidChar then some (String.singleton (Char.ofNat code)) else none

/-- A collector of the diagnostics, which echoes them unless they are not printed. -/
def collector (s : Session) : Collector Unit := { echo := s.echo }

/-- What is printed when events happen, after the lines that a stepper shows. -/
def printed (s : Session) (shown : List String) (events : List Event) : Printed where
  out := String.join (shown.map (· ++ "\n")) ++ String.join ((Event.written events).filterMap codeText?)
  err := s.collector.echoed (Event.remarks events)

/-- What came of a part of a step: what was printed, and the result. -/
structure Stage (α : Type) where
  session : Session
  printed : Printed
  result : Except Fault α

def opened (s : Session) : Except Fault Session :=
  s.machine.source.opened.map fun source => { s with machine := s.machine.withSource source }

/-- Draws the next operator, and shows it under a stepper. -/
def present (s : Session) : Stage (Option (Operator × Decision)) :=
  match s.stepper with
  | none =>
    let o := s.machine.fetch
    ⟨{ s with machine := o.machine }, s.printed [] o.events,
      o.result.map (·.map fun op => (op, .proceed))⟩
  | some stepper =>
    let r := (Watched.mk s.machine stepper none).present
    ⟨{ s with machine := r.watched.machine, stepper := some r.watched.stepper },
      s.printed r.shown r.events, r.result⟩

/-- Carries out the operator that was drawn, where the console and the output do what is asked of them. -/
def carryOut (s : Session) (op : Operator) (decision : Decision) : Stage Bool :=
  match s.stepper with
  | none =>
    let o := s.machine.complete op
    ⟨{ s with machine := o.machine }, s.printed [] o.events, o.result⟩
  | some stepper =>
    let r := (Watched.mk s.machine stepper none).complete op decision
    ⟨{ s with machine := r.watched.machine, stepper := some r.watched.stepper },
      s.printed [] r.events, r.result⟩

/-- Whether the operator that was drawn takes more from the console than there is before the end of the text
on it: a character, a whole line, or lines up to one that is a command. -/
def overreads (s : Session) (op : Operator) (decision : Decision) : Bool :=
  let text := s.machine.console
  if op = .input then if s.machine.lineInput then '\n' ∉ text else text.isEmpty
  else if decision = .prompt then (Command.find? (Text.wholeLines text)).isNone
  else false

/-- What keeps the console or the output from doing what the operator that was drawn asks of them. Bytes
that are no text cannot be read, and half of a surrogate pair cannot be written. -/
def hostFault? (s : Session) (op : Operator) (decision : Decision) : Option Fault :=
  let code := s.machine.tape.read
  if s.undecodable && s.overreads op decision then some .undecodableInput
  else if op = .output ∧ code ≤ Machine.lastCodePoint ∧ codeText? code = none then some (.notEncodable code)
  else none

/-- Carries out the operator that was drawn. -/
def complete (s : Session) (op : Operator) (decision : Decision) : Stage Bool :=
  match s.hostFault? op decision with
  | some fault => ⟨s, {}, .error fault⟩
  | none => s.carryOut op decision

def step (s : Session) : Stage Bool :=
  match s.present with
  | ⟨s, p, .error fault⟩ => ⟨s, p, .error fault⟩
  | ⟨s, p, .ok none⟩ => ⟨s, p, .ok false⟩
  | ⟨s, p, .ok (some (op, decision))⟩ =>
    let r := s.complete op decision
    { r with printed := p ++ r.printed }

/-- Whether the console holds what the operator that was drawn is about to take from it. -/
def isFed (s : Session) (op : Operator) (decision : Decision) : Bool :=
  if op = .input then !s.machine.console.isEmpty
  else if decision = .prompt then (Command.find? s.machine.console).isSome
  else true

/-- The session with more text on its console. -/
def feed (s : Session) (text : List Char) : Session :=
  { s with machine := { s.machine with console := s.machine.console ++ text } }

/-- What is printed at the end of a run, and its status. -/
def finish (s : Session) : Printed × ExitStatus :=
  (if s.machine.hitStepLimit then
    ⟨"", s!"\nwarn: stopped after {s.machine.steps} steps (step limit)\n"⟩
  else {},
    if s.machine.halted then .halted else .ok)

/-- Takes up to `n` steps, and then finishes. -/
def runFrom (done : Printed) : Nat → Session → Printed × Except Fault ExitStatus
  | 0, s => (done ++ s.finish.1, .ok s.finish.2)
  | n + 1, s =>
    match s.step with
    | ⟨s, more, .ok true⟩ => runFrom (done ++ more) n s
    | ⟨s, more, .ok false⟩ => (done ++ more ++ s.finish.1, .ok s.finish.2)
    | ⟨_, more, .error fault⟩ => (done ++ more, .error fault)

def run (s : Session) (n : Nat) : Printed × Except Fault ExitStatus :=
  match s.opened with
  | .error fault => ({}, .error fault)
  | .ok s => runFrom {} n s

end Session

namespace CommandLine

/-- What a command line finds around it: the files, the environment, a loader for the text of a settings file,
how many cells there is room for, and the text on the console, which bytes may follow that are no text. -/
structure Host (ε : Type) where
  files : String → FileState
  environment : List (String × String)
  safeLoad : List Char → Except ε Value
  room : Nat
  console : List Char := []
  undecodable : Bool := false

/-- What keeps a command line from an end that has a status. -/
inductive Failure (ε : Type)
  | fault (f : Fault)
  | undecodable
  | malformed (e : ε)

def Failure.message {ε : Type} : Failure ε → String
  | fault f => f.message
  | undecodable => "the settings file is not encoded as text"
  | malformed _ => "the settings file is malformed"

def usage : String :=
  "usage: bfvm [-h] [--step] [--useful] [--config CONFIG] [--tape-length TAPE_LENGTH]\n" ++
  "            [--cell-max CELL_MAX] [--step-limit STEP_LIMIT]\n" ++
  "            [--skip-scan \x7bnested,legacy\x7d] [--precompile] [--quiet]\n" ++
  "            program\n"

def help : String :=
  usage ++ "\nRun a brainfuck program on a circular tape.\n\n" ++
  "positional arguments:\n" ++
  "  program               Path to a .bf/.br/.b program\n\n" ++
  "options:\n" ++
  "  -h, --help            show this help message and exit\n" ++
  "  --step                Step through the program interactively\n" ++
  "  --useful              Extended dialect switch (not applicable to standard\n" ++
  "                        programs)\n" ++
  "  --config CONFIG       YAML file with VM settings\n" ++
  "  --tape-length TAPE_LENGTH\n" ++
  "                        Number of cells on the tape\n" ++
  "  --cell-max CELL_MAX   Largest value a cell can hold\n" ++
  "  --step-limit STEP_LIMIT\n" ++
  "                        Stop after this many instructions\n" ++
  "  --skip-scan \x7bnested,legacy\x7d\n" ++
  "                        How '[' over a zero cell finds its ']'\n" ++
  "  --precompile          Decode the program once and jump straight over skipped\n" ++
  "                        loops\n" ++
  "  --quiet               Do not echo warnings and errors\n"

/-- The line that tells what is wrong with a command line. -/
def complaint (e : Options.Error) : String := s!"bfvm: error: {e.message}"

/-- What a command line comes to before anything is run. -/
inductive Prepared (ε : Type)
  | help
  | refused (e : Options.Error)
  | ended (status : ExitStatus)
  | failed (reason : Failure ε)
  | ready (s : Session)

/-- The line for what prevents a start. -/
def fatal (reason : String) : Printed := Printed.line ("fatal: " ++ reason)

/-- Why a program cannot be started by its name, if it cannot. -/
def nameProblem? (path : String) : Option String :=
  match Dialect.ofPath? path with
  | some .standard => none
  | some .extended =>
    some s!"the extended dialect of {String.ofList (Path.lastName path.toList)} is not supported."
  | none =>
    let ending := String.ofList (Path.ending path.toList)
    some s!"unsupported file type {if ending.isEmpty then path else ending}."

variable {ε : Type}

/-- What is told of a problem of the settings, which then ends the command line. A name that is no path is
not a problem of a file, and neither it nor a file without a value is told. -/
def settingsProblem : Settings.LoadError ε → Except (Failure ε) String
  | .refused e => e.message.mapError .fault
  | .unreadable .nulInName => .error (.fault .nulInName)
  | .unreadable fault => .ok fault.message
  | .undecodable => .error .undecodable
  | .malformed e => .error (.malformed e)

/-- The session for a program with the settings given, and what is printed in decoding it. Remarks
made in decoding are printed in any case. -/
def start (host : Host ε) (o : Options) (s : Settings) (reader : Reader) : Printed × Except Fault Session :=
  match Source.loaded s reader with
  | .error fault => ({}, .error fault)
  | .ok (source, reports) =>
    (⟨"", ({} : Collector Unit).echoed reports⟩,
      (Machine.startWithin host.room s source host.console).map fun machine =>
        { machine := { machine with lineInput := o.step }
          stepper := if o.step then some {} else none
          echo := !o.quiet
          undecodable := host.undecodable })

/-- Prepares a command line. -/
def prepare (host : Host ε) (arguments : List String) : Printed × Prepared ε :=
  match Options.parse arguments with
  | .error e => ({}, .refused e)
  | .ok .help => ({}, .help)
  | .ok (.options o _) =>
    let path := o.program.getD ""
    match (host.files path).reader? path with
    | none => (fatal s!"file does not exist at {path}", .ended .fatal)
    | some reader =>
      match nameProblem? path with
      | some reason => (fatal reason, .ended .fatal)
      | none =>
        let notice :=
          if o.useful then
            Printed.line "warn: --useful flag is not applicable to standard brainfuck."
          else {}
        match Settings.load host.safeLoad o.config (host.files o.config) host.environment o.layer with
        | .error e =>
          match settingsProblem e with
          | .ok reason => (notice ++ fatal reason, .ended .fatal)
          | .error failure => (notice, .failed failure)
        | .ok s =>
          match start host o s reader with
          | (printed, .ok session) => (notice ++ printed, .ready session)
          | (printed, .error fault) => (notice ++ printed, .failed (.fault fault))

end CommandLine

end Brainfuck
