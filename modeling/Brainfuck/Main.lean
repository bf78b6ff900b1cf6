import Brainfuck.CommandLine.Session
import Brainfuck.Yaml.Content

/-! # The program

The command line over the real files, the real environment and the real console, with a loader for settings
files. All that it does is decided by the session; here files are read before it begins, and lines are read
from the console only when the operator at hand is about to take one. -/
namespace Brainfuck

namespace Program

/-- The number by which the system tells that a path goes on below a file. It is also given with its
sign changed. -/
def belowFileCode : UInt32 := 20

def fileState (path : String) : IO FileState := do
  try
    return .file (← IO.FS.readBinFile path)
  catch e =>
    match e with
    | .inappropriateType _ code _ =>
      return if code = belowFileCode ∨ code = 0 - belowFileCode then .belowFile else .directory
    | .invalidArgument .. => return .tooLong
    | .permissionDenied .. => return .denied
    | _ => return .missing

def environment : IO (List (String × String)) :=
  Settings.Field.all.filterMapM fun field => do
    return (← IO.getEnv field.environmentName).map fun value => (field.environmentName, value)

def print (p : Printed) : IO Unit := do
  if !p.out.isEmpty then
    IO.print p.out
    (← IO.getStdout).flush
  if !p.err.isEmpty then IO.eprint p.err

/-- The longest tape that is made. -/
def room : Nat := 0x100000000

/-- The next line of the console, unless it is no text. -/
def nextLine? : IO (Option String) := do
  try
    return some (← (← IO.getStdin).getLine)
  catch _ => return none

/-- Reads lines from the console until the operator that was drawn can be carried out. -/
partial def feed (op : Operator) (decision : Decision) (s : Session) : IO Session := do
  if s.undecodable || s.isFed op decision then return s
  else
    match ← nextLine? with
    | none => return { s with undecodable := true }
    | some line => if line.isEmpty then return s else feed op decision (s.feed line.toList)

def stop (f : Fault) : IO UInt32 := do
  IO.eprintln f.message
  return 1

partial def run (s : Session) : IO UInt32 := do
  let drawn := s.present
  print drawn.printed
  match drawn.result with
  | .error fault => stop fault
  | .ok none => finish drawn.session
  | .ok (some (op, decision)) =>
    let stage := (← feed op decision drawn.session).complete op decision
    print stage.printed
    match stage.result with
    | .error fault => stop fault
    | .ok true => run stage.session
    | .ok false => finish stage.session
where
  /-- Prints what is left to print and gives the status. -/
  finish (s : Session) : IO UInt32 := do
    print s.finish.1
    return s.finish.2.code.toUInt32

/-- The status of a command line that is not understood. -/
def usageStatus : UInt32 := 2

/-- Runs what a command line comes to. -/
def start {ε : Type} (prepared : CommandLine.Prepared ε) : IO UInt32 :=
  match prepared with
  | .help => do
    IO.print CommandLine.help
    return 0
  | .refused e => do
    IO.eprint (CommandLine.usage ++ CommandLine.complaint e ++ "\n")
    return usageStatus
  | .ended status => return status.code.toUInt32
  | .failed reason => do
    IO.eprintln reason.message
    return ExitStatus.fatal.code.toUInt32
  | .ready session =>
    match session.opened with
    | .error fault => stop fault
    | .ok session => run session

end Program

end Brainfuck

open Brainfuck in
def main (arguments : List String) : IO UInt32 := do
  let (program, settings) :=
    match Options.parse arguments with
    | .ok (.options o _) => (o.program.getD "", o.config)
    | _ => ("", "")
  let programFile ← Program.fileState program
  let settingsFile ← Program.fileState settings
  let files (path : String) : FileState := if path = program then programFile else settingsFile
  let host : CommandLine.Host Yaml.Error :=
    { files := files, environment := ← Program.environment, safeLoad := Yaml.load, room := Program.room }
  let (printed, prepared) := CommandLine.prepare host arguments
  Program.print printed
  Program.start prepared
