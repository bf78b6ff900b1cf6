import Brainfuck.Program.Location
import Brainfuck.Text.Quoted

/-! # Diagnostics

A diagnostic is one remark on a program: how serious it is, what it is about, its words and, where
there is one, the place it concerns. The remarks that running and decoding can make are listed as
`Problem`, so that each kind of trouble has its wording in one place. -/
namespace Brainfuck

/-- A warning leaves the meaning of the program as it is; an error says that part of it has none. -/
inductive Severity
  | warning
  | error
  deriving DecidableEq, Repr, Inhabited

def Severity.word : Severity → String
  | warning => "warn"
  | error => "error"

inductive Category
  | range
  | decode
  | structural
  | precondition
  deriving DecidableEq, Repr, Inhabited

/-- One remark on a program. -/
structure Diagnostic where
  severity : Severity
  category : Category
  message : String
  location : Option Location
  deriving DecidableEq, Repr, Inhabited

namespace Diagnostic

def format (d : Diagnostic) : String :=
  match d.location with
  | none => s!"{d.severity.word}: {d.message}"
  | some l => s!"{d.severity.word} {l.text}: {d.message}"

/-- An error, as opposed to a warning. -/
def isError (d : Diagnostic) : Bool := d.severity == .error

/-- A remark of the decoder on a byte that spells nothing. -/
def isDecode (d : Diagnostic) : Bool := d.category == .decode

end Diagnostic

/-- The end of the tape at which a pointer leaves it. -/
inductive Wrap
  | overflow
  | underflow
  deriving DecidableEq, Repr, Inhabited

/-- Everything that decoding or running a program can find to remark on. -/
inductive Problem
  | wrapped (wrap : Wrap) (length : Nat)
  | comment
  | unsupported (byte : UInt8)
  | unopened
  | unclosedLoop
  | unopenedLoop
  deriving DecidableEq, Repr

namespace Problem

/-- Leaving the tape is well defined and only warned of; all else is an error. -/
def severity : Problem → Severity
  | wrapped .. => .warning
  | _ => .error

def category : Problem → Category
  | wrapped .. => .range
  | comment => .decode
  | unsupported _ => .decode
  | unopened => .precondition
  | unclosedLoop => .structural
  | unopenedLoop => .structural

def message : Problem → String
  | wrapped .overflow length => s!"data pointer has overflowed! (length {length})"
  | wrapped .underflow length => s!"data pointer has underflowed! (length {length})"
  | comment => "comments are not supported in standard brainfuck."
  | unsupported byte => s!"unsupported operator {Text.quotedCodes [byte.toNat]}"
  | unopened => "program source hasn't been opened yet!"
  | unclosedLoop => "no closing bracket to match opening bracket."
  | unopenedLoop => "no opening bracket to match closing bracket."

def diagnosticAt (p : Problem) (l : Location) : Diagnostic :=
  ⟨p.severity, p.category, p.message, some l⟩

end Problem

end Brainfuck
