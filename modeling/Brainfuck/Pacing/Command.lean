import Brainfuck.Text.Blank
import Brainfuck.Text.Letter

/-! # Commands of the operator

The person who steps through a program types one line at each prompt. Blanks around it do not count,
an empty line is a single step, and otherwise the first letter decides, in either case. -/
namespace Brainfuck

inductive Command
  | step
  | step5
  | step25
  | step100
  | untilLoopExit
  | continuous
  deriving DecidableEq, Repr

namespace Command

def count? : Command → Option Nat
  | step => some 1
  | step5 => some 5
  | step25 => some 25
  | step100 => some 100
  | untilLoopExit => none
  | continuous => none

/-- The command of a letter in lower case. -/
def ofLetter? (c : Char) : Option Command :=
  if c = 'd' then some step5
  else if c = 'f' then some step25
  else if c = 'g' then some step100
  else if c = 'j' then some untilLoopExit
  else if c = 'k' then some continuous
  else none

/-- The command on a line. A first letter whose lower case is more than one character means nothing. -/
def ofLine? (line : List Char) : Option Command :=
  match Text.strip line with
  | [] => some step
  | c :: _ =>
    match Text.lowerChar c with
    | [letter] => ofLetter? letter
    | _ => none

def help : String :=
  "Press space to step the system.    D = +5 steps, F = +25 steps, " ++
    "G = +100 steps, J = until loop ends, K = continuous"

/-- The first of the lines of a text that is a command, and what follows it. -/
def find? (text : List Char) : Option (Command × List Char) :=
  match text with
  | [] => none
  | c :: rest =>
    let line := Text.splitLine (c :: rest)
    match ofLine? (Text.chomp line.1) with
    | some command => some (command, line.2)
    | none => find? line.2
termination_by text.length
decreasing_by exact Text.splitLine_length_lt c rest

/-- Takes lines from a text until one is a command. At the end of the text the command is to go on to
the end. -/
def read (text : List Char) : Command × List Char := (find? text).getD (continuous, [])

end Command

end Brainfuck
