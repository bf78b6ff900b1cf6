import Brainfuck.Fault
import Brainfuck.Number.Numeral
import Brainfuck.Pacing.Command
import Brainfuck.Program.Operator

/-! # Pacing a watched run

Before each instruction the governor decides whether the operator has to be asked. While it counts,
it lets the rest of the count go by and then asks; until a loop exits it asks at the closing bracket
that leaves a loop; and once it runs on it never asks again. Input always waits for the operator,
who has to type a character anyway. -/
namespace Brainfuck

/-- How a watched run goes on. -/
inductive Regime
  | counting
  | untilLoopExit
  | continuous
  deriving DecidableEq, Repr, Inhabited

/-- What is done about the instruction at hand. -/
inductive Decision
  | proceed
  | prompt
  | awaitInput
  deriving DecidableEq, Repr

/-- The regime of a watched run, and how many instructions go by before the operator is asked. -/
structure Governor where
  regime : Regime := .counting
  remaining : Int := 0
  deriving DecidableEq, Repr, Inhabited

namespace Governor

/-- The governor at a bracket that leaves a loop: it no longer waits for that. -/
def atLoopExit (g : Governor) (op : Option Operator) (value : Int) : Governor :=
  if g.regime = .untilLoopExit ∧ op = some .loopEnd ∧ value = 0 then ⟨.counting, 0⟩ else g

/-- Decides on the instruction about to be carried out over a cell of the given value. -/
def decide (g : Governor) (op : Option Operator) (value : Int) : Governor × Decision :=
  if g.regime = .counting ∧ 0 < g.remaining then
    ({ g with remaining := g.remaining - 1 }, if op = some .input then .awaitInput else .proceed)
  else
    let g := g.atLoopExit op value
    (g,
      if op = some .input then .awaitInput
      else if g.regime = .counting then .prompt
      else .proceed)

/-- The governor after a command at a prompt. The instruction at hand is one of the steps asked for. -/
def apply (_g : Governor) : Command → Governor
  | .continuous => ⟨.continuous, 0⟩
  | .untilLoopExit => ⟨.untilLoopExit, 0⟩
  | command => ⟨.counting, (command.count?.getD 1 : Int) - 1⟩

/-- The line that says how the run goes on. A count is told only if it has no more digits than numbers
are written with. -/
def status (g : Governor) (digits : Option Nat) : Except Fault String :=
  match g.regime with
  | .continuous => .ok "Continuing program to completion..."
  | .untilLoopExit => .ok "Waiting for loop exit..."
  | .counting =>
    if Numeral.isWritten digits g.remaining then .ok s!"Skipping {g.remaining} steps..."
    else .error .tooManyDigits

end Governor

end Brainfuck
