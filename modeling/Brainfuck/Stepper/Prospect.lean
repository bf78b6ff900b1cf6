import Brainfuck.Machine.Basic

/-! # What an instruction is about to do

Before an instruction is carried out, its effect is foretold from the operator, the cell under the
pointer and the loops that are open. -/
namespace Brainfuck

inductive Prospect
  | moveRight (pointer : Nat)
  | moveLeft (pointer : Nat)
  | increase (pointer value : Nat)
  | decrease (pointer value : Nat)
  | print (value : Nat)
  | input (pointer : Nat)
  | skipLoop
  | beginLoop
  | strayEnd
  | leaveLoop
  | repeatLoop (target : Location) (pointer value : Nat)
  | unknown
  deriving DecidableEq, Repr

namespace Prospect

/-- The effect that an operator is about to have on a machine. -/
def of (m : Machine) (op : Option Operator) : Prospect :=
  let p := m.tape.pointer
  let v := m.tape.read
  match op with
  | some .right => moveRight p
  | some .left => moveLeft p
  | some .increment => increase p v
  | some .decrement => decrease p v
  | some .output => print v
  | some .input => input p
  | some .loopStart => if v = 0 then skipLoop else beginLoop
  | some .loopEnd =>
    match m.frames with
    | [] => strayEnd
    | frame :: _ => if v = 0 then leaveLoop else repeatLoop frame.location p v
  | none => unknown

def text : Prospect → String
  | moveRight p => s!"Move pointer to right ({p} -> {p + 1})"
  | moveLeft p => s!"Move pointer to left ({p} -> {(p : Int) - 1})"
  | increase p v => s!"Increase value at position {p} ({v} -> {v + 1})"
  | decrease p v => s!"Decrease value at position {p} ({v} -> {(v : Int) - 1})"
  | print v => s!"Print out current value as character (value {v})"
  | input p => s!"Input next character input into position {p}"
  | skipLoop => "Skipping loop. Moving execution forward to closing bracket."
  | beginLoop => "Beginning a loop"
  | strayEnd => "Closing bracket without an opening bracket"
  | leaveLoop => "Breaking out of a loop"
  | repeatLoop target p v =>
    s!"Moving execution back to {target.text} until value at position {p} is zero (currently {v})"
  | unknown => "?? unknown intent ??"

end Prospect

end Brainfuck
