/-! # Operators

The eight operators of the language and the bytes that spell them. A program is a sequence of bytes;
every byte that spells no operator is either blank, and silently passed over, or a decoding error. -/
namespace Brainfuck

/-- An instruction of the language. -/
inductive Operator
  | right
  | left
  | increment
  | decrement
  | output
  | input
  | loopStart
  | loopEnd
  deriving DecidableEq, Repr, Inhabited

namespace Operator

def byte : Operator → UInt8
  | right => 62
  | left => 60
  | increment => 43
  | decrement => 45
  | output => 46
  | input => 44
  | loopStart => 91
  | loopEnd => 93

/-- The operator that a byte spells, if it spells one. -/
def ofByte? (b : UInt8) : Option Operator :=
  match b.toNat with
  | 62 => some right
  | 60 => some left
  | 43 => some increment
  | 45 => some decrement
  | 46 => some output
  | 44 => some input
  | 91 => some loopStart
  | 93 => some loopEnd
  | _ => none

@[simp] theorem ofByte?_byte (op : Operator) : ofByte? op.byte = some op := by
  cases op <;> rfl

end Operator

/-- Space, tab, carriage return and line feed lay out a program and mean nothing. -/
def isLayout (b : UInt8) : Bool := b == 32 || b == 9 || b == 13 || b == 10

end Brainfuck
