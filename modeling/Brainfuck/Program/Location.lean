/-! # Locations

A place in a program text, as a line counted from one and a column counted from the start of the
line. A bookmark may be given any two numbers, so both are integers. -/
namespace Brainfuck

/-- A line and a column. The place before the first byte is column zero of line one. -/
structure Location where
  line : Int := 1
  column : Int := 0
  deriving DecidableEq, Repr, Inhabited

namespace Location

/-- The place after one more byte. A line feed opens a line and a carriage return takes no room. -/
def advance (l : Location) (b : UInt8) : Location :=
  if b = 10 then ⟨l.line + 1, 0⟩
  else if b = 13 then l
  else ⟨l.line, l.column + 1⟩

/-- The place after the bytes of a text, read from its start. -/
def after (text : List UInt8) : Location := text.foldl advance {}

/-- Text read in two parts ends where the second part, read from the end of the first, ends. -/
theorem after_append (first second : List UInt8) :
    after (first ++ second) = second.foldl advance (after first) := by
  simp [after]

def text (l : Location) : String := s!"L{l.line} C{l.column}"

end Location

end Brainfuck
