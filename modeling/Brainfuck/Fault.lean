import Brainfuck.Text.Quoted

/-! # Faults

A fault ends an operation: what was asked cannot be done or has no result that can be represented.
Problems of a program are diagnostics and no faults; a fault is met only where a number leaves the
range of its representation or is too long to be written, where a place that does not exist is asked
for, where a file or a console cannot be read or written, or where there is no room for a tape. -/
namespace Brainfuck

/-- The first number that is too large for a signed word of 64 bits. -/
def wordLimit : Nat := 0x8000000000000000

def fitsWord (n : Int) : Bool := -(wordLimit : Int) ≤ n && n < (wordLimit : Int)

/-- The first number that is too large for a signed word of 32 bits. -/
def shortWordLimit : Nat := 0x80000000

/-- Why an operation has no result. -/
inductive Fault
  | tapeTooShort
  | cellRangeEmpty
  | cellTooLarge
  | noSuchCell (index : Int) (length : Nat)
  | notAnIndex (index : Int)
  | notACharacter
  | characterTooLarge
  | noSuchInstruction
  | instructionIndexTooLarge
  | negativeOffset (offset : Int)
  | invalidOffset
  | offsetTooLarge
  | missingFile (name : String)
  | directory (name : String)
  | notADirectory (name : String)
  | nameTooLong (name : String)
  | permissionDenied (name : String)
  | nulInName
  | noRoom (length : Nat)
  | tooManyDigits
  | notEncodable (code : Nat)
  | undecodableInput
  deriving DecidableEq, Repr

namespace Fault

/-- Why a number is no code point. It has to fit a short word before it is compared with the largest
code point. -/
def ofCode (code : Nat) : Fault := if code < shortWordLimit then notACharacter else characterTooLarge

def message : Fault → String
  | tapeTooShort => "tape length must be at least 1"
  | cellRangeEmpty => "cell_max must be at least 1"
  | cellTooLarge => "value does not fit a cell"
  | noSuchCell index length => s!"index {index} is out of bounds for axis 0 with size {length}"
  | notAnIndex _ =>
    "only integers, slices (`:`), ellipsis (`...`), numpy.newaxis (`None`) and integer or boolean " ++
      "arrays are valid indices"
  | notACharacter => "chr() arg not in range(0x110000)"
  | characterTooLarge => "value does not fit a code point"
  | noSuchInstruction => "list index out of range"
  | instructionIndexTooLarge => "cannot fit 'int' into an index-sized integer"
  | negativeOffset offset => s!"negative seek value {offset}"
  | invalidOffset => "[Errno 22] Invalid argument"
  | offsetTooLarge => "offset does not fit a file position"
  | missingFile name => s!"[Errno 2] No such file or directory: {Text.quoted name}"
  | directory name => s!"[Errno 21] Is a directory: {Text.quoted name}"
  | notADirectory name => s!"[Errno 20] Not a directory: {Text.quoted name}"
  | nameTooLong name => s!"[Errno 36] File name too long: {Text.quoted name}"
  | permissionDenied name => s!"[Errno 13] Permission denied: {Text.quoted name}"
  | nulInName => "embedded null byte"
  | noRoom length => s!"there is no room for a tape of {length} cells"
  | tooManyDigits =>
    "Exceeds the limit (4300 digits) for integer string conversion; use " ++
      "sys.set_int_max_str_digits() to increase the limit"
  | notEncodable code => s!"the code point {code} cannot be encoded: surrogates not allowed"
  | undecodableInput => "the console does not hold text"

end Fault

end Brainfuck
