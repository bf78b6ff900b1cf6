import Brainfuck.Number.Binary64
import Brainfuck.Text.Blank
import Brainfuck.Text.Letter
import Brainfuck.Text.Quoted

/-! # Reading numbers

Numerals are read in any decimal digits that writing systems have, with blanks around them, a sign in
front and single underscores between digits. Decimal whole numbers of more than a fixed number of
digits are refused, because their conversion is slow. -/
namespace Brainfuck

namespace Numeral

/-- The zeros of all rows of decimal digits; each is followed by the nine other digits of its row. -/
def zeros : List Nat := [
  48, 1632, 1776, 1984, 2406, 2534, 2662, 2790, 2918, 3046, 3174, 3302, 3430, 3558, 3664, 3792,
  3872, 4160, 4240, 6112, 6160, 6470, 6608, 6784, 6800, 6992, 7088, 7232, 7248, 42528, 43216, 43264,
  43472, 43504, 43600, 44016, 65296, 66720, 68912, 69734, 69872, 69942, 70096, 70384, 70736, 70864,
  71248, 71360, 71472, 71904, 72016, 72784, 73040, 73120, 92768, 92864, 93008, 120782, 120792,
  120802, 120812, 120822, 123200, 123632, 125264, 130032]

def digit? (c : Char) : Option Nat :=
  (zeros.find? fun z => z ≤ c.toNat && c.toNat < z + 10).map (c.toNat - ·)

/-- A blank that may stand around a numeral. The separators of records among the control characters
may not. -/
def isMargin (c : Char) : Bool := Text.isBlank c && !(28 ≤ c.toNat && c.toNat ≤ 31)

def maxDigits : Nat := 4300

/-- Whether a whole number is written out where no number of more digits than the given ones is. -/
def isWritten (digits : Option Nat) (n : Int) : Bool := digits.all fun d => n.natAbs < Nat.pow 10 d

inductive Error
  | malformed (base : Nat) (text : String)
  | tooLong (digits : Nat)
  | notAFloat (text : String)
  deriving DecidableEq, Repr

/-- The text of an error shows at most this much of a malformed numeral. -/
def shownLength : Nat := 200

def Error.message : Error → String
  | malformed base text =>
    s!"invalid literal for int() with base {base}: " ++
      String.ofList ((Text.quoted text).toList.take shownLength)
  | tooLong digits =>
    s!"Exceeds the limit ({maxDigits} digits) for integer string conversion: value has {digits} " ++
      "digits; use sys.set_int_max_str_digits() to increase the limit"
  | notAFloat text => s!"could not convert string to float: {Text.quoted text}"

/-- The value of a digit in a base of up to thirty-six, where letters follow the decimal digits. -/
def digitIn? (base : Nat) (c : Char) : Option Nat :=
  let value :=
    match digit? c with
    | some d => some d
    | none => if c.isAlpha then some (c.toLower.toNat - 87) else none
  value.filter (· < base)

def beginsWithDigit (base : Nat) : List Char → Bool
  | [] => false
  | c :: _ => (digitIn? base c).isSome

/-- The digits at the front of a text and what follows them. After a digit a single underscore may
stand if another digit follows; an underscore with no digit behind it spoils the numeral. -/
def takeDigitsAfter (base : Nat) (afterDigit : Bool) : List Char → Option (List Nat × List Char)
  | [] => some ([], [])
  | c :: rest =>
    if afterDigit && c == '_' then
      if beginsWithDigit base rest then takeDigitsAfter base false rest else none
    else
      match digitIn? base c with
      | none => some ([], c :: rest)
      | some d =>
        (takeDigitsAfter base true rest).map fun (digits, following) => (d :: digits, following)

def takeDigits (text : List Char) : Option (List Nat × List Char) := takeDigitsAfter 10 false text

def ofDigitsIn (base : Nat) (digits : List Nat) : Nat := digits.foldl (fun n d => base * n + d) 0

def ofDigits (digits : List Nat) : Nat := ofDigitsIn 10 digits

/-- A sign at the front of a text, as whether it is a minus, and what follows. -/
def takeSign : List Char → Bool × List Char
  | '-' :: rest => (true, rest)
  | '+' :: rest => (false, rest)
  | text => (false, text)

/-- A text without the mark of its base at the front; an underscore may stand after the mark. -/
def dropBaseMark (base : Nat) (text : List Char) : List Char :=
  let mark := if base = 2 then some 'b' else if base = 8 then some 'o' else if base = 16 then some 'x'
    else none
  match text with
  | '0' :: m :: rest =>
    if mark = some m.toLower then
      match rest with
      | '_' :: more => if beginsWithDigit base more then more else text
      | _ => if beginsWithDigit base rest then rest else text
    else text
  | _ => text

/-- The whole number that a text writes in a base. Only where the base is no power of two is the
number of digits limited. -/
def parseBase (base : Nat) (text : String) : Except Error Int :=
  let malformed := Error.malformed base text
  let (negative, body) := takeSign (text.toList.dropWhile isMargin)
  match takeDigitsAfter base false (dropBaseMark base body) with
  | none => .error malformed
  | some (digits, rest) =>
    if digits.isEmpty then .error malformed
    else if base = 10 ∧ maxDigits < digits.length then .error (.tooLong digits.length)
    else if rest.all isMargin then
      .ok (if negative then -(ofDigitsIn base digits : Int) else ofDigitsIn base digits)
    else .error malformed

def parseInt (text : String) : Except Error Int := parseBase 10 text

/-- The digits after an exponent mark, with their sign. No mark stands for the exponent zero. -/
def takeExponent : List Char → Option (Int × List Char)
  | [] => some (0, [])
  | c :: rest =>
    if c = 'e' ∨ c = 'E' then
      let (negative, body) := takeSign rest
      match takeDigits body with
      | some (d :: ds, following) =>
        let n : Int := ofDigits (d :: ds)
        some (if negative then -n else n, following)
      | _ => none
    else some (0, c :: rest)

/-- The digits of a number with a fraction: those before the point, those after it, and the rest. -/
def takeFraction (text : List Char) : Option (List Nat × List Nat × List Char) :=
  match takeDigits text with
  | none => none
  | some (whole, '.' :: rest) => (takeDigits rest).map fun (ds, following) => (whole, ds, following)
  | some (whole, rest) => some (whole, [], rest)

/-- The number of double precision that a text writes, in positional or exponent notation or as one of
the words for infinity and for no number. -/
def parseFloat (text : String) : Except Error Binary64 :=
  let trimmed := Text.stripEndWhile isMargin (text.toList.dropWhile isMargin)
  let (negative, body) := takeSign trimmed
  let word := String.ofList (body.map Char.toLower)
  if word = "inf" ∨ word = "infinity" then .ok (.infinite negative)
  else if word = "nan" then .ok .undefined
  else
    match takeFraction body with
    | none => .error (.notAFloat text)
    | some (whole, fraction, rest) =>
      if whole.isEmpty && fraction.isEmpty then .error (.notAFloat text)
      else
        match takeExponent rest with
        | some (exponent, []) =>
          .ok (.ofDecimal negative (ofDigits (whole ++ fraction)) (exponent - fraction.length))
        | _ => .error (.notAFloat text)

end Numeral

end Brainfuck
