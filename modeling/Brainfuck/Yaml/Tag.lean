import Brainfuck.Yaml.Timestamp

/-! # Tags

A tag names the kind of value that a node is. A text that is left to its form is of the kind that the
form suggests: a truth value, a number, a date, nothing, a special key, an indicator that stands alone,
or else a text. A line feed at the end does not count towards the form. -/
namespace Brainfuck.Yaml

namespace Tag

/-- What all tags of the standard begin with. -/
def standard : String := "tag:yaml.org,2002:"

/-! The kinds of values that the standard names. -/

def null : String := standard ++ "null"
def bool : String := standard ++ "bool"
def int : String := standard ++ "int"
def float : String := standard ++ "float"
def binary : String := standard ++ "binary"
def timestamp : String := standard ++ "timestamp"
def omap : String := standard ++ "omap"
def pairs : String := standard ++ "pairs"
def set : String := standard ++ "set"
def str : String := standard ++ "str"
def seq : String := standard ++ "seq"
def map : String := standard ++ "map"
def merge : String := standard ++ "merge"
def value : String := standard ++ "value"
def indicator : String := standard ++ "yaml"

/-- The part of a text that its form is told from: all but one line feed at its end. A line feed by
itself has no form and stays. -/
def formPart (text : List Char) : List Char :=
  if text.length ≠ 1 ∧ text.getLast? = some '\n' then text.dropLast else text

/-- The words for true and false, in lower case. -/
def truthWords : List (String × Bool) :=
  [("yes", true), ("no", false), ("true", true), ("false", false), ("on", true), ("off", false)]

/-- A word in lower case, with a capital or in capitals throughout. -/
def spellings (word : String) : List String := [word, word.capitalize, word.toUpper]

/-- A text without a sign at its front. -/
def unsigned : List Char → List Char
  | '-' :: rest => rest
  | '+' :: rest => rest
  | text => text

/-- Whether a text is not empty and consists of characters that satisfy `p` and of underscores. -/
def isRun (p : Char → Bool) (text : List Char) : Bool :=
  !text.isEmpty && text.all fun c => p c || c == '_'

def isOctal (c : Char) : Bool := '0' ≤ c && c ≤ '7'

def isHex (c : Char) : Bool := c.isDigit || ('a' ≤ c && c ≤ 'f') || ('A' ≤ c && c ≤ 'F')

/-- Digits and underscores with a digit in front. -/
def isDigits : List Char → Bool
  | [] => false
  | c :: rest => c.isDigit && rest.all fun d => d.isDigit || d == '_'

/-- Digits and underscores with a digit other than zero in front. -/
def isPositive (text : List Char) : Bool := isDigits text && text.head? != some '0'

/-- A number below sixty of one or two digits. -/
def isSixtieth : List Char → Bool
  | [a] => a.isDigit
  | [a, b] => '0' ≤ a && a ≤ '5' && b.isDigit
  | _ => false

/-- The parts of a text between colons. -/
def colonParts (text : List Char) : List (List Char) := text.splitOn ':'

/-- Whether a text is a number in parts of sixty, the first of which satisfies `p`. -/
def isSexagesimal (p : List Char → Bool) (text : List Char) : Bool :=
  match colonParts text with
  | first :: second :: rest => p first && (second :: rest).all isSixtieth
  | _ => false

/-- The form of a whole number. -/
def isInt (text : List Char) : Bool :=
  let body := unsigned text
  match body with
  | ['0'] => true
  | '0' :: rest =>
    isRun isOctal rest ||
      match rest with
      | 'b' :: digits => isRun (fun c => c == '0' || c == '1') digits
      | 'x' :: digits => isRun isHex digits
      | _ => false
  | _ => isPositive body || isSexagesimal isPositive body

/-- The form of an exponent, which may be left out. -/
def isExponent : List Char → Bool
  | [] => true
  | e :: sign :: digits =>
    (e == 'e' || e == 'E') && (sign == '+' || sign == '-') && !digits.isEmpty
      && digits.all Char.isDigit
  | _ => false

/-- The form of a number with a fraction. -/
def isFloat (text : List Char) : Bool :=
  let body := unsigned text
  let whole := body.takeWhile (· != '.')
  let isPart (c : Char) : Bool := c.isDigit || c == '_'
  match body.drop whole.length with
  | '.' :: rest =>
    let fraction := rest.takeWhile isPart
    let exponent := rest.dropWhile isPart
    if whole.isEmpty then
      (body == text && isDigits fraction && isExponent exponent)
        || (spellings "inf").contains (String.ofList rest)
        || (body == text && ["nan", "NaN", "NAN"].contains (String.ofList rest))
    else
      (isDigits whole && isExponent exponent)
        || (isSexagesimal isDigits whole && exponent.isEmpty)
  | _ => false

/-- The tag that the form of a text suggests. Only a text without any character is nothing. -/
def ofForm (written : String) : String :=
  let chars := formPart written.toList
  let text := String.ofList chars
  if truthWords.any fun (w, _) => (spellings w).contains text then bool
  else if isFloat chars then float
  else if isInt chars then int
  else if text == "<<" then merge
  else if text == "" || text == "~" || (spellings "null").contains text then null
  else if Timestamp.isImplicit chars then timestamp
  else if text == "=" then value
  else if ["!", "&", "*"].contains text then indicator
  else str

end Tag

end Brainfuck.Yaml
