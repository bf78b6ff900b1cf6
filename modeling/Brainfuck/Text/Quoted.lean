import Brainfuck.Text.Printable

/-! # Quoted text

Text inside a message is written between quotes so that its ends can be seen. The quote is a single
one unless the text holds a single quote and no double quote. Backslashes, the chosen quote and
characters that do not print are written as escapes; everything else stands as itself. -/
namespace Brainfuck.Text

/-- The `width` lowest hexadecimal digits of a number. -/
def hexDigits : Nat → Nat → List Char
  | 0, _ => []
  | width + 1, n => hexDigits width (n / 16) ++ [Nat.digitChar (n % 16)]

/-- One code point inside quotes of the given kind. -/
def quotedCode (quote : Char) (n : Nat) : List Char :=
  if n = quote.toNat || n = 92 then ['\\', Char.ofNat n]
  else if n = 10 then ['\\', 'n']
  else if n = 13 then ['\\', 'r']
  else if n = 9 then ['\\', 't']
  else if isPrintable n then [Char.ofNat n]
  else if n < 0x100 then '\\' :: 'x' :: hexDigits 2 n
  else if n < 0x10000 then '\\' :: 'u' :: hexDigits 4 n
  else '\\' :: 'U' :: hexDigits 8 n

def quoteFor (codes : List Nat) : Char :=
  if codes.contains 39 && !codes.contains 34 then '"' else '\''

/-- Code points between quotes. They may include surrogates, which are always written as escapes. -/
def quotedCodes (codes : List Nat) : String :=
  let quote := quoteFor codes
  String.ofList (quote :: codes.flatMap (quotedCode quote) ++ [quote])

def quoted (text : String) : String := quotedCodes (text.toList.map Char.toNat)

end Brainfuck.Text
