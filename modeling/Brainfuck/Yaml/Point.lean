import Brainfuck.Yaml.Error

/-! # Places in a text

Reading a settings file depends on columns, so the rest of the text is kept together with the line
and the column at which it starts. The end of the text is seen as the character of code zero, which
no text contains, since it does not print. -/
namespace Brainfuck.Yaml

/-- The character that is seen at the end of a text. -/
def endMark : Char := '\x00'

def isBreak (c : Char) : Bool :=
  c == '\n' || c == '\r' || c == '\u0085' || c == '\u2028' || c == '\u2029'

def isLineEnd (c : Char) : Bool := c == endMark || isBreak c

/-- A space, or the end of a line or of the text. -/
def isSpaceOrEnd (c : Char) : Bool := c == ' ' || isLineEnd c

/-- A blank, or the end of a line or of the text. -/
def isBlankOrEnd (c : Char) : Bool := c == '\t' || isSpaceOrEnd c

def isGap (c : Char) : Bool := c == ' ' || c == '\t'

/-- A character of names. -/
def isWordChar (c : Char) : Bool := c.isAlphanum || c == '-' || c == '_'

def isHexDigit (c : Char) : Bool :=
  c.isDigit || ('a' ≤ c && c ≤ 'f') || ('A' ≤ c && c ≤ 'F')

def ofHexDigits (digits : List Char) : Nat :=
  digits.foldl (fun n c =>
    16 * n + (if c.isDigit then c.toNat - 48 else c.toLower.toNat - 87)) 0

/-- A place in a text. -/
structure Point where
  rest : List Char
  index : Nat := 0
  line : Nat := 0
  column : Nat := 0
  deriving Repr, Inhabited

namespace Point

def peek (p : Point) : Char := p.rest.head?.getD endMark

/-- The character some places further on. -/
def peekAt (p : Point) (k : Nat) : Char := p.rest[k]?.getD endMark

/-- The place after the next character. A byte order mark takes no column, and of a carriage return
and a line feed together only the second ends the line. -/
def forward (p : Point) : Point :=
  match p.rest with
  | [] => p
  | c :: rest =>
    if isBreak c && !(c == '\r' && rest.head? == some '\n') then ⟨rest, p.index + 1, p.line + 1, 0⟩
    else ⟨rest, p.index + 1, p.line, if c == '\uFEFF' then p.column else p.column + 1⟩

def forwardBy : Nat → Point → Point
  | 0, p => p
  | k + 1, p => forwardBy k p.forward

/-- The characters of a text, of which `p` is the place, as long as they satisfy `q`. -/
def spanFrom (q : Char → Bool) : List Char → Point → List Char × Point
  | [], p => ([], p)
  | c :: rest, p =>
    if q c then
      let (taken, p) := spanFrom q rest p.forward
      (c :: taken, p)
    else ([], p)

/-- The characters from the place on as long as they satisfy `q`, and the place after them. -/
def span (p : Point) (q : Char → Bool) : List Char × Point := spanFrom q p.rest p

def skip (p : Point) (q : Char → Bool) : Point := (p.span q).2

def skipSpaces (p : Point) : Point := p.skip (· == ' ')

/-- A line break as it counts in a text, and the place after it. -/
def lineBreak (p : Point) : List Char × Point :=
  let c := p.peek
  if c == '\r' && p.peekAt 1 == '\n' then (['\n'], p.forward.forward)
  else if c == '\n' || c == '\r' || c == '\u0085' then (['\n'], p.forward)
  else if isBreak c then ([c], p.forward)
  else ([], p)

/-- Whether a line of three dashes or three dots begins here, which separates documents. -/
def atSeparator (p : Point) : Bool :=
  (p.rest.take 3 == ['-', '-', '-'] || p.rest.take 3 == ['.', '.', '.']) && isBlankOrEnd (p.peekAt 3)

/-- The place after a comment, if there is one. -/
def skipComment (p : Point) : Point := if p.peek == '#' then p.skip (!isLineEnd ·) else p

/-- The place on the next line, when nothing but a comment may stand on this one. -/
def endOfLine (rule : Rule) (p : Point) : Except Error Point :=
  let p := p.skipSpaces.skipComment
  if isLineEnd p.peek then .ok p.lineBreak.2 else .error (.rule rule)

/-- The most rounds that a loop over the rest of the text can take. -/
def rounds (p : Point) : Nat := p.rest.length + 1

end Point

end Brainfuck.Yaml
