import Brainfuck.Yaml.Token.Property
import Brainfuck.Yaml.Token.Scalar

/-! # The tokens of a text

A text is read into tokens from its start to its end. Indentation opens and closes blocks. What comes
before a colon is known as a key only when the colon is met, so the place of every text that may turn
out to be a key is remembered, one for each depth of brackets, and the tokens for a key are put there
afterwards. Such a key is short and stays on its line. -/
namespace Brainfuck.Yaml

/-- The place of what may turn out to be a key. It is required where nothing else can stand. -/
structure PossibleKey where
  token : Nat
  required : Bool
  index : Nat
  line : Nat
  column : Nat

/-- The tokens read so far, and what governs the reading of the next. -/
structure TokenReader where
  point : Point
  depth : Nat := 0
  indent : Int := -1
  outerIndents : List Int := []
  keyAllowed : Bool := true
  possibleKeys : List (Nat × PossibleKey) := []
  tokens : Array Token := #[]

namespace TokenReader

def inFlow (r : TokenReader) : Bool := 0 < r.depth

def push (r : TokenReader) (t : Token) : TokenReader := { r with tokens := r.tokens.push t }

/-- One more token, spelled by one or more characters. -/
def take (r : TokenReader) (t : Token) (length : Nat) : TokenReader :=
  { r.push t with point := r.point.forwardBy length }

def allowKey (r : TokenReader) (allowed : Bool) : TokenReader := { r with keyAllowed := allowed }

/-- The place at the next token. Blank lines and comments are passed over, and outside brackets a new
line allows a key. -/
def toNextToken : Nat → TokenReader → TokenReader
  | 0, r => r
  | rounds + 1, r =>
    let p := r.point.skipSpaces.skipComment
    if isBreak p.peek then
      toNextToken rounds
        { r with point := p.lineBreak.2, keyAllowed := r.keyAllowed || !r.inFlow }
    else { r with point := p }

/-- The longest text that may be a key, in characters. -/
def maxKeyLength : Nat := 1024

/-- Forgets the places that can no longer be keys. -/
def dropStaleKeys (r : TokenReader) : Except Error TokenReader :=
  let stale (k : PossibleKey) : Bool :=
    k.line != r.point.line || r.point.index - k.index > maxKeyLength
  if r.possibleKeys.any fun (_, k) => stale k && k.required then .error (.rule .simpleKey)
  else .ok { r with possibleKeys := r.possibleKeys.filter fun (_, k) => !stale k }

/-- Forgets what might have been a key at the present depth. -/
def dropKey (r : TokenReader) : Except Error TokenReader :=
  match r.possibleKeys.lookup r.depth with
  | none => .ok r
  | some k =>
    if k.required then .error (.rule .simpleKey)
    else .ok { r with possibleKeys := r.possibleKeys.filter fun (d, _) => d != r.depth }

/-- Remembers that what comes next may be a key. -/
def noteKey (r : TokenReader) : Except Error TokenReader :=
  if !r.keyAllowed then .ok r
  else do
    let required := !r.inFlow && r.indent == r.point.column
    let r ← r.dropKey
    let k : PossibleKey :=
      ⟨r.tokens.size, required, r.point.index, r.point.line, r.point.column⟩
    return { r with possibleKeys := (r.depth, k) :: r.possibleKeys }

/-- Closes the blocks that are indented deeper than a column. -/
def closeBlocks (column : Int) : Nat → TokenReader → TokenReader
  | 0, r => r
  | rounds + 1, r =>
    if r.indent > column then
      closeBlocks column rounds
        { r.push .blockEnd with
          indent := r.outerIndents.head?.getD (-1)
          outerIndents := r.outerIndents.tail }
    else r

/-- Closes the blocks that end before a column. Brackets know no indentation. -/
def unwind (r : TokenReader) (column : Int) : TokenReader :=
  if r.inFlow then r else closeBlocks column (r.outerIndents.length + 1) r

/-- Opens a block at a column that is deeper than the present one, and tells whether it did. -/
def indentTo (r : TokenReader) (column : Int) : TokenReader × Bool :=
  if r.indent < column then
    ({ r with indent := column, outerIndents := r.indent :: r.outerIndents }, true)
  else (r, false)

/-- Opens a block at the present column with the given token, outside brackets. -/
def openBlock (r : TokenReader) (t : Token) : TokenReader :=
  if r.inFlow then r
  else
    let (r, opened) := r.indentTo r.point.column
    if opened then r.push t else r

/-- Ends the present line of thought: all blocks are closed and no key is awaited. -/
def reset (r : TokenReader) : Except Error TokenReader := do
  return (← (r.unwind (-1)).dropKey).allowKey false

def blockEntry (r : TokenReader) : Except Error TokenReader := do
  if !r.inFlow && !r.keyAllowed then throw (.rule .entryPlace)
  let r := (r.openBlock .blockSequenceStart).allowKey true
  return (← r.dropKey).take .blockEntry 1

def keyMark (r : TokenReader) : Except Error TokenReader := do
  if !r.inFlow && !r.keyAllowed then throw (.rule .keyPlace)
  let r := (r.openBlock .blockMappingStart).allowKey (!r.inFlow)
  return (← r.dropKey).take .key 1

/-- The mark of a value. If what came before may be a key, it is one, and may open a block. -/
def valueMark (r : TokenReader) : Except Error TokenReader :=
  match r.possibleKeys.lookup r.depth with
  | some k =>
    let r := { r with possibleKeys := r.possibleKeys.filter fun (d, _) => d != r.depth }
    let (r, opened) := if r.inFlow then (r, false) else r.indentTo k.column
    let marks := if opened then #[Token.blockMappingStart, .key] else #[Token.key]
    let tokens := r.tokens.extract 0 k.token ++ marks ++ r.tokens.extract k.token r.tokens.size
    .ok (({ r with tokens := tokens }.allowKey false).take .value 1)
  | none => do
    if !r.inFlow && !r.keyAllowed then throw (.rule .valuePlace)
    let r := (r.openBlock .blockMappingStart).allowKey (!r.inFlow)
    return (← r.dropKey).take .value 1

def openBracket (r : TokenReader) (t : Token) : Except Error TokenReader := do
  let r ← r.noteKey
  return ({ r with depth := r.depth + 1 }.allowKey true).take t 1

/-- A closing bracket, of which there are no more than opening ones. -/
def closeBracket (r : TokenReader) (t : Token) : Except Error TokenReader := do
  let r ← r.dropKey
  if r.depth == 0 then throw (.rule .collectionEnd)
  return ({ r with depth := r.depth - 1 }.allowKey false).take t 1

/-- A name or a text that may be a key. -/
def named {α : Type} (r : TokenReader) (read : Point → Except Error (α × Point)) (token : α → Token) :
    Except Error TokenReader := do
  let r ← r.noteKey
  let (a, p) ← read r.point
  return { r.push (token a) with point := p, keyAllowed := false }

/-- A text given as a block of lines. -/
def blockScalar (r : TokenReader) (folded : Bool) : Except Error TokenReader := do
  let r ← (r.allowKey true).dropKey
  let (text, p) ← Scalar.block folded r.indent r.point.forward
  return { r.push (.scalar (String.ofList text) false) with point := p }

/-- A text between quotes. -/
def quotedScalar (r : TokenReader) (double : Bool) : Except Error TokenReader :=
  r.named (fun p => Scalar.quotedText double p.rounds [] p.forward)
    fun text => .scalar (String.ofList text) false

/-- A plain text. A key may come after it on a new line. -/
def plainScalar (r : TokenReader) : Except Error TokenReader := do
  let r ← r.noteKey
  let (text, broken, p) :=
    Scalar.plain r.inFlow (r.indent + 1) r.point.rounds [] [] false r.point
  return { r.push (.scalar (String.ofList text) true) with point := p, keyAllowed := broken }

/-- Whether a plain text may begin at a place. -/
def beginsPlain (inFlow : Bool) (p : Point) : Bool :=
  let c := p.peek
  if isBlankOrEnd c then false
  else if c == '-' then !isBlankOrEnd (p.peekAt 1)
  else if c == '?' || c == ':' then !inFlow && !isBlankOrEnd (p.peekAt 1)
  else !([',', '[', ']', '{', '}', '#', '&', '*', '!', '|', '>', '\'', '"', '%', '@', '\x60'].contains c)

/-- Reads the token at the present place, which is not the end of the text. -/
def readToken (r : TokenReader) : Except Error TokenReader :=
  let p := r.point
  let c := p.peek
  let blankNext := isBlankOrEnd (p.peekAt 1)
  let separator := p.column == 0 && p.atSeparator
  if c == '%' && p.column == 0 then do
    let r ← r.reset
    let (d, p) ← Property.directive p
    return { r.push (.directive d) with point := p }
  else if c == '-' && separator then do return (← r.reset).take .documentStart 3
  else if c == '.' && separator then do return (← r.reset).take .documentEnd 3
  else if c == '[' then r.openBracket .flowSequenceStart
  else if c == '{' then r.openBracket .flowMappingStart
  else if c == ']' then r.closeBracket .flowSequenceEnd
  else if c == '}' then r.closeBracket .flowMappingEnd
  else if c == ',' then do return (← (r.allowKey true).dropKey).take .flowEntry 1
  else if c == '-' && blankNext then r.blockEntry
  else if c == '?' && (r.inFlow || blankNext) then r.keyMark
  else if c == ':' && (r.inFlow || blankNext) then r.valueMark
  else if c == '*' then r.named Property.anchorName .alias
  else if c == '&' then r.named Property.anchorName .anchor
  else if c == '!' then r.named Property.tag .tag
  else if c == '|' && !r.inFlow then r.blockScalar false
  else if c == '>' && !r.inFlow then r.blockScalar true
  else if c == '\'' then r.quotedScalar false
  else if c == '"' then r.quotedScalar true
  else if beginsPlain r.inFlow p then r.plainScalar
  else .error (.rule .tokenStart)

/-- Reads all tokens up to the end of the text. -/
def readAll : Nat → TokenReader → Except Error (Array Token)
  | 0, _ => .error (.rule .tokenStart)
  | rounds + 1, r => do
    let r ← (toNextToken r.point.rounds r).dropStaleKeys
    let r := r.unwind r.point.column
    if r.point.rest.isEmpty then return (← r.reset).tokens
    else readAll rounds (← r.readToken)

end TokenReader

/-- A character that may stand in a settings file. -/
def isAllowed (c : Char) : Bool :=
  let n := c.toNat
  n == 9 || n == 10 || n == 13 || (0x20 ≤ n && n ≤ 0x7E) || n == 0x85 || (0xA0 ≤ n && n ≤ 0xD7FF)
    || (0xE000 ≤ n && n ≤ 0xFFFD) || 0x10000 ≤ n

/-- The tokens of a text, which may begin with a byte order mark. -/
def Token.ofText (text : List Char) : Except Error (List Token) :=
  if text.all isAllowed then
    let start : Point := ⟨text, 0, 0, 0⟩
    let start := if start.peek == '\uFEFF' then start.forward else start
    (TokenReader.readAll start.rounds { point := start }).map Array.toList
  else .error (.rule .printable)

end Brainfuck.Yaml
