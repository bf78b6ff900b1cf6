import Brainfuck.Fault
import Brainfuck.Yaml.Point

/-! # Texts of settings files

A text is written in one of four ways: plainly, between quotes of one of two kinds, or as a block of
lines below its header. Each way has its own rule for what becomes of line breaks. -/
namespace Brainfuck.Yaml

namespace Scalar

/-! ## Blocks of lines -/

/-- What the header of a block says about the line breaks at its end, and its indentation if given. -/
structure Header where
  keep : Option Bool
  indentation : Option Nat

/-- A sign for the line breaks at the end of a block. -/
def chomping? (c : Char) : Option Bool :=
  if c == '+' then some true else if c == '-' then some false else none

/-- The indentation given in a header, which is not zero. -/
def indentation? (c : Char) : Except Error (Option Nat) :=
  if c == '0' then .error (.rule .blockHeader)
  else .ok (if c.isDigit then some (c.toNat - 48) else none)

/-- The header of a block, up to the start of its first line. -/
def header (p : Point) : Except Error (Header × Point) := do
  let (h, p) ←
    match chomping? p.peek with
    | some keep =>
      let p := p.forward
      let width ← indentation? p.peek
      pure (Header.mk (some keep) width, if width.isSome then p.forward else p)
    | none =>
      match ← indentation? p.peek with
      | none => pure (Header.mk none none, p)
      | some width =>
        let p := p.forward
        match chomping? p.peek with
        | some keep => pure (Header.mk (some keep) (some width), p.forward)
        | none => pure (Header.mk none (some width), p)
  if isSpaceOrEnd p.peek then return (h, ← p.endOfLine .blockHeader)
  else throw (.rule .blockHeader)

/-- The blank lines at the start of a block, and the largest indentation found on them or after them. -/
def leadingBreaks : Nat → Nat → List Char → Point → Nat × List Char × Point
  | 0, widest, breaks, p => (widest, breaks, p)
  | rounds + 1, widest, breaks, p =>
    if p.peek == ' ' then
      let p := p.forward
      leadingBreaks rounds (max widest p.column) breaks p
    else if isBreak p.peek then
      let (b, p) := p.lineBreak
      leadingBreaks rounds widest (breaks ++ b) p
    else (widest, breaks, p)

/-- The place after the spaces of an indentation. -/
def skipIndent (indent : Nat) : Nat → Point → Point
  | 0, p => p
  | rounds + 1, p =>
    if p.column < indent && p.peek == ' ' then skipIndent indent rounds p.forward else p

/-- Blank lines inside a block of the given indentation. -/
def innerBreaks (indent : Nat) : Nat → List Char → Point → List Char × Point
  | 0, breaks, p => (breaks, p)
  | rounds + 1, breaks, p =>
    let p := skipIndent indent indent p
    if isBreak p.peek then
      let (b, p) := p.lineBreak
      innerBreaks indent rounds (breaks ++ b) p
    else (breaks, p)

/-- The lines of a block. A folded block joins two lines by a space, unless one of them starts with a
blank or blank lines lie between. The result is the text, the break after its last line and the blank
lines after that. -/
def blockLines (folded : Bool) (indent : Nat) :
    Nat → List Char → List Char → List Char → Point →
      List Char × List Char × List Char × Point
  | 0, text, last, breaks, p => (text, last, breaks, p)
  | rounds + 1, text, last, breaks, p =>
    if p.column == indent && p.peek != endMark then
      let text := text ++ breaks
      let solid := !isGap p.peek
      let (line, p) := p.span (!isLineEnd ·)
      let text := text ++ line
      let (last, p) := p.lineBreak
      let (breaks, p) := innerBreaks indent p.rounds [] p
      if p.column == indent && p.peek != endMark then
        let joint :=
          if folded && last == ['\n'] && solid && !isGap p.peek then
            if breaks.isEmpty then [' '] else []
          else last
        blockLines folded indent rounds (text ++ joint) [] breaks p
      else (text, last, breaks, p)
    else (text, last, breaks, p)

/-- The text of a block below the indentation `outer`, read from its header on. -/
def block (folded : Bool) (outer : Int) (p : Point) : Except Error (List Char × Point) := do
  let (h, p) ← header p
  let least := (max 1 (outer + 1)).toNat
  let (indent, breaks, p) :=
    match h.indentation with
    | none =>
      let (widest, breaks, p) := leadingBreaks p.rounds 0 [] p
      (max least widest, breaks, p)
    | some width =>
      let indent := least + width - 1
      let (breaks, p) := innerBreaks indent p.rounds [] p
      (indent, breaks, p)
  let (text, last, breaks, p) := blockLines folded indent p.rounds [] [] breaks p
  let text := if h.keep == some false then text else text ++ last
  return (if h.keep == some true then text ++ breaks else text, p)

/-! ## Texts between quotes -/

/-- The character that an escape of one letter stands for. -/
def escaped? (c : Char) : Option Char :=
  match c with
  | '0' => some '\x00'
  | 'a' => some '\x07'
  | 'b' => some '\x08'
  | 't' => some '\t'
  | '\t' => some '\t'
  | 'n' => some '\n'
  | 'v' => some '\x0b'
  | 'f' => some '\x0c'
  | 'r' => some '\r'
  | 'e' => some '\x1b'
  | ' ' => some ' '
  | '"' => some '"'
  | '\\' => some '\\'
  | '/' => some '/'
  | 'N' => some '\u0085'
  | '_' => some '\u00a0'
  | 'L' => some '\u2028'
  | 'P' => some '\u2029'
  | _ => none

/-- The number of digits of an escape by code. -/
def codeLength? (c : Char) : Option Nat :=
  if c == 'x' then some 2 else if c == 'u' then some 4 else if c == 'U' then some 8 else none

/-- The character of a code. -/
def ofCode (code : Nat) : Except Error Char :=
  if shortWordLimit ≤ code then .error .characterTooLarge
  else if 0x10FFFF < code then .error .notACharacter
  else .ok (Char.ofNat code)

/-- Blank lines inside quotes, where no document may begin or end. -/
def quotedBreaks : Nat → List Char → Point → Except Error (List Char × Point)
  | 0, breaks, p => .ok (breaks, p)
  | rounds + 1, breaks, p =>
    if p.atSeparator then .error (.rule .quotedText)
    else
      let p := p.skip isGap
      if isBreak p.peek then
        let (b, p) := p.lineBreak
        quotedBreaks rounds (breaks ++ b) p
      else .ok (breaks, p)

/-- The escape after a backslash. -/
def escape (p : Point) : Except Error (List Char × Point) :=
  let c := p.peek
  match escaped? c, codeLength? c with
  | some e, _ => .ok ([e], p.forward)
  | none, some length =>
    let p := p.forward
    let digits := p.rest.take length
    if digits.length == length && digits.all isHexDigit then
      (ofCode (ofHexDigits digits)).map fun e => ([e], p.forwardBy length)
    else .error (.rule .escape)
  | none, none =>
    if isBreak c then
      let p := p.lineBreak.2
      quotedBreaks p.rounds [] p
    else .error (.rule .escape)

/-- The gap between two words inside quotes: blanks as they are, or a line break with the blank lines
after it, of which a single break becomes a space. -/
def quotedGap (p : Point) : Except Error (List Char × Point) := do
  let (blanks, p) := p.span isGap
  if p.peek == endMark then throw (.rule .quotedText)
  else if isBreak p.peek then
    let (b, p) := p.lineBreak
    let (breaks, p) ← quotedBreaks p.rounds [] p
    let first := if b != ['\n'] then b else if breaks.isEmpty then [' '] else []
    return (first ++ breaks, p)
  else return (blanks, p)

/-- A text between quotes, read from after the first quote to after the last. -/
def quotedText (double : Bool) : Nat → List Char → Point → Except Error (List Char × Point)
  | 0, _, _ => .error (.rule .quotedText)
  | rounds + 1, text, p =>
    let c := p.peek
    let quote := if double then '"' else '\''
    if !double && c == '\'' && p.peekAt 1 == '\'' then
      quotedText double rounds (text ++ ['\'']) p.forward.forward
    else if c == quote then .ok (text, p.forward)
    else if double && c == '\\' then do
      let (e, p) ← escape p.forward
      quotedText double rounds (text ++ e) p
    else if isBlankOrEnd c then do
      let (gap, p) ← quotedGap p
      quotedText double rounds (text ++ gap) p
    else quotedText double rounds (text ++ [c]) p.forward

/-! ## Plain texts -/

/-- A character that ends a plain word where a colon counts only before a blank. -/
def endsWord (inFlow : Bool) (p : Point) (k : Nat) : Bool :=
  let c := p.peekAt k
  let next := p.peekAt (k + 1)
  isBlankOrEnd c
    || (c == ':' && (isBlankOrEnd next || (inFlow && [',', '[', ']', '{', '}'].contains next)))
    || (inFlow && [',', '?', '[', ']', '{', '}'].contains c)

/-- The characters of a plain word. -/
def word (inFlow : Bool) : Nat → List Char → Point → List Char × Point
  | 0, text, p => (text.reverse, p)
  | rounds + 1, text, p =>
    if endsWord inFlow p 0 then (text.reverse, p)
    else word inFlow rounds (p.peek :: text) p.forward

/-- Blank lines after a line of plain text. There are none if a document begins or ends there. -/
def plainBreaks : Nat → List Char → Point → Option (List Char) × Point
  | 0, breaks, p => (some breaks, p)
  | rounds + 1, breaks, p =>
    if p.peek == ' ' then plainBreaks rounds breaks p.forward
    else if isBreak p.peek then
      let (b, p) := p.lineBreak
      if p.atSeparator then (none, p) else plainBreaks rounds (breaks ++ b) p
    else (some breaks, p)

/-- The gap between two plain words, and whether it spans lines. An empty gap ends the text. -/
def plainGap (p : Point) : List Char × Bool × Point :=
  let (blanks, p) := p.span (· == ' ')
  if isBreak p.peek then
    let (b, p) := p.lineBreak
    if p.atSeparator then ([], true, p)
    else
      match plainBreaks p.rounds [] p with
      | (none, p) => ([], true, p)
      | (some breaks, p) =>
        let first := if b != ['\n'] then b else if breaks.isEmpty then [' '] else []
        (first ++ breaks, true, p)
  else (blanks, false, p)

/-- A plain text, and whether it was followed by a line break. In a block it goes on as long as its
lines are indented deeper than the block. -/
def plain (inFlow : Bool) (indent : Int) :
    Nat → List Char → List Char → Bool → Point → List Char × Bool × Point
  | 0, text, _, broken, p => (text, broken, p)
  | rounds + 1, text, gap, broken, p =>
    if p.peek == '#' then (text, broken, p)
    else
      match word inFlow p.rounds [] p with
      | ([], p) => (text, broken, p)
      | (w, p) =>
        let text := text ++ gap ++ w
        let (gap, broken, p) := plainGap p
        if gap.isEmpty || p.peek == '#' || (!inFlow && (p.column : Int) < indent) then
          (text, broken, p)
        else plain inFlow indent rounds text gap broken p

end Scalar

end Brainfuck.Yaml
