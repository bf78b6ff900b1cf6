import Brainfuck.Yaml.Point
import Brainfuck.Yaml.Token.Basic

/-! # Names in settings files

Directives stand before a document and say how tags are to be read. Anchors name a node, aliases stand
for a named node, and tags say what kind of value a node is. -/
namespace Brainfuck.Yaml

namespace Property

/-- The name of an anchor or of an alias, read from its indicator on. -/
def anchorName (p : Point) : Except Error (String × Point) :=
  let (name, p) := p.forward.span isWordChar
  let c := p.peek
  if name.isEmpty then .error (.rule .anchor)
  else if isBlankOrEnd c || ['?', ':', ',', ']', '}', '%', '@', '\x60'].contains c then
    .ok (String.ofList name, p)
  else .error (.rule .anchor)

/-- A character that may stand in a tag as itself. -/
def isTagChar (c : Char) : Bool :=
  c.isAlphanum || ['-', ';', '/', '?', ':', '@', '&', '=', '+', '$', ',', '_', '.', '!', '~', '*',
    '\'', '(', ')', '[', ']'].contains c

/-- Bytes written with a percent sign and two digits each. -/
def escapedBytes : Nat → List UInt8 → Point → Except Error (List UInt8 × Point)
  | 0, bytes, p => .ok (bytes.reverse, p)
  | rounds + 1, bytes, p =>
    if p.peek == '%' then
      let p := p.forward
      let digits := p.rest.take 2
      if digits.length == 2 && digits.all isHexDigit then
        escapedBytes rounds ((ofHexDigits digits).toUInt8 :: bytes) (p.forwardBy 2)
      else .error (.rule .tag)
    else .ok (bytes.reverse, p)

/-- The characters of a tag, where bytes written as escapes stand for characters. -/
def tagChars : Nat → List Char → Point → Except Error (List Char × Point)
  | 0, chars, p => .ok (chars, p)
  | rounds + 1, chars, p =>
    if isTagChar p.peek then tagChars rounds (chars ++ [p.peek]) p.forward
    else if p.peek == '%' then do
      let (bytes, p) ← escapedBytes p.rounds [] p
      match String.fromUTF8? ⟨bytes.toArray⟩ with
      | some s => tagChars rounds (chars ++ s.toList) p
      | none => throw (.rule .tag)
    else .ok (chars, p)

/-- The characters of a tag, of which there is at least one. -/
def tagText (p : Point) : Except Error (String × Point) := do
  let (chars, q) ← tagChars p.rounds [] p
  if q.index == p.index then throw (.rule .tag) else return (String.ofList chars, q)

/-- A handle of tags: an exclamation mark alone before a space, or a word between two of them. -/
def handle (p : Point) : Except Error (String × Point) :=
  if p.peek != '!' then .error (.rule .tag)
  else
    let q := p.forward
    if q.peek == ' ' then .ok ("!", q)
    else
      let (name, q) := q.span isWordChar
      if q.peek == '!' then .ok ("!" ++ String.ofList name ++ "!", q.forward)
      else .error (.rule .tag)

/-- A tag, read from its indicator on. -/
def tag (p : Point) : Except Error (TagText × Point) := do
  let c := p.peekAt 1
  let (t, p) ←
    if c == '<' then do
      let (suffix, p) ← tagText p.forward.forward
      if p.peek == '>' then pure (TagText.mk none suffix, p.forward) else throw (.rule .tag)
    else if isBlankOrEnd c then pure (TagText.mk none "!", p.forward)
    else do
      let word := p.rest.tail.takeWhile (!isSpaceOrEnd ·)
      let (h, p) ← if word.contains '!' then handle p else pure ("!", p.forward)
      let (suffix, p) ← tagText p
      pure (TagText.mk (some h) suffix, p)
  if isSpaceOrEnd p.peek then return (t, p) else throw (.rule .tag)

def number (p : Point) : Except Error (Nat × Point) :=
  let (digits, p) := p.span Char.isDigit
  if digits.isEmpty then .error (.rule .directive)
  else .ok (Numeral.ofDigits (digits.map fun c => c.toNat - 48), p)

/-- A directive, read from its indicator to the start of the next line. -/
def directive (p : Point) : Except Error (Directive × Point) := do
  let (name, p) := p.forward.span isWordChar
  if name.isEmpty || !isSpaceOrEnd p.peek then throw (.rule .directive)
  let (d, p) ←
    match String.ofList name with
    | "YAML" => do
      let (major, p) ← number p.skipSpaces
      if p.peek != '.' then throw (.rule .directive)
      let (_, p) ← number p.forward
      if isSpaceOrEnd p.peek then pure (Directive.version major, p) else throw (.rule .directive)
    | "TAG" => do
      let (h, p) ← handle p.skipSpaces
      if p.peek != ' ' then throw (.rule .directive)
      let (expansion, p) ← tagText p.skipSpaces
      if isSpaceOrEnd p.peek then pure (Directive.handle h expansion, p)
      else throw (.rule .directive)
    | _ => pure (Directive.other, p.skip (!isLineEnd ·))
  return (d, ← p.endOfLine .directive)

end Property

end Brainfuck.Yaml
