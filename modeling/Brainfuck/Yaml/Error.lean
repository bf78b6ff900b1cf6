import Brainfuck.Number.Numeral

/-! # Why a settings file has no content

A file may break the rules of its notation, or it may follow them and still ask for a number, a
character, a date or a truth value that there is not. The first kind needs no words of its own here;
the second is told with the words of what was asked for. -/
namespace Brainfuck.Yaml

/-- A rule of the notation that a file breaks. -/
inductive Rule
  | printable
  | tokenStart
  | simpleKey
  | entryPlace
  | keyPlace
  | valuePlace
  | directive
  | anchor
  | tag
  | blockHeader
  | quotedText
  | escape
  | documentStart
  | documentCount
  | nodeContent
  | collectionEnd
  | undefinedAlias
  | duplicateAnchor
  | tagHandle
  | nodeKind
  | knownTag
  | hashableKey
  | mergedMapping
  | binaryText
  deriving DecidableEq, Repr

/-- Why a file has no content. -/
inductive Error
  | rule (broken : Rule)
  | numeral (reason : Numeral.Error)
  | emptyNumeral
  | notACharacter
  | characterTooLarge
  | dateRange (reason : String)
  | notADate
  | notATruthValue (word : String)
  deriving DecidableEq, Repr

end Brainfuck.Yaml
