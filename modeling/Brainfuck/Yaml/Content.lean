import Brainfuck.Settings.Value
import Brainfuck.Yaml.Node

/-! # What nodes stand for

Each tag of the standard has its own way of making a value from a node. A node with another tag, or
one of the wrong kind for its tag, makes the file invalid. A mapping may take over the entries of
others by merging; its own entries come after those and so prevail. -/
namespace Brainfuck.Yaml

namespace Node

def tag : Node → String
  | scalar t _ => t
  | sequence t _ => t
  | mapping t _ => t
  | again isMapping => if isMapping then Tag.map else Tag.seq

mutual

def height : Node → Nat
  | scalar .. => 1
  | sequence _ items => heightOfItems items + 1
  | mapping _ entries => heightOfEntries entries + 1
  | again _ => 1

def heightOfItems : List Node → Nat
  | [] => 0
  | n :: rest => max n.height (heightOfItems rest)

def heightOfEntries : List (Node × Node) → Nat
  | [] => 0
  | (k, v) :: rest => max (max k.height v.height) (heightOfEntries rest)

end

/-- The text of a node. A mapping has the text of its special entry for a value, if it has one. -/
def text? : Nat → Node → Except Error String
  | 0, _ => .error (.rule .nodeKind)
  | levels + 1, n =>
    match n with
    | scalar _ t => .ok t
    | mapping _ entries =>
      match entries.find? fun (k, _) => k.tag == Tag.value with
      | some (_, v) => text? levels v
      | none => .error (.rule .nodeKind)
    | _ => .error (.rule .nodeKind)

/-- A key, where the special key for a value is a text like any other. -/
def plainKey : Node → Node
  | scalar t s => if t == Tag.value then scalar Tag.str s else scalar t s
  | n => n

/-- The entries of a mapping after those that it merges. Of a sequence of merged mappings the first
prevails, so that its entries come last. A mapping that is merged into itself adds nothing. -/
def mergedEntries : Nat → List (Node × Node) → Except Error (List (Node × Node))
  | 0, _ => .error (.rule .mergedMapping)
  | levels + 1, entries => do
    let ofMapping (n : Node) : Except Error (List (Node × Node)) :=
      match n with
      | mapping _ es => mergedEntries levels es
      | again true => .ok []
      | _ => .error (.rule .mergedMapping)
    let merged ← (entries.filter fun (k, _) => k.tag == Tag.merge).mapM fun (_, v) =>
      match v with
      | sequence _ items => do return (← items.mapM ofMapping).reverse.flatten
      | again false => .ok []
      | v => ofMapping v
    let own := entries.filter fun (k, _) => k.tag != Tag.merge
    return merged.flatten ++ own.map fun (k, v) => (plainKey k, v)

end Node

namespace Content

def truth (word : String) : Except Error Value :=
  let lowered := String.ofList (Text.lower word.toList)
  match Tag.truthWords.lookup lowered with
  | some b => .ok (.bool b)
  | none => .error (.notATruthValue lowered)

/-- A number read by a rule of the number's own. -/
def numeral {α : Type} (r : Except Numeral.Error α) : Except Error α :=
  match r with
  | .ok a => .ok a
  | .error e => .error (.numeral e)

/-- The sum of the parts of a number in parts of sixty, the last of which counts ones. -/
def sexagesimal (parts : List Int) : Int := parts.foldl (fun n part => 60 * n + part) 0

/-- The whole number that a text writes, in base two, eight, ten or sixteen or in parts of sixty. -/
def int (text : String) : Except Error Int :=
  let chars := text.toList.filter (· != '_')
  let (negative, body) := Numeral.takeSign chars
  let signed (r : Except Error Int) : Except Error Int := r.map fun n => if negative then -n else n
  match body with
  | [] => .error .emptyNumeral
  | ['0'] => .ok 0
  | '0' :: 'b' :: digits => signed (numeral (Numeral.parseBase 2 (String.ofList digits)))
  | '0' :: 'x' :: digits => signed (numeral (Numeral.parseBase 16 (String.ofList digits)))
  | '0' :: _ => signed (numeral (Numeral.parseBase 8 (String.ofList body)))
  | _ =>
    if body.contains ':' then
      signed ((Tag.colonParts body).mapM (fun part => numeral (Numeral.parseInt (String.ofList part)))
        |>.map sexagesimal)
    else signed (numeral (Numeral.parseInt (String.ofList body)))

/-- The sum of the parts of a number in parts of sixty, rounded at each part, from the last to the
first. -/
def sexagesimalFloat (parts : List Binary64) : Binary64 :=
  (parts.reverse.foldl (fun (sum, base) part => (Binary64.addMul sum part base, base * 60))
    (Binary64.finite false 0 0, 1)).1

def float (text : String) : Except Error Binary64 :=
  let chars := Text.lower (text.toList.filter (· != '_'))
  let (negative, body) := Numeral.takeSign chars
  let signed (x : Binary64) : Binary64 := if negative then x.negate else x
  let parse (part : List Char) : Except Error Binary64 :=
    numeral (Numeral.parseFloat (String.ofList part))
  if chars.isEmpty then .error .emptyNumeral
  else if body == ".inf".toList then .ok (.infinite negative)
  else if body == ".nan".toList then .ok .undefined
  else if body.contains ':' then
    ((Tag.colonParts body).mapM parse).map fun parts => signed (sexagesimalFloat parts)
  else (parse body).map signed

/-- The value of a digit of base sixty-four. -/
def digit64? (c : Char) : Option Nat :=
  if 'A' ≤ c ∧ c ≤ 'Z' then some (c.toNat - 65)
  else if 'a' ≤ c ∧ c ≤ 'z' then some (c.toNat - 71)
  else if c.isDigit then some (c.toNat + 4)
  else if c = '+' then some 62
  else if c = '/' then some 63
  else none

/-- Bytes from digits of base sixty-four: the digits of the present group of four, the marks at its
end, and the bytes so far, last first. Characters that are no digits do not count. -/
def bytesFrom (group : List Nat) (marks : Nat) (done : List UInt8) :
    List Char → Except Error (List UInt8)
  | [] => if group.isEmpty then .ok done.reverse else .error (.rule .binaryText)
  | c :: rest =>
    if c = '=' then
      if 2 ≤ group.length then
        if 4 ≤ group.length + marks + 1 then .ok done.reverse
        else bytesFrom group (marks + 1) done rest
      else bytesFrom group marks done rest
    else
      match digit64? c with
      | none => bytesFrom group marks done rest
      | some d =>
        match group with
        | [] => bytesFrom [d] 0 done rest
        | [a] => bytesFrom [a, d] 0 ((4 * a + d / 16).toUInt8 :: done) rest
        | [a, b] => bytesFrom [a, b, d] 0 ((16 * (b % 16) + d / 4).toUInt8 :: done) rest
        | a :: b :: c :: _ =>
          let _ := (a, b)
          bytesFrom [] 0 ((64 * (c % 4) + d).toUInt8 :: done) rest

def bytes (text : String) : Except Error Value :=
  if text.toList.all (·.toNat < 128) then (bytesFrom [] 0 [] text.toList).map .bytes
  else .error (.rule .binaryText)

/-- What is wrong with a distance from universal time of a day or more. -/
def offsetFault? (minutes : Int) : Option String :=
  if minutes.natAbs < 24 * 60 then none
  else
    some <| "offset must be a timedelta strictly between -timedelta(hours=24) and " ++
      s!"timedelta(hours=24), not {Value.quotedSpan minutes}."

/-- The date or the moment that a text writes. The distance from universal time is looked at before
the date. -/
def timestamp (text : String) : Except Error Value :=
  match Timestamp.parse? (Tag.formPart text.toList) with
  | none => .error .notADate
  | some t =>
    match (t.time.bind (·.offset)).bind offsetFault? <|> t.fault?, t.time with
    | some reason, _ => .error (.dateRange reason)
    | none, none => .ok (.date t.year t.month t.day)
    | none, some c =>
      .ok (.moment t.year t.month t.day c.hour c.minute c.second c.micro c.offset)

def isKey : Value → Bool
  | .list _ => false
  | .set _ => false
  | .map _ => false
  | .again _ => false
  | _ => true

/-- The value that a node stands for. The number of levels bounds the height of the node. -/
def ofNode : Nat → Node → Except Error Value
  | 0, _ => .error (.rule .nodeKind)
  | levels + 1, n => do
    let text : Except Error String := n.text? (levels + 1)
    let entries (es : List (Node × Node)) : Except Error (List (Value × Value)) := do
      let es ← Node.mergedEntries (levels + 1) es
      let pairs ← es.mapM fun (k, v) => do
        let key ← ofNode levels k
        if isKey key then return (key, ← ofNode levels v) else throw (.rule .hashableKey)
      return Value.ofEntries pairs
    let single (item : Node) : Except Error Value :=
      match item with
      | .mapping _ [(k, v)] => do return .row [← ofNode levels k, ← ofNode levels v]
      | _ => .error (.rule .nodeKind)
    let t := n.tag
    if t == Tag.null then
      let _ ← text
      return .null
    else if t == Tag.bool then truth (← text)
    else if t == Tag.int then return .int (← int (← text))
    else if t == Tag.float then return .float (← float (← text))
    else if t == Tag.binary then bytes (← text)
    else if t == Tag.timestamp then timestamp (← text)
    else if t == Tag.str then return .text (← text)
    else
      match n with
      | .again isMapping => return .again isMapping
      | .sequence _ items =>
        if t == Tag.seq then return .list (← items.mapM (ofNode levels))
        else if t == Tag.omap || t == Tag.pairs then return .list (← items.mapM single)
        else throw (.rule .knownTag)
      | .mapping _ es =>
        if t == Tag.map then return .map (← entries es)
        else if t == Tag.set then return .set ((← entries es).map (·.1))
        else throw (.rule .knownTag)
      | .scalar .. => throw (.rule .knownTag)

/-- The tags of collections. A collection is filled only after all that stands beside and above it has
been read. -/
def isCollection (tag : String) : Bool :=
  [Tag.seq, Tag.map, Tag.set, Tag.omap, Tag.pairs].contains tag

/-- What can be told of a node when it is met: a text is read, and a collection is put aside. -/
def meet (levels : Nat) (n : Node) : Except Error (List Node) :=
  match n with
  | .again _ => .ok []
  | n => if isCollection n.tag then .ok [n] else (ofNode levels n).map fun _ => []

/-- Meets a key and its value. A collection is no key. -/
def meetEntry (levels : Nat) (entry : Node × Node) : Except Error (List Node) :=
  if isCollection entry.1.tag then .error (.rule .hashableKey)
  else do
    let _ ← meet levels entry.1
    meet levels entry.2

/-- Meets the key and the value of a mapping of one entry, whatever the key. -/
def meetSingle (levels : Nat) : Node → Except Error (List Node)
  | .mapping _ [(k, v)] => do return (← meet levels k) ++ (← meet levels v)
  | _ => .error (.rule .nodeKind)

/-- Meets what is inside a collection, and gives the collections put aside. -/
def fill (levels : Nat) (n : Node) : Except Error (List Node) :=
  match n with
  | .again _ => .ok []
  | .scalar .. => .error (.rule .nodeKind)
  | .sequence t items =>
    if t == Tag.seq then (items.mapM (meet levels)).map List.flatten
    else if t == Tag.omap || t == Tag.pairs then (items.mapM (meetSingle levels)).map List.flatten
    else .error (.rule .nodeKind)
  | .mapping t es =>
    if t == Tag.map || t == Tag.set then do
      let es ← Node.mergedEntries (levels + 1) es
      return (← es.mapM (meetEntry levels)).flatten
    else .error (.rule .nodeKind)

/-- Fills collections level by level, so that of two faults the one on the higher level is told. -/
def fillAll : Nat → List Node → Except Error Unit
  | 0, _ => .ok ()
  | levels + 1, nodes => do
    let inner ← nodes.mapM (fill levels)
    fillAll levels inner.flatten

/-- The value of a document, or its first fault in the order in which its nodes are met. -/
def ofDocument (n : Node) : Except Error Value := do
  fillAll n.height (← meet n.height n)
  ofNode n.height n

end Content

/-- The value that the text of a settings file stands for; a file without a document has none. -/
def load (text : List Char) : Except Error Value := do
  match ← Node.ofTokens (← Token.ofText text) with
  | none => return .null
  | some n => Content.ofDocument n

end Brainfuck.Yaml
