import Brainfuck.Number.Numeral
import Brainfuck.Number.Shortest

/-! # Plain values

The values that a settings file can hold and that settings can be given: numbers, texts, truth values,
lists and mappings. A mapping keeps its entries in the order in which their keys first came; a key
that comes again replaces the value and keeps the place. Numbers that are equal are the same key,
however they are written, and the truth values count as one and zero. -/
namespace Brainfuck

/-- A plain value. Rows and sets are written by special notations of settings files only. A moment is
a date with a time and, where it is known, the distance from universal time in minutes. Inside a
collection that is an item of itself, `again` stands for the collection. -/
inductive Value
  | null
  | bool (b : Bool)
  | int (n : Int)
  | float (x : Binary64)
  | text (s : String)
  | bytes (data : List UInt8)
  | date (year month day : Nat)
  | moment (year month day hour minute second micro : Nat) (offset : Option Int)
  | list (items : List Value)
  | row (items : List Value)
  | set (items : List Value)
  | map (entries : List (Value × Value))
  | again (isMapping : Bool)
  deriving Repr, Inhabited

namespace Value

/-- The number that a value is as a key, as a fraction. -/
def number? : Value → Option (Int × Nat)
  | bool b => some (if b then 1 else 0, 1)
  | int n => some (n, 1)
  | float x => x.toRatio?
  | _ => none

mutual

/-- Whether two values are the same key. -/
def sameKey : Value → Value → Bool
  | null, null => true
  | text s, text t => s == t
  | bytes s, bytes t => s == t
  | date y m d, date y₁ m₁ d₁ => y == y₁ && m == m₁ && d == d₁
  | moment y m d h i s u o, moment y₁ m₁ d₁ h₁ i₁ s₁ u₁ o₁ =>
    [y, m, d, h, i, s, u] == [y₁, m₁, d₁, h₁, i₁, s₁, u₁] && o == o₁
  | row xs, row ys => sameKeys xs ys
  | float (.infinite a), float (.infinite b) => a == b
  | v, w =>
    match v.number?, w.number? with
    | some (a, b), some (c, d) => a * d == c * b
    | _, _ => false

/-- Whether two rows of values are the same keys. -/
def sameKeys : List Value → List Value → Bool
  | [], [] => true
  | x :: xs, y :: ys => sameKey x y && sameKeys xs ys
  | _, _ => false

end

/-- Entries with one more, which replaces an earlier one of the same key in its place. -/
def insertEntry (key value : Value) : List (Value × Value) → List (Value × Value)
  | [] => [(key, value)]
  | (k, v) :: rest =>
    if sameKey k key then (k, value) :: rest else (k, v) :: insertEntry key value rest

/-- Entries in order of first appearance, each with its last value. -/
def ofEntries (entries : List (Value × Value)) : List (Value × Value) :=
  entries.foldl (fun done (k, v) => insertEntry k v done) []

/-- The value of a key that is a text. -/
def lookup? (key : String) (entries : List (Value × Value)) : Option Value :=
  (entries.find? fun (k, _) => sameKey k (.text key)).map (·.2)

/-- Values that are empty, zero or false. -/
def isEmpty : Value → Bool
  | null => true
  | bool b => !b
  | int n => n == 0
  | float (.finite _ m _) => m == 0
  | float _ => false
  | text s => s.isEmpty
  | bytes data => data.isEmpty
  | date .. => false
  | moment .. => false
  | again _ => false
  | list items => items.isEmpty
  | row items => items.isEmpty
  | set items => items.isEmpty
  | map entries => entries.isEmpty

mutual

/-- Whether there is a number in a value with more digits than are written. -/
def hasLongNumber : Value → Bool
  | int n => !Numeral.isWritten (some Numeral.maxDigits) n
  | list items => anyLongNumber items
  | row items => anyLongNumber items
  | set items => anyLongNumber items
  | map entries => anyLongEntry entries
  | _ => false

def anyLongNumber : List Value → Bool
  | [] => false
  | item :: rest => hasLongNumber item || anyLongNumber rest

def anyLongEntry : List (Value × Value) → Bool
  | [] => false
  | (k, v) :: rest => hasLongNumber k || hasLongNumber v || anyLongEntry rest

end

/-- A byte inside quotes. -/
def quotedByte (quote : Char) (b : UInt8) : List Char :=
  if b < 128 then Text.quotedCode quote b.toNat else '\\' :: 'x' :: Text.hexDigits 2 b.toNat

/-- A natural number in at least the given number of decimal places. -/
def padded (width n : Nat) : String :=
  let places := Nat.toDigits 10 n
  String.ofList (List.replicate (width - places.length) '0' ++ places)

/-- A list of numbers without the zero at its end. -/
def dropLastZero (parts : List Nat) : List Nat :=
  if parts.getLast? == some 0 then parts.dropLast else parts

/-- How a span of minutes other than zero is written in a message, in days and in seconds of a day. -/
def quotedSpan (minutes : Int) : String :=
  let seconds := minutes * 60
  let days := seconds.fdiv 86400
  let rest := seconds.fmod 86400
  let parts := (if days = 0 then [] else [s!"days={days}"]) ++
    (if rest = 0 then [] else [s!"seconds={rest}"])
  "datetime.timedelta(" ++ ", ".intercalate parts ++ ")"

/-- How a distance from universal time is written in a message. -/
def quotedOffset (minutes : Int) : String :=
  if minutes = 0 then "datetime.timezone.utc"
  else "datetime.timezone(" ++ quotedSpan minutes ++ ")"

/-- How a distance from universal time is written by itself. -/
def plainOffset (minutes : Int) : String :=
  (if minutes < 0 then "-" else "+") ++ padded 2 (minutes.natAbs / 60) ++ ":" ++
    padded 2 (minutes.natAbs % 60)

mutual

/-- How a value is written in a message, where texts stand between quotes. -/
def quoted : Value → String
  | null => "None"
  | bool b => if b then "True" else "False"
  | int n => toString n
  | float x => x.text
  | text s => Text.quoted s
  | bytes data =>
    let quote := Text.quoteFor (data.map (·.toNat))
    String.ofList ('b' :: quote :: data.flatMap (quotedByte quote) ++ [quote])
  | date y m d => s!"datetime.date({y}, {m}, {d})"
  | moment y m d h i s u o =>
    let seconds := if u = 0 then dropLastZero [s] else [s, u]
    let parts := ([y, m, d, h, i] ++ seconds).map toString ++
      (o.map fun minutes => "tzinfo=" ++ quotedOffset minutes).toList
    "datetime.datetime(" ++ ", ".intercalate parts ++ ")"
  | again isMapping => if isMapping then "\x7b...\x7d" else "[...]"
  | list items => "[" ++ ", ".intercalate (quotedItems items) ++ "]"
  | row [item] => "(" ++ quoted item ++ ",)"
  | row items => "(" ++ ", ".intercalate (quotedItems items) ++ ")"
  | set [] => "set()"
  | set items => "\x7b" ++ ", ".intercalate (quotedItems items) ++ "\x7d"
  | map entries => "\x7b" ++ ", ".intercalate (quotedEntries entries) ++ "\x7d"

def quotedItems : List Value → List String
  | [] => []
  | item :: rest => quoted item :: quotedItems rest

def quotedEntries : List (Value × Value) → List String
  | [] => []
  | (k, v) :: rest => (quoted k ++ ": " ++ quoted v) :: quotedEntries rest

end

/-- How a value is written by itself, where a text stands without quotes. -/
def plain : Value → String
  | text s => s
  | date y m d => padded 4 y ++ "-" ++ padded 2 m ++ "-" ++ padded 2 d
  | moment y m d h i s u o =>
    padded 4 y ++ "-" ++ padded 2 m ++ "-" ++ padded 2 d ++ " " ++ padded 2 h ++ ":" ++
      padded 2 i ++ ":" ++ padded 2 s ++ (if u = 0 then "" else "." ++ padded 6 u) ++
      (o.map plainOffset).getD ""
  | v => v.quoted

/-- The whole number that a value stands for: fractions are cut off, truth values count as one and
zero, and texts are read. -/
def wholeNumber? : Value → Option (Except Numeral.Error Int)
  | bool b => some (.ok (if b then 1 else 0))
  | int n => some (.ok n)
  | float x => x.truncate?.map .ok
  | text s => some (Numeral.parseInt s)
  | _ => none

end Value

end Brainfuck
