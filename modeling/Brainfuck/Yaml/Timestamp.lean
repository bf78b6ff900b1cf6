/-! # Dates and times in settings files

A date is written with dashes, and a time may follow it, with a fraction of a second and a distance
from universal time. A date that is meant by its form alone has two digits for month and day. -/
namespace Brainfuck.Yaml

/-- A time of day, to the millionth of a second, with the distance from universal time in minutes. -/
structure TimeOfDay where
  hour : Nat
  minute : Nat
  second : Nat
  micro : Nat
  offset : Option Int
  deriving DecidableEq, Repr

/-- A date, with or without a time. -/
structure Timestamp where
  year : Nat
  month : Nat
  day : Nat
  time : Option TimeOfDay
  twoDigits : Bool
  deriving DecidableEq, Repr

namespace Timestamp

def number (digits : List Char) : Nat := digits.foldl (fun n c => 10 * n + (c.toNat - 48)) 0

/-- A number of at least `least` and at most `most` digits at the front of a text. -/
def digits? (least most : Nat) (text : List Char) : Option (List Char × List Char) :=
  let taken := (text.take most).takeWhile Char.isDigit
  if taken.length < least then none else some (taken, text.drop taken.length)

/-- The rest of a text after a character. -/
def after? (c : Char) : List Char → Option (List Char)
  | [] => none
  | d :: rest => if d = c then some rest else none

def isGap (c : Char) : Bool := c == ' ' || c == '\t'

/-- The millionths that the digits of a fraction stand for. -/
def micros (fraction : List Char) : Nat :=
  let six := fraction.take 6
  number (six ++ List.replicate (6 - six.length) '0')

/-- A distance from universal time up to the end of a text. -/
def offset? (text : List Char) : Option (Option Int) :=
  match text.dropWhile isGap with
  | [] => if text.isEmpty then some none else none
  | ['Z'] => some (some 0)
  | sign :: rest =>
    if sign = '+' ∨ sign = '-' then do
      let (hours, rest) ← digits? 1 2 rest
      let minutes ←
        match rest with
        | [] => some 0
        | _ => do
          let (minutes, rest) ← digits? 2 2 (← after? ':' rest)
          if rest.isEmpty then some (number minutes) else none
      let total : Int := number hours * 60 + minutes
      return some (if sign = '-' then -total else total)
    else none

/-- A time up to the end of a text. -/
def time? (text : List Char) : Option TimeOfDay := do
  let (hour, rest) ← digits? 1 2 text
  let (minute, rest) ← digits? 2 2 (← after? ':' rest)
  let (second, rest) ← digits? 2 2 (← after? ':' rest)
  let (fraction, rest) :=
    match rest with
    | '.' :: more => (more.takeWhile Char.isDigit, more.dropWhile Char.isDigit)
    | _ => ([], rest)
  let offset ← offset? rest
  return ⟨number hour, number minute, number second, micros fraction, offset⟩

/-- The date and the time that a text writes. -/
def parse? (text : List Char) : Option Timestamp := do
  let (year, rest) ← digits? 4 4 text
  let (month, rest) ← digits? 1 2 (← after? '-' rest)
  let (day, rest) ← digits? 1 2 (← after? '-' rest)
  let twoDigits := month.length == 2 && day.length == 2
  match rest with
  | [] => return ⟨number year, number month, number day, none, twoDigits⟩
  | c :: more =>
    if c = 'T' ∨ c = 't' then
      return ⟨number year, number month, number day, some (← time? more), twoDigits⟩
    else if isGap c then
      return ⟨number year, number month, number day, some (← time? (more.dropWhile isGap)), twoDigits⟩
    else none

/-- Whether a text is a date by its form alone. -/
def isImplicit (text : List Char) : Bool :=
  match parse? text with
  | some t => t.twoDigits || t.time.isSome
  | none => false

def isLeap (year : Nat) : Bool := year % 4 == 0 && (year % 100 != 0 || year % 400 == 0)

def daysIn (year month : Nat) : Nat :=
  if month == 2 then (if isLeap year then 29 else 28)
  else if [4, 6, 9, 11].contains month then 30
  else 31

/-- What is wrong with the numbers of a date, if anything is. -/
def fault? (t : Timestamp) : Option String :=
  if t.year < 1 then some s!"year {t.year} is out of range"
  else if t.month < 1 || 12 < t.month then some "month must be in 1..12"
  else if t.day < 1 || daysIn t.year t.month < t.day then some "day is out of range for month"
  else
    match t.time with
    | none => none
    | some c =>
      if 23 < c.hour then some "hour must be in 0..23"
      else if 59 < c.minute then some "minute must be in 0..59"
      else if 59 < c.second then some "second must be in 0..59"
      else none

end Timestamp

end Brainfuck.Yaml
