import Brainfuck.Number.Binary64

/-! # The shortest text of a number

A number of double precision is written with the fewest decimal digits that are read back as the same
number, and with the nearest such digits, of two as near with those that end even. Digits are tried in
growing count. On each decimal grid it is enough to look at the two neighbours of the value, since if
any point of the grid is read back as the number, then so is one of the two. -/
namespace Brainfuck

namespace Binary64

/-- The decimal places of a natural number, highest first. -/
def decimal (n : Nat) : List Char := Nat.toDigits 10 n

/-- The power of ten of the first digit of a positive quotient. -/
def leadingPower (num den : Nat) : Int :=
  if den ≤ num then (decimal (num / den)).length - 1
  else
    let t := (decimal (den / num)).length - 1
    if den ≤ num * Nat.pow 10 t then -(t : Int) else -(t + 1 : Int)

/-- A quotient measured in units of a power of ten. -/
def inUnits (num den : Nat) (power : Int) : Nat × Nat :=
  if power < 0 then (num * Nat.pow 10 (-power).toNat, den)
  else (num, den * Nat.pow 10 power.toNat)

/-- The decimal numbers of one grid that are read back as the number with the given mantissa and
exponent: of the two neighbours of the value, the nearer one that lies between the midpoints to the
numbers below and above. -/
def onGrid? (m : Nat) (e : Int) (power : Int) : Option Nat :=
  -- all quantities are in quarters of the last binary place
  let spaceBelow := if m = Nat.pow 2 (precision - 1) ∧ minExponent < e then 1 else 2
  let value := 4 * m
  let (n, d) := if e < 0 then (1, 4 * Nat.pow 2 (-e).toNat) else (Nat.pow 2 e.toNat, 4)
  let measure (q : Nat) := inUnits (q * n) d power
  let (lowNum, den) := measure (value - spaceBelow)
  let (highNum, _) := measure (value + 2)
  let (valueNum, _) := measure value
  let accepts (c : Nat) :=
    if m % 2 = 0 then lowNum ≤ c * den && c * den ≤ highNum
    else lowNum < c * den && c * den < highNum
  let down := valueNum / den
  let up := down + 1
  match accepts down, accepts up with
  | true, true => some (roundDiv valueNum den)
  | true, false => some down
  | false, true => some up
  | false, false => none

/-- The fewest digits that are read back as the number, at least `count` of them, and the power of ten
of the last. -/
def digitsFrom (m : Nat) (e : Int) (leading : Int) (count : Nat) : Nat → Nat × Int
  | 0 => (0, 0)
  | tries + 1 =>
    let power := leading - count
    match onGrid? m e power with
    | some c => if c = 0 then digitsFrom m e leading (count + 1) tries else (c, power)
    | none => digitsFrom m e leading (count + 1) tries

def shortest (m : Nat) (e : Int) : Nat × Int :=
  let (n, d) := if e < 0 then (m, Nat.pow 2 (-e).toNat) else (m * Nat.pow 2 e.toNat, 1)
  digitsFrom m e (leadingPower n d) 0 18

def dropZeros (digits : List Char) : List Char :=
  (digits.reverse.dropWhile (· == '0')).reverse

/-- The powers of ten of the first digit for which a number is written without an exponent. -/
def isPlainPower (power : Int) : Bool := -4 ≤ power && power < 16

/-- Digits with a point set after the place of the first `power + 1` of them. -/
def plainText (digits : List Char) (power : Int) : List Char :=
  if power < 0 then
    ['0', '.'] ++ List.replicate (-power - 1).toNat '0' ++ digits
  else
    let width := power.toNat + 1
    let whole := digits.take width
    let fraction := digits.drop width
    whole ++ List.replicate (width - whole.length) '0' ++ ['.'] ++
      (if fraction.isEmpty then ['0'] else fraction)

/-- Digits with a point after the first, and an exponent of at least two places. -/
def exponentText (digits : List Char) (power : Int) : List Char :=
  let fraction := digits.tail
  let places := decimal power.natAbs
  digits.take 1 ++ (if fraction.isEmpty then [] else '.' :: fraction) ++
    ['e', if power < 0 then '-' else '+'] ++
    List.replicate (2 - places.length) '0' ++ places

/-- How a number is written: plainly where its first digit is not far from the point, with an exponent
elsewhere, and always with a sign of being no integer. -/
def text : Binary64 → String
  | infinite negative => if negative then "-inf" else "inf"
  | undefined => "nan"
  | finite negative m e =>
    let body :=
      if m = 0 then ['0', '.', '0']
      else
        let (c, power) := shortest m e
        let all := decimal c
        let leading := power + all.length - 1
        let digits := dropZeros all
        if isPlainPower leading then plainText digits leading else exponentText digits leading
    String.ofList (if negative then '-' :: body else body)

end Binary64

end Brainfuck
