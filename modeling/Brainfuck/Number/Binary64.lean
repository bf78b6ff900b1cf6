/-! # Numbers of double precision

A number with a fraction is kept in the binary format of double precision: a mantissa of at most 53
bits and a power of two. Every conversion goes through the exact quotient of two natural numbers and
rounds once, to the nearest number of the format and to the even mantissa where two are as near. -/
namespace Brainfuck

/-- A number of double precision. A finite one is the mantissa times a power of two. -/
inductive Binary64
  | finite (negative : Bool) (mantissa : Nat) (exponent : Int)
  | infinite (negative : Bool)
  | undefined
  deriving DecidableEq, Repr, Inhabited

namespace Binary64

def minExponent : Int := -1074

def maxExponent : Int := 971

def precision : Nat := 53

/-- The quotient of two natural numbers to the nearest natural number, a tie to the even one. -/
def roundDiv (num den : Nat) : Nat :=
  let q := num / den
  let twice := 2 * (num % den)
  if twice < den then q
  else if den < twice then q + 1
  else q + q % 2

/-- A quotient over a power of two, as a pair of natural numbers. -/
def scaled (num den : Nat) (exponent : Int) : Nat × Nat :=
  if exponent < 0 then (num * Nat.pow 2 (-exponent).toNat, den)
  else (num, den * Nat.pow 2 exponent.toNat)

def ofRatio (negative : Bool) (num den : Nat) : Binary64 :=
  if num = 0 then finite negative 0 0
  else
    let e₀ : Int := (Nat.log2 num : Int) - Nat.log2 den - precision
    let quotient (e : Int) := let (n, d) := scaled num den e; n / d
    let e₁ := if Nat.pow 2 precision ≤ quotient e₀ then e₀ + 1 else e₀
    let e := max e₁ minExponent
    let m := let (n, d) := scaled num den e; roundDiv n d
    let (m, e) := if m = Nat.pow 2 precision then (Nat.pow 2 (precision - 1), e + 1) else (m, e)
    if maxExponent < e then infinite negative else finite negative m e

/-- The nearest number to a decimal number. Powers of ten far outside the format are not worked out. -/
def ofDecimal (negative : Bool) (digits : Nat) (exponent : Int) : Binary64 :=
  let size : Int := Nat.log2 digits
  if digits = 0 then finite negative 0 0
  else if 400 < exponent then infinite negative
  else if exponent < -400 - size then finite negative 0 0
  else if exponent < 0 then ofRatio negative digits (Nat.pow 10 (-exponent).toNat)
  else ofRatio negative (digits * Nat.pow 10 exponent.toNat) 1

/-- The value of a finite number as an integer over a natural number. -/
def toRatio? : Binary64 → Option (Int × Nat)
  | finite negative m e =>
    let (n, d) := if e < 0 then (m, Nat.pow 2 (-e).toNat) else (m * Nat.pow 2 e.toNat, 1)
    some (if negative then -(n : Int) else n, d)
  | _ => none

/-- The integer between a finite number and zero that is nearest to the number. -/
def truncate? (x : Binary64) : Option Int :=
  x.toRatio?.map fun (n, d) => n.tdiv d

def negate : Binary64 → Binary64
  | finite negative m e => finite (!negative) m e
  | infinite negative => infinite (!negative)
  | undefined => undefined

/-- The sum of a number and a multiple of another, rounded after each of the two steps. -/
def addMul (sum x : Binary64) (factor : Nat) : Binary64 :=
  let product :=
    match x.toRatio? with
    | some (n, d) => ofRatio (n < 0) (n.natAbs * factor) d
    | none => x
  match sum.toRatio?, product.toRatio? with
  | some (a, b), some (c, d) =>
    let n := a * d + c * b
    ofRatio (n < 0) n.natAbs (b * d)
  | some _, none => product
  | none, _ => sum

end Binary64

end Brainfuck
