/-!
# Json/Number — numbers as they are written, and as they are read

A number keeps its digits. As a natural number it is exact; as a floating-point number it is read
quickly rather than closely: the digits are taken up as long as they fit a machine word, and the
result is scaled by a power of ten, so it may be off by a unit in its last place.
-/

namespace FieldFlow

/-- The number that decimal digits stand for. -/
def digitsValue (digits : List Nat) : Nat := digits.foldl (fun n d => 10 * n + d) 0

/-- A number as written: a sign, the digits on both sides of the point, and the power of ten behind
them. A number without a point has no digits after it. -/
structure NumberLiteral where
  negative : Bool
  integer : List Nat
  fraction : List Nat
  exponent : Option Int
deriving DecidableEq, Repr

namespace NumberLiteral

/-- Whether the number is written without a fraction and without an exponent. -/
def isWhole (n : NumberLiteral) : Bool := n.fraction.isEmpty && n.exponent.isNone

/-- The number that stands before the point. -/
def integerPart (n : NumberLiteral) : Nat := digitsValue n.integer

/-- The number as a natural number of at most 64 bits, if it is written as one. -/
def toNat? (n : NumberLiteral) : Option Nat :=
  if n.isWhole && !n.negative && n.integerPart < UInt64.size then some n.integerPart else none

/-! ## Floating point -/

/-- Takes up digits before the point; from the first one that does not fit a word on, digits only
raise the power of ten. -/
def takeInteger (significand : Nat) : List Nat → Nat × Int
  | [] => (significand, 0)
  | d :: ds =>
    let next := 10 * significand + d
    if next < UInt64.size then takeInteger next ds else (significand, ds.length + 1)

/-- Takes up digits after the point; from the first one that does not fit a word on, digits are
dropped. -/
def takeFraction (significand : Nat) (power : Int) : List Nat → Nat × Int
  | [] => (significand, power)
  | d :: ds =>
    let next := 10 * significand + d
    if next < UInt64.size then takeFraction next (power - 1) ds else (significand, power)

/-- The word that the digits fill, and the power of ten that it is to be scaled by. -/
def significand (n : NumberLiteral) : Nat × Int :=
  let (word, power) := takeInteger 0 n.integer
  let (word, power) := takeFraction word power n.fraction
  (word, power + n.exponent.getD 0)

/-- The greatest power of ten that is a float. -/
def greatestPower : Nat := 308

def powerOfTen (k : Nat) : Float := Float.ofScientific 1 false k

/-- A word scaled by a power of ten, unless that is too large for a float. Divisors beyond the
greatest power of ten are divided by in two parts, and nothing is left of a word after that. -/
def scale? (word : Nat) (power : Int) : Option Float :=
  let x := (UInt64.ofNat word).toFloat
  let size := power.natAbs
  if word = 0 then some 0.0
  else if 0 ≤ power then
    if greatestPower < size then none
    else
      let y := x * powerOfTen size
      if y.isFinite then some y else none
  else if size ≤ greatestPower then some (x / powerOfTen size)
  else if size ≤ 2 * greatestPower then
    some (x / powerOfTen greatestPower / powerOfTen (size - greatestPower))
  else some 0.0

/-- **The number in double precision**, unless it is too large for that. -/
def toFloat? (n : NumberLiteral) : Option Float :=
  let (word, power) := n.significand
  (scale? word power).map fun x => if n.negative then -x else x

end NumberLiteral

end FieldFlow
