/-!
# Scalar — the arithmetic a run is computed in

Every array, function, solver and statistic of this library is written over one class of scalars,
so a statement about a run can be made for any arithmetic at all, or for an exact one, while the
programs that run use binary floating point. Constants are quotients of integers: an exact
arithmetic then reads `1/6` as one sixth.
-/

namespace FieldFlow

/-- **The operations a run uses.** No law is asked for: rounding, signed zeros and values that are
not numbers are all allowed. -/
class Scalar (α : Type) extends Inhabited α, Add α, Sub α, Mul α, Div α, Neg α where
  /-- The scalar for the quotient of an integer by a positive natural number. -/
  ofQuot : Int → Nat → α
  /-- The value that is not a number. -/
  nan : α
  infinity : α
  pi : α
  /-- Numerical equality; a value that is not a number equals nothing, itself included. -/
  eq : α → α → Bool
  lt : α → α → Bool
  le : α → α → Bool
  /-- A total order for sorting: numbers by size, values that are not numbers last. -/
  sortsBefore : α → α → Bool
  isFinite : α → Bool
  abs : α → α
  sqrt : α → α
  exp : α → α
  ln : α → α
  sin : α → α
  cos : α → α
  pow : α → α → α
  floor : α → α
  /-- The nearest whole number, halves away from zero. -/
  round : α → α
  /-- The whole part as a natural number: `0` for anything negative or not a number, and
  `2 ^ 64 - 1` for anything larger than that. -/
  toNat : α → Nat
  /-- The whole part of a finite value as a natural number, however large, and `0` for anything
  negative or not finite. -/
  whole : α → Nat

namespace Scalar

variable {α : Type} [Scalar α]

def zero : α := ofQuot 0 1

def one : α := ofQuot 1 1

def two : α := ofQuot 2 1

def half : α := ofQuot 1 2

def ofNat (n : Nat) : α := ofQuot n 1

/-- A value is a number exactly when it equals itself. -/
def isNumber (a : α) : Bool := eq a a

/-- The larger operand; of equal ones the second, which shows in the sign of a zero, and of a number
and a value that is not one, the number. -/
def max (a b : α) : α := if lt b a || !isNumber b then a else b

/-- The smaller operand; of equal ones the second, which shows in the sign of a zero, and of a
number and a value that is not one, the number. -/
def min (a b : α) : α := if lt a b || !isNumber b then a else b

def square (a : α) : α := a * a

/-- The positive whole number that a scalar stands for. -/
def toCount? (a : α) : Option Nat :=
  if isFinite a && le one a && eq (floor a) a then some (toNat a) else none

/-- Natural powers by repeated squaring, the low bits of the exponent first. -/
def powNat (acc a : α) (n : Nat) : α :=
  if n = 0 then acc
  else powNat (if n % 2 = 1 then acc * a else acc) (a * a) (n / 2)
termination_by n

/-- Whole powers; a negative exponent takes the reciprocal of the positive power. -/
def powInt (a : α) (n : Int) : α :=
  let p := powNat one a n.natAbs
  if n < 0 then one / p else p

/-- The length of a plane vector, scaled so that no intermediate square overflows. -/
def hypot (a b : α) : α :=
  let m := max (abs a) (abs b)
  if !isFinite m then m
  else if eq m zero then abs a + abs b
  else m * sqrt (square (a / m) + square (b / m))

def sum (xs : List α) : α := xs.foldl (· + ·) zero

end Scalar

/-- The whole part of a finite value that is not negative, read off its bits in double precision. -/
def wholeOfBits (bits : UInt64) : Nat :=
  let exponent := (bits >>> 52).toNat
  let significand := (1 <<< 52) + (bits &&& 0xFFFFFFFFFFFFF).toNat
  if exponent < 1075 then significand >>> (1075 - exponent) else significand <<< (exponent - 1075)

instance : Scalar Float where
  ofQuot p q := Float.ofInt p / Float.ofNat q
  nan := 0.0 / 0.0
  infinity := 1.0 / 0.0
  pi := Float.ofBits 0x400921FB54442D18
  eq a b := a == b
  lt a b := a < b
  le a b := a ≤ b
  sortsBefore a b := b.isNaN || a ≤ b
  isFinite := Float.isFinite
  abs := Float.abs
  sqrt := Float.sqrt
  exp := Float.exp
  ln := Float.log
  sin := Float.sin
  cos := Float.cos
  pow := Float.pow
  floor := Float.floor
  round := Float.round
  toNat a := a.toUInt64.toNat
  whole a := if 0 < a && a.isFinite then wholeOfBits a.toBits else 0

/-- Single precision: a quotient is formed in double precision and then rounded. -/
instance : Scalar Float32 where
  ofQuot p q := (Float.ofInt p / Float.ofNat q).toFloat32
  nan := 0.0 / 0.0
  infinity := 1.0 / 0.0
  pi := (Float.ofBits 0x400921FB54442D18).toFloat32
  eq a b := a == b
  lt a b := a < b
  le a b := a ≤ b
  sortsBefore a b := b.isNaN || a ≤ b
  isFinite := Float32.isFinite
  abs := Float32.abs
  sqrt := Float32.sqrt
  exp := Float32.exp
  ln := Float32.log
  sin := Float32.sin
  cos := Float32.cos
  pow := Float32.pow
  floor := Float32.floor
  round := Float32.round
  toNat a := a.toUInt64.toNat
  whole a := if 0 < a && a.isFinite then wholeOfBits a.toFloat.toBits else 0

end FieldFlow
