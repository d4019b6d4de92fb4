import FieldFlow.Scalar

/-!
# Scalar/Double — double precision, with the sign of what is not a number

A floating-point value that is not a number still has a sign. Arithmetic hides it, and a sort shows
it: negative ones come before every number, positive ones after. So the sign is kept beside the
value, and every operation says what becomes of it.
-/

namespace FieldFlow

/-- **A double-precision value.** -/
structure Double where
  value : Float
  /-- The sign of a value that is not a number; numbers carry their own and have `false` here. -/
  negative : Bool
deriving Inhabited

namespace Double

/-- A value whose sign is positive unless it is a number. -/
@[inline] def ofFloat (x : Float) : Double := ⟨x, false⟩

def isNaN (a : Double) : Bool := a.value.isNaN

/-- An operation on one operand. What is not a number stays what it is; where a number has no
result, the result is negative. -/
@[inline] def lift (f : Float → Float) (a : Double) : Double :=
  let c := f a.value
  ⟨c, c.isNaN && (!a.isNaN || a.negative)⟩

/-- An operation on two operands. Of operands that are not numbers the first gives its sign to the
result; where two numbers have no result, it is negative. -/
@[inline] def lift₂ (f : Float → Float → Float) (a b : Double) : Double :=
  let c := f a.value b.value
  ⟨c, c.isNaN && (if a.isNaN then a.negative else !b.isNaN || b.negative)⟩

/-- The negation, which turns every sign. -/
def neg (a : Double) : Double := ⟨-a.value, a.isNaN && !a.negative⟩

def abs (a : Double) : Double := ofFloat a.value.abs

/-- Whether a value is an odd whole number. -/
def isOdd (a : Double) : Bool :=
  a.value.floor == a.value && (a.value / 2).floor * 2 != a.value

/-- A power; an odd power is positive where its base is not a number. -/
def pow (a b : Double) : Double :=
  let c := lift₂ Float.pow a b
  if a.isNaN && b.isOdd then ofFloat c.value else c

/-- The order for sorting: what is negative and not a number, the numbers by size, what is positive
and not a number. -/
def sortsBefore (a b : Double) : Bool :=
  a.isNaN && a.negative || b.isNaN && !b.negative || a.value ≤ b.value

end Double

instance : Scalar Double where
  add := .lift₂ (· + ·)
  sub := .lift₂ (· - ·)
  mul := .lift₂ (· * ·)
  div := .lift₂ (· / ·)
  neg := .neg
  ofQuot p q := .ofFloat (Scalar.ofQuot p q)
  nan := .ofFloat Scalar.nan
  infinity := .ofFloat Scalar.infinity
  pi := .ofFloat Scalar.pi
  eq a b := Scalar.eq a.value b.value
  lt a b := Scalar.lt a.value b.value
  le a b := Scalar.le a.value b.value
  sortsBefore := Double.sortsBefore
  isFinite a := a.value.isFinite
  abs := .abs
  sqrt := .lift Float.sqrt
  exp := .lift Float.exp
  ln := .lift Float.log
  sin := .lift Float.sin
  cos := .lift Float.cos
  pow := .pow
  floor := .lift Float.floor
  round := .lift Float.round
  toNat a := Scalar.toNat a.value
  whole a := Scalar.whole a.value

end FieldFlow
