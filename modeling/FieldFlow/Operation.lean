import FieldFlow.Scalar

/-!
# Operation — the named operations on scalars
-/

namespace FieldFlow

/-- Operations on two operands. -/
inductive BinaryOp where
  | add
  | sub
  | mul
  | div
  | min
  | max
deriving DecidableEq, Repr

/-- Operations on one operand. -/
inductive UnaryOp where
  | neg
  | exp
  | ln
  | sqrt
  | abs
  | sin
  | cos
deriving DecidableEq, Repr

variable {α : Type} [Scalar α]

def BinaryOp.apply : BinaryOp → α → α → α
  | .add, a, b => a + b
  | .sub, a, b => a - b
  | .mul, a, b => a * b
  | .div, a, b => a / b
  | .min, a, b => Scalar.min a b
  | .max, a, b => Scalar.max a b

def UnaryOp.apply : UnaryOp → α → α
  | .neg, a => -a
  | .exp, a => Scalar.exp a
  | .ln, a => Scalar.ln a
  | .sqrt, a => Scalar.sqrt a
  | .abs, a => Scalar.abs a
  | .sin, a => Scalar.sin a
  | .cos, a => Scalar.cos a

end FieldFlow
