import FieldFlow.Field.Function
import FieldFlow.Operation
import FieldFlow.Tensor.Inverse

/-!
# Field/Expression — functions written as expressions

An expression names inputs and combines their values elementwise, by powers, and by the sector
operators. `Expression.toFunction` makes it a field function; the inputs are declared on their own,
since a function may declare more than it reads.
-/

namespace FieldFlow

/-- Sector operators on one operand. -/
inductive SectorOp where
  | transpose
  | sumFirst
  | sumSecond
  | sumRegions
  | identity
  | inverse
deriving DecidableEq, Repr

/-- Sector operators on two operands. -/
inductive ProductOp where
  | matmul
  | sectorProduct
  | distance
deriving DecidableEq, Repr

section Operations

variable {α : Type} [Scalar α]

def SectorOp.apply : SectorOp → Tensor α → Except Fault (Tensor α)
  | .transpose, t => .ok t.transpose
  | .sumFirst, t => t.sumFirst
  | .sumSecond, t => t.sumSecond
  | .sumRegions, t => t.sumRegions
  | .identity, t => t.identity
  | .inverse, t => t.inverse

def ProductOp.apply : ProductOp → Tensor α → Tensor α → Except Fault (Tensor α)
  | .matmul, t, u => t.matmul u
  | .sectorProduct, t, u => t.sectorProduct u
  | .distance, t, u => t.distance u

end Operations

/-- **Expressions** over declared inputs. -/
inductive Expression (α : Type) where
  | number (c : α)
  | input (name : String)
  | binary (op : BinaryOp) (a b : Expression α)
  | unary (op : UnaryOp) (a : Expression α)
  | powInt (a : Expression α) (n : Int)
  | pow (a : Expression α) (c : α)
  /-- The first element of an input. -/
  | scalar (name : String)
  /-- The number of declared inputs. -/
  | inputCount
  /-- An input, or something else where it was not declared. -/
  | inputOr (name : String) (otherwise : Expression α)
  | constant (value : Tensor α)
  /-- One number everywhere in a shape. -/
  | filled (s : Shape) (c : α)
  /-- One region of a value. -/
  | region (a : Expression α) (r : Nat)
  | sector (op : SectorOp) (a : Expression α)
  | product (op : ProductOp) (a b : Expression α)

namespace Expression

variable {α : Type} [Scalar α]

/-- The value of an expression; operands are evaluated from left to right. -/
def eval (inputs : Inputs α) : Expression α → Except Fault (Tensor α)
  | .number c => .ok (.scalar c)
  | .input name => inputs.get name
  | .binary op a b => do
    let x ← a.eval inputs
    let y ← b.eval inputs
    x.zipWith op.apply y
  | .unary op a => do return (← a.eval inputs).map op.apply
  | .powInt a n => do return (← a.eval inputs).map fun x => Scalar.powInt x n
  | .pow a c => do return (← a.eval inputs).map fun x => Scalar.pow x c
  | .scalar name => do return .scalar (← inputs.scalar name)
  | .inputCount => .ok (.scalar (Scalar.ofNat inputs.names.length))
  | .inputOr name otherwise =>
    match inputs.get? name with
    | some value => .ok value
    | none => otherwise.eval inputs
  | .constant value => .ok value
  | .filled s c => Tensor.allocateFilled s c
  | .region a r => do (← a.eval inputs).region r
  | .sector op a => do op.apply (← a.eval inputs)
  | .product op a b => do
    let x ← a.eval inputs
    let y ← b.eval inputs
    op.apply x y

/-- The function with the given declared inputs that evaluates an expression. -/
def toFunction (inputs : List String) (body : Expression α) : Function α :=
  ⟨inputs, fun values => body.eval values⟩

end Expression

end FieldFlow
