import FieldFlow.Tensor.Broadcast

/-!
# Field/Value — values as a modeller gives them

A value spans only the axes it needs: one number, one number per run, a vector or a matrix over
sectors, or a whole array. `Value.toTensor` lays it out with unit length on the other axes.
-/

namespace FieldFlow

/-- A value of a parameter, or an initial value. -/
inductive Value (α : Type) where
  | scalar (v : α)
  /-- One value for each parallel run. -/
  | runs (values : List α)
  /-- A vector along the first sector axis. -/
  | sectors (values : List α)
  /-- A matrix over both sector axes, row by row. -/
  | matrix (rows : List (List α))
  | array (values : Tensor α)

namespace Value

variable {α : Type}

/-- An element of a list laid out as an array. -/
def element [Inhabited α] (values : Array α) (k : Nat) : α := values[k]?.getD default

/-- **The array of a value** — unit length on every axis it does not span; empty lists and matrices
with rows of different lengths have none. -/
def toTensor [Inhabited α] (field : String) : Value α → Except (Error α) (Tensor α)
  | .scalar v => .ok (.scalar v)
  | .runs values =>
    if values.isEmpty then .error (.malformedField field .emptyRuns)
    else
      let cells := values.toArray
      .ok (.ofFn ⟨values.length, 1, 1, 1⟩ fun x _ _ _ => element cells x)
  | .sectors values =>
    if values.isEmpty then .error (.malformedField field .emptySectors)
    else
      let cells := values.toArray
      .ok (.ofFn ⟨1, 1, values.length, 1⟩ fun _ _ i _ => element cells i)
  | .matrix rows =>
    let columns := (rows.headD []).length
    if rows.isEmpty || columns = 0 then .error (.malformedField field .emptyMatrix)
    else if rows.any fun row => row.length ≠ columns then
      .error (.malformedField field .raggedMatrix)
    else
      let cells := (rows.map List.toArray).toArray
      .ok (.ofFn ⟨1, 1, rows.length, columns⟩ fun _ _ i j => element (cells.getD i #[]) j)
  | .array values => .ok values

/-- The length along the run axis. -/
def runCount : Value α → Nat
  | .runs values => values.length
  | .array values => values.shape.runs
  | .scalar _ | .sectors _ | .matrix _ => 1

/-- A value in the shape of the field it is given to. -/
def inShape [Inhabited α] (field : String) (v : Value α) (s : Shape) :
    Except (Failure α) (Tensor α) := do
  let value ← (v.toTensor field).mapError Failure.error
  value.broadcastTo field s

end Value

end FieldFlow
