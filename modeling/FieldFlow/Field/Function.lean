import FieldFlow.Tensor.Capacity

/-!
# Field/Function — functions of declared inputs

A field function never sees the whole model. It is handed the values of exactly the inputs that it
declared, so what it depends on is known without running it.
-/

namespace FieldFlow

/-- The current values of a function's declared inputs, in the order of the declaration. -/
structure Inputs (α : Type) where
  bindings : List (String × Tensor α)

namespace Inputs

variable {α : Type}

def names (inputs : Inputs α) : List String := inputs.bindings.map Prod.fst

/-- The value of an input, if it was declared. -/
def get? (inputs : Inputs α) (name : String) : Option (Tensor α) :=
  (inputs.bindings.find? fun b => b.1 == name).map Prod.snd

/-- The value of an input; reading what was never declared is a fault of the function. -/
def get (inputs : Inputs α) (name : String) : Except Fault (Tensor α) :=
  match inputs.get? name with
  | some value => .ok value
  | none => .error (.undeclaredInput name inputs.names)

/-- The first element of an input known to be a scalar. -/
def scalar [Scalar α] (inputs : Inputs α) (name : String) : Except Fault α := do
  let value ← inputs.get name
  return value.data[0]?.getD Scalar.nan

end Inputs

/-- **A field function** with its declared inputs. -/
structure Function (α : Type) where
  inputs : List String
  eval : Inputs α → Except Fault (Tensor α)

namespace Function

variable {α : Type}

def readsItself (f : Function α) : Bool := f.inputs.any (· == itself)

/-- The function applied to the values of its inputs. -/
def apply (f : Function α) (values : List (Tensor α)) : Except Fault (Tensor α) :=
  f.eval ⟨f.inputs.zip values⟩

/-- A function without inputs. -/
def constant (value : Tensor α) : Function α := ⟨[], fun _ => .ok value⟩

end Function

end FieldFlow
