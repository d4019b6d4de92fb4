import FieldFlow.Error
import FieldFlow.Scalar

/-!
# Solver/Control — the tolerances of the adaptive solvers
-/

namespace FieldFlow

/-- How closely an adaptive solver watches its error. -/
structure StepControl (α : Type) where
  relative : α
  absolute : α
  /-- Below this internal step size the solver gives up. -/
  minStep : α
  /-- Consecutive rejections that are tolerated. -/
  maxRejections : Nat

namespace StepControl

variable {α : Type} [Scalar α]

def standard : StepControl α where
  relative := Scalar.ofQuot 1 1000000
  absolute := Scalar.ofQuot 1 1000000000
  minStep := Scalar.ofQuot 1 10000000000
  maxRejections := 64

instance : Inhabited (StepControl α) := ⟨standard⟩

/-- Refuses tolerances that are negative, not finite or both zero, and a minimum step that is not
positive. -/
def validate (c : StepControl α) : Except (Error α) Unit := do
  let finiteFromZero (a : α) := Scalar.isFinite a && Scalar.le Scalar.zero a
  let positive (a : α) := Scalar.lt Scalar.zero a
  if !finiteFromZero c.relative then throw (.invalidSettings .relativeTolerance)
  if !finiteFromZero c.absolute then throw (.invalidSettings .absoluteTolerance)
  if !(positive c.relative || positive c.absolute) then throw (.invalidSettings .noTolerance)
  if !(Scalar.isFinite c.minStep && positive c.minStep) then
    throw (.invalidSettings .minimumStep)

end StepControl

end FieldFlow
