import FieldFlow.Error

/-!
# Solver/Cursor — where an integration stands, and how a step can fail

A solver moves a cursor: a time and a flat state, with what an adaptive solver carries from one step
to the next. A step that fails still has a cursor, so that what a failure leaves behind can be seen.
-/

namespace FieldFlow

/-- A system of first-order equations: the derivative at a time and a state, or the system's own
failure to give one. -/
abbrev Rate (ε α : Type) (n : Nat) := α → Vector α n → Except ε (Vector α n)

/-- **Where an integration stands.** -/
structure Cursor (α : Type) (n : Nat) where
  time : α
  state : Vector α n
  /-- The step size that the last accepted internal step suggests for the next one. -/
  suggestion : Option α := none
  /-- Internal steps accepted so far. -/
  accepted : Nat := 0
  /-- Internal steps rejected so far. -/
  rejected : Nat := 0
deriving DecidableEq

/-- How a step can fail. -/
inductive StepFailure (ε α : Type) where
  /-- The system has no derivative to give. -/
  | system (e : ε)
  /-- Error control gave up on the step that began at a time. -/
  | impasse (start : α) (cause : Impasse α)
  /-- The step did not come to an end within the attempts that its length allows. -/
  | unfinished
deriving DecidableEq

/-- A step: the cursor it leaves, and whether it succeeded. -/
abbrev StepResult (ε α : Type) (n : Nat) := Cursor α n × Except (StepFailure ε α) Unit

end FieldFlow
