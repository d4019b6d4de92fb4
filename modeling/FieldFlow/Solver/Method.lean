import FieldFlow.Solver.Adaptive
import FieldFlow.Solver.RungeKutta

/-!
# Solver/Method — integration methods by name
-/

namespace FieldFlow

/-- The integration methods: one of fixed step and three adaptive pairs. -/
inductive Method where
  | rk4
  | rk23
  | rk45
  | rk78
deriving DecidableEq, Repr

namespace Method

/-- The pair that drives an adaptive method. -/
def tableau? : Method → Option Tableau
  | .rk4 => none
  | .rk23 => some .bogackiShampine
  | .rk45 => some .dormandPrince
  | .rk78 => some .fehlberg

def name (m : Method) : String :=
  match m.tableau? with
  | some t => t.name
  | none => "eRK4-homemade"

/-- The method of a name or of its short form. -/
def ofName {α : Type} (name : String) : Except (Error α) Method :=
  match name with
  | "eRK4-homemade" | "rk4" => .ok .rk4
  | "eRK2-adaptive" | "rk23" => .ok .rk23
  | "eRK4-adaptive" | "rk45" => .ok .rk45
  | "eRK8-adaptive" | "rk78" => .ok .rk78
  | other => .error (.unknownSolver other)

/-- One step of a method; the fixed step has no use for tolerances. -/
def step {ε α : Type} {n : Nat} [Scalar α] (m : Method) (control : StepControl α)
    (f : Rate ε α n) (dt : α) (c : Cursor α n) : StepResult ε α n :=
  match m.tableau? with
  | none => RungeKutta.step f dt c
  | some t => Adaptive.step t control f dt c

end Method

end FieldFlow
