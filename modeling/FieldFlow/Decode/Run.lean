import FieldFlow.Decode.Record
import FieldFlow.Ensemble.Distribution
import FieldFlow.Solver.Control

/-!
# Decode/Run — tolerances and distributions written as JSON
-/

namespace FieldFlow

open Json

def StepControl.ofJson? (j : Json) : Option (StepControl Double) := do
  let fields ← j.record? ["rtol", "atol", "min_step", "max_rejections"]
  let known : StepControl Double := .standard
  return {
    relative := ← defaulted float? fields 0 known.relative
    absolute := ← defaulted float? fields 1 known.absolute
    minStep := ← defaulted float? fields 2 known.minStep
    maxRejections := ← defaulted natural? fields 3 known.maxRejections }

/-- The kind of a written distribution; names are told apart by their case here. -/
def DistributionKind.ofJson? (j : Json) : Option DistributionKind := do
  match ← j.word? with
  | "normal" | "gaussian" => some .normal
  | "lognormal" | "log" | "log-normal" => some .logNormal
  | "uniform" => some .uniform
  | _ => none

/-- The two ends of an interval. -/
def bounds? (j : Json) : Option (Double × Double) := do
  match ← j.list? float? with
  | [low, high] => some (low, high)
  | _ => none

def Distribution.ofJson? (j : Json) : Option (Distribution Double) := do
  let fields ← j.record? ["mean", "spread", "kind", "bounds"]
  let known : Distribution Double := .standard
  return {
    mean := ← defaulted float? fields 0 known.mean
    spread := ← defaulted float? fields 1 known.spread
    kind := ← defaulted DistributionKind.ofJson? fields 2 known.kind
    bounds := ← defaulted (nullable? bounds?) fields 3 known.bounds }

end FieldFlow
