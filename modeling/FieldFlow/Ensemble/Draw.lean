import FieldFlow.Ensemble.Distribution
import FieldFlow.Ensemble.Generator
import FieldFlow.OrderedMap

/-!
# Ensemble/Draw — one value per run for several fields at once
-/

namespace FieldFlow

variable {α : Type} [Scalar α]

/-- Draws `n` values for each field in turn, from one stream. -/
def drawColumns (n : Nat) : List (String × Distribution α) → Generator →
    Except (Failure α) (List (String × List α))
  | [], _ => .ok []
  | (field, d) :: rest, g => do
    let (values, g) ← d.sample field n g
    return (field, values) :: (← drawColumns n rest g)

/-- **An ensemble** — for every field one value per run, drawn independently. -/
def drawEnsemble (distributions : OrderedMap (Distribution α)) (n : Nat) (g : Generator) :
    Except (Failure α) (List (String × List α)) :=
  if n = 0 then .error (.error (.invalidSettings .emptyEnsemble))
  else drawColumns n distributions.entries g

end FieldFlow
