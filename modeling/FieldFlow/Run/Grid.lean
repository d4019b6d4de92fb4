import FieldFlow.Error
import FieldFlow.Scalar

/-!
# Run/Grid — how many time points and how many parallel runs a run has
-/

namespace FieldFlow

/-- The numbers of time points, parallel runs and regions of a run. -/
structure RunAxes where
  steps : Nat
  runs : Nat
  regions : Nat
deriving DecidableEq, Repr

/-- The most time points that a run may have. -/
def maxTimePoints : Nat := 50000000

/-- **The number of time points** — both ends of the time span and the grid points between them; a
span that is not a multiple of the time step is rounded to the nearest one. -/
def timePoints {α : Type} [Scalar α] (span timeStep : α) : Except (Error α) Nat :=
  if !(Scalar.isFinite timeStep && Scalar.lt Scalar.zero timeStep) then
    .error (.invalidSettings (.timeStep timeStep))
  else if !(Scalar.isFinite span && Scalar.le Scalar.zero span) then
    .error (.invalidSettings (.horizon span))
  else
    let intervals := Scalar.round (span / timeStep)
    if !Scalar.isFinite intervals || Scalar.le (Scalar.ofNat maxTimePoints) intervals then
      .error (.invalidSettings (.tooManySteps span timeStep maxTimePoints))
    else .ok (Scalar.toNat intervals + 1)

/-- The first length that is neither one nor the number of runs. -/
def misfit? (runs : Nat) (lengths : List (String × Nat)) : Option (String × Nat) :=
  lengths.find? fun entry => entry.2 ≠ 1 && entry.2 ≠ runs

/-- **The number of parallel runs** — the longest value given per run if there is one, or else the
setting `nx`. Every value given per run must have that length or length one. -/
def runCount {α : Type} (nx : Nat) (lengths : List (String × Nat)) : Except (Error α) Nat :=
  let longest := (lengths.map Prod.snd).foldl max 0
  let runs := if 1 < longest then longest else max nx 1
  match misfit? runs lengths with
  | some (name, n) => .error (.shapeMismatch name [runs] [n])
  | none =>
    if 1 < nx && nx ≠ runs then .error (.shapeMismatch "nx" [runs] [nx]) else .ok runs

end FieldFlow
