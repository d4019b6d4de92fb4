import FieldFlow.Run.Recording
import FieldFlow.Solver.Method
import FieldFlow.System.Bind

/-!
# Run/Integrate — moving a model along its time grid

The state is recorded on a grid of equal steps, together with every value computed from it; between
two grid points an adaptive method takes the internal steps that it needs. When error control gives
up, what was recorded so far is the result, with the divergence beside it.
-/

namespace FieldFlow

variable {α : Type} [Scalar α]

/-- A recording, and the divergence that cut it short if one did. -/
structure Outcome (α : Type) where
  recording : Recording α
  divergence : Option (Error α)

/-- The values of all fields at the grid points reached, and the divergence that stopped there. -/
structure Track (α : Type) where
  rows : Array (Buffers α)
  divergence : Option (Error α)

/-- **The time loop** — as many more grid points as asked for, each recorded when it is reached. -/
def drive (sys : System α) (method : Method) (control : StepControl α) (timeStep : α) :
    Nat → Cursor α sys.dimension → Array (Buffers α) → Except (Failure α) (Track α)
  | 0, _, rows => .ok ⟨rows, none⟩
  | more + 1, cursor, rows =>
    match method.step control (fun _ x => sys.rate x) timeStep cursor with
    | (next, .ok ()) => do
      let row ← sys.snapshot next.state
      drive sys method control timeStep more next (rows.push row)
    | (_, .error (.impasse start cause)) =>
      .ok ⟨rows, some (.solverDivergence (rows.size - 1) start cause)⟩
    | (_, .error (.system e)) => .error e
    | (_, .error .unfinished) => .error (.fault .stalled)

/-- The time at which a run starts: the initial value of `time` where that is one number. -/
def startTime (model : Model α) : α :=
  match (model.field? "time").bind Field.initial with
  | some (.scalar t) => t
  | _ => Scalar.zero

/-- The number of time points that a slot is recorded at. -/
def Slot.recordedSteps (slot : Slot α) (steps : Nat) : Nat :=
  if slot.kind.isTimeVarying then steps else 1

/-- The history of the field in slot `i` from the recorded rows. -/
def historyOf (steps : Nat) (rows : Array (Buffers α)) (slot : Slot α) (i : Nat) : History α :=
  let frames := rows.map fun row => (row[i]?.map Buffer.value).getD (.fill slot.shape Scalar.nan)
  .ofFrames (slot.recordedSteps steps) slot.shape frames

/-- The labels of every size field. -/
def sectorLabels (model : Model α) : Except Fault (OrderedMap (List String)) := do
  let sizes := model.fields.values.filterMap fun field =>
    field.sectors.map fun sectors => (field.name, sectors)
  return .ofList (← sizes.mapM fun (name, sectors) => return (name, ← sectors.names))

/-- **A run** of a model over a grid of `axes.steps` time points. -/
def integrate (model : Model α) (axes : RunAxes) (method : Method) (timeStep : α)
    (control : StepControl α) : Except (Failure α) (Outcome α) := do
  if method.tableau?.isSome then control.validate.mapError Failure.error
  if axes.steps = 0 then throw (.error (.invalidSettings .noTimePoint))
  let sys ← model.bind axes.runs axes.regions
  let initial ← (sys.initialState model).mapError Failure.error
  (sys.slots.forM fun slot =>
    History.check (slot.recordedSteps axes.steps) slot.shape).mapError Failure.fault
  let labels ← (sectorLabels model).mapError Failure.fault
  let first ← sys.snapshot initial
  let track ← drive sys method control timeStep (axes.steps - 1)
    { time := startTime model, state := initial } #[first]
  let histories := sys.slots.toList.zipIdx.map fun (slot, i) =>
    (slot.name, historyOf axes.steps track.rows slot i)
  return {
    recording := {
      timeStep := timeStep
      axes := axes
      sectorLabels := labels
      method := method.name
      lastValid := track.rows.size - 1
      fields := .ofList histories }
    divergence := track.divergence }

end FieldFlow
