import FieldFlow.Analysis.Cycle
import FieldFlow.Analysis.Derivative
import FieldFlow.Ensemble.Draw
import FieldFlow.Model.Load
import FieldFlow.Run.Integrate

/-!
# Simulation — a model with its current values and its last run

Values, presets and ensembles are assigned, runs are made, and their histories read back. Every
assignment returns the simulation that it leaves, also when it fails.
-/

namespace FieldFlow

/-- What can be assigned to a field: a value, or one draw for each of a number of runs. -/
inductive Assignment (α : Type) where
  | value (v : Value α)
  | drawn (d : Distribution α) (runs : Nat)

/-- **A loaded model** together with its settings, its random stream and its last run. -/
structure Simulation (α : Type) where
  model : Model α
  runs : Nat
  regions : Nat
  generator : Generator
  last : Option (Recording α)

variable {α : Type} [Scalar α]

/-- A setting that counts something. -/
def positiveCount (name : String) (v : α) : Except (Error α) Nat :=
  match Scalar.toCount? v with
  | some n => .ok n
  | none => .error (.invalidSettings (.count name v))

/-- A count from the registry, one where it has none. -/
def registryCount (registry : Registry α) (name : String) : Except (Error α) Nat :=
  match registry.number? name with
  | some v => positiveCount name v
  | none => .ok 1

namespace Simulation

/-- What a call leaves behind, and whether it succeeded. -/
abbrev Result (α : Type) := Simulation α × Except (Failure α) Unit

/-- **Loading a simulation**; equal seeds make equal draws. -/
def load (registry : Registry α) (d : Description α) (seed : Nat) :
    Except (Error α) (Simulation α) := do
  let runs ← registryCount registry "nx"
  let regions ← registryCount registry "nr"
  let model ← FieldFlow.load registry d
  return ⟨model, runs, regions, .ofSeed seed, none⟩

/-- The simulation with one field changed. -/
def withField (s : Simulation α) (name : String) (f : Field α → Field α) : Simulation α :=
  { s with model := { s.model with fields := s.model.fields.modify name f } }

/-- Assigns a setting of the run itself. -/
def setSetting (s : Simulation α) (name : String) (v : Value α) :
    Except (Error α) (Simulation α) :=
  match v with
  | .scalar c =>
    match name with
    | "nx" => do return { s with runs := ← positiveCount name c }
    | "nr" => do return { s with regions := ← positiveCount name c }
    | "Tini" =>
      .ok (s.withField "time" fun field => { field with initial := some (.scalar c) })
    | _ => .error (.unknownField name none)
  | _ => .error (.malformedField name .notSingleNumber)

/-- Assigns a value: the initial value of a dynamic field, or the value of a parameter, which is
then computed no more. -/
def setValue (s : Simulation α) (name : String) (v : Value α) :
    Except (Error α) (Simulation α) := do
  discard (v.toTensor name)
  match s.model.field? name with
  | none => s.setSetting name v
  | some field =>
    match field.kind with
    | .dynamic => return s.withField name fun field => { field with initial := some v }
    | .parameter =>
      return s.withField name fun field => { field with function := none, value := some v }
    | .algebraic => throw (.malformedField name .computed)
    | .size => throw (.malformedField name .fixedSize)

/-- A changed simulation as the result of a call that starts from `s`. -/
def resultOf (s : Simulation α) (changed : Except (Error α) (Simulation α)) : Result α :=
  match changed with
  | .ok next => (next, .ok ())
  | .error e => (s, .error (.error e))

/-- **Assigning to a field** or to a setting of the run. -/
def setField (s : Simulation α) (name : String) (assignment : Assignment α) : Result α :=
  match assignment with
  | .value v => s.resultOf (s.setValue name v)
  | .drawn d runs =>
    match d.sample name runs s.generator with
    | .error e => (s, .error e)
    | .ok (values, generator) =>
      let drawn := { s with generator := generator }
      drawn.resultOf (drawn.setValue name (.runs values))

/-- Assigns values one after another, up to the first that fails. -/
def setAll (s : Simulation α) : List (String × Value α) → Result α
  | [] => (s, .ok ())
  | (name, v) :: rest =>
    match s.setValue name v with
    | .ok next => next.setAll rest
    | .error e => (s, .error (.error e))

/-- **Applying a preset.** -/
def setPreset (s : Simulation α) (name : String) : Result α :=
  match s.model.presets.get? name with
  | none => (s, .error (.error (.unknownField name (some "presets"))))
  | some preset => s.setAll preset.values.entries

/-- **Drawing an ensemble** and assigning it along the runs. The draws come from the given seed and
leave the simulation's own stream where it is. -/
def setEnsemble (s : Simulation α) (distributions : OrderedMap (Distribution α)) (n : Nat)
    (seed : Nat) : Result α :=
  match distributions.keys.find? fun name => (s.model.field? name).isNone with
  | some missing => (s, .error (.error (.unknownField missing (some "ensemble"))))
  | none =>
    match drawEnsemble distributions n (.ofSeed seed) with
    | .error e => (s, .error e)
    | .ok columns => s.setAll (columns.map fun (name, values) => (name, .runs values))

/-- The lengths of all assigned values along the run axis. -/
def valueLengths (model : Model α) : List (String × Nat) :=
  model.fields.values.filterMap fun field =>
    let value :=
      match field.kind with
      | .dynamic => field.initial
      | .parameter => field.value
      | .algebraic | .size => none
    value.map fun v => (field.name, v.runCount)

/-- Makes a run from the current values; a run that diverges is kept, with its divergence as the
error. -/
def run (s : Simulation α) (method : String) (timeStep span : α) (control : StepControl α) :
    Result α :=
  let planned : Except (Error α) (Method × RunAxes) := do
    let m ← Method.ofName method
    let steps ← timePoints span timeStep
    let runs ← runCount s.runs (valueLengths s.model)
    return (m, ⟨steps, runs, s.regions⟩)
  match planned with
  | .error e => (s, .error (.error e))
  | .ok (m, axes) =>
    match integrate s.model axes m timeStep control with
    | .error e => ({ s with last := none }, .error e)
    | .ok outcome =>
      ({ s with last := some outcome.recording },
        match outcome.divergence with
        | some e => .error (.error e)
        | none => .ok ())

/-- The history of a field in the last run. -/
def history (s : Simulation α) (name : String) : Except (Error α) (History α) :=
  match s.last with
  | none => .error (.invalidSettings .notRun)
  | some rec =>
    match rec.field? name with
    | some h => .ok h
    | none => .error (.unknownField name none)

/-- Statistics of a field across the runs of the last run. -/
def statistics (s : Simulation α) (name : String) : Except (Failure α) (RunStatistics α) := do
  let h ← (s.history name).mapError Failure.error
  h.statistics.mapError Failure.fault

end Simulation

end FieldFlow
