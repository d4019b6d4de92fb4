import FieldFlow.Run.Recording

/-!
# Analysis/Convergence — how fast runs approach a target

The distance of a run to a target point is fitted by a decaying exponential: a straight line through
the logarithms of the distances, where a distance counts in proportion to itself.
-/

namespace FieldFlow

variable {α : Type} [Scalar α]

/-- A point of a weighted fit. -/
structure FitPoint (α : Type) where
  x : α
  y : α
  weight : α

/-- **The slope of the weighted least-squares line.** -/
def weightedSlope (points : List (FitPoint α)) : α :=
  let total := Scalar.sum (points.map FitPoint.weight)
  let xMean := Scalar.sum (points.map fun p => p.weight * p.x) / total
  let yMean := Scalar.sum (points.map fun p => p.weight * p.y) / total
  let covariance := Scalar.sum (points.map fun p => p.weight * (p.x - xMean) * (p.y - yMean))
  let variance := Scalar.sum (points.map fun p => p.weight * Scalar.square (p.x - xMean))
  covariance / variance

/-- The decay constant of distances over time. A distance that is not finite means no approach at
all; fewer than two positive distances mean that the target was met. -/
def decayConstant (times distances : List α) : α :=
  if distances.any fun d => !Scalar.isFinite d then -Scalar.infinity
  else
    let points := ((times.zip distances).filter fun p => Scalar.lt Scalar.zero p.2).map
      fun (t, d) => (⟨t, Scalar.ln d, d⟩ : FitPoint α)
    if points.length < 2 then Scalar.infinity else -weightedSlope points

/-- A region that a run does not have is refused. -/
def checkRegion (rec : Recording α) (region : Nat) : Except (Failure α) Unit :=
  if rec.axes.regions ≤ region then
    .error (.error (.shapeMismatch "region" [rec.axes.regions] [region]))
  else .ok ()

/-- A field that varies in time, for a reader with a name. -/
def varyingField (rec : Recording α) (name reader : String) : Except (Failure α) (History α) :=
  match rec.field? name with
  | none => .error (.error (.unknownField name (some reader)))
  | some h =>
    if h.steps < rec.validPoints then .error (.error (.malformedField name .noTimeAxis))
    else .ok h

/-- The recorded times up to the last valid one. -/
def validTimes (rec : Recording α) : Except (Failure α) (History α) :=
  match rec.field? "time" with
  | none => .error (.error (.unknownField "time" none))
  | some h => .ok h

/-- The values of a target field in every run, up to the last valid time; a field with one run
stands for every run. -/
def targetSeries (rec : Recording α) (region : Nat) (name : String) :
    Except (Failure α) (List (List α)) := do
  let h ← varyingField rec name "convergence target"
  let points := rec.validPoints
  let some r := place? h.shape.regions region | throw (.fault .outOfRange)
  if h.shape.sectorA = 0 || h.shape.sectorB = 0 then throw (.fault .outOfRange)
  if h.shape.runs ≠ rec.axes.runs && h.shape.runs ≠ 1 then
    throw (.fault (.shapes [points, rec.axes.runs] [points, h.shape.runs]))
  return (List.range rec.axes.runs).map fun x =>
    (List.range points).map fun t => h.get t (if h.shape.runs = 1 then 0 else x) r 0 0

/-- The distances of one run to the target at the successive times. -/
def distancesTo (points : Nat) (goals : List α) (series : List (List α)) : List α :=
  let columns := series.map List.toArray
  (List.range points).map fun t =>
    Scalar.sqrt (Scalar.sum ((columns.zip goals).map fun (values, goal) =>
      Scalar.square (values[t]?.getD default - goal)))

/-- **The rate at which each run approaches a target** — one number for each field of the target,
read at a region and the first sector. -/
def convergenceRates (rec : Recording α) (target : OrderedMap α) (region : Nat) :
    Except (Failure α) (List α) := do
  checkRegion rec region
  let time ← validTimes rec
  let points := rec.validPoints
  (checkExtent [points, rec.axes.runs]).mapError Failure.fault
  let series ← target.keys.mapM (targetSeries rec region)
  let times ← (Recording.seriesOf time points 0 0).mapError Failure.fault
  return (List.range rec.axes.runs).map fun x =>
    decayConstant times (distancesTo points target.values (series.map fun runs => runs.getD x []))

end FieldFlow
