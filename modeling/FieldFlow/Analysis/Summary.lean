import FieldFlow.Tensor.History

/-!
# Analysis/Summary — mean, spread, extremes and median
-/

namespace FieldFlow

variable {α : Type} [Scalar α]

/-- The five figures that describe a list of values. -/
structure Summary (α : Type) where
  mean : α
  /-- The population standard deviation. -/
  deviation : α
  least : α
  greatest : α
  median : α

namespace Summary

def meanOf (values : List α) : α := Scalar.sum values / Scalar.ofNat values.length

/-- The mean squared distance from the mean. -/
def varianceOf (values : List α) : α :=
  let mean := meanOf values
  Scalar.sum (values.map fun v => Scalar.square (v - mean)) / Scalar.ofNat values.length

def leastOf (values : List α) : α := values.foldl Scalar.min Scalar.infinity

def greatestOf (values : List α) : α := values.foldl Scalar.max (-Scalar.infinity)

/-- The middle value, or the mean of the two middle ones. -/
def medianOf (values : List α) : α :=
  if values.isEmpty then Scalar.nan
  else
    let sorted := (values.mergeSort Scalar.sortsBefore).toArray
    let middle := sorted.size / 2
    let at_ (k : Nat) : α := sorted[k]?.getD default
    if sorted.size % 2 = 0 then Scalar.half * (at_ (middle - 1) + at_ middle) else at_ middle

def ofList (values : List α) : Summary α where
  mean := meanOf values
  deviation := Scalar.sqrt (varianceOf values)
  least := leastOf values
  greatest := greatestOf values
  median := medianOf values

end Summary

/-- Statistics across the parallel runs; each history has a run axis of length one. -/
structure RunStatistics (α : Type) where
  mean : History α
  deviation : History α
  least : History α
  greatest : History α
  median : History α

/-- **Statistics across the runs** at every time, region and sector; without a run axis an empty
history can become too large. -/
def History.statistics (h : History α) : Except Fault (RunStatistics α) := do
  let collapsed : Shape := { h.shape with runs := 1 }
  let across (f : List α → α) : History α :=
    .ofFn h.steps collapsed fun t _ r i j =>
      f ((List.range h.shape.runs).map fun x => h.get t x r i j)
  check h.steps collapsed
  return {
    mean := across Summary.meanOf
    deviation := across fun values => Scalar.sqrt (Summary.varianceOf values)
    least := across Summary.leastOf
    greatest := across Summary.greatestOf
    median := across Summary.medianOf }

end FieldFlow
