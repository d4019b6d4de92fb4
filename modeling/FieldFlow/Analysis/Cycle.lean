import FieldFlow.Analysis.Convergence
import FieldFlow.Analysis.Summary

/-!
# Analysis/Cycle — oscillations between the maxima of a field

A cycle reaches from one local maximum of a reference field to the next. Cycles of a run follow each
other without a gap, and what happens before the first maximum and after the last belongs to none.
-/

namespace FieldFlow

variable {α : Type} [Scalar α]

/-- The number of Fourier coefficients that describe a cycle. -/
def cycleHarmonics : Nat := 10

/-- **One oscillation** of a field. -/
structure Cycle (α : Type) where
  /-- The time indices of the two maxima; the cycle has the values from the first up to, and not
  including, the second. -/
  start : Nat
  stop : Nat
  startTime : α
  stopTime : α
  summary : Summary α
  /-- The magnitudes of the first Fourier coefficients. -/
  coefficients : List α
  /-- The share of the energy of the coefficients that is not in the constant one. -/
  harmonicity : α

namespace Cycle

def period (c : Cycle α) : α := c.stopTime - c.startTime

def midTime (c : Cycle α) : α := Scalar.half * (c.startTime + c.stopTime)

def frequency (c : Cycle α) : α := Scalar.one / c.period

/-- The middle value of a cycle, or the mean of its two middle ones; a cycle has values. -/
def medianOf (window : List α) : α :=
  let sorted := (window.mergeSort Scalar.sortsBefore).toArray
  let middle := sorted.size / 2
  let at_ (k : Nat) : α := sorted[k]?.getD default
  if sorted.size % 2 = 0 then Scalar.half * (at_ (middle - 1) + at_ middle) else at_ middle

/-- The figures of the values of a cycle. -/
def figuresOf (window : List α) : Summary α :=
  let n : α := Scalar.ofNat window.length
  let mean := Scalar.sum window / n
  let squares := window.map fun v => Scalar.square (v - mean)
  { mean := mean
    deviation := Scalar.sqrt (Scalar.sum squares / n)
    least := window.foldl Scalar.min Scalar.infinity
    greatest := window.foldl Scalar.max (-Scalar.infinity)
    median := medianOf window }

end Cycle

/-- The magnitude of the `k`-th Fourier coefficient, the samples spread evenly over the interval
from zero to one, ends included. -/
def fourierMagnitude (samples : List α) (k : Nat) : α :=
  let n := samples.length
  let gap : α := if 1 < n then Scalar.one / Scalar.ofNat (n - 1) else Scalar.zero
  let angle (j : Nat) : α :=
    -Scalar.two * Scalar.pi * Scalar.ofNat k * Scalar.ofNat j * gap
  let component (f : α → α) : α :=
    Scalar.sum (samples.zipIdx.map fun (v, j) => v * f (angle j)) / Scalar.ofNat n
  Scalar.hypot (component Scalar.cos) (component Scalar.sin)

/-- The share of the energy of coefficients that is not in the first one. -/
def harmonicityOf (coefficients : List α) : α :=
  let energy := Scalar.sum (coefficients.map Scalar.square)
  if Scalar.lt Scalar.zero energy then
    Scalar.sum ((coefficients.drop 1).map Scalar.square) / energy
  else Scalar.zero

/-- The indices at which values exceed both neighbours; the first point and the last two are never
among them. -/
def localMaxima (values : Array α) : List Nat :=
  ((List.range (values.size - 2)).drop 1).filter fun i =>
    let at_ (k : Nat) : α := values[k]?.getD default
    Scalar.lt (at_ (i - 1)) (at_ i) && Scalar.lt (at_ (i + 1)) (at_ i)

/-- Each element of a list with the one after it. -/
def consecutive {β : Type} : List β → List (β × β)
  | a :: b :: rest => (a, b) :: consecutive (b :: rest)
  | _ => []

/-- The cycle of values between two maxima. -/
def describeCycle (values times : Array α) (start stop : Nat) : Cycle α :=
  let window := (values.extract start stop).toList
  let coefficients := (List.range cycleHarmonics).map (fourierMagnitude window)
  { start := start
    stop := stop
    startTime := times[start]?.getD default
    stopTime := times[stop]?.getD default
    summary := Cycle.figuresOf window
    coefficients := coefficients
    harmonicity := harmonicityOf coefficients }

/-- The values of a field in one run; a field with fewer runs is read at its last one. -/
def cycleSeries (h : History α) (points run region : Nat) : Except (Failure α) (Array α) :=
  ((Recording.seriesOf h points (min run (h.shape.runs - 1)) region).map List.toArray).mapError
    Failure.fault

/-- A history whose region or first sector does not exist cannot be read. -/
def checkReadable (h : History α) (region : Nat) : Except (Failure α) Unit :=
  if (place? h.shape.regions region).isSome && 0 < h.shape.sectorA && 0 < h.shape.sectorB then
    .ok ()
  else .error (.fault .outOfRange)

/-- **The cycles of a field in every run**, delimited by the maxima of a reference field; both are
read at a region and the first sector, up to the last valid time. -/
def cycles (rec : Recording α) (field reference : String) (region : Nat) :
    Except (Failure α) (List (List (Cycle α))) := do
  checkRegion rec region
  let points := rec.validPoints
  let time ← validTimes rec
  let times ← cycleSeries time points 0 0
  let values ← varyingField rec field "cycle analysis"
  checkReadable values region
  let bounds ← varyingField rec reference "cycle analysis"
  checkReadable bounds region
  (checkCapacity rec.axes.runs listBytes).mapError Failure.fault
  (List.range rec.axes.runs).mapM fun run => do
    let x ← cycleSeries values points run region
    let r ← cycleSeries bounds points run region
    return (consecutive (localMaxima r)).map fun (start, stop) => describeCycle x times start stop

end FieldFlow
