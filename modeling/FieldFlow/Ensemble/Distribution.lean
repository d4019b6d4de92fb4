import FieldFlow.Ensemble.Sampler
import FieldFlow.Tensor.Capacity

/-!
# Ensemble/Distribution — how the values of an uncertain field are spread
-/

namespace FieldFlow

inductive DistributionKind where
  | normal
  /-- Log-normal with the requested mean and standard deviation. -/
  | logNormal
  | uniform
deriving DecidableEq, Repr

variable {α : Type}

/-- The kind of a name, in small or capital letters. -/
def DistributionKind.ofName (field name : String) : Except (Error α) DistributionKind :=
  match name.toLower with
  | "normal" | "gaussian" => .ok .normal
  | "log" | "lognormal" | "log-normal" => .ok .logNormal
  | "uniform" => .ok .uniform
  | other => .error (.invalidDistribution field (.unknownKind other))

/-- **A distribution.** `spread` is a standard deviation, or the whole width of a uniform interval;
`bounds` replace the interval where they are given. -/
structure Distribution (α : Type) where
  mean : α
  spread : α
  kind : DistributionKind
  bounds : Option (α × α)

namespace Distribution

variable [Scalar α]

/-- The distribution that is meant where nothing is said. -/
def standard : Distribution α := ⟨Scalar.zero, Scalar.zero, .normal, none⟩

def normal (mean deviation : α) : Distribution α := ⟨mean, deviation, .normal, none⟩

def logNormal (mean deviation : α) : Distribution α := ⟨mean, deviation, .logNormal, none⟩

/-- Uniform over an interval of the given width around a mean. -/
def uniform (mean width : α) : Distribution α := ⟨mean, width, .uniform, none⟩

def uniformBetween (low high : α) : Distribution α :=
  ⟨Scalar.half * (low + high), high - low, .uniform, some (low, high)⟩

/-- Refuses parameters that no draw could follow. Explicit bounds stand in for the spread, so they
are checked in its place. -/
def validate (d : Distribution α) (field : String) : Except (Error α) Unit := do
  let refuse (defect : DistributionDefect α) : Except (Error α) Unit :=
    .error (.invalidDistribution field defect)
  if !Scalar.isFinite d.mean then refuse (.mean d.mean)
  match d.bounds with
  | some (low, high) =>
    if !(Scalar.isFinite low && Scalar.isFinite high) || Scalar.lt high low then
      refuse (.bounds low high)
  | none =>
    if !(Scalar.isFinite d.spread && Scalar.le Scalar.zero d.spread) then refuse (.spread d.spread)
  if d.kind = .logNormal && Scalar.eq d.mean Scalar.zero then refuse .zeroMean

/-- The interval of a uniform draw. -/
def interval (d : Distribution α) : α × α :=
  d.bounds.getD (d.mean - Scalar.half * d.spread, d.mean + Scalar.half * d.spread)

/-- The variance of the logarithm of a log-normal draw. -/
def logVariance (d : Distribution α) : α :=
  Scalar.ln (Scalar.one + Scalar.square (d.spread / Scalar.abs d.mean))

/-- The mean of the logarithm of a log-normal draw. -/
def logMean (d : Distribution α) : α :=
  Scalar.ln (Scalar.abs d.mean) - Scalar.half * d.logVariance

variable {σ : Type} [Sampler σ α]

/-- A normal draw of given mean and standard deviation. -/
def drawNormal (mean deviation : α) (g : σ) : α × σ :=
  let (z, g) := Sampler.normal g
  (mean + deviation * z, g)

/-- A log-normal draw, with the sign of the mean. -/
def drawLogNormal (d : Distribution α) (g : σ) : α × σ :=
  let (z, g) := drawNormal d.logMean (Scalar.sqrt d.logVariance) g
  let size := Scalar.exp z
  (if Scalar.lt d.mean Scalar.zero then -size else size, g)

/-- A draw from an interval, ends included. -/
def drawUniform (low high : α) (g : σ) : α × σ :=
  let (u, g) := Sampler.uniform g
  (Scalar.max low (Scalar.min high (low + (high - low) * u)), g)

/-- **Drawing** `n` values for a field from a stream. A variation that is not finite is refused, and
an interval so wide that its width is not finite cannot be drawn from; an interval of one point
needs no draw. -/
def sample (d : Distribution α) (field : String) (n : Nat) (g : σ) :
    Except (Failure α) (List α × σ) := do
  (d.validate field).mapError Failure.error
  let room := (checkCapacity n numberBytes).mapError Failure.fault
  let unbounded : Failure α := .error (.invalidDistribution field .unboundedVariation)
  match d.kind with
  | .normal =>
    if !Scalar.isFinite d.spread then throw unbounded
    room
    return Sampler.replicate (drawNormal d.mean d.spread) n g
  | .logNormal =>
    if !Scalar.isFinite (Scalar.sqrt d.logVariance) then throw unbounded
    room
    return Sampler.replicate d.drawLogNormal n g
  | .uniform =>
    let (low, high) := d.interval
    room
    if Scalar.eq low high then return (List.replicate n low, g)
    let step := (high - low) / (Scalar.one - Scalar.ofQuot 1 (1 <<< 52))
    if !Scalar.isFinite step then throw (.fault .unboundedInterval)
    return Sampler.replicate (drawUniform low high) n g

end Distribution

end FieldFlow
