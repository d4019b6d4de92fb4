import FieldFlow.Field.Kind
import FieldFlow.Scalar.Double
import FieldFlow.Text.Decimal
import FieldFlow.Text.Quoted

/-!
# Error — what can go wrong between writing a model down and reading back a run

An `Error` is an answer: the model, the settings or the integration is at fault, and the message
says how. A `Fault` is a computation that has no answer at all — a function body that combines
arrays which do not line up, or a place read that does not exist. Causes are data here; `message` is
the one place that words them.
-/

namespace FieldFlow

/-- Why a field declaration, a field or a value for it was refused. -/
inductive Defect (α : Type) where
  -- a value that cannot be laid out as an array
  | emptyRuns
  | emptySectors
  | emptyMatrix
  | raggedMatrix
  -- attributes
  | unknownKey (key : String)
  | repeatedKey (key : String)
  | unsuitableKey (key : String) (found : AttributeSort)
  | declaredTwice (first second : Category)
  | foreignSelfReference
  | needsFunction (kind : FieldKind)
  | fixedValue (kind : FieldKind)
  | needlessInitial
  | valueNotNumeric
  | valueAndFunction
  | neitherValueNorFunction
  | computedSize
  | axesNotNames
  | tooManyAxes (count : Nat)
  | axesOfSize
  | noInitial
  | countAndLabels
  | badCount (count : α)
  | badSize
  | noSectors
  | axisNotSize (axis : String) (kind : FieldKind)
  | repeatedLabel (label : String)
  | presetOfComputed (preset : String)
  | noRegistryValue
  -- dependencies
  | ownName
  | readsTimeVarying (inputs : List String)
  | orderLists (kind : FieldKind)
  | orderRepeats
  | orderLacks
  -- binding and assigning
  | notSize
  | missingInitial
  | missingFunction
  | computed
  | fixedSize
  | notSingleNumber
  -- analysis
  | noTimeAxis
deriving DecidableEq, Repr

/-- Why a setting of a run was refused. -/
inductive SettingDefect (α : Type) where
  | timeStep (given : α)
  | horizon (given : α)
  | tooManySteps (horizon timeStep : α) (limit : Nat)
  | relativeTolerance
  | absoluteTolerance
  | noTolerance
  | minimumStep
  | noTimePoint
  | emptyEnsemble
  | notRun
  | count (name : String) (given : α)
  /-- A system's own complaint about how it is used. -/
  | stated (text : String)
deriving DecidableEq, Repr

/-- Why a distribution was refused. -/
inductive DistributionDefect (α : Type) where
  | unknownKind (name : String)
  | mean (given : α)
  | bounds (low high : α)
  | spread (given : α)
  | zeroMean
  | unboundedVariation
deriving DecidableEq, Repr

/-- Why an adaptive solver gave up. -/
inductive Impasse (α : Type) where
  | smallStep (size now : α)
  | rejections (count : Nat) (now : α)
deriving DecidableEq, Repr

/-- **The errors of this library**, over the scalars that a message may quote. -/
inductive Error (α : Type) where
  /-- No field or entry has this name; `reader` says who asked for it. -/
  | unknownField (name : String) (reader : Option String)
  | malformedField (name : String) (defect : Defect α)
  /-- No evaluation order exists for these fields. -/
  | cyclicDependency (fields : List String)
  /-- An adaptive solver could not advance beyond a time index. -/
  | solverDivergence (lastValid : Nat) (time : α) (cause : Impasse α)
  | invalidDistribution (field : String) (defect : DistributionDefect α)
  | unknownSolver (name : String)
  | shapeMismatch (field : String) (expected found : List Nat)
  /-- A function read an input that the current evaluation has not computed yet. -/
  | staleInput (field input : String)
  | invalidSettings (defect : SettingDefect α)
deriving DecidableEq, Repr

/-- The axes along which sector operators work block by block. -/
inductive OuterAxis where
  | run
  | region
deriving DecidableEq, Repr

/-- Computations without an answer. -/
inductive Fault where
  | undeclaredInput (name : String) (declared : List String)
  | innerLengths (left right : Nat)
  | notSquare (rows columns : Nat)
  | outerLengths (axis : OuterAxis) (left right : Nat)
  /-- Elementwise arithmetic on shapes that do not line up. -/
  | shapes (left right : List Nat)
  /-- A place outside an array or a table. -/
  | outOfRange
  /-- More than can be held at once. -/
  | oversized
  /-- A uniform interval whose width is not finite. -/
  | unboundedInterval
  /-- An adaptive step that makes no headway. -/
  | stalled
deriving DecidableEq, Repr

/-- Either way of not succeeding. -/
inductive Failure (α : Type) where
  | error (e : Error α)
  | fault (f : Fault)
deriving DecidableEq, Repr

/-! ## Wording -/

/-- How scalars are written in messages: plainly where a given value is quoted back, and in the
solver's own manner where it reports its position. -/
structure NumberText (α : Type) where
  plain : α → String
  reported : α → String

def NumberText.double : NumberText Double where
  plain x := (Text.Decoded.ofFloat x.value).layout .plain
  reported x := (Text.Decoded.ofFloat x.value).layout .pointedOrScientific

def NumberText.float32 : NumberText Float32 where
  plain x := (Text.Decoded.ofFloat32 x).layout .plain
  reported x := (Text.Decoded.ofFloat32 x).layout .pointedOrScientific

/-- A name in the marks that messages put around names. -/
def marked (name : String) : String := "`" ++ name ++ "`"

variable {α : Type}

def Defect.message (text : NumberText α) : Defect α → String
  | .emptyRuns => "empty per-run value list"
  | .emptySectors => "empty sector vector"
  | .emptyMatrix => "empty sector matrix"
  | .raggedMatrix => "ragged sector matrix"
  | .unknownKey key => "unrecognized key " ++ marked key
  | .repeatedKey key => "key " ++ marked key ++ " declared twice"
  | .unsuitableKey key found => "key " ++ marked key ++ " cannot hold a " ++ found.label
  | .declaredTwice first second =>
    "declared under both " ++ marked first.label ++ " and " ++ marked second.label
  | .foreignSelfReference => "only differential fields may read " ++ marked itself
  | .needsFunction kind => "a " ++ kind.label ++ " field needs a function"
  | .fixedValue kind => "a " ++ kind.label ++ " field cannot carry a fixed value"
  | .needlessInitial => "only differential fields take an initial value"
  | .valueNotNumeric => "parameter value must be numeric"
  | .valueAndFunction => "parameter declares both a value and a function"
  | .neitherValueNorFunction => "neither a value nor a function is present"
  | .computedSize => "a size cannot be computed"
  | .axesNotNames => marked "size" ++ " must list size names"
  | .tooManyAxes count => "at most two sector axes, got " ++ toString count
  | .axesOfSize => "a size cannot span sector axes"
  | .noInitial => "no initial value in model or registry"
  | .countAndLabels => "size declares both a count and labels"
  | .badCount count => "sector count must be a positive integer, got " ++ text.plain count
  | .badSize => "size must be an integer count or a label list"
  | .noSectors => "size has no sectors"
  | .axisNotSize axis kind =>
    "sector axis " ++ marked axis ++ " is a " ++ kind.label ++ " field, not a size"
  | .repeatedLabel label => "sector label " ++ marked label ++ " appears twice"
  | .presetOfComputed preset => "preset " ++ marked preset ++ " overrides a computed field"
  | .noRegistryValue => "registry entry has no default value"
  | .ownName => "reads its own name; its current value is " ++ marked itself
  | .readsTimeVarying inputs =>
    "parameter function reads time-varying fields " ++ Text.quotedList inputs
  | .orderLists kind => "explicit order lists a " ++ kind.label ++ " field"
  | .orderRepeats => "listed twice in explicit order"
  | .orderLacks => "missing from explicit order"
  | .notSize => "is not a size declaration"
  | .missingInitial => "no initial value"
  | .missingFunction => "has no function"
  | .computed => "is computed from other fields and cannot be assigned"
  | .fixedSize => "sizes are fixed when the model loads"
  | .notSingleNumber => "numerical settings take a single number"
  | .noTimeAxis => "has no time axis"

def SettingDefect.message (text : NumberText α) : SettingDefect α → String
  | .timeStep given => "dt must be positive and finite, got " ++ text.plain given
  | .horizon given => "Tmax must be non-negative and finite, got " ++ text.plain given
  | .tooManySteps length step limit =>
    "Tmax = " ++ text.plain length ++ " with dt = " ++ text.plain step ++
      " needs more than " ++ toString limit ++ " time steps"
  | .relativeTolerance => "rtol must be finite and non-negative"
  | .absoluteTolerance => "atol must be finite and non-negative"
  | .noTolerance => "rtol and atol cannot both be zero"
  | .minimumStep => "min_step must be positive"
  | .noTimePoint => "a run needs at least one time step"
  | .emptyEnsemble => "an ensemble needs at least one run"
  | .notRun => "the model has not been run"
  | .count name given => marked name ++ " must be a positive integer, got " ++ text.plain given
  | .stated words => words

def DistributionDefect.message (text : NumberText α) : DistributionDefect α → String
  | .unknownKind name => "unknown distribution kind " ++ marked name
  | .mean given => "mean must be finite, got " ++ text.plain given
  | .bounds low high => "invalid bounds [" ++ text.plain low ++ ", " ++ text.plain high ++ "]"
  | .spread given => "spread must be finite and non-negative, got " ++ text.plain given
  | .zeroMean => "log-normal draws need a non-zero mean"
  | .unboundedVariation => "variation parameter is non-finite in (log)normal distribution"

def Impasse.message (text : NumberText α) : Impasse α → String
  | .smallStep size now =>
    "step size " ++ text.reported size ++ " fell below the minimum at t = " ++ text.reported now
  | .rejections count now =>
    toString count ++ " consecutive rejected steps at t = " ++ text.reported now

/-- The text of an error. -/
def Error.message (text : NumberText α) : Error α → String
  | .unknownField name none => "unknown field " ++ marked name
  | .unknownField name (some reader) =>
    "unknown field " ++ marked name ++ " (referenced by " ++ marked reader ++ ")"
  | .malformedField name defect =>
    "malformed field " ++ marked name ++ ": " ++ defect.message text
  | .cyclicDependency fields =>
    "cyclic dependency between fields: " ++ ", ".intercalate fields
  | .solverDivergence lastValid time cause =>
    "solver diverged after time index " ++ toString lastValid ++ " (t = " ++ text.plain time ++
      "): " ++ cause.message text
  | .invalidDistribution field defect =>
    "invalid distribution for " ++ marked field ++ ": " ++ defect.message text
  | .unknownSolver name => "unknown solver " ++ marked name
  | .shapeMismatch field expected found =>
    "shape mismatch for " ++ marked field ++ ": cannot broadcast " ++ Text.sizeList found ++
      " to " ++ Text.sizeList expected
  | .staleInput field input =>
    "field " ++ marked field ++ " read stale input " ++ marked input
  | .invalidSettings defect => "invalid settings: " ++ defect.message text

def OuterAxis.label : OuterAxis → String
  | .run => "run"
  | .region => "region"

/-- The text of a fault, where it has one: faults of arithmetic on whole arrays go without. -/
def Fault.message? : Fault → Option String
  | .undeclaredInput name declared =>
    some ("input " ++ marked name ++ " was not declared (declared: " ++
      Text.quotedList declared ++ ")")
  | .innerLengths left right =>
    some ("matmul: inner sector lengths differ (" ++ toString left ++ " vs " ++
      toString right ++ ")")
  | .notSquare rows columns =>
    some ("inverse: sector block is " ++ toString rows ++ "x" ++ toString columns ++
      ", not square")
  | .outerLengths axis left right =>
    some ("cannot broadcast " ++ axis.label ++ " axes of length " ++ toString left ++ " and " ++
      toString right)
  | .shapes _ _ | .outOfRange | .oversized | .unboundedInterval | .stalled => none

end FieldFlow
