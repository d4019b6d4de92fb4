import FieldFlow.Field.Function
import FieldFlow.Field.Value

/-!
# Field/Basic — fields, the sectors of a size, and what is told about them
-/

namespace FieldFlow

/-- What a field means to its readers; nothing in a run depends on it. -/
structure Metadata where
  units : String := ""
  definition : String := ""
  comment : String := ""
  symbol : String := ""
  group : String := ""
deriving DecidableEq, Repr, Inhabited

/-- The length of a sector axis, counted or spelled out in labels. -/
inductive Sectors where
  | count (n : Nat)
  | labels (names : List String)
deriving DecidableEq, Repr

namespace Sectors

def size : Sectors → Nat
  | .count n => n
  | .labels names => names.length

def isEmpty (s : Sectors) : Bool := s.size = 0

/-- The labels; counted sectors are numbered from `0`, if there is room for so many. -/
def names : Sectors → Except Fault (List String)
  | .count n => do
    checkCapacity n listBytes
    return (List.range n).map toString
  | .labels names => .ok names

/-- The value of a size field: its number of sectors, the same in every run and region. -/
def toTensor {α : Type} [Scalar α] (sectors : Sectors) (s : Shape) : Except Fault (Tensor α) :=
  Tensor.allocateFilled s (Scalar.ofNat sectors.size)

end Sectors

/-- **A field** once its kind is settled and its declaration completed. -/
structure Field (α : Type) where
  name : String
  kind : FieldKind
  function : Option (Function α)
  /-- The value of a parameter that is not computed. -/
  value : Option (Value α)
  /-- The initial value of a dynamic field. -/
  initial : Option (Value α)
  /-- The size fields that the two sector axes span. -/
  axes : String × String
  /-- The sectors of a size field. -/
  sectors : Option Sectors
  metadata : Metadata

namespace Field

variable {α : Type}

/-- A field with nothing to it yet. -/
def bare (name : String) (kind : FieldKind) : Field α where
  name := name
  kind := kind
  function := none
  value := none
  initial := none
  axes := (unitAxis, unitAxis)
  sectors := none
  metadata := {}

/-- The declared inputs; a field that is not computed has none. -/
def inputs (f : Field α) : List String :=
  match f.function with
  | some g => g.inputs
  | none => []

def isComputed (f : Field α) : Bool := f.function.isSome

end Field

end FieldFlow
