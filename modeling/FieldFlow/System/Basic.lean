import FieldFlow.Model.Basic

/-!
# System/Basic — a model laid out for evaluation

Every field has a slot, and every slot a buffer that holds its current value. The dynamic fields,
one after another in model order, make up the flat state that a solver moves.
-/

namespace FieldFlow

/-- A field as the evaluator sees it. -/
structure Slot (α : Type) where
  name : String
  kind : FieldKind
  shape : Shape
  function : Option (Function α)
  /-- The slot of every declared input; a field that reads itself has its own slot here. -/
  inputs : List Nat

/-- The current value of a slot, and whether the current evaluation has set it. -/
structure Buffer (α : Type) where
  value : Tensor α
  fresh : Bool

/-- The current values of all slots. -/
abbrev Buffers (α : Type) := Array (Buffer α)

/-- **A model bound to numbers of runs and regions.** -/
structure System (α : Type) where
  slots : Array (Slot α)
  /-- The slots of the algebraic fields, in the order of evaluation. -/
  order : List Nat
  /-- The buffers as they stand before anything is evaluated: parameters and sizes hold their
  values. -/
  bound : Buffers α

variable {α : Type}

/-- The number of elements of several slots. -/
def stateSize : List (Nat × Slot α) → Nat
  | [] => 0
  | (_, slot) :: rest => slot.shape.size + stateSize rest

/-- A stretch of the flat state. -/
structure Span where
  start : Nat
  stop : Nat
deriving DecidableEq, Repr

namespace System

/-- The dynamic slots with their indices. -/
def dynamics (sys : System α) : List (Nat × Slot α) :=
  (sys.slots.toList.zipIdx.map fun (slot, i) => (i, slot)).filter fun (_, slot) =>
    slot.kind = .dynamic

/-- The length of the flat state. -/
def dimension (sys : System α) : Nat := stateSize sys.dynamics

/-- The slot of a field. -/
def slot? (sys : System α) (name : String) : Option (Slot α) :=
  sys.slots.find? fun slot => slot.name == name

def shape? (sys : System α) (name : String) : Option Shape := (sys.slot? name).map Slot.shape

/-- The stretches of the flat state that belong to several slots, from an offset on. -/
def spansFrom (offset : Nat) : List (Nat × Slot α) → List (Slot α × Span)
  | [] => []
  | (_, slot) :: rest =>
    (slot, ⟨offset, offset + slot.shape.size⟩) :: spansFrom (offset + slot.shape.size) rest

/-- The stretch of the flat state that belongs to a dynamic field. -/
def span? (sys : System α) (name : String) : Option Span :=
  ((spansFrom 0 sys.dynamics).find? fun entry => entry.1.name == name).map Prod.snd

/-- The current values by field name, in model order. -/
def valuesIn (sys : System α) (buffers : Buffers α) : List (Slot α × Tensor α) :=
  sys.slots.toList.zip (buffers.toList.map Buffer.value)

/-- The current value of a field. -/
def value? (sys : System α) (buffers : Buffers α) (name : String) : Option (Tensor α) :=
  ((sys.valuesIn buffers).find? fun entry => entry.1.name == name).map Prod.snd

end System

end FieldFlow
