import FieldFlow.Field.Basic
import FieldFlow.Model.Description
import FieldFlow.Model.Dependency

/-!
# Model/Basic — a model whose fields are classified and whose orders are settled
-/

namespace FieldFlow

/-- **A loaded model.** -/
structure Model (α : Type) where
  name : String
  summary : String
  fields : FieldMap α
  presets : OrderedMap (Preset α)
  /-- Positions of labelled sectors, by size field and label. -/
  sectorIndices : OrderedMap (OrderedMap Nat)
  /-- The order in which the algebraic fields are evaluated. -/
  order : List String
  /-- The order in which the computed parameters are evaluated. -/
  parameterOrder : List String
  /-- Fields whose values no needed function reads. -/
  auxiliary : List String

namespace Model

variable {α : Type}

def field? (m : Model α) (name : String) : Option (Field α) := m.fields.get? name

/-- The names of the fields of a kind, in declaration order. -/
def namesOf (m : Model α) (kind : FieldKind) : List String :=
  (m.fields.values.filter fun f => f.kind = kind).map Field.name

/-- The position of a labelled sector along the axis of a size field. -/
def sectorIndex? (m : Model α) (size label : String) : Option Nat :=
  (m.sectorIndices.get? size).bind fun positions => positions.get? label

/-- The length of a sector axis. -/
def axisLength (m : Model α) (axis : String) : Except (Error α) Nat :=
  if axis = unitAxis then .ok 1
  else
    match m.field? axis with
    | none => .error (.unknownField axis none)
    | some field =>
      match field.sectors with
      | some sectors => .ok sectors.size
      | none => .error (.malformedField axis .notSize)

/-- The shape of a field's value in a run of the given numbers of runs and regions; a size field has
no sector axes of its own. -/
def shapeOf (m : Model α) (field : Field α) (runs regions : Nat) : Except (Error α) Shape :=
  match field.kind with
  | .size => .ok ⟨runs, regions, 1, 1⟩
  | _ => do return ⟨runs, regions, ← m.axisLength field.axes.1, ← m.axisLength field.axes.2⟩

end Model

end FieldFlow
