import FieldFlow.Tensor.Capacity

/-!
# Tensor/Broadcast — axes of length one stand for any length

An axis of length one repeats its only element. `Tensor.expand` does so towards a given shape,
`Tensor.zipWith` on both sides of an elementwise operation; an axis that neither matches nor has
length one makes the operation impossible.
-/

namespace FieldFlow

/-- Whether an axis can be read as one of length `target`. -/
def axisExpands (length target : Nat) : Bool := length = target || length = 1

/-- The index to read on an axis that may stand for a longer one. -/
def axisIndex (length k : Nat) : Nat := if length = 1 then 0 else k

/-- The common length of two axes, if they have one. -/
def joinAxis? (a b : Nat) : Option Nat :=
  if a = b then some a else if a = 1 then some b else if b = 1 then some a else none

namespace Shape

def expandsTo (s t : Shape) : Bool :=
  axisExpands s.runs t.runs && axisExpands s.regions t.regions &&
    axisExpands s.sectorA t.sectorA && axisExpands s.sectorB t.sectorB

/-- The least shape that both shapes expand to. -/
def join? (s t : Shape) : Option Shape := do
  return ⟨← joinAxis? s.runs t.runs, ← joinAxis? s.regions t.regions,
    ← joinAxis? s.sectorA t.sectorA, ← joinAxis? s.sectorB t.sectorB⟩

end Shape

namespace Tensor

variable {α β γ : Type}

/-- An element read as if the axes of length one were longer. -/
def getExpanded [Inhabited α] (t : Tensor α) (x r i j : Nat) : α :=
  t.get (axisIndex t.shape.runs x) (axisIndex t.shape.regions r) (axisIndex t.shape.sectorA i)
    (axisIndex t.shape.sectorB j)

/-- The tensor repeated along its axes of length one. -/
def expand [Inhabited α] (t : Tensor α) (s : Shape) : Tensor α := ofFn s t.getExpanded

/-- Whether a tensor has a value in a shape; none has one in a shape that cannot be counted. -/
def fits (t : Tensor α) (s : Shape) : Bool := t.shape.expandsTo s && s.isAddressable

/-- **Broadcasting** a field's value to the shape of a place that already exists. -/
def assignTo [Inhabited α] (field : String) (t : Tensor α) (s : Shape) :
    Except (Error α) (Tensor α) :=
  if t.fits s then .ok (t.expand s) else .error (.shapeMismatch field s.toList t.shape.toList)

/-- **Broadcasting** a field's value to a new tensor of the field's shape. -/
def broadcastTo [Inhabited α] (field : String) (t : Tensor α) (s : Shape) :
    Except (Failure α) (Tensor α) :=
  if t.fits s then (allocate s t.getExpanded).mapError Failure.fault
  else .error (.error (.shapeMismatch field s.toList t.shape.toList))

/-- Broadcasting to a shape, as the list of elements. -/
def flatTo [Inhabited α] (field : String) (t : Tensor α) (s : Shape) :
    Except (Error α) (Vector α s.size) :=
  if t.shape.expandsTo s then .ok ⟨(t.expand s).data, (t.expand s).size_data⟩
  else .error (.shapeMismatch field s.toList t.shape.toList)

/-- An operation on the elements of one tensor and the elements of another. -/
def zipWith [Inhabited α] [Inhabited β] (f : α → β → γ) (t : Tensor α) (u : Tensor β) :
    Except Fault (Tensor γ) :=
  match t.shape.join? u.shape with
  | some s => allocate s fun x r i j => f (t.getExpanded x r i j) (u.getExpanded x r i j)
  | none => .error (.shapes t.shape.toList u.shape.toList)

end Tensor

end FieldFlow
