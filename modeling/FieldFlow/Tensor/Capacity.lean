import FieldFlow.Error
import FieldFlow.Tensor.Basic

/-!
# Tensor/Capacity — how much can be held at once

Places are counted by machine words, and memory ends before they do. What would not fit is a fault,
found before anything is computed for it. A shape with an empty axis holds nothing, and still its
other axes have to be counted.
-/

namespace FieldFlow

/-- One more than the bytes that can be held at once. -/
def memoryEnd : Nat := 1 <<< 63

/-- The bytes of a number. -/
def numberBytes : Nat := 8

/-- The bytes that a text or a list takes before its first item. -/
def listBytes : Nat := 24

/-- Refuses a number of items, of some bytes each, that cannot be held at once. -/
def checkCapacity (count bytes : Nat) : Except Fault Unit :=
  if count * bytes < memoryEnd then .ok () else .error .oversized

/-- Whether a machine word can count the places along some axes: those that are not empty have a
product below `2 ^ 63`. -/
def isAddressable (axes : List Nat) : Bool := (axes.filter (· ≠ 0)).foldl (· * ·) 1 < memoryEnd

/-- Refuses axes along which no numbers can be laid out. -/
def checkExtent (axes : List Nat) : Except Fault Unit :=
  if isAddressable axes then checkCapacity (axes.foldl (· * ·) 1) numberBytes
  else .error .oversized

namespace Shape

def isAddressable (s : Shape) : Bool := FieldFlow.isAddressable s.toList

/-- Refuses a shape that no tensor can have. -/
def check (s : Shape) : Except Fault Unit := checkExtent s.toList

end Shape

namespace Tensor

variable {α : Type}

/-- **A new tensor** of a shape with given elements, if it can be held. -/
def allocate (s : Shape) (f : Nat → Nat → Nat → Nat → α) : Except Fault (Tensor α) := do
  s.check
  return ofFn s f

/-- A new tensor with one value everywhere, if it can be held. -/
def allocateFilled (s : Shape) (c : α) : Except Fault (Tensor α) := do
  s.check
  return fill s c

end Tensor

end FieldFlow
