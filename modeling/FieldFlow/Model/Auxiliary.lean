import FieldFlow.Model.Dependency

/-!
# Model/Auxiliary — fields that nothing needed reads

A computed field is needed as long as another needed field reads it. Dropping the fields that are
not may leave more of them unread, so it is repeated until nothing changes.
-/

namespace FieldFlow

variable {α : Type}

/-- Whether some other field of a list reads the field of this name. -/
def isReadIn (needed : List (Field α)) (name : String) : Bool :=
  needed.any fun reader => reader.name ≠ name && reader.inputs.contains name

/-- The fields of a list that some other field of it reads. -/
def stillRead (candidates : List (Field α)) : List (Field α) :=
  candidates.filter fun f => isReadIn candidates f.name

/-- Drops the fields that no other field of the list reads, until every field is read. -/
def neededAmong (candidates : List (Field α)) : List (Field α) :=
  let kept := stillRead candidates
  if _h : kept.length < candidates.length then neededAmong kept else candidates
termination_by candidates.length

/-- **Auxiliary fields** — computed fields whose values no needed field reads, in declaration
order. -/
def auxiliaryFields (fields : FieldMap α) : List String :=
  let computed := fields.values.filter Field.isComputed
  let needed := (neededAmong computed).map Field.name
  (computed.map Field.name).filter fun name => !needed.contains name

end FieldFlow
