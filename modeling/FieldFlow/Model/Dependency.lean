import FieldFlow.Field.Basic
import FieldFlow.OrderedMap

/-!
# Model/Dependency — which fields a field reads

Inputs are declared up front, so dependencies are looked up and never discovered by running. Only
reads between computed fields of one kind constrain the order of evaluation.
-/

namespace FieldFlow

/-- Fields by name, in declaration order. -/
abbrev FieldMap (α : Type) := OrderedMap (Field α)

/-- The inputs of one field by the kind of field that they name. -/
structure InputPartition where
  parameter : List String := []
  dynamic : List String := []
  algebraic : List String := []
  size : List String := []
  readsItself : Bool := false
deriving DecidableEq, Repr

namespace InputPartition

/-- Files an input under the kind of the field it names. -/
def add (p : InputPartition) (input : String) : FieldKind → InputPartition
  | .parameter => { p with parameter := p.parameter ++ [input] }
  | .dynamic => { p with dynamic := p.dynamic ++ [input] }
  | .algebraic => { p with algebraic := p.algebraic ++ [input] }
  | .size => { p with size := p.size ++ [input] }

/-- The inputs of one kind. -/
def ofKind (p : InputPartition) : FieldKind → List String
  | .parameter => p.parameter
  | .dynamic => p.dynamic
  | .algebraic => p.algebraic
  | .size => p.size

/-- The inputs that change in the course of a run. -/
def timeVarying (p : InputPartition) : List String := p.dynamic ++ p.algebraic

end InputPartition

variable {α : Type}

/-- Files one input of a field. Only a dynamic field may read itself, and does so under the reserved
name alone: its own name would be its value before the step. -/
def fileInput (fields : FieldMap α) (field : Field α) (p : InputPartition) (input : String) :
    Except (Error α) InputPartition :=
  if input = itself then
    if field.kind = .dynamic then .ok { p with readsItself := true }
    else .error (.malformedField field.name .foreignSelfReference)
  else if input = field.name && field.kind = .dynamic then
    .error (.malformedField field.name .ownName)
  else
    match fields.get? input with
    | none => .error (.unknownField input (some field.name))
    | some read => .ok (p.add input read.kind)

/-- **The inputs of a field, filed by kind.** A parameter may not read what varies in time. -/
def partitionInputs (fields : FieldMap α) (field : Field α) :
    Except (Error α) InputPartition := do
  let p ← field.inputs.foldlM (fileInput fields field) {}
  if field.kind = .parameter && !p.timeVarying.isEmpty then
    throw (.malformedField field.name (.readsTimeVarying p.timeVarying))
  return p

/-- A computed field and the computed fields of its own kind that it reads, each once and in
declaration order. -/
structure Reader where
  name : String
  reads : List String
deriving DecidableEq, Repr

/-- The computed fields of a kind, in declaration order. -/
def computedOf (fields : FieldMap α) (kind : FieldKind) : List (Field α) :=
  fields.values.filter fun f => f.kind = kind && f.isComputed

/-- **The dependency graph of a kind** — only algebraic fields and parameters depend on their own
kind; a dynamic field is read at the value it already has. -/
def readersOf (fields : FieldMap α) (kind : FieldKind) : Except (Error α) (List Reader) :=
  let nodes := computedOf fields kind
  let known := nodes.map Field.name
  nodes.mapM fun field => do
    let p ← partitionInputs fields field
    let sameKind :=
      match kind with
      | .algebraic | .parameter => p.ofKind kind
      | .dynamic | .size => []
    return ⟨field.name, known.filter sameKind.contains⟩

end FieldFlow
