import FieldFlow.Field.Basic

/-!
# Field/Declaration — a field as a modeller writes it

A declaration is a list of keyed attributes and can hold anything a model file says; `check` is
where unknown keys, repeated keys and attributes of the wrong sort are found.
-/

namespace FieldFlow

/-- One attribute of a declaration. -/
inductive Attribute (α : Type) where
  | function (f : Function α)
  | value (v : Value α)
  | text (t : String)
  | names (ns : List String)

def Attribute.sort {α : Type} : Attribute α → AttributeSort
  | .function _ => .function
  | .value _ => .value
  | .text _ => .text
  | .names _ => .nameList

/-- The sorts of attribute that a key may hold; a key that may hold none is unknown. -/
def sortsOfKey (key : String) : List AttributeSort :=
  match key with
  | "func" => [.function]
  | "value" => [.value, .nameList]
  | "initial" => [.value]
  | "size" | "labels" => [.nameList]
  | "units" | "com" | "definition" | "symbol" | "group" => [.text]
  | _ => []

/-- A field as it was declared. -/
structure Declaration (α : Type) where
  attributes : List (String × Attribute α)

namespace Declaration

variable {α : Type}

/-- The first attribute under a key. -/
def get? (d : Declaration α) (key : String) : Option (Attribute α) :=
  (d.attributes.find? fun a => a.1 == key).map Prod.snd

def function? (d : Declaration α) : Option (Function α) :=
  match d.get? "func" with
  | some (.function f) => some f
  | _ => none

def text? (d : Declaration α) (key : String) : Option String :=
  match d.get? key with
  | some (.text t) => some t
  | _ => none

def labels? (d : Declaration α) : Option (List String) :=
  match d.get? "labels" with
  | some (.names ns) => some ns
  | _ => none

/-- The first thing wrong with a list of attributes, given the keys that came before it. -/
def firstDefect? (seen : List String) : List (String × Attribute α) → Option (Defect α)
  | [] => none
  | (key, held) :: rest =>
    let sorts := sortsOfKey key
    if sorts.isEmpty then some (.unknownKey key)
    else if seen.contains key then some (.repeatedKey key)
    else if !sorts.contains held.sort then some (.unsuitableKey key held.sort)
    else firstDefect? (seen ++ [key]) rest

/-- Refuses unknown keys, repeated keys and attributes of the wrong sort. -/
def check (d : Declaration α) (name : String) : Except (Error α) Unit :=
  match firstDefect? [] d.attributes with
  | some defect => .error (.malformedField name defect)
  | none => .ok ()

end Declaration

end FieldFlow
