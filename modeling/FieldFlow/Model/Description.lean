import FieldFlow.Field.Declaration
import FieldFlow.OrderedMap

/-!
# Model/Description — a model as a modeller writes it

Fields are declared under the kind that they are meant to have, or in a part of their own where the
kind is read off what they carry.
-/

namespace FieldFlow

/-- A named set of values to assign together. -/
structure Preset (α : Type) where
  values : OrderedMap (Value α)
  comment : String := ""

/-- A model before anything about it is checked. -/
structure Description (α : Type) where
  name : String
  summary : String := ""
  differential : OrderedMap (Declaration α) := .empty
  statevar : OrderedMap (Declaration α) := .empty
  parameter : OrderedMap (Declaration α) := .empty
  size : OrderedMap (Declaration α) := .empty
  unclassified : OrderedMap (Declaration α) := .empty
  presets : OrderedMap (Preset α) := .empty
  /-- An order to evaluate the algebraic fields in, given by the modeller. -/
  order : Option (List String) := none

/-- The declarations with their categories, in the order in which they enter the model. -/
def Description.declarations {α : Type} (d : Description α) :
    List (Category × String × Declaration α) :=
  let under (c : Category) (m : OrderedMap (Declaration α)) := m.entries.map fun e => (c, e)
  under .differential d.differential ++ under .statevar d.statevar ++
    under .unclassified d.unclassified ++ under .parameter d.parameter ++ under .size d.size

end FieldFlow
