import FieldFlow.Decode.Record
import FieldFlow.Model.Description

/-!
# Decode/Field — values, sizes and presets written as JSON
-/

namespace FieldFlow

open Json

/-- The version of the array format; no other is read. -/
def arrayVersion? (j : Json) : Option Unit := do
  if (← j.natural?) = 1 then some () else none

def arrayShape? (j : Json) : Option Shape := do
  match ← j.list? natural? with
  | [runs, regions, sectorA, sectorB] => some ⟨runs, regions, sectorA, sectorB⟩
  | _ => none

/-- Reads the members of an array one after another; the last one under each key counts. -/
def arrayMembers? (dim : Option Shape) (data : Option (List Double)) (versioned : Bool) :
    List (String × Json) → Option (Shape × List Double)
  | [] => do
    if versioned then return (← dim, ← data) else none
  | (key, value) :: rest => do
    match key with
    | "v" => do
      arrayVersion? value
      arrayMembers? dim data true rest
    | "dim" => arrayMembers? (some (← arrayShape? value)) data versioned rest
    | "data" => arrayMembers? dim (some (← value.list? float?)) versioned rest
    | _ => none

/-- A whole array: its format version, its axis lengths and its elements, by name or in this
order. -/
def Tensor.ofJson? (j : Json) : Option (Tensor Double) := do
  let (shape, data) ←
    match j with
    | .array [version, dim, data] => do
      arrayVersion? version
      some (← arrayShape? dim, ← data.list? float?)
    | .array _ => none
    | j => do arrayMembers? none none false (← j.members?)
  if shape.isAddressable then Tensor.ofArray? shape data.toArray else none

def Value.ofJson? (j : Json) : Option (Value Double) := do
  let (form, content) ← j.choice?
  match form with
  | "scalar" => return .scalar (← content.float?)
  | "runs" => return .runs (← content.list? float?)
  | "sectors" => return .sectors (← content.list? float?)
  | "matrix" => return .matrix (← content.list? fun row => row.list? float?)
  | "array" => return .array (← Tensor.ofJson? content)
  | _ => none

def Sectors.ofJson? (j : Json) : Option Sectors := do
  let (form, content) ← j.choice?
  match form with
  | "count" => return .count (← content.natural?)
  | "labels" => return .labels (← content.list? text?)
  | _ => none

def FieldKind.ofJson? (j : Json) : Option FieldKind := do
  match ← j.word? with
  | "Dynamic" => some .dynamic
  | "Algebraic" => some .algebraic
  | "Parameter" => some .parameter
  | "Size" => some .size
  | _ => none

def Preset.ofJson? (j : Json) : Option (Preset Double) := do
  let fields ← j.record? ["fields", "com"]
  return ⟨← required (map? Value.ofJson?) fields 0, ← defaulted text? fields 1 ""⟩

end FieldFlow
