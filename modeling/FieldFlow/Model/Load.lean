import FieldFlow.Model.Auxiliary
import FieldFlow.Model.Basic
import FieldFlow.Model.Order
import FieldFlow.Registry

/-!
# Model/Load — from a description to a model

Registry defaults are merged in, every field gets its kind, parameters that are read but not
declared are taken from the registry, and the orders are settled. Whatever is wrong with a model is
reported here, before any time is simulated.
-/

namespace FieldFlow

variable {α : Type}

/-! ## One field -/

/-- The kind of a field: its category, or else what it carries — a function that reads itself makes
it dynamic, any other function algebraic, labels a size. -/
def kindOf (category : Category) (d : Declaration α) : FieldKind :=
  match category with
  | .differential => .dynamic
  | .statevar => .algebraic
  | .parameter => .parameter
  | .size => .size
  | .unclassified =>
    match d.function? with
    | some f => if f.readsItself then .dynamic else .algebraic
    | none => if d.labels?.isSome then .size else .parameter

/-- Metadata from the registry, each text replaced by the declared one where there is one. -/
def mergeMetadata (d : Declaration α) (defaults : Option (Defaults α)) : Metadata :=
  let known := (defaults.map Defaults.metadata).getD {}
  { units := (d.text? "units").getD known.units
    definition := (d.text? "definition").getD known.definition
    comment := (d.text? "com").getD known.comment
    symbol := (d.text? "symbol").getD known.symbol
    group := (d.text? "group").getD known.group }

/-- The declared initial value, or else the registry's initial value, or else its value. -/
def initialOf (name : String) (d : Declaration α) (defaults : Option (Defaults α)) :
    Except (Error α) (Value α) :=
  match d.get? "initial" with
  | some (.value v) => .ok v
  | _ =>
    match defaults.bind fun known => known.initial <|> known.value with
    | some v => .ok (.scalar v)
    | none => .error (.malformedField name .noInitial)

/-- The value of a parameter that is not computed. -/
def parameterValue (name : String) (d : Declaration α) (defaults : Option (Defaults α)) :
    Except (Error α) (Value α) :=
  match d.get? "value" with
  | some (.value v) => .ok v
  | some _ => .error (.malformedField name .valueNotNumeric)
  | none =>
    match defaults.bind Defaults.value with
    | some v => .ok (.scalar v)
    | none => .error (.malformedField name .neitherValueNorFunction)

/-- The sectors of a size: a positive whole count, or labels under either key. -/
def sectorsOf [Scalar α] (name : String) (d : Declaration α) : Except (Error α) Sectors := do
  let refuse (defect : Defect α) : Except (Error α) Sectors := .error (.malformedField name defect)
  let sectors ←
    match d.get? "value", d.labels? with
    | some _, some _ => refuse .countAndLabels
    | none, some labels => .ok (.labels labels)
    | some (.names labels), none => .ok (.labels labels)
    | some (.value (.scalar count)), none =>
      match Scalar.toCount? count with
      | some n => .ok (.count n)
      | none => refuse (.badCount count)
    | some _, none => refuse .badSize
    | none, none => refuse .neitherValueNorFunction
  if sectors.isEmpty then refuse .noSectors else .ok sectors

/-- The sector axes that a declaration names. -/
def axesOf (name : String) (kind : FieldKind) (d : Declaration α) :
    Except (Error α) (String × String) :=
  match d.get? "size" with
  | none => .ok (unitAxis, unitAxis)
  | some (.names axes) =>
    if 2 < axes.length then .error (.malformedField name (.tooManyAxes axes.length))
    else if kind = .size && !axes.isEmpty then .error (.malformedField name .axesOfSize)
    else .ok (axes.getD 0 unitAxis, axes.getD 1 unitAxis)
  | some _ => .error (.malformedField name .axesNotNames)

/-- What a field of each kind is made of. -/
def completeField [Scalar α] (d : Declaration α) (defaults : Option (Defaults α))
    (field : Field α) : Except (Error α) (Field α) := do
  let refuse (defect : Defect α) : Except (Error α) (Field α) :=
    .error (.malformedField field.name defect)
  match field.kind, d.function? with
  | .dynamic, none => refuse (.needsFunction .dynamic)
  | .algebraic, none => refuse (.needsFunction .algebraic)
  | .dynamic, some f =>
    if (d.get? "value").isSome then refuse (.fixedValue .dynamic)
    else return { field with
      function := some f, initial := some (← initialOf field.name d defaults) }
  | .algebraic, some f =>
    if (d.get? "value").isSome then refuse (.fixedValue .algebraic)
    else if (d.get? "initial").isSome then refuse .needlessInitial
    else return { field with function := some f }
  | .parameter, some f =>
    match d.get? "value" with
    | none => return { field with function := some f }
    | some (.value _) => refuse .valueAndFunction
    | some _ => refuse .valueNotNumeric
  | .parameter, none =>
    return { field with value := some (← parameterValue field.name d defaults) }
  | .size, some _ => refuse .computedSize
  | .size, none => return { field with sectors := some (← sectorsOf field.name d) }

/-- **One field from its declaration.** -/
def buildField [Scalar α] (registry : Registry α) (category : Category) (name : String)
    (d : Declaration α) : Except (Error α) (Field α) := do
  d.check name
  let defaults := registry.get? name
  let kind := kindOf category d
  if (d.function?.any Function.readsItself) && kind ≠ .dynamic then
    throw (.malformedField name .foreignSelfReference)
  let bare : Field α := { Field.bare name kind with metadata := mergeMetadata d defaults }
  let field ← completeField d defaults bare
  return { field with axes := ← axesOf name kind d }

/-! ## All fields -/

/-- The declared fields; a name may be declared once only. -/
def buildFields [Scalar α] (registry : Registry α)
    (declarations : List (Category × String × Declaration α)) :
    Except (Error α) (FieldMap α) := do
  let (fields, _) ← declarations.foldlM
    (fun (acc : FieldMap α × OrderedMap Category) (category, name, d) => do
      let (fields, origins) := acc
      if let some first := origins.get? name then
        throw (.malformedField name (.declaredTwice first category))
      let field ← buildField registry category name d
      return (fields.insert name field, origins.insert name category))
    ((.empty, .empty) : FieldMap α × OrderedMap Category)
  return fields

/-- The field `time` of a model that does not declare one: it grows by one per unit of time, from
the initial time of the registry. -/
def timeField [Scalar α] (registry : Registry α) : Field α :=
  let defaults := registry.get? "time"
  let initial := (defaults.bind Defaults.initial <|> registry.number? "Tini").getD Scalar.zero
  { Field.bare "time" .dynamic with
    function := some (.constant (.scalar Scalar.one))
    initial := some (.scalar initial)
    metadata := (defaults.map Defaults.metadata).getD {} }

/-- The names that functions read but no field has, each with its first reader. -/
def undeclaredReads (fields : FieldMap α) : List (String × String) :=
  let reads := fields.values.flatMap fun f => f.inputs.map fun input => (input, f.name)
  (reads.foldl
    (fun (wanted : OrderedMap String) (input, reader) =>
      if input = itself || fields.contains input || wanted.contains input then wanted
      else wanted.insert input reader) .empty).entries

/-- Adds the parameters that are read but not declared. -/
def pullParameters (registry : Registry α) (fields : FieldMap α) :
    Except (Error α) (FieldMap α) :=
  (undeclaredReads fields).foldlM
    (fun fields (name, reader) => do
      let some defaults := registry.get? name
        | throw (.unknownField name (some reader))
      let some value := defaults.value
        | throw (.malformedField name .noRegistryValue)
      return fields.insert name
        { Field.bare name .parameter with
          value := some (.scalar value), metadata := defaults.metadata })
    fields

/-- Every sector axis must be a size field. -/
def checkAxes (fields : FieldMap α) : Except (Error α) Unit :=
  fields.values.forM fun field =>
    [field.axes.1, field.axes.2].forM fun axis => do
      if axis ≠ unitAxis then
        match fields.get? axis with
        | none => throw (.unknownField axis (some field.name))
        | some size =>
          if size.kind ≠ .size then
            throw (.malformedField field.name (.axisNotSize axis size.kind))

/-- The positions of labels, which must differ from each other. -/
def labelPositions (field : String) (labels : List String) :
    Except (Error α) (OrderedMap Nat) :=
  labels.zipIdx.foldlM
    (fun positions (label, i) => do
      if positions.contains label then throw (.malformedField field (.repeatedLabel label))
      return positions.insert label i)
    .empty

/-- The positions of all labelled sectors. -/
def sectorPositions (fields : FieldMap α) : Except (Error α) (OrderedMap (OrderedMap Nat)) :=
  fields.values.foldlM
    (fun found field => do
      match field.sectors with
      | some (.labels labels) => return found.insert field.name (← labelPositions field.name labels)
      | _ => return found)
    .empty

/-- A preset may set any field but an algebraic one. -/
def checkPresets (fields : FieldMap α) (presets : OrderedMap (Preset α)) :
    Except (Error α) Unit :=
  presets.entries.forM fun (name, preset) =>
    preset.values.keys.forM fun target => do
      match fields.get? target with
      | none => throw (.unknownField target (some ("preset " ++ name)))
      | some field =>
        if field.kind = .algebraic then
          throw (.malformedField target (.presetOfComputed name))

/-- **Loading a model.** -/
def load [Scalar α] (registry : Registry α) (d : Description α) : Except (Error α) (Model α) := do
  let declared ← buildFields registry d.declarations
  let timed := declared.insertFirst "time" (timeField registry)
  let fields ← pullParameters registry timed
  checkAxes fields
  (fields.values.filter Field.isComputed).forM fun f => discard (partitionInputs fields f)
  let sectorIndices ← sectorPositions fields
  let parameterOrder ← resolveOrder fields .parameter
  let order ←
    match d.order with
    | some explicit => verifyOrder fields explicit
    | none => resolveOrder fields .algebraic
  checkPresets fields d.presets
  return {
    name := d.name
    summary := d.summary
    fields := fields
    presets := d.presets
    sectorIndices := sectorIndices
    order := order
    parameterOrder := parameterOrder
    auxiliary := auxiliaryFields fields }

end FieldFlow
