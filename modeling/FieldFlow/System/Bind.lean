import FieldFlow.System.Evaluate

/-!
# System/Bind — from a model and its values to a system

Binding lays out parameters and sizes in their shapes and computes the computed parameters, once.
-/

namespace FieldFlow

variable {α : Type} [Scalar α]

/-- The slot of a declared input of the field in slot `own`. -/
def inputSlot (model : Model α) (own : Nat) (field : Field α) (input : String) :
    Except (Error α) Nat :=
  if input = itself then .ok own
  else
    match model.fields.keys.idxOf? input with
    | some i => .ok i
    | none => .error (.unknownField input (some field.name))

/-- The value of a field before anything is evaluated. -/
def boundValue (field : Field α) (shape : Shape) : Except (Failure α) (Tensor α) :=
  match field.kind, field.value, field.sectors with
  | .parameter, some value, _ => value.inShape field.name shape
  | .size, _, some sectors => (sectors.toTensor shape).mapError Failure.fault
  | _, _, _ => (Tensor.allocateFilled shape Scalar.nan).mapError Failure.fault

/-- One slot with its first buffer. -/
def bindSlot (model : Model α) (runs regions : Nat) (field : Field α) (own : Nat) :
    Except (Failure α) (Slot α × Buffer α) := do
  let shape ← (model.shapeOf field runs regions).mapError Failure.error
  let inputs ← (field.inputs.mapM (inputSlot model own field)).mapError Failure.error
  let value ← boundValue field shape
  return (⟨field.name, field.kind, shape, field.function, inputs⟩,
    ⟨value, field.kind ≠ .algebraic⟩)

/-- The slot of a field in a resolved order. -/
def orderedSlot (model : Model α) (name : String) : Except (Failure α) Nat :=
  match model.fields.keys.idxOf? name with
  | some i => .ok i
  | none => .error (.fault .outOfRange)

/-- **Binding a model** to numbers of runs and regions. -/
def Model.bind (model : Model α) (runs regions : Nat) : Except (Failure α) (System α) := do
  let bound ← model.fields.values.zipIdx.mapM fun (field, own) =>
    bindSlot model runs regions field own
  let order ← model.order.mapM (orderedSlot model)
  let sys : System α := ⟨(bound.map Prod.fst).toArray, order, (bound.map Prod.snd).toArray⟩
  let computed ← (model.parameterOrder.mapM (orderedSlot model))
  let needed := computed.filter fun i => (sys.slots[i]?.bind Slot.function).isSome
  match sys.computeAll needed sys.bound with
  | (buffers, .ok ()) => return { sys with bound := buffers }
  | (_, .error e) => throw e

/-- The initial values of the given dynamic slots, one after another. -/
def initialValues (model : Model α) :
    (slots : List (Nat × Slot α)) → Except (Error α) (Vector α (stateSize slots))
  | [] => .ok (.emptyWithCapacity 0)
  | (_, slot) :: rest => do
    let some initial := (model.field? slot.name).bind Field.initial
      | throw (.malformedField slot.name .missingInitial)
    let value ← initial.toTensor slot.name
    let here ← value.flatTo slot.name slot.shape
    let others ← initialValues model rest
    return here ++ others

/-- **The initial state** of a system bound from a model. -/
def System.initialState (sys : System α) (model : Model α) :
    Except (Error α) (Vector α sys.dimension) :=
  initialValues model sys.dynamics

end FieldFlow
