import FieldFlow.System.Basic

/-!
# System/Evaluate — computing every field from the state

An evaluation copies the state into the buffers of the dynamic fields, empties the algebraic buffers
and computes them in order. A read of a buffer that is still empty is refused, so a value left by an
earlier evaluation can never be used. An evaluation that fails leaves the buffers as far as it came.
-/

namespace FieldFlow.System

variable {α : Type} [Scalar α]

/-- The value of an input for the function in slot `reader`; only a field's own value may be read
before it is fresh. -/
def read (sys : System α) (buffers : Buffers α) (reader : Nat) (name : String) (input : Nat) :
    Except (Failure α) (Tensor α) :=
  match buffers[input]? with
  | none => .error (.fault .outOfRange)
  | some buffer =>
    if input ≠ reader && !buffer.fresh then
      .error (.error (.staleInput name ((sys.slots[input]?.map Slot.name).getD "")))
    else .ok buffer.value

/-- The function of a slot applied to the current values of its inputs. -/
def call (sys : System α) (buffers : Buffers α) (i : Nat) : Except (Failure α) (Tensor α) :=
  match sys.slots[i]? with
  | none => .error (.fault .outOfRange)
  | some slot =>
    match slot.function with
    | none => .error (.error (.malformedField slot.name .missingFunction))
    | some f => do
      let values ← slot.inputs.mapM (sys.read buffers i slot.name)
      (f.apply values).mapError Failure.fault

/-- Computes one slot. -/
def compute (sys : System α) (buffers : Buffers α) (i : Nat) :
    Except (Failure α) (Buffers α) := do
  let output ← sys.call buffers i
  let some slot := sys.slots[i]? | throw (.fault .outOfRange)
  let value ← (output.assignTo slot.name slot.shape).mapError Failure.error
  return buffers.setIfInBounds i ⟨value, true⟩

/-- Computes slots one after another; on a failure the buffers keep what was computed before. -/
def computeAll (sys : System α) : List Nat → Buffers α → Buffers α × Except (Failure α) Unit
  | [], buffers => (buffers, .ok ())
  | i :: rest, buffers =>
    match sys.compute buffers i with
    | .ok next => sys.computeAll rest next
    | .error e => (buffers, .error e)

/-- Copies a flat state into the buffers of the given dynamic slots, from an offset on. -/
def loadFrom (x : Array α) (offset : Nat) : List (Nat × Slot α) → Buffers α → Buffers α
  | [], buffers => buffers
  | (i, slot) :: rest, buffers =>
    loadFrom x (offset + slot.shape.size) rest
      (buffers.modify i fun b => { b with value := .ofSlice slot.shape x offset })

/-- Empties the buffers of the algebraic fields. -/
def clear (sys : System α) (buffers : Buffers α) : Buffers α :=
  sys.order.foldl
    (fun buffers i => buffers.modify i fun b => ⟨.fill b.value.shape Scalar.nan, false⟩) buffers

/-- **Evaluation** at a flat state; elements beyond the dimension are ignored. -/
def evaluate (sys : System α) (x : Array α) (buffers : Buffers α) :
    Buffers α × Except (Failure α) Unit :=
  if x.size < sys.dimension then (buffers, .error (.fault .outOfRange))
  else sys.computeAll sys.order (sys.clear (loadFrom x 0 sys.dynamics buffers))

/-- The derivatives of the given dynamic slots, one after another. -/
def derivatives (sys : System α) (buffers : Buffers α) :
    (slots : List (Nat × Slot α)) → Except (Failure α) (Vector α (stateSize slots))
  | [] => .ok (.emptyWithCapacity 0)
  | (i, slot) :: rest => do
    let output ← sys.call buffers i
    let here ← (output.flatTo slot.name slot.shape).mapError Failure.error
    let others ← sys.derivatives buffers rest
    return here ++ others

/-- **The right-hand side** at a flat state, with the buffers that its evaluation leaves. -/
def apply (sys : System α) (x : Array α) (buffers : Buffers α) :
    Buffers α × Except (Failure α) (Vector α sys.dimension) :=
  match sys.evaluate x buffers with
  | (after, .ok ()) => (after, sys.derivatives after sys.dynamics)
  | (after, .error e) => (after, .error e)

/-- The right-hand side as a function of the state alone, evaluated on the buffers as bound. -/
def rate (sys : System α) (x : Vector α sys.dimension) :
    Except (Failure α) (Vector α sys.dimension) :=
  (sys.apply x.toArray sys.bound).2

/-- The values of all fields at a flat state. -/
def snapshot (sys : System α) (x : Vector α sys.dimension) : Except (Failure α) (Buffers α) :=
  match sys.evaluate x.toArray sys.bound with
  | (after, .ok ()) => .ok after
  | (_, .error e) => .error e

end FieldFlow.System
