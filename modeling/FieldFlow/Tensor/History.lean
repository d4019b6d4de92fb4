import FieldFlow.Tensor.Capacity

/-!
# Tensor/History — values over time

A history has a time axis in front of the four axes of a field value. Time points that a run did not
reach hold no number.
-/

namespace FieldFlow

/-- A field's values at successive time points, the last axis fastest. -/
structure History (α : Type) where
  steps : Nat
  shape : Shape
  data : Array α
  size_data : data.size = steps * shape.size

namespace History

variable {α β : Type}

/-- The history of a shape with given elements, the time index first. -/
def ofFn (steps : Nat) (s : Shape) (f : Nat → Nat → Nat → Nat → Nat → α) : History α where
  steps := steps
  shape := s
  data := Array.ofFn fun k : Fin (steps * s.size) =>
    let place := k % s.size
    f (k / s.size) (s.runAt place) (s.regionAt place) (s.rowAt place) (s.columnAt place)
  size_data := Array.size_ofFn

/-- One element; outside the history a fixed default, which nothing in this library reads. -/
def get [Inhabited α] (h : History α) (t x r i j : Nat) : α :=
  h.data[t * h.shape.size + h.shape.position x r i j]?.getD default

/-- Elements listed in order, if there are as many as the history has places. -/
def ofArray? (steps : Nat) (s : Shape) (data : Array α) : Option (History α) :=
  if h : data.size = steps * s.size then some ⟨steps, s, data, h⟩ else none

/-- The history of recorded values; a time point without a record holds no number. -/
def ofFrames [Scalar α] (steps : Nat) (s : Shape) (frames : Array (Tensor α)) : History α :=
  ofFn steps s fun t x r i j =>
    match frames[t]? with
    | some frame => frame.get x r i j
    | none => Scalar.nan

/-- Refuses a history that cannot be held. -/
def check (steps : Nat) (s : Shape) : Except Fault Unit := checkExtent (steps :: s.toList)

/-- The history in which nothing is recorded yet, if it can be held. -/
def unrecorded [Scalar α] (steps : Nat) (s : Shape) : Except Fault (History α) := do
  check steps s
  return ofFrames steps s #[]

/-- The value at one time point. -/
def frame [Inhabited α] (h : History α) (t : Nat) : Tensor α := .ofFn h.shape (h.get t)

/-- The lengths of the five axes. -/
def axes (h : History α) : List Nat := h.steps :: h.shape.toList

@[simp] theorem steps_ofFn (steps : Nat) (s : Shape) (f : Nat → Nat → Nat → Nat → Nat → α) :
    (ofFn steps s f).steps = steps := rfl

@[simp] theorem shape_ofFn (steps : Nat) (s : Shape) (f : Nat → Nat → Nat → Nat → Nat → α) :
    (ofFn steps s f).shape = s := rfl

/-- **Building and reading** — inside its axes a history holds what it was built from. -/
theorem get_ofFn [Inhabited α] (steps : Nat) (s : Shape)
    (f : Nat → Nat → Nat → Nat → Nat → α) {t x r i j : Nat} (ht : t < steps)
    (h : s.Contains x r i j) : (ofFn steps s f).get t x r i j = f t x r i j := by
  have hp := s.position_lt h
  have hk : t * s.size + s.position x r i j < steps * s.size :=
    calc t * s.size + s.position x r i j < t * s.size + s.size := Nat.add_lt_add_left hp _
      _ = (t + 1) * s.size := (Nat.succ_mul _ _).symm
      _ ≤ steps * s.size := Nat.mul_le_mul_right _ ht
  have hdiv : (t * s.size + s.position x r i j) / s.size = t := by
    rw [Nat.mul_comm, Nat.mul_add_div (Nat.zero_lt_of_lt hp), Nat.div_eq_of_lt hp, Nat.add_zero]
  have hmod : (t * s.size + s.position x r i j) % s.size = s.position x r i j := by
    rw [Nat.mul_comm, Nat.mul_add_mod, Nat.mod_eq_of_lt hp]
  simp only [get, ofFn, Array.getElem?_ofFn, hk, dite_true, Option.getD_some, hdiv, hmod,
    s.runAt_position h, s.regionAt_position h, s.rowAt_position h, s.columnAt_position h]

end History

end FieldFlow
