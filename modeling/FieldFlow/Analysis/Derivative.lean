import FieldFlow.Tensor.History

/-!
# Analysis/Derivative — rates of change along the time axis
-/

namespace FieldFlow.History

variable {α : Type} [Scalar α]

/-- **The time derivative** — central differences inside, one-sided differences at both ends; a
single time point does not move. -/
def timeDerivative (h : History α) (timeStep : α) : History α :=
  .ofFn h.steps h.shape fun t x r i j =>
    let at_ (t : Nat) := h.get t x r i j
    if h.steps < 2 then Scalar.zero
    else if t = 0 then (at_ 1 - at_ 0) / timeStep
    else if t + 1 = h.steps then (at_ t - at_ (t - 1)) / timeStep
    else (at_ (t + 1) - at_ (t - 1)) / (Scalar.two * timeStep)

/-- **The growth rate** — the time derivative relative to the value. -/
def growthRate (h : History α) (timeStep : α) : History α :=
  let derivative := h.timeDerivative timeStep
  .ofFn h.steps h.shape fun t x r i j => derivative.get t x r i j / h.get t x r i j

end FieldFlow.History
