import FieldFlow.Scalar
import FieldFlow.Solver.Cursor

/-!
# Solver/RungeKutta — the classical fourth-order step
-/

namespace FieldFlow.RungeKutta

variable {ε α : Type} {n : Nat} [Scalar α]

/-- **The fourth-order increment** — four slopes, the two at the middle weighted twice. -/
def advance (f : Rate ε α n) (t : α) (y : Vector α n) (dt : α) : Except ε (Vector α n) := do
  let half : α := Scalar.half
  let sixth : α := Scalar.ofQuot 1 6
  let two : α := Scalar.two
  let k₁ ← f t y
  let k₂ ← f (t + dt * half) (y.zipWith (fun a k => a + dt * k * half) k₁)
  let k₃ ← f (t + dt * half) (y.zipWith (fun a k => a + dt * k * half) k₂)
  let k₄ ← f (t + dt) (y.zipWith (fun a k => a + dt * k) k₃)
  return Vector.ofFn fun i =>
    y.get i + dt * sixth * (k₁.get i + two * k₂.get i + two * k₃.get i + k₄.get i)

/-- One step of fixed size. -/
def step (f : Rate ε α n) (dt : α) (c : Cursor α n) : StepResult ε α n :=
  match advance f c.time c.state dt with
  | .ok state => ({ c with time := c.time + dt, state := state }, .ok ())
  | .error e => (c, .error (.system e))

end FieldFlow.RungeKutta
