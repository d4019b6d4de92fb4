import FieldFlow.Solver.Control
import FieldFlow.Solver.Cursor
import FieldFlow.Solver.Tableau

/-!
# Solver/Adaptive — steps of controlled error

One step covers its interval by internal steps whose scaled error is at most one. `trial` is one
internal step with its verdict, `advance` repeats trials until the interval is covered or error
control gives up. The internal steps that were accepted stay in the state even if a later one fails.
-/

namespace FieldFlow.Adaptive

variable {ε α : Type} {n : Nat} [Scalar α]

/-! ## One attempt -/

/-- A weighted sum of slopes at one place of the state. -/
def weighted (weights : List α) (slopes : List (Vector α n)) (i : Fin n) : α :=
  (weights.zip slopes).foldl (fun acc (w, k) => acc + w * k[i]) Scalar.zero

/-- The slopes of the stages; each stage starts from the slopes of the earlier ones. -/
def slopes (f : Rate ε α n) (t : α) (y : Vector α n) (h : α) :
    List (α × List α) → List (Vector α n) → Except ε (List (Vector α n))
  | [], ks => .ok ks
  | (c, row) :: rest, ks => do
    let k ← f (t + c * h) (Vector.ofFn fun i => y[i] + h * weighted row ks i)
    slopes f t y h rest (ks ++ [k])

/-- What an attempted step comes to. -/
structure Attempt (α : Type) (n : Nat) where
  candidate : Vector α n
  /-- The error relative to the tolerances; a step is good up to one. -/
  error : α

/-- The root mean square of the errors, each relative to its own tolerance. -/
def scaledError (control : StepControl α) (y next delta : Vector α n) : α :=
  let relative (i : Fin n) : α :=
    delta[i] /
      (control.absolute + control.relative * Scalar.max (Scalar.abs y[i]) (Scalar.abs next[i]))
  let total := (List.ofFn fun i => Scalar.square (relative i)).foldl (· + ·) Scalar.zero
  Scalar.sqrt (total / Scalar.ofNat n)

/-- **One attempt** at an internal step. A candidate that is not finite has an infinite error; an
empty state has none. -/
def attempt (pair : Coefficients α) (control : StepControl α) (f : Rate ε α n) (t : α)
    (y : Vector α n) (h : α) : Except ε (Attempt α n) := do
  let ks ← slopes f t y h (pair.nodes.zip pair.rows) []
  let candidate : Vector α n := Vector.ofFn fun i => y[i] + h * weighted pair.weights ks i
  let delta : Vector α n := Vector.ofFn fun i => h * weighted pair.errors ks i
  let error :=
    if n = 0 then Scalar.zero
    else if candidate.all Scalar.isFinite then scaledError control y candidate delta
    else Scalar.infinity
  return ⟨candidate, error⟩

/-! ## Step size control -/

/-- The setting of one step: where it ends, and the leftover that is too short to stand alone. -/
structure Goal (α : Type) where
  start : α
  stop : α
  snap : α

/-- The progress of a step: how far it has come and what size it tries next. -/
structure Progress (α : Type) (n : Nat) where
  now : α
  size : α
  state : Vector α n
  /-- Consecutive rejections. -/
  rejections : Nat
  suggestion : Option α
  accepted : Nat
  rejected : Nat

/-- The size to attempt, and whether it completes the step: a leftover shorter than `snap` is folded
into the last internal step. -/
def clamp (goal : Goal α) (p : Progress α n) : α × Bool :=
  let remaining := goal.stop - p.now
  if Scalar.le remaining p.size || Scalar.lt (remaining - p.size) goal.snap then (remaining, true)
  else (p.size, false)

/-- By how much to change the step size after an error, at most fivefold either way. -/
def sizeFactor (order : Nat) (error : α) : α :=
  let grow : α := Scalar.ofNat 5
  if Scalar.eq error Scalar.zero then grow
  else
    let exponent : α := Scalar.one / Scalar.ofNat (order + 1)
    let ideal := Scalar.ofQuot 9 10 * Scalar.pow error (-exponent)
    Scalar.min (Scalar.max ideal (Scalar.ofQuot 1 5)) grow

/-- The verdict on one internal step. -/
inductive Trial (ε α : Type) (n : Nat) where
  | accepted (p : Progress α n)
  | rejected (p : Progress α n)
  /-- The step fails, with the progress that it leaves. -/
  | failed (p : Progress α n) (e : StepFailure ε α)

/-- The progress after an accepted attempt of size `h`. -/
def accept (goal : Goal α) (p : Progress α n) (h : α) (last : Bool) (factor : α)
    (candidate : Vector α n) : Progress α n :=
  let suggested := h * factor
  { now := if last then goal.stop else p.now + h
    size := suggested
    state := candidate
    rejections := 0
    suggestion := some (if last then Scalar.max suggested p.size else suggested)
    accepted := p.accepted + 1
    rejected := p.rejected }

/-- The progress after a rejected attempt of size `h`; the next size is smaller. -/
def reject (p : Progress α n) (h factor : α) : Progress α n :=
  { p with
    size := h * Scalar.max (Scalar.min factor Scalar.one) (Scalar.ofQuot 1 5)
    rejections := p.rejections + 1
    rejected := p.rejected + 1 }

/-- **One internal step.** -/
def trial (tableau : Tableau) (control : StepControl α) (f : Rate ε α n) (goal : Goal α)
    (p : Progress α n) : Trial ε α n :=
  let (h, last) := clamp goal p
  if !Scalar.isFinite h || Scalar.lt h control.minStep then
    .failed p (.impasse goal.start (.smallStep h p.now))
  else
    match attempt tableau.inScalars control f p.now p.state h with
    | .error e => .failed p (.system e)
    | .ok tried =>
      let factor := sizeFactor tableau.errorOrder tried.error
      if Scalar.le tried.error Scalar.one then
        .accepted (accept goal p h last factor tried.candidate)
      else
        let next := reject p h factor
        if control.maxRejections < next.rejections then
          .failed next (.impasse goal.start (.rejections next.rejections p.now))
        else .rejected next

/-- Repeats trials until the goal is reached, at most as often as the bound says. -/
def advance (tableau : Tableau) (control : StepControl α) (f : Rate ε α n) (goal : Goal α) :
    Nat → Progress α n → Progress α n × Except (StepFailure ε α) Unit
  | 0, p => (p, if Scalar.lt p.now goal.stop then .error .unfinished else .ok ())
  | bound + 1, p =>
    if Scalar.lt p.now goal.stop then
      match trial tableau control f goal p with
      | .accepted next | .rejected next => advance tableau control f goal bound next
      | .failed next e => (next, .error e)
    else (p, .ok ())

/-- The attempts that a step may take. Every accepted internal step covers the minimum size, and is
preceded by at most the tolerated rejections; where rounding lets time move less than that, the
bound is one that no computation reaches. -/
def attemptBound (control : StepControl α) (dt : α) : Nat :=
  let steps :=
    if Scalar.lt Scalar.zero control.minStep then Scalar.whole (dt / control.minStep)
    else UInt64.size
  max (1 <<< 62) ((steps + 2) * (control.maxRejections + 1))

/-- The goal of a step of size `dt`. -/
def goalOf (control : StepControl α) (t dt : α) : Goal α :=
  ⟨t, t + dt, Scalar.max control.minStep (dt * Scalar.ofQuot 1 1000000000)⟩

/-- The progress with which a step of size `dt` begins. -/
def outset (dt : α) (c : Cursor α n) : Progress α n :=
  { now := c.time
    size := Scalar.min (c.suggestion.getD dt) dt
    state := c.state
    rejections := 0
    suggestion := c.suggestion
    accepted := c.accepted
    rejected := c.rejected }

/-- **One step** of size `dt`. When it fails, time stands where the step began. -/
def step (tableau : Tableau) (control : StepControl α) (f : Rate ε α n) (dt : α)
    (c : Cursor α n) : StepResult ε α n :=
  let goal := goalOf control c.time dt
  let (p, result) := advance tableau control f goal (attemptBound control dt) (outset dt c)
  let time :=
    match result with
    | .ok () => goal.stop
    | .error _ => c.time
  (⟨time, p.state, p.suggestion, p.accepted, p.rejected⟩, result)

end FieldFlow.Adaptive
