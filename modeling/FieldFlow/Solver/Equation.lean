import FieldFlow.Operation
import FieldFlow.Solver.Method

/-!
# Solver/Equation — systems written as scalar terms

A system can be given by one term per state variable, over the time and the state. A term may also
refuse to give a derivative, always or beyond a limit.
-/

namespace FieldFlow

/-- **Terms** over the time and the state. -/
inductive Term (α : Type) where
  | number (c : α)
  | time
  /-- A state variable. -/
  | state (i : Nat)
  | binary (op : BinaryOp) (a b : Term α)
  | unary (op : UnaryOp) (a : Term α)
  /-- No value, for a reason. -/
  | refuse (reason : String)
  /-- The first term, unless it exceeds the second. -/
  | atMost (a limit : Term α)

namespace Term

variable {α : Type} [Scalar α]

/-- The value of a term; operands are evaluated from left to right. -/
def eval (t : α) (x : Array α) : Term α → Except (Failure α) α
  | .number c => .ok c
  | .time => .ok t
  | .state i =>
    match x[i]? with
    | some v => .ok v
    | none => .error (.fault .outOfRange)
  | .binary op a b => do
    let left ← a.eval t x
    let right ← b.eval t x
    return op.apply left right
  | .unary op a => do return op.apply (← a.eval t x)
  | .refuse reason => .error (.error (.invalidSettings (.stated reason)))
  | .atMost a limit => do
    let value ← a.eval t x
    let most ← limit.eval t x
    if Scalar.lt most value then throw (.error (.invalidSettings (.stated "above")))
    return value

/-- The first `n` derivatives of a system; all of its terms are evaluated, and there may not be
fewer than `n`. -/
def derivatives {n : Nat} (terms : List (Term α)) (t : α) (x : Array α) :
    Except (Failure α) (Vector α n) := do
  let slopes := (← terms.mapM fun term => term.eval t x).toArray
  if h : n ≤ slopes.size then
    return ⟨slopes.extract 0 n, by rw [Array.size_extract, Nat.min_eq_left h, Nat.sub_zero]⟩
  else throw (.fault .outOfRange)

/-- A system of terms as a rate of change. -/
def rate {n : Nat} (terms : List (Term α)) : Rate (Failure α) α n :=
  fun t x => derivatives terms t x.toArray

/-- A system of terms at a state that is filled up with zeros to one variable for each term; a state
with more variables than that does not fit. -/
def filledRate {n : Nat} (terms : List (Term α)) : Rate (Failure α) α n :=
  fun t x =>
    if terms.length < n then .error (.fault .outOfRange)
    else derivatives terms t (x.toArray ++ Array.replicate (terms.length - n) Scalar.zero)

end Term

/-- **One step of a system of terms.** Where terms and variables differ in number, a fixed step
moves the variables that there are, and an adaptive one comes to a halt as soon as it would take
over an internal step. -/
def Method.stepTerms {α : Type} {n : Nat} [Scalar α] (m : Method) (control : StepControl α)
    (terms : List (Term α)) (dt : α) (c : Cursor α n) : StepResult (Failure α) α n :=
  match m.tableau? with
  | none => RungeKutta.step (Term.rate terms) dt c
  | some t =>
    let (next, result) := Adaptive.step t control (Term.filledRate terms) dt c
    if terms.length ≠ n && c.accepted < next.accepted then
      (next, .error (.system (.fault .outOfRange)))
    else (next, result)

end FieldFlow
