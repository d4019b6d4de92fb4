import FieldFlow.Scalar

/-!
# Solver/Tableau — coefficients of explicit embedded pairs

Coefficients are exact fractions. `Tableau.inScalars` reads them in the arithmetic of a run.
-/

namespace FieldFlow

/-- An explicit Runge–Kutta pair over some numbers. -/
structure Coefficients (α : Type) where
  /-- Fractions of the step at which the stages are evaluated. -/
  nodes : List α
  /-- The weights of the earlier stages in each stage. -/
  rows : List (List α)
  /-- The weights of the solution that is carried on. -/
  weights : List α
  /-- Those weights less the weights of the embedded solution. -/
  errors : List α

/-- **An embedded pair** with its name and the order of the lower of its two solutions. -/
structure Tableau extends Coefficients Rat where
  name : String
  errorOrder : Nat

namespace Tableau

def stages (t : Tableau) : Nat := t.nodes.length

/-- The coefficients in the arithmetic of a run. -/
def inScalars {α : Type} [Scalar α] (t : Tableau) : Coefficients α :=
  let read (q : Rat) : α := Scalar.ofQuot q.num q.den
  { nodes := t.nodes.map read
    rows := t.rows.map fun row => row.map read
    weights := t.weights.map read
    errors := t.errors.map read }

/-- The pair of orders three and two with four stages. -/
def bogackiShampine : Tableau where
  name := "eRK2-adaptive"
  errorOrder := 2
  nodes := [0, 1 / 2, 3 / 4, 1]
  rows := [[], [1 / 2], [0, 3 / 4], [2 / 9, 1 / 3, 4 / 9]]
  weights := [2 / 9, 1 / 3, 4 / 9, 0]
  errors := [-5 / 72, 1 / 12, 1 / 9, -1 / 8]

/-- The pair of orders five and four with seven stages. -/
def dormandPrince : Tableau where
  name := "eRK4-adaptive"
  errorOrder := 4
  nodes := [0, 1 / 5, 3 / 10, 4 / 5, 8 / 9, 1, 1]
  rows :=
    [[],
      [1 / 5],
      [3 / 40, 9 / 40],
      [44 / 45, -56 / 15, 32 / 9],
      [19372 / 6561, -25360 / 2187, 64448 / 6561, -212 / 729],
      [9017 / 3168, -355 / 33, 46732 / 5247, 49 / 176, -5103 / 18656],
      [35 / 384, 0, 500 / 1113, 125 / 192, -2187 / 6784, 11 / 84]]
  weights := [35 / 384, 0, 500 / 1113, 125 / 192, -2187 / 6784, 11 / 84, 0]
  errors :=
    [71 / 57600, 0, -71 / 16695, 71 / 1920, -17253 / 339200, 22 / 525, -1 / 40]

/-- The pair of orders eight and seven with thirteen stages. -/
def fehlberg : Tableau where
  name := "eRK8-adaptive"
  errorOrder := 7
  nodes := [0, 2 / 27, 1 / 9, 1 / 6, 5 / 12, 1 / 2, 5 / 6, 1 / 6, 2 / 3, 1 / 3, 1, 0, 1]
  rows :=
    [[],
      [2 / 27],
      [1 / 36, 1 / 12],
      [1 / 24, 0, 1 / 8],
      [5 / 12, 0, -25 / 16, 25 / 16],
      [1 / 20, 0, 0, 1 / 4, 1 / 5],
      [-25 / 108, 0, 0, 125 / 108, -65 / 27, 125 / 54],
      [31 / 300, 0, 0, 0, 61 / 225, -2 / 9, 13 / 900],
      [2, 0, 0, -53 / 6, 704 / 45, -107 / 9, 67 / 90, 3],
      [-91 / 108, 0, 0, 23 / 108, -976 / 135, 311 / 54, -19 / 60, 17 / 6, -1 / 12],
      [2383 / 4100, 0, 0, -341 / 164, 4496 / 1025, -301 / 82, 2133 / 4100, 45 / 82, 45 / 164,
        18 / 41],
      [3 / 205, 0, 0, 0, 0, -6 / 41, -3 / 205, -3 / 41, 3 / 41, 6 / 41, 0],
      [-1777 / 4100, 0, 0, -341 / 164, 4496 / 1025, -289 / 82, 2193 / 4100, 51 / 82, 33 / 164,
        12 / 41, 0, 1]]
  weights := [0, 0, 0, 0, 0, 34 / 105, 9 / 35, 9 / 35, 9 / 280, 9 / 280, 0, 41 / 840, 41 / 840]
  errors := [41 / 840, 0, 0, 0, 0, 0, 0, 0, 0, 0, 41 / 840, -41 / 840, -41 / 840]

end Tableau

end FieldFlow
