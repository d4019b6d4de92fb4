import FieldFlow.Tensor.Broadcast
import FieldFlow.Tensor.Index

/-!
# Tensor/Sectors — matrix operations on the two sector axes

The two sector axes of a tensor are read as one matrix per run and region; a sector vector is a
column. Runs and regions stay apart, and a run or region axis of length one pairs with any length.
-/

namespace FieldFlow.Tensor

variable {α : Type} [Scalar α]

/-- The sum of `f 0`, …, `f (n - 1)`, from the left. -/
def sumRange (n : Nat) (f : Nat → α) : α := Scalar.sum ((List.range n).map f)

/-- Swaps the two sector axes. -/
def transpose (t : Tensor α) : Tensor α :=
  ofFn ⟨t.shape.runs, t.shape.regions, t.shape.sectorB, t.shape.sectorA⟩
    fun x r i j => t.get x r j i

/-- The common length of an outer axis of two factors. -/
def joinOuter (axis : OuterAxis) (a b : Nat) : Except Fault Nat :=
  match joinAxis? a b with
  | some n => .ok n
  | none => .error (.outerLengths axis a b)

/-- **The matrix product** of every pair of blocks. -/
def matmul (t u : Tensor α) : Except Fault (Tensor α) := do
  if t.shape.sectorB ≠ u.shape.sectorA then
    throw (.innerLengths t.shape.sectorB u.shape.sectorA)
  let runs ← joinOuter .run t.shape.runs u.shape.runs
  let regions ← joinOuter .region t.shape.regions u.shape.regions
  allocate ⟨runs, regions, t.shape.sectorA, u.shape.sectorB⟩ fun x r i j =>
    sumRange t.shape.sectorB fun k =>
      t.get (axisIndex t.shape.runs x) (axisIndex t.shape.regions r) i k *
        u.get (axisIndex u.shape.runs x) (axisIndex u.shape.regions r) k j

/-- The scalar product of two sector vectors. -/
def sectorProduct (t u : Tensor α) : Except Fault (Tensor α) := matmul (transpose t) u

/-- The sum over the first sector axis, as a column over the second. -/
def sumFirst (t : Tensor α) : Except Fault (Tensor α) :=
  allocate ⟨t.shape.runs, t.shape.regions, t.shape.sectorB, 1⟩ fun x r j _ =>
    sumRange t.shape.sectorA fun i => t.get x r i j

/-- The sum over the second sector axis, as a column over the first. -/
def sumSecond (t : Tensor α) : Except Fault (Tensor α) :=
  allocate ⟨t.shape.runs, t.shape.regions, t.shape.sectorA, 1⟩ fun x r i _ =>
    sumRange t.shape.sectorB fun j => t.get x r i j

/-- The sum over the regions. -/
def sumRegions (t : Tensor α) : Except Fault (Tensor α) :=
  allocate ⟨t.shape.runs, 1, t.shape.sectorA, t.shape.sectorB⟩ fun x _ i j =>
    sumRange t.shape.regions fun r => t.get x r i j

/-- The identity matrix that can stand to the right of a tensor. -/
def identity (t : Tensor α) : Except Fault (Tensor α) :=
  allocate ⟨1, 1, t.shape.sectorB, t.shape.sectorB⟩ fun _ _ i j =>
    if i = j then Scalar.one else Scalar.zero

/-- **Distances between sectors** placed in the plane by two coordinates. -/
def distance (t u : Tensor α) : Except Fault (Tensor α) := do
  let across ← zipWith (· - ·) t (transpose t)
  let along ← zipWith (· - ·) u (transpose u)
  let squares ← zipWith (· + ·) (across.map Scalar.square) (along.map Scalar.square)
  return squares.map Scalar.sqrt

/-- One region of a tensor, as a tensor with that region only: what lies between the cut in front of
it and the next one. The cut after the last machine word is the start of the axis, which leaves
nothing between. -/
def region (t : Tensor α) (r : Nat) : Except Fault (Tensor α) :=
  match cut? t.shape.regions r, cut? t.shape.regions ((r + 1) % wordEnd) with
  | some first, some last =>
    .ok (ofFn { t.shape with regions := last - first } fun x k i j => t.get x (first + k) i j)
  | _, _ => .error .outOfRange

/-- One run of a tensor, as a tensor with that run only. -/
def run (t : Tensor α) (x : Nat) : Tensor α :=
  ofFn { t.shape with runs := 1 } fun _ r i j => t.get (axisIndex t.shape.runs x) r i j

end FieldFlow.Tensor
