import FieldFlow.Analysis.Convergence
import FieldFlow.Proofs.Analysis.Moments
import FieldFlow.Proofs.Scalar.Extended
import Mathlib.Tactic.Linarith

/-!
# Proofs/Analysis/LeastSquares — the fitted line is the best one

What a line leaves of the points is what the best line leaves, and two squares on top: one for the
difference of the slopes, one for that of the heights at the centre (`loss_eq`). So no line is
better than the one through the centre with the slope that is computed, and none with another slope
is as good (`loss_lt`). The computation divides by the sum of the weights and by the spread of the
points (`weightedSlope_eq`), which are positive if the weights are and two points differ.
-/

namespace FieldFlow

variable {K : Type} [FieldOfNumbers K]

/-! ## Lines through weighted points -/

section Lines

variable {points : List (FitPoint K)} {a b : K}

/-- **What a line leaves** — the weighted sum of the squares of its vertical distances. -/
def loss (points : List (FitPoint K)) (height slope : K) : K :=
  (points.map fun p => p.weight * (p.y - height - slope * p.x) ^ 2).sum

/-- The mean of something that is read off the points. -/
def FitPoint.mean (points : List (FitPoint K)) (f : FitPoint K → K) : K :=
  centre points FitPoint.weight f

/-- How far the points are spread along the line. -/
def spread (points : List (FitPoint K)) : K :=
  comoment points FitPoint.weight FitPoint.x FitPoint.x

/-- The slope of the best line. -/
def bestSlope (points : List (FitPoint K)) : K :=
  comoment points FitPoint.weight FitPoint.x FitPoint.y / spread points

/-- Where the best line meets the axis. -/
def bestHeight (points : List (FitPoint K)) : K :=
  FitPoint.mean points FitPoint.y - bestSlope points * FitPoint.mean points FitPoint.x

theorem loss_eq_inertia (points : List (FitPoint K)) (a b : K) :
    loss points a b = inertia points FitPoint.weight (fun p => p.y - b * p.x) a := by
  simp only [loss, inertia, sub_right_comm]

/-- The points lie around the line with a slope whose height is their mean. -/
theorem mean_sub_mul (points : List (FitPoint K)) (b : K) :
    FitPoint.mean points (fun p => p.y - b * p.x) =
      FitPoint.mean points FitPoint.y - b * FitPoint.mean points FitPoint.x :=
  centre_sub_mul points FitPoint.weight FitPoint.x FitPoint.y b

/-- What a line through the centre leaves. -/
theorem loss_through_centre (hspread : spread points ≠ 0) (b : K) :
    loss points (FitPoint.mean points FitPoint.y - b * FitPoint.mean points FitPoint.x) b =
      comoment points FitPoint.weight FitPoint.y FitPoint.y +
        spread points * (b ^ 2 - 2 * b * bestSlope points) := by
  have hbest : comoment points FitPoint.weight FitPoint.x FitPoint.y =
      spread points * bestSlope points := (mul_div_cancel₀ _ hspread).symm
  have hparts := inertia_sub_mul points FitPoint.weight FitPoint.x FitPoint.y b
  rw [hbest] at hparts
  rw [loss_eq_inertia, ← mean_sub_mul]
  refine hparts.trans ?_
  rw [spread]
  ring

/-- **What a line leaves**, compared with the best one. -/
theorem loss_eq (hmass : mass points FitPoint.weight ≠ 0) (hspread : spread points ≠ 0) (a b : K) :
    loss points a b = loss points (bestHeight points) (bestSlope points) +
      (spread points * (b - bestSlope points) ^ 2 + mass points FitPoint.weight *
        (FitPoint.mean points FitPoint.y - b * FitPoint.mean points FitPoint.x - a) ^ 2) := by
  have hlift : loss points a b =
      loss points (FitPoint.mean points FitPoint.y - b * FitPoint.mean points FitPoint.x) b +
        mass points FitPoint.weight *
          (FitPoint.mean points FitPoint.y - b * FitPoint.mean points FitPoint.x - a) ^ 2 := by
    rw [← mean_sub_mul, loss_eq_inertia, loss_eq_inertia]
    exact inertia_eq hmass a
  rw [hlift, bestHeight, loss_through_centre hspread, loss_through_centre hspread]
  ring

variable [LinearOrder K] [IsStrictOrderedRing K] (hw : ∀ p ∈ points, 0 < p.weight)
  (hx : ∃ p ∈ points, ∃ q ∈ points, p.x ≠ q.x)

include hw hx

theorem weight_pos : 0 < mass points FitPoint.weight := by
  obtain ⟨p, hp, -⟩ := hx
  exact mass_pos hw (List.ne_nil_of_mem hp)

/-- Points that differ are spread. -/
theorem spread_pos : 0 < spread points := by
  obtain ⟨p, hp, q, hq, hne⟩ := hx
  rw [spread, comoment_self]
  refine lt_of_le_of_ne (inertia_nonneg hw _) fun hzero => hne ?_
  have hall := (inertia_eq_zero_iff hw _).1 hzero.symm
  exact (hall p hp).trans (hall q hq).symm

/-- **No line is better**… -/
theorem loss_le (a b : K) :
    loss points (bestHeight points) (bestSlope points) ≤ loss points a b := by
  have hmass := weight_pos hw hx
  have hspread := spread_pos hw hx
  rw [loss_eq hmass.ne' hspread.ne' a b]
  exact le_add_of_nonneg_right (add_nonneg (mul_nonneg hspread.le (sq_nonneg _))
    (mul_nonneg hmass.le (sq_nonneg _)))

/-- …and none with another slope is as good. -/
theorem loss_lt (hb : b ≠ bestSlope points) (a : K) :
    loss points (bestHeight points) (bestSlope points) < loss points a b := by
  have hmass := weight_pos hw hx
  have hspread := spread_pos hw hx
  rw [loss_eq hmass.ne' hspread.ne' a b]
  exact lt_add_of_pos_right _ (add_pos_of_pos_of_nonneg
    (mul_pos hspread (sq_pos_of_ne_zero (sub_ne_zero.2 hb))) (mul_nonneg hmass.le (sq_nonneg _)))

/-- Points on a line have its slope. -/
theorem bestSlope_eq (h : ∀ p ∈ points, p.y = a + b * p.x) : bestSlope points = b := by
  by_contra hne
  have hnone : loss points a b = 0 := by
    refine List.sum_eq_zero fun x hx => ?_
    obtain ⟨p, hp, rfl⟩ := List.mem_map.1 hx
    rw [h p hp]
    ring
  have hbest : 0 ≤ loss points (bestHeight points) (bestSlope points) := by
    rw [loss_eq_inertia]
    exact inertia_nonneg hw _
  have hlt := loss_lt hw hx (Ne.symm hne) a
  rw [hnone] at hlt
  exact hlt.not_ge hbest

end Lines

/-! ## The slope as it is computed -/

section Parts

variable {α : Type} [Scalar α] (points : List (FitPoint α))

/-- The sum of the weights, which the means are divided by. -/
def fitWeight : α := Scalar.sum (points.map FitPoint.weight)

def fitMean (f : FitPoint α → α) : α :=
  Scalar.sum (points.map fun p => p.weight * f p) / fitWeight points

def fitCovariance : α :=
  Scalar.sum (points.map fun p => p.weight * (p.x - fitMean points FitPoint.x) *
    (p.y - fitMean points FitPoint.y))

/-- The spread of the points, which the slope is divided by. -/
def fitVariance : α :=
  Scalar.sum (points.map fun p => p.weight * Scalar.square (p.x - fitMean points FitPoint.x))

/-- The divisions in a slope. -/
theorem weightedSlope_eq : weightedSlope points = fitCovariance points / fitVariance points := rfl

end Parts

section Computed

open Extended

/-- A point whose coordinates are numbers. -/
def FitPoint.numbers (p : FitPoint K) : FitPoint (Extended K) where
  x := number p.x
  y := number p.y
  weight := number p.weight

variable [LinearOrder K] [IsStrictOrderedRing K] [FloorRing K] [Elementary K]
  {points : List (FitPoint K)}

/-- A sum over points with numbers for coordinates. -/
theorem sum_numbers {f : FitPoint (Extended K) → Extended K} {g : FitPoint K → K}
    (h : ∀ p : FitPoint K, f p.numbers = number (g p)) :
    Scalar.sum ((points.map FitPoint.numbers).map f) = number (points.map g).sum := by
  have hmap : (points.map FitPoint.numbers).map f = (points.map g).map number := by
    simp only [List.map_map, List.map_inj_left, Function.comp_apply, h, implies_true]
  rw [hmap, sum_number]

theorem fitWeight_numbers :
    fitWeight (points.map FitPoint.numbers) = number (mass points FitPoint.weight) :=
  sum_numbers fun _ => rfl

variable (hmass : mass points FitPoint.weight ≠ 0)

include hmass

theorem fitMean_numbers {f : FitPoint (Extended K) → Extended K} {g : FitPoint K → K}
    (h : ∀ p : FitPoint K, f p.numbers = number (g p)) :
    fitMean (points.map FitPoint.numbers) f = number (FitPoint.mean points g) := by
  rw [fitMean, fitWeight_numbers, sum_numbers (fun p => congrArg (p.numbers.weight * ·) (h p)),
    div_number hmass]
  rfl

theorem fitVariance_numbers :
    fitVariance (points.map FitPoint.numbers) = number (spread points) := by
  rw [fitVariance, fitMean_numbers hmass (g := FitPoint.x) fun _ => rfl]
  refine (sum_numbers (g := fun p => p.weight * ((p.x - FitPoint.mean points FitPoint.x) *
    (p.x - FitPoint.mean points FitPoint.x))) fun p => ?_).trans ?_
  · simp [FitPoint.numbers, Scalar.square]
  · simp only [spread, comoment, mul_assoc]
    rfl

theorem fitCovariance_numbers : fitCovariance (points.map FitPoint.numbers) =
    number (comoment points FitPoint.weight FitPoint.x FitPoint.y) := by
  rw [fitCovariance, fitMean_numbers hmass (g := FitPoint.x) fun _ => rfl,
    fitMean_numbers hmass (g := FitPoint.y) fun _ => rfl]
  refine sum_numbers fun p => ?_
  simp only [FitPoint.numbers, sub_number, mul_number]
  rfl

/-- **The slope that is computed** is that of the best line. -/
theorem weightedSlope_numbers (hspread : spread points ≠ 0) :
    weightedSlope (points.map FitPoint.numbers) = number (bestSlope points) := by
  rw [weightedSlope_eq, fitCovariance_numbers hmass, fitVariance_numbers hmass, div_number hspread]
  rfl

end Computed

end FieldFlow
