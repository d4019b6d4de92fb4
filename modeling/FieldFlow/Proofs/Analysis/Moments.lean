import Mathlib.Algebra.BigOperators.Ring.List
import Mathlib.Algebra.Order.BigOperators.Group.List
import Mathlib.Algebra.Order.Field.Basic
import Mathlib.Tactic.FieldSimp
import Mathlib.Tactic.Ring

/-!
# Proofs/Analysis/Moments — weighted means and the squares around them

Numbers that are read off the elements of a list have a centre, once the elements have weights. The
squares of their distances from any other place are those from the centre and the square of the way
there (`inertia_eq`); this is what makes the centre the best place, and the mean of the squares the
square of the mean with the variance on top.
-/

namespace FieldFlow

variable {ι K : Type} [Field K]

theorem sum_map_sub (l : List ι) (f g : ι → K) :
    (l.map fun i => f i - g i).sum = (l.map f).sum - (l.map g).sum := by
  rw [eq_sub_iff_add_eq, ← List.sum_map_add]
  simp only [sub_add_cancel]

/-- The sum of all weights. -/
def mass (l : List ι) (w : ι → K) : K := (l.map w).sum

/-- **The weighted mean** of what is read off the elements. -/
def centre (l : List ι) (w f : ι → K) : K := (l.map fun i => w i * f i).sum / mass l w

/-- The weighted sum of the squares of the distances from a place. -/
def inertia (l : List ι) (w f : ι → K) (c : K) : K := (l.map fun i => w i * (f i - c) ^ 2).sum

/-- The weighted sum of the products of the distances from the centres. -/
def comoment (l : List ι) (w f g : ι → K) : K :=
  (l.map fun i => w i * (f i - centre l w f) * (g i - centre l w g)).sum

variable {l : List ι} {w f g : ι → K} {a b c : K}

/-! ## Around the centre -/

theorem sum_mul_eq (hmass : mass l w ≠ 0) :
    (l.map fun i => w i * f i).sum = mass l w * centre l w f := by
  rw [centre, mul_div_cancel₀ _ hmass]

/-- The distances from the centre are in balance. -/
theorem sum_mul_sub_centre (hmass : mass l w ≠ 0) :
    (l.map fun i => w i * (f i - centre l w f)).sum = 0 := by
  simp only [mul_sub, sum_map_sub, List.sum_map_mul_right]
  exact sub_eq_zero.2 (sum_mul_eq hmass)

/-- **Squares around another place** are those around the centre and the way there. -/
theorem inertia_eq (hmass : mass l w ≠ 0) (c : K) : inertia l w f c =
    inertia l w f (centre l w f) + mass l w * (centre l w f - c) ^ 2 := by
  have hsquare (i : ι) : w i * (f i - c) ^ 2 = w i * (f i - centre l w f) ^ 2 +
      (w i * (f i - centre l w f) * (2 * (centre l w f - c)) + w i * (centre l w f - c) ^ 2) := by
    ring
  simp only [inertia, hsquare, List.sum_map_add, List.sum_map_mul_right, sum_mul_sub_centre hmass,
    zero_mul, zero_add]
  rfl

theorem comoment_self (l : List ι) (w f : ι → K) :
    comoment l w f f = inertia l w f (centre l w f) := by
  simp only [comoment, inertia, mul_assoc, sq]

theorem centre_sub_mul (l : List ι) (w f g : ι → K) (b : K) :
    centre l w (fun i => g i - b * f i) = centre l w g - b * centre l w f := by
  have hsum (i : ι) : w i * (g i - b * f i) = w i * g i - w i * f i * b := by ring
  simp only [centre, hsum, sum_map_sub, List.sum_map_mul_right]
  ring

/-- What is left of one reading when a multiple of another one is taken away. -/
theorem inertia_sub_mul (l : List ι) (w f g : ι → K) (b : K) :
    inertia l w (fun i => g i - b * f i) (centre l w fun i => g i - b * f i) =
      comoment l w g g - 2 * b * comoment l w f g + b ^ 2 * comoment l w f f := by
  have hsquare (i : ι) : w i * (g i - b * f i - (centre l w g - b * centre l w f)) ^ 2 =
      w i * (g i - centre l w g) * (g i - centre l w g) -
        w i * (f i - centre l w f) * (g i - centre l w g) * (2 * b) +
          w i * (f i - centre l w f) * (f i - centre l w f) * b ^ 2 := by
    ring
  simp only [inertia, comoment, centre_sub_mul, hsquare, List.sum_map_add, sum_map_sub,
    List.sum_map_mul_right]
  ring

/-! ## Positive weights -/

section Positive

variable [LinearOrder K] [IsStrictOrderedRing K] (hw : ∀ i ∈ l, 0 < w i)

include hw

theorem mass_pos (hl : l ≠ []) : 0 < mass l w :=
  List.sum_pos _ (by simpa using hw) (by simpa using hl)

theorem squares_nonneg (c : K) : ∀ x ∈ l.map fun i => w i * (f i - c) ^ 2, 0 ≤ x := by
  intro x hx
  obtain ⟨i, hi, rfl⟩ := List.mem_map.1 hx
  exact mul_nonneg (hw i hi).le (sq_nonneg _)

theorem inertia_nonneg (c : K) : 0 ≤ inertia l w f c := List.sum_nonneg (squares_nonneg hw c)

/-- There are no squares around a place only where everything is at the place. -/
theorem inertia_eq_zero_iff (c : K) : inertia l w f c = 0 ↔ ∀ i ∈ l, f i = c := by
  constructor
  · intro hzero i hi
    have hterm : w i * (f i - c) ^ 2 = 0 :=
      List.all_zero_of_le_zero_le_of_sum_eq_zero (squares_nonneg hw c) hzero (List.mem_map_of_mem hi)
    exact sub_eq_zero.1 (pow_eq_zero_iff two_ne_zero |>.1 ((mul_eq_zero.1 hterm).resolve_left
      (hw i hi).ne'))
  · intro heq
    refine List.sum_eq_zero fun x hx => ?_
    obtain ⟨i, hi, rfl⟩ := List.mem_map.1 hx
    rw [heq i hi, sub_self, zero_pow two_ne_zero, mul_zero]

end Positive

end FieldFlow
