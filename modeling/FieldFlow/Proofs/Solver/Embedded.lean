import FieldFlow.Proofs.Solver.Linear
import FieldFlow.Solver.Method
import Mathlib.Algebra.Polynomial.Eval.Coeff

/-!
# Proofs/Solver/Embedded — the orders of the pairs on linear systems

On a linear system every slope of an attempt is the matrix times a polynomial in the matrix, applied
to the state, and the coefficients of that polynomial are fractions that the tableau alone decides
(`staged_series`). Hence so are the candidate and the error vector, and the orders of a pair are
conditions on finitely many fractions (`Tableau.MeetsOrders`), which all three pairs meet
(`meetsOrders`). For a state and a matrix they say which powers of the step size the candidate has
right, and which ones the error does not have (`attempt_linear`).
-/

namespace FieldFlow

open ExactOver
open scoped Matrix Polynomial
open Polynomial (coeff_monomial eval_finsetSum eval_monomial finsetSum_coeff monomial)
open Matrix (mulVec_add mulVec_smul smul_mulVec mulVec_mulVec mulVec_zero one_mulVec)

/-! ## Polynomials by their coefficients -/

/-- A polynomial by its coefficients, the constant one first. -/
abbrev Series := List Rat

namespace Series

def add : Series → Series → Series
  | [], q => q
  | p, [] => p
  | a :: p, b :: q => (a + b) :: add p q

def scale (w : Rat) (p : Series) : Series := p.map (w * ·)

/-- A weighted sum, over as many as both lists have. -/
def combine : List Rat → List Series → Series
  | w :: weights, p :: ps => (p.scale w).add (combine weights ps)
  | _, _ => []

variable {K : Type} {n : Nat} [Field K] (A B : Matrix (Fin n) (Fin n) K) (y : Fin n → K)

/-- **The polynomial at a matrix**, applied to a state. -/
def applied : Series → Fin n → K
  | [] => 0
  | a :: p => (a : K) • y + B *ᵥ applied p

theorem applied_cons (a : Rat) (p : Series) :
    applied B y (a :: p) = (a : K) • y + B *ᵥ applied B y p := rfl

theorem applied_eq_sum (p : Series) :
    p.applied B y = ∑ k ∈ Finset.range p.length, (p.getD k 0 : K) • (B ^ k *ᵥ y) := by
  induction p with
  | nil => rfl
  | cons a p ih =>
    rw [applied_cons, ih, List.length_cons, Finset.sum_range_succ', Matrix.mulVec_sum, add_comm,
      List.getD_cons_zero, pow_zero, one_mulVec]
    simp only [List.getD_cons_succ, mulVec_smul, mulVec_mulVec, pow_succ']

/-- The component at a place, as a polynomial in what the matrix is multiplied by. -/
noncomputable def inStep (p : Series) (i : Fin n) : K[X] :=
  ∑ k ∈ Finset.range p.length, monomial k ((p.getD k 0 : K) * (A ^ k *ᵥ y) i)

theorem eval_inStep (h : K) (p : Series) (i : Fin n) :
    (p.inStep A y i).eval h = p.applied (h • A) y i := by
  rw [inStep, eval_finsetSum, applied_eq_sum, Finset.sum_apply]
  refine Finset.sum_congr rfl fun k _ => ?_
  rw [eval_monomial, smul_pow, smul_mulVec, Pi.smul_apply, Pi.smul_apply, smul_eq_mul, smul_eq_mul]
  ring

theorem coeff_inStep (p : Series) (i : Fin n) (k : Nat) :
    (p.inStep A y i).coeff k = (p.getD k 0 : K) * (A ^ k *ᵥ y) i := by
  rw [inStep, finsetSum_coeff]
  simp only [coeff_monomial, Finset.sum_ite_eq', Finset.mem_range]
  split_ifs with hk
  · rfl
  · rw [List.getD_eq_getElem?_getD, List.getElem?_eq_none (not_lt.1 hk), Option.getD_none,
      Rat.cast_zero, zero_mul]

variable [CharZero K]

theorem applied_add (p q : Series) : (p.add q).applied B y = p.applied B y + q.applied B y := by
  fun_induction add p q with
  | case1 q => rw [applied, zero_add]
  | case2 p => rw [applied, add_zero]
  | case3 a p b q ih =>
    rw [applied_cons, applied_cons, applied_cons, ih, Rat.cast_add, add_smul, mulVec_add,
      add_add_add_comm]

theorem applied_scale (w : Rat) (p : Series) :
    (p.scale w).applied B y = (w : K) • p.applied B y := by
  induction p with
  | nil => exact (smul_zero _).symm
  | cons a p ih =>
    rw [scale, List.map_cons, applied_cons, ← scale, ih, applied_cons, Rat.cast_mul, mulVec_smul,
      smul_add, mul_smul]

/-- A weighted sum of polynomials at a matrix is their sum, at the matrix. -/
theorem combination_applied (weights : List Rat) (ps : List Series) :
    Adaptive.combination weights (ps.map (applied B y)) = (combine weights ps).applied B y := by
  fun_induction combine weights ps with
  | case1 w weights p ps ih =>
    rw [List.map_cons, Adaptive.combination_cons, ih, applied_add, applied_scale]
  | case2 weights ps hnone =>
    cases weights with
    | nil => rfl
    | cons w weights =>
      cases ps with
      | nil => rfl
      | cons p ps => exact absurd rfl (hnone w weights p ps rfl)

end Series

namespace Adaptive

open Series

/-! ## Stages -/

/-- Slopes that are a matrix times something. -/
theorem combination_mulVec {K : Type} {n : Nat} [Field K] (A : Matrix (Fin n) (Fin n) K)
    (weights : List Rat) (slopes : List (Fin n → K)) :
    combination weights (slopes.map (A *ᵥ ·)) = A *ᵥ combination weights slopes := by
  induction weights generalizing slopes with
  | nil => exact (mulVec_zero A).symm
  | cons w weights ih =>
    cases slopes with
    | nil => exact (mulVec_zero A).symm
    | cons s slopes =>
      rw [List.map_cons, combination_cons, combination_cons, ih, mulVec_add, mulVec_smul]

/-- What the slopes of the stages apply to the state before the matrix: each stage starts from one
and adds the increments of the slopes before it. -/
def stageSeries : List (Rat × List Rat) → List Series → List Series
  | [], ps => ps
  | (_, row) :: rest, ps => stageSeries rest (ps ++ [1 :: combine row ps])

end Adaptive

namespace Tableau

/-- The series of the stages of a pair. -/
def stagesApplied (t : Tableau) : List Series := Adaptive.stageSeries (t.nodes.zip t.rows) []

/-- What an attempt applies to the state. -/
def propagation (t : Tableau) : Series := 1 :: Series.combine t.weights t.stagesApplied

/-- What the error vector applies to it. -/
def defect (t : Tableau) : Series := 0 :: Series.combine t.errors t.stagesApplied

/-- **The orders of a pair**: the solution that is carried on has the exponential series up to the
higher one, and the two solutions agree up to the lower. -/
def MeetsOrders (t : Tableau) : Prop :=
  (∀ k ≤ t.errorOrder + 1, t.propagation.getD k 0 = (k.factorial : Rat)⁻¹) ∧
    ∀ k ≤ t.errorOrder, t.defect.getD k 0 = 0

instance (t : Tableau) : Decidable t.MeetsOrders := inferInstanceAs (Decidable (_ ∧ _))

/-- **All pairs meet their orders.** -/
theorem meetsOrders {m : Method} {t : Tableau} (hm : m.tableau? = some t) : t.MeetsOrders := by
  cases m with
  | rk4 => exact nomatch hm
  | rk23 => obtain rfl := Option.some.inj hm; decide +kernel
  | rk45 => obtain rfl := Option.some.inj hm; decide +kernel
  | rk78 => obtain rfl := Option.some.inj hm; decide +kernel

end Tableau

namespace Adaptive

open Series

variable {ε α K : Type} {n : Nat} [Scalar α] [Field K] [LinearOrder K] [IsStrictOrderedRing K]
  [ExactOver K α] {f : Rate ε α n} {A : Matrix (Fin n) (Fin n) K} {y : Fin n → K} {t h : K}

/-- The slope that goes with a series. -/
def slopeOf (A : Matrix (Fin n) (Fin n) K) (h : K) (y : Fin n → K) (p : Series) : Fin n → K :=
  A *ᵥ p.applied (h • A) y

/-- **The way along slopes** of given series has a series itself. -/
theorem smul_combination (weights : List Rat) (ps : List Series) :
    h • combination weights (ps.map (slopeOf A h y)) =
      applied (h • A) y (0 :: combine weights ps) := by
  have hslopes : ps.map (slopeOf A h y) = (ps.map (applied (h • A) y)).map (A *ᵥ ·) := by
    rw [List.map_map]
    rfl
  rw [hslopes, combination_mulVec, combination_applied, applied_cons, Rat.cast_zero, zero_smul,
    zero_add, smul_mulVec]

/-- So has where it leads. -/
theorem add_smul_combination (weights : List Rat) (ps : List Series) :
    y + h • combination weights (ps.map (slopeOf A h y)) =
      applied (h • A) y (1 :: combine weights ps) := by
  rw [smul_combination, applied_cons, applied_cons, Rat.cast_zero, zero_smul, zero_add,
    Rat.cast_one, one_smul]

/-- **The slopes of a linear system** are those of the series of the stages. -/
theorem staged_series (hf : Computes f fun _ x => A *ᵥ x) (stages : List (Rat × List Rat))
    (ps : List Series) :
    Staged f t h y stages (ps.map (slopeOf A h y)) ((stageSeries stages ps).map (slopeOf A h y)) := by
  induction stages generalizing ps with
  | nil => exact .nil _
  | cons stage rest ih =>
    obtain ⟨c, row⟩ := stage
    have hslope := hf (t + c * h) (y + h • combination row (ps.map (slopeOf A h y)))
    rw [add_smul_combination] at hslope
    refine .cons (by rwa [add_smul_combination]) ?_
    have hrest := ih (ps ++ [1 :: combine row ps])
    rwa [List.map_append] at hrest

/-- **An attempt on a linear system**, by the series of its tableau. -/
theorem attempt_series (tableau : Tableau) (hf : Computes f fun _ x => A *ᵥ x)
    (control : StepControl α) (t h : K) : ∃ ks : List (Vector α n),
      slopes f (of t) (numbers y) (of h)
        ((tableau.inScalars : Coefficients α).nodes.zip tableau.inScalars.rows) [] = .ok ks ∧
      (Vector.ofFn fun i => of h * weighted (tableau.inScalars : Coefficients α).errors ks i) =
        numbers (tableau.defect.applied (h • A) y) ∧
      attempt tableau.inScalars control f (of t) (numbers y) (of h) =
        .ok ⟨numbers (tableau.propagation.applied (h • A) y),
          if n = 0 then Scalar.zero
          else scaledError control (numbers y) (numbers (tableau.propagation.applied (h • A) y))
            (numbers (tableau.defect.applied (h • A) y))⟩ := by
  let all := tableau.stagesApplied.map (slopeOf A h y)
  have hstaged : Staged f t h y (tableau.nodes.zip tableau.rows) [] all := staged_series hf _ []
  have hslopes := slopes_of_staged hstaged
  rw [← stages_inScalars, List.map_nil] at hslopes
  have hcandidate : (Vector.ofFn fun i => (numbers y : Vector α n).get i + of h *
      weighted (tableau.inScalars : Coefficients α).weights (all.map numbers) i) =
        numbers (tableau.propagation.applied (h • A) y) := by
    refine (moved_numbers y h tableau.weights all).trans ?_
    rw [add_smul_combination]
    rfl
  have hdelta : (Vector.ofFn fun i => of h *
      weighted (tableau.inScalars : Coefficients α).errors (all.map numbers) i) =
        numbers (tableau.defect.applied (h • A) y) := by
    refine (increment_numbers h tableau.errors all).trans ?_
    rw [smul_combination]
    rfl
  refine ⟨_, hslopes, hdelta, ?_⟩
  rw [attempt_of_slopes hslopes]
  dsimp only
  rw [hcandidate, hdelta, all_isFinite_numbers]
  rfl

/-- **The orders of the pairs.** On a linear system the candidate of an attempt and the vector that
its error is formed from are polynomials in the step size. Up to one more than the lower order the
candidate has the coefficients of the exponential series, and up to the lower order the other one
has none. -/
theorem attempt_linear {m : Method} {tableau : Tableau} (hm : m.tableau? = some tableau)
    (hf : Computes f fun _ x => A *ᵥ x) (y : Fin n → K) :
    ∃ candidate delta : Fin n → K[X],
      (∀ (control : StepControl α) (t h : K), ∃ ks : List (Vector α n),
        slopes f (of t) (numbers y) (of h)
          ((tableau.inScalars : Coefficients α).nodes.zip tableau.inScalars.rows) [] = .ok ks ∧
        (Vector.ofFn fun i => of h * weighted (tableau.inScalars : Coefficients α).errors ks i) =
          numbers (fun i => (delta i).eval h) ∧
        attempt tableau.inScalars control f (of t) (numbers y) (of h) =
          .ok ⟨numbers fun i => (candidate i).eval h,
            if n = 0 then Scalar.zero
            else scaledError control (numbers y) (numbers fun i => (candidate i).eval h)
              (numbers fun i => (delta i).eval h)⟩) ∧
      (∀ k ≤ tableau.errorOrder + 1, ∀ i,
        (candidate i).coeff k = ((k.factorial : K)⁻¹ • (A ^ k *ᵥ y)) i) ∧
      ∀ k ≤ tableau.errorOrder, ∀ i, (delta i).coeff k = 0 := by
  obtain ⟨hcandidate, hdelta⟩ := Tableau.meetsOrders hm
  refine ⟨tableau.propagation.inStep A y, tableau.defect.inStep A y, ?_, ?_, ?_⟩
  · intro control t h
    simp only [eval_inStep]
    exact attempt_series tableau hf control t h
  · intro k hk i
    rw [coeff_inStep, hcandidate k hk, Pi.smul_apply, smul_eq_mul, Rat.cast_inv, Rat.cast_natCast]
  · intro k hk i
    rw [coeff_inStep, hdelta k hk, Rat.cast_zero, zero_mul]

/-- The pair of thirteen stages on turns from one place. -/
theorem turn_orders : Method.rk78.tableau? = some .fehlberg ∧
    ∃ candidate delta : Fin 2 → Rat[X],
      (∀ (control : StepControl Rough) (t h : Rat), ∃ ks : List (Vector Rough 2),
        slopes RungeKutta.turn (of t) (numbers ![(1 : Rat), 0]) (of h)
          ((Tableau.fehlberg.inScalars : Coefficients Rough).nodes.zip
            Tableau.fehlberg.inScalars.rows) [] = .ok ks ∧
        (Vector.ofFn fun i =>
          of h * weighted (Tableau.fehlberg.inScalars : Coefficients Rough).errors ks i) =
            numbers (fun i => (delta i).eval h) ∧
        attempt Tableau.fehlberg.inScalars control RungeKutta.turn (of t)
          (numbers ![(1 : Rat), 0]) (of h) =
            .ok ⟨numbers fun i => (candidate i).eval h,
              scaledError control (numbers ![(1 : Rat), 0])
                (numbers fun i => (candidate i).eval h) (numbers fun i => (delta i).eval h)⟩) ∧
      (∀ k ≤ 8, ∀ i, (candidate i).coeff k =
        ((k.factorial : Rat)⁻¹ • (!![0, 1; -1, 0] ^ k *ᵥ ![(1 : Rat), 0])) i) ∧
      ∀ k ≤ 7, ∀ i, (delta i).coeff k = 0 :=
  ⟨rfl, attempt_linear (m := .rk78) rfl RungeKutta.turn_computes _⟩

end Adaptive

end FieldFlow
