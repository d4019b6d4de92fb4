import FieldFlow.Proofs.Solver.Numbers
import Mathlib.LinearAlgebra.Matrix.Notation

/-!
# Proofs/Solver/Balance — steps keep accounts

Where the slopes of a system, each with its weight, always come to one rate, the state with those
weights grows at that rate. It does so in a fixed step because the weights of its four slopes make
one, and in an internal step because those of a consistent pair do (`weighs_attempt`); and since the
sizes that are accepted add up to the length of the step, the account grows by exactly the rate
times the length (`Method.step_balanced`), however many internal steps there are and however many
were rejected between them.
-/

namespace FieldFlow

open ExactOver

variable {ε α K : Type} {n : Nat} [Scalar α] [Field K] [LinearOrder K] [IsStrictOrderedRing K]
  [ExactOver K α]

/-- **A system with an account**: over numbers, with slopes that weigh the same everywhere. -/
structure Balanced (f : Rate ε α n) (w : Fin n → K) (rate : K) : Prop where
  overNumbers : OverNumbers K f
  weighs : ∀ (t : K) (x slope : Fin n → K), f (of t) (numbers x) = .ok (numbers slope) →
    w ⬝ᵥ slope = rate

/-- **What a state weighs**: it is one of numbers, which come to a total with these weights. -/
def Weighs (w : Fin n → K) (total : K) (y : Vector α n) : Prop :=
  ∃ x : Fin n → K, y = numbers x ∧ w ⬝ᵥ x = total

variable {f : Rate ε α n} {w : Fin n → K} {rate total t h dt start : K} {y z : Vector α n}

/-! ## Fixed steps -/

theorem RungeKutta.weighs_advance (hf : Balanced f w rate) (hy : Weighs w total y)
    (hadvance : advance f (of t) y (of dt) = .ok z) : Weighs w (total + rate * dt) z := by
  obtain ⟨x, rfl, hx⟩ := hy
  obtain ⟨k₁, k₂, k₃, k₄, h₁, h₂, h₃, h₄, rfl⟩ := (advance_numbers_iff hf.overNumbers).1 hadvance
  refine ⟨_, rfl, ?_⟩
  rw [dotProduct_add, dotProduct_smul, dotProduct_add, dotProduct_add, dotProduct_add,
    dotProduct_smul, dotProduct_smul, hx, hf.weighs _ _ _ h₁, hf.weighs _ _ _ h₂,
    hf.weighs _ _ _ h₃, hf.weighs _ _ _ h₄]
  simp only [smul_eq_mul]
  ring

/-! ## Internal steps -/

namespace Adaptive

/-- Slopes that weigh the same, weighted once more. -/
theorem dotProduct_combination {weights : List Rat} {slopes : List (Fin n → K)}
    (hlength : weights.length = slopes.length) (hslopes : ∀ s ∈ slopes, w ⬝ᵥ s = rate) :
    w ⬝ᵥ combination weights slopes = (weights.sum : Rat) * rate := by
  induction weights generalizing slopes with
  | nil => simp [combination]
  | cons q weights ih =>
    obtain ⟨s, slopes, rfl⟩ := List.exists_cons_of_length_eq_add_one hlength.symm
    rw [List.forall_mem_cons] at hslopes
    rw [combination_cons, dotProduct_add, dotProduct_smul, hslopes.1,
      ih (Nat.succ.inj hlength) hslopes.2, List.sum_cons, Rat.cast_add, smul_eq_mul, add_mul]

variable {tableau : Tableau} {control : StepControl α} {goal : Goal α} {c next : Cursor α n}

/-- **An attempt of a consistent pair** adds the rate times its size to the account. -/
theorem weighs_attempt (htableau : tableau.Consistent) (hf : Balanced f w rate)
    (hy : Weighs w total y) {tried : Attempt α n}
    (htried : attempt tableau.inScalars control f (of t) y (of h) = .ok tried) :
    Weighs w (total + rate * h) tried.candidate := by
  obtain ⟨x, rfl, hx⟩ := hy
  obtain ⟨all, hstaged, hcandidate⟩ := of_attempt_numbers hf.overNumbers htried
  obtain ⟨hlength, hall⟩ := hstaged.forall (P := fun s => w ⬝ᵥ s = rate)
    (fun _ hslope => hf.weighs _ _ _ hslope) (fun s hs => absurd hs List.not_mem_nil)
  have hstages : tableau.weights.length = all.length := by
    rw [hlength, htableau.1, List.length_nil, Nat.zero_add, List.length_zip]
  refine ⟨_, hcandidate, ?_⟩
  rw [dotProduct_add, dotProduct_smul, hx, dotProduct_combination hstages hall, htableau.2,
    Rat.cast_one, one_mul, smul_eq_mul, mul_comm]

/-- **Progress in balance**: what has passed since the step began is no more than its length, and
the account has grown at the rate since. -/
def InBalance (w : Fin n → K) (rate start dt total : K) (p : Progress α n) : Prop :=
  ∃ passed ≤ dt, p.now = of (start + passed) ∧ Weighs w (total + rate * passed) p.state

/-- An internal step that is accepted leaves progress in balance. -/
theorem InBalance.accepted (htableau : tableau.Consistent) (hf : Balanced f w rate)
    (hstop : goal.stop = of (start + dt)) {p next : Progress α n}
    (htries : Tries tableau control f goal p (.accepted next))
    (hp : InBalance w rate start dt total p) : InBalance w rate start dt total next := by
  obtain ⟨passed, -, hnow, hweighs⟩ := hp
  obtain ⟨size, tried, hadvances⟩ := htries.advances hstop hnow
  have hmade := hadvances.made.2
  rw [hadvances.clamped, hnow] at hmade
  refine ⟨passed + size, hadvances.le, hadvances.now, ?_⟩
  rw [hadvances.state, mul_add, ← add_assoc]
  exact weighs_attempt htableau hf hweighs hmade

/-- **A step of a consistent pair** that is not backward adds the rate times its length. -/
theorem weighs_step (htableau : tableau.Consistent) (hf : Balanced f w rate) (hdt : 0 ≤ dt)
    (hstart : c.time = of start) (hstate : Weighs w total c.state)
    (hstep : step tableau control f (of dt) c = (next, .ok ())) :
    Weighs w (total + rate * dt) next.state := by
  obtain ⟨q, hadvance, -, hq⟩ := of_step hstep
  have houtset : InBalance w rate start dt total (outset (of dt) c) := by
    refine ⟨0, hdt, ?_, ?_⟩
    · rw [outset, hstart, add_zero]
    · rwa [mul_zero, add_zero]
  have hbalance : InBalance w rate start dt total (advance tableau control f
      (goalOf control c.time (of dt)) (attemptBound control (of dt)) (outset (of dt) c)).1 :=
    advance_induct (fun _ htries hp => hp.accepted htableau hf (stop_eq hstart) htries)
      (fun _ _ hp => hp) houtset
  rw [hadvance] at hbalance
  obtain ⟨passed, hle, hnow, hweighs⟩ := hbalance
  have hdone := not_lt_of_advance hadvance
  rw [hnow, stop_eq hstart, lt, decide_eq_false_iff_not, not_lt, add_le_add_iff_left] at hdone
  obtain rfl : passed = dt := le_antisymm hle hdone
  rwa [hq]

end Adaptive

/-! ## Steps of any method -/

/-- **Accounts survive a step of any method**: where the slopes of a system weigh the same
everywhere, the state weighs more after a step by exactly that rate times its length. A step of an
adaptive method is not to go backward. -/
theorem Method.step_balanced {m : Method} {control : StepControl α} {c next : Cursor α n}
    {x : Fin n → K} (hf : Balanced f w rate) (hdt : m = .rk4 ∨ 0 ≤ dt) (hstart : c.time = of start)
    (hstate : c.state = numbers x) (hstep : m.step control f (of dt) c = (next, .ok ())) :
    ∃ z : Fin n → K, next.state = numbers z ∧ w ⬝ᵥ z = w ⬝ᵥ x + rate * dt := by
  have hweighs : Weighs w (w ⬝ᵥ x) c.state := ⟨x, hstate, rfl⟩
  unfold Method.step at hstep
  split at hstep
  · obtain ⟨state, hadvance, rfl⟩ := RungeKutta.step_eq_ok_iff.1 hstep
    rw [hstart] at hadvance
    exact RungeKutta.weighs_advance hf hweighs hadvance
  · rename_i tableau htableau
    have hforward : 0 ≤ dt := hdt.resolve_left fun hfixed => by
      rw [hfixed] at htableau
      exact nomatch htableau
    exact Adaptive.weighs_step (Method.consistent htableau) hf hforward hstart hweighs hstep

/-! ## Two goods that are traded -/

/-- Two goods: the first is made at rate one, and they meet to turn it into the second. -/
def trade : Rate Empty Rough 2 := fun _ y => .ok #v[.of 1 - y[0] * y[1], y[0] * y[1]]

theorem trade_computes :
    Computes trade fun (_ : Rat) x => ![1 - x 0 * x 1, x 0 * x 1] := fun _ _ => rfl

/-- There is one more of the goods in every unit of time, whichever they are. -/
theorem trade_balanced : Balanced trade ![1, 1] (1 : Rat) where
  overNumbers := trade_computes.overNumbers
  weighs t x slope h := by
    obtain rfl := numbers_injective (trade_computes.slope_eq h)
    rw [Matrix.vec2_dotProduct]
    norm_num

def trade.tolerances : StepControl Rough := ⟨.of 1, .of 1, .of (1 / 100), 3⟩

/-- One of the first and two of the second. -/
def trade.outset : Cursor Rough 2 := ⟨.of 0, numbers ![(1 : Rat), 2], none, 0, 0⟩

/-- A step of two sizes, with one that is rejected between them: there are two more of the goods. -/
theorem trade_grows : ∃ next, Method.step .rk23 trade.tolerances trade (.of 2) trade.outset =
    (next, .ok ()) ∧ (next.accepted, next.rejected) = (2, 1) ∧
    ∃ z : Fin 2 → Rat, next.state = numbers z ∧ ![1, 1] ⬝ᵥ z = ![1, 1] ⬝ᵥ ![1, 2] + 1 * 2 := by
  have hsucceeds : (Method.step .rk23 trade.tolerances trade (.of 2) trade.outset).2 = .ok () ∧
      ((Method.step .rk23 trade.tolerances trade (.of 2) trade.outset).1.accepted,
        (Method.step .rk23 trade.tolerances trade (.of 2) trade.outset).1.rejected) = (2, 1) := by
    decide +kernel
  refine ⟨_, Prod.ext rfl hsucceeds.1, hsucceeds.2, ?_⟩
  have hstart : trade.outset.time = ExactOver.of (0 : Rat) := rfl
  exact Method.step_balanced trade_balanced (.inr zero_le_two) hstart rfl
    (Prod.ext rfl hsucceeds.1)

/-- One good that is made at rate one. -/
def rise : Rate Empty Rough 1 := fun _ _ => .ok #v[.of 1]

theorem rise_computes : Computes rise fun (_ : Rat) _ => ![1] := fun _ _ => rfl

theorem rise_balanced : Balanced rise ![1] (1 : Rat) where
  overNumbers := rise_computes.overNumbers
  weighs t x slope h := by
    obtain rfl := numbers_injective (rise_computes.slope_eq h)
    norm_num

/-- A backward step of an adaptive method moves time and leaves the goods as they are. -/
theorem rise_stands_still : ∃ next, Method.step .rk45 trade.tolerances rise (.of (-1))
    ⟨.of 0, numbers ![(0 : Rat)], none, 0, 0⟩ = (next, .ok ()) ∧ Balanced rise ![1] (1 : Rat) ∧
    next.time = .of (-1) ∧ next.state = numbers ![(0 : Rat)] ∧
    ¬ ∃ z : Fin 1 → Rat, next.state = numbers z ∧ ![1] ⬝ᵥ z = ![1] ⬝ᵥ ![0] + 1 * (-1 : Rat) := by
  have hstands : Method.step .rk45 trade.tolerances rise (.of (-1))
      ⟨.of 0, numbers ![(0 : Rat)], none, 0, 0⟩ =
        (⟨.of (-1), numbers ![(0 : Rat)], none, 0, 0⟩, .ok ()) := by
    decide +kernel
  refine ⟨_, hstands, rise_balanced, rfl, rfl, ?_⟩
  rintro ⟨z, hz, hweighs⟩
  obtain rfl := numbers_injective hz
  norm_num at hweighs

end FieldFlow
