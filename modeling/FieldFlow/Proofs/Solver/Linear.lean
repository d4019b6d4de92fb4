import FieldFlow.Proofs.Solver.InPlace
import FieldFlow.Proofs.Solver.Numbers
import Mathlib.Data.Nat.Factorial.Basic
import Mathlib.Data.Matrix.Mul
import Mathlib.LinearAlgebra.Matrix.Notation

/-!
# Proofs/Solver/Linear — the fourth-order step on linear systems

On a linear system each of the four slopes is a polynomial in the matrix, applied to the state.
Their weighted sum is the exponential series up to the fourth power (`increment_eq`), so the step
applies that polynomial to the state, and steps one after another apply its powers (`steps_linear`),
in buffers that hold anything at all.
-/

namespace FieldFlow

open ExactOver
open scoped Matrix
open Matrix (add_mulVec smul_mulVec mulVec_add mulVec_smul mulVec_mulVec one_mulVec sum_mulVec)

variable {ε α K : Type} {n : Nat} [Scalar α] [Field K] [LinearOrder K] [IsStrictOrderedRing K]
  [ExactOver K α]

/-- **The exponential series** of a matrix, up to the fourth power. -/
def fourthOrder (B : Matrix (Fin n) (Fin n) K) : Matrix (Fin n) (Fin n) K :=
  ∑ j ∈ Finset.range 5, (j.factorial : K)⁻¹ • B ^ j

namespace RungeKutta

/-- The four slopes of a linear system come to the series. -/
theorem increment_eq (A : Matrix (Fin n) (Fin n) K) (dt : K) (y : Fin n → K) :
    let k₁ := A *ᵥ y
    let k₂ := A *ᵥ (y + (dt / 2) • k₁)
    let k₃ := A *ᵥ (y + (dt / 2) • k₂)
    let k₄ := A *ᵥ (y + dt • k₃)
    y + (dt / 6) • (k₁ + (2 : K) • k₂ + (2 : K) • k₃ + k₄) = fourthOrder (dt • A) *ᵥ y := by
  intro k₁ k₂ k₃ k₄
  simp only [k₁, k₂, k₃, k₄, fourthOrder, Finset.sum_range_succ, Finset.sum_range_zero, zero_add,
    add_mulVec, smul_mulVec, smul_pow, pow_succ, pow_zero, one_mul, mulVec_add, mulVec_smul,
    ← mulVec_mulVec, one_mulVec, Nat.factorial_succ, Nat.factorial_zero]
  push_cast
  module

variable {f : Rate ε α n} {A : Matrix (Fin n) (Fin n) K} {c : Cursor α n} {start : K}
  {y : Fin n → K}

/-- **A step of a linear system** applies the series. -/
theorem step_of_computes (hf : Computes f fun _ x => A *ᵥ x) (hstart : c.time = of start)
    (hstate : c.state = numbers y) (dt : K) : step f (of dt) c =
      ({ c with time := of (start + dt), state := numbers (fourthOrder (dt • A) *ᵥ y) }, .ok ()) := by
  refine step_eq_ok_iff.2 ⟨_, ?_, by rw [hstart, add]⟩
  rw [hstart, hstate, ← increment_eq]
  exact (advance_numbers_iff hf.overNumbers).2
    ⟨_, _, _, _, hf _ _, hf _ _, hf _ _, hf _ _, rfl⟩

/-- **Steps of a linear system in place.** Whatever the buffers hold, one step moves the state to
the sum of the first five terms of the exponential series, as a step does, and any number of them
apply the power of that polynomial. -/
theorem steps_linear (hf : Computes f fun _ x => A *ᵥ x) (hstart : c.time = of start)
    (hstate : c.state = numbers y) (dt : K) (w : Workspace α n) :
    (stepInPlace f (of dt) w c).2 = step f (of dt) c ∧
    step f (of dt) c = ({ c with
      time := of (start + dt)
      state := numbers (∑ j ∈ Finset.range 5, (j.factorial : K)⁻¹ • ((dt • A) ^ j *ᵥ y)) }, .ok ()) ∧
    ∀ k : Nat, (stepsInPlace f (of dt) k w c).2 = ({ c with
      time := of (start + k * dt)
      state := numbers (fourthOrder (dt • A) ^ k *ᵥ y) }, .ok ()) := by
  refine ⟨stepInPlace_eq_step f (of dt) w c, ?_, fun k => ?_⟩
  · rw [step_of_computes hf hstart hstate, fourthOrder, sum_mulVec]
    simp only [smul_mulVec]
  · induction k generalizing w c start y with
    | zero =>
      rw [stepsInPlace, pow_zero, one_mulVec, Nat.cast_zero, zero_mul, add_zero, ← hstart, ← hstate]
    | succ k ih =>
      have hfirst := stepInPlace_eq_step f (of dt) w c
      rw [step_of_computes hf hstart hstate] at hfirst
      rcases hplace : stepInPlace f (of dt) w c with ⟨w', next, result⟩
      rw [hplace] at hfirst
      obtain ⟨rfl, rfl⟩ := Prod.mk.inj hfirst
      rw [stepsInPlace, hplace]
      dsimp only
      rw [ih rfl rfl w', mulVec_mulVec, ← pow_succ, Nat.cast_succ]
      congr 3
      ring

/-! ## A quarter turn -/

/-- The plane turning to the right. -/
def turn : Rate Empty Rough 2 := fun _ y => .ok #v[y.get 1, -y.get 0]

theorem turn_computes : Computes turn fun (_ : Rat) x => !![0, 1; -1, 0] *ᵥ x := by
  intro t x
  have hturned : !![0, 1; -1, 0] *ᵥ x = ![x 1, -x 0] := by
    simp [Matrix.vecHead, Matrix.vecTail]
  dsimp only
  rw [hturned]
  rfl

/-- Buffers that hold nothing that is a number. -/
def blank : Workspace Rough 2 :=
  let undefined := Vector.replicate 2 Scalar.nan
  ⟨undefined, undefined, undefined, undefined, undefined⟩

/-- Turns from one place, with buffers that hold nothing of use. -/
theorem turn_linear :
    let c : Cursor Rough 2 := ⟨.of 0, numbers ![(1 : Rat), 0], none, 0, 0⟩
    (stepInPlace turn (.of 1) blank c).2 = step turn (.of 1) c ∧
    step turn (.of 1) c = ({ c with
      time := .of (0 + 1)
      state := numbers (∑ j ∈ Finset.range 5, (j.factorial : Rat)⁻¹ •
        (((1 : Rat) • !![0, 1; -1, 0]) ^ j *ᵥ ![(1 : Rat), 0])) }, .ok ()) ∧
    ∀ k : Nat, (stepsInPlace turn (.of 1) k blank c).2 = ({ c with
      time := .of (0 + k * 1)
      state := numbers (fourthOrder ((1 : Rat) • !![0, 1; -1, 0]) ^ k *ᵥ ![(1 : Rat), 0]) },
        .ok ()) :=
  steps_linear turn_computes rfl rfl 1 blank

end RungeKutta

end FieldFlow
