import FieldFlow.Proofs.Scalar.Ordered
import FieldFlow.Proofs.Solver.Clock
import FieldFlow.Proofs.Solver.Finite
import Mathlib.Algebra.BigOperators.Group.List.Basic
import Mathlib.Algebra.Module.Pi
import Mathlib.Tactic.Module

/-!
# Proofs/Solver/Numbers — steps on states of numbers

In exact arithmetic a step on a state of numbers is a computation with vectors over the field. An
attempt adds a weighted sum of its slopes to the state (`of_attempt_numbers`), and so does the
fourth-order increment, whose weights are one, two, two and one sixth (`advance_numbers_iff`). The
slopes are what the system gives at points made the same way from slopes before.
-/

namespace FieldFlow

open ExactOver

variable {ε α K : Type} {n : Nat} [Scalar α] [Field K] [LinearOrder K] [IsStrictOrderedRing K]
  [ExactOver K α]

/-- **A state of numbers.** -/
def numbers (x : Fin n → K) : Vector α n := Vector.ofFn fun i => of (x i)

@[simp] theorem get_numbers (x : Fin n → K) (i : Fin n) :
    (numbers x : Vector α n).get i = of (x i) :=
  get_vectorOfFn _ i

@[simp] theorem getElem_numbers (x : Fin n → K) (i : Nat) (hi : i < n) :
    (numbers x : Vector α n)[i] = of (x ⟨i, hi⟩) := Vector.getElem_ofFn hi

/-- What is finite everywhere is a state of numbers. -/
theorem exists_numbers {y : Vector α n} (h : AllFinite y.toArray) :
    ∃ x : Fin n → K, y = numbers x := by
  choose x hx using fun i : Fin n => exists_of (K := K) y[i] (h.getElem i.isLt)
  refine ⟨x, ?_⟩
  ext i hi
  rw [getElem_numbers]
  exact hx ⟨i, hi⟩

theorem numbers_injective : Function.Injective (numbers : (Fin n → K) → Vector α n) := by
  intro x y h
  funext i
  apply of_injective (α := α)
  rw [← get_numbers, h, get_numbers]

/-- Numbers are finite. -/
theorem all_isFinite_numbers (x : Fin n → K) :
    (numbers x : Vector α n).all Scalar.isFinite = true := by
  rw [Vector.all_eq_true]
  intro i hi
  rw [getElem_numbers, isFinite_of]

theorem numbers_zero : (numbers (0 : Fin n → K) : Vector α n) = .replicate n Scalar.zero := by
  ext i hi
  rw [getElem_numbers, Vector.getElem_replicate, zero_eq (K := K), Pi.zero_apply]

/-! ## Fixed steps -/

/-- **A system over numbers** gives numbers where it gives anything at all. -/
def OverNumbers (K : Type) [Field K] [LinearOrder K] [IsStrictOrderedRing K] [ExactOver K α]
    (f : Rate ε α n) : Prop :=
  ∀ (t : K) (x : Fin n → K) (slope : Vector α n), f (of t) (numbers x) = .ok slope →
    ∃ s : Fin n → K, slope = numbers s

/-- **A system that computes with numbers**: what it gives for numbers are the numbers that a
function gives. -/
def Computes (f : Rate ε α n) (g : K → (Fin n → K) → Fin n → K) : Prop :=
  ∀ t x, f (of t) (numbers x) = .ok (numbers (g t x))

theorem Computes.slope_eq {f : Rate ε α n} {g : K → (Fin n → K) → Fin n → K} (h : Computes f g)
    {t : K} {x : Fin n → K} {slope : Vector α n} (hslope : f (of t) (numbers x) = .ok slope) :
    slope = numbers (g t x) :=
  Except.ok.inj (hslope.symm.trans (h t x))

theorem Computes.overNumbers {f : Rate ε α n} {g : K → (Fin n → K) → Fin n → K}
    (h : Computes f g) : OverNumbers K f :=
  fun _ _ _ hslope => ⟨_, h.slope_eq hslope⟩

namespace RungeKutta

variable {f : Rate ε α n} {t dt : K} {y : Fin n → K}

/-- The point of the second stage, and of the third. -/
theorem middle_numbers (k : Fin n → K) :
    (numbers y : Vector α n).zipWith (fun a k => a + of dt * k * Scalar.half) (numbers k) =
      numbers (y + (dt / 2) • k) := by
  ext i hi
  simp only [Vector.getElem_zipWith, getElem_numbers, half_eq (K := K), mul, add]
  congr 1
  simp only [Pi.add_apply, Pi.smul_apply, smul_eq_mul]
  ring

/-- The point of the last stage. -/
theorem end_numbers (k : Fin n → K) :
    (numbers y : Vector α n).zipWith (fun a k => a + of dt * k) (numbers k) =
      numbers (y + dt • k) := by
  ext i hi
  simp only [Vector.getElem_zipWith, getElem_numbers, mul, add]
  rfl

/-- The four slopes weighted. -/
theorem weighted_numbers (k₁ k₂ k₃ k₄ : Fin n → K) : (Vector.ofFn fun i =>
    (numbers y : Vector α n).get i + of dt * Scalar.ofQuot 1 6 * ((numbers k₁ : Vector α n).get i +
      Scalar.two * (numbers k₂ : Vector α n).get i + Scalar.two * (numbers k₃ : Vector α n).get i +
        (numbers k₄ : Vector α n).get i)) =
      numbers (y + (dt / 6) • (k₁ + (2 : K) • k₂ + (2 : K) • k₃ + k₄)) := by
  ext i hi
  simp only [Vector.getElem_ofFn, get_numbers, getElem_numbers, sixth_eq (K := K), two_eq (K := K),
    mul, add]
  congr 1
  simp only [Pi.add_apply, Pi.smul_apply, smul_eq_mul]
  ring

/-- **The fourth-order increment on numbers**: four slopes, each after the first at a point on the
one before. -/
theorem advance_numbers_iff (hf : OverNumbers K f) {z : Vector α n} :
    advance f (of t) (numbers y) (of dt) = .ok z ↔ ∃ k₁ k₂ k₃ k₄ : Fin n → K,
      f (of t) (numbers y) = .ok (numbers k₁) ∧
      f (of (t + dt / 2)) (numbers (y + (dt / 2) • k₁)) = .ok (numbers k₂) ∧
      f (of (t + dt / 2)) (numbers (y + (dt / 2) • k₂)) = .ok (numbers k₃) ∧
      f (of (t + dt)) (numbers (y + dt • k₃)) = .ok (numbers k₄) ∧
      numbers (y + (dt / 6) • (k₁ + (2 : K) • k₂ + (2 : K) • k₃ + k₄)) = z := by
  have hmiddle : (of t : α) + of dt * Scalar.half = of (t + dt / 2) := by
    rw [half_eq (K := K), mul, add, mul_one_div]
  unfold advance
  extract_lets half sixth two
  rw [hmiddle, add]
  constructor
  · intro h
    obtain ⟨_, h₁, h⟩ := bind_eq_ok_iff.1 h
    obtain ⟨k₁, rfl⟩ := hf _ _ _ h₁
    rw [middle_numbers] at h
    obtain ⟨_, h₂, h⟩ := bind_eq_ok_iff.1 h
    obtain ⟨k₂, rfl⟩ := hf _ _ _ h₂
    rw [middle_numbers] at h
    obtain ⟨_, h₃, h⟩ := bind_eq_ok_iff.1 h
    obtain ⟨k₃, rfl⟩ := hf _ _ _ h₃
    rw [end_numbers] at h
    obtain ⟨_, h₄, h⟩ := bind_eq_ok_iff.1 h
    obtain ⟨k₄, rfl⟩ := hf _ _ _ h₄
    rw [weighted_numbers] at h
    exact ⟨k₁, k₂, k₃, k₄, h₁, h₂, h₃, h₄, pure_eq_ok_iff.1 h⟩
  · rintro ⟨k₁, k₂, k₃, k₄, h₁, h₂, h₃, h₄, rfl⟩
    rw [← middle_numbers] at h₂ h₃
    rw [← end_numbers] at h₄
    rw [← weighted_numbers]
    exact bind_eq_ok_iff.2 ⟨_, h₁, bind_eq_ok_iff.2 ⟨_, h₂, bind_eq_ok_iff.2 ⟨_, h₃,
      bind_eq_ok_iff.2 ⟨_, h₄, rfl⟩⟩⟩⟩

end RungeKutta

/-! ## Attempts -/

namespace Adaptive

section Combination

variable {K : Type} [Field K]

/-- The sum of some slopes, each with its weight. -/
def combination (weights : List Rat) (slopes : List (Fin n → K)) : Fin n → K :=
  (List.zipWith (fun (w : Rat) s => (w : K) • s) weights slopes).sum

theorem combination_cons (w : Rat) (weights : List Rat) (s : Fin n → K)
    (slopes : List (Fin n → K)) :
    combination (w :: weights) (s :: slopes) = (w : K) • s + combination weights slopes := by
  rw [combination, List.zipWith_cons_cons, List.sum_cons, combination]

/-- Slopes that are all zero come to nothing. -/
theorem combination_eq_zero {slopes : List (Fin n → K)} (h : ∀ s ∈ slopes, s = 0)
    (weights : List Rat) : combination weights slopes = 0 := by
  induction weights generalizing slopes with
  | nil => rfl
  | cons w weights ih =>
    cases slopes with
    | nil => rfl
    | cons s slopes =>
      rw [List.forall_mem_cons] at h
      rw [combination_cons, h.1, ih h.2, smul_zero, add_zero]

end Combination

/-- A weighted sum of numbers, added to one. -/
theorem foldl_numbers (weights : List Rat) (slopes : List (Fin n → K)) (acc : K) (i : Fin n) :
    ((weights.map fun q => (Scalar.ofQuot q.num q.den : α)).zip (slopes.map numbers)).foldl
      (fun acc p => acc + p.1 * p.2.get i) (of acc) = of (acc + combination weights slopes i) := by
  induction weights generalizing slopes acc with
  | nil => simp [combination]
  | cons w weights ih =>
    cases slopes with
    | nil => simp [combination]
    | cons s slopes =>
      rw [List.map_cons, List.map_cons, List.zip_cons_cons, List.foldl_cons, combination_cons]
      dsimp only
      rw [get_numbers, ofQuot_num_den (K := K), mul, add, ih, Pi.add_apply, Pi.smul_apply,
        smul_eq_mul, add_assoc]

theorem weighted_numbers (weights : List Rat) (slopes : List (Fin n → K)) (i : Fin n) :
    weighted (weights.map fun q => (Scalar.ofQuot q.num q.den : α)) (slopes.map numbers) i =
      of (combination weights slopes i) := by
  rw [weighted, zero_eq (K := K)]
  exact (foldl_numbers weights slopes 0 i).trans (by rw [zero_add])

/-- The way along slopes. -/
theorem increment_numbers (h : K) (weights : List Rat) (slopes : List (Fin n → K)) :
    (Vector.ofFn fun i : Fin n => of h *
      weighted (weights.map fun q => (Scalar.ofQuot q.num q.den : α)) (slopes.map numbers) i) =
      numbers (h • combination weights slopes) := by
  ext i hi
  simp only [Vector.getElem_ofFn, getElem_numbers, weighted_numbers, mul]
  rfl

/-- A state moved along slopes. -/
theorem moved_numbers (y : Fin n → K) (h : K) (weights : List Rat) (slopes : List (Fin n → K)) :
    (Vector.ofFn fun i => (numbers y : Vector α n).get i + of h *
      weighted (weights.map fun q => (Scalar.ofQuot q.num q.den : α)) (slopes.map numbers) i) =
      numbers (y + h • combination weights slopes) := by
  ext i hi
  simp only [Vector.getElem_ofFn, get_numbers, getElem_numbers, weighted_numbers, mul, add]
  rfl

/-- A stage as a run reads it. -/
def readStage (stage : Rat × List Rat) : α × List α :=
  (Scalar.ofQuot stage.1.num stage.1.den, stage.2.map fun q => Scalar.ofQuot q.num q.den)

theorem stages_inScalars (t : Tableau) :
    (t.inScalars : Coefficients α).nodes.zip t.inScalars.rows = (t.nodes.zip t.rows).map readStage :=
  List.zip_map ..

/-- **Slopes of numbers**: of each stage, at the point that the slopes before it lead to. -/
inductive Staged (f : Rate ε α n) (t h : K) (y : Fin n → K) :
    List (Rat × List Rat) → List (Fin n → K) → List (Fin n → K) → Prop
  | nil (ks : List (Fin n → K)) : Staged f t h y [] ks ks
  | cons {c : Rat} {row : List Rat} {rest : List (Rat × List Rat)} {ks all : List (Fin n → K)}
      {s : Fin n → K} : f (of (t + c * h)) (numbers (y + h • combination row ks)) = .ok (numbers s) →
        Staged f t h y rest (ks ++ [s]) all → Staged f t h y ((c, row) :: rest) ks all

section Staged

variable {f : Rate ε α n} {t h : K} {y : Fin n → K} {stages : List (Rat × List Rat)}
  {ks all : List (Fin n → K)}

/-- The slopes of one more stage. -/
theorem slopes_cons (c : Rat) (row : List Rat) (rest : List (Rat × List Rat))
    (ks : List (Fin n → K)) :
    slopes f (of t) (numbers y) (of h) (((c, row) :: rest).map readStage) (ks.map numbers) =
      (f (of (t + c * h)) (numbers (y + h • combination row ks))).bind fun k =>
        slopes f (of t) (numbers y) (of h) (rest.map readStage) (ks.map numbers ++ [k]) := by
  rw [List.map_cons, readStage, slopes, ofQuot_num_den (K := K), mul, add, ← moved_numbers]
  rfl

theorem slopes_of_staged (hstaged : Staged f t h y stages ks all) :
    slopes f (of t) (numbers y) (of h) (stages.map readStage) (ks.map numbers) =
      .ok (all.map numbers) := by
  induction hstaged with
  | nil => rfl
  | cons hslope _ ih =>
    rw [slopes_cons, hslope]
    rwa [List.map_append] at ih

/-- The slopes of a system over numbers are slopes of numbers. -/
theorem staged_of_slopes (hf : OverNumbers K f) (ks : List (Fin n → K)) {ks' : List (Vector α n)}
    (hslopes : slopes f (of t) (numbers y) (of h) (stages.map readStage) (ks.map numbers) =
      .ok ks') : ∃ all, Staged f t h y stages ks all ∧ ks' = all.map numbers := by
  induction stages generalizing ks with
  | nil => exact ⟨ks, .nil ks, (Except.ok.inj hslopes).symm⟩
  | cons stage rest ih =>
    obtain ⟨c, row⟩ := stage
    rw [slopes_cons] at hslopes
    obtain ⟨_, hslope, hslopes⟩ := bind_eq_ok_iff.1 hslopes
    obtain ⟨s, rfl⟩ := hf _ _ _ hslope
    obtain ⟨all, hstaged, rfl⟩ := ih (ks ++ [s]) (by rw [List.map_append]; exact hslopes)
    exact ⟨all, .cons hslope hstaged, rfl⟩

/-- **What each slope has if those before it do**, all of them have; and there is one for each
stage. -/
theorem Staged.forall {P : (Fin n → K) → Prop}
    (hstep : ∀ {c : Rat} {row : List Rat} {ks : List (Fin n → K)} {s : Fin n → K}, (∀ s ∈ ks, P s) →
      f (of (t + c * h)) (numbers (y + h • combination row ks)) = .ok (numbers s) → P s)
    (hstaged : Staged f t h y stages ks all) (hks : ∀ s ∈ ks, P s) :
    all.length = ks.length + stages.length ∧ ∀ s ∈ all, P s := by
  induction hstaged with
  | nil => exact ⟨rfl, hks⟩
  | cons hslope _ ih =>
    obtain ⟨hlength, hall⟩ := ih (List.forall_mem_append.2
      ⟨hks, List.forall_mem_singleton.2 (hstep hks hslope)⟩)
    refine ⟨?_, hall⟩
    rw [hlength, List.length_append, List.length_singleton, List.length_cons]
    omega

end Staged

/-- **An attempt on numbers** moves the state along a weighted sum of its slopes. -/
theorem of_attempt_numbers {tableau : Tableau} {control : StepControl α} {f : Rate ε α n}
    (hf : OverNumbers K f) {t h : K} {y : Fin n → K} {tried : Attempt α n}
    (htried : attempt tableau.inScalars control f (of t) (numbers y) (of h) = .ok tried) :
    ∃ all, Staged f t h y (tableau.nodes.zip tableau.rows) [] all ∧
      tried.candidate = numbers (y + h • combination tableau.weights all) := by
  obtain ⟨ks, hks, hcandidate, -⟩ := of_attempt htried
  rw [stages_inScalars] at hks
  obtain ⟨all, hstaged, rfl⟩ := staged_of_slopes hf [] hks
  exact ⟨all, hstaged, hcandidate.trans (moved_numbers ..)⟩

end Adaptive

end FieldFlow
