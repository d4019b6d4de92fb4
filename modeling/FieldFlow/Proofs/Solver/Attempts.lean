import FieldFlow.Proofs.Solver.Interval
import Mathlib.Algebra.Order.Floor.Semiring

/-!
# Proofs/Solver/Attempts — an adaptive step ends

Every accepted attempt of a step covers at least the minimum size, so that there are no more of them
than the minimum fits into its length (`length_le_floor`); and between two of them there are at most
the tolerated rejections. So the attempts of a step are bounded before it begins, whatever the
errors are (`Stage.attempts_lt`), and the bound that repeats its trials is never what ends it
(`step_ends`).
-/

namespace FieldFlow

/-- **Valid settings**: tolerances from zero on, of which one is positive, and a positive
minimum. -/
theorem StepControl.validate_eq_ok_iff {α : Type} [Scalar α] {control : StepControl α} :
    control.validate = .ok () ↔
      (Scalar.isFinite control.relative = true ∧ Scalar.le Scalar.zero control.relative = true) ∧
      (Scalar.isFinite control.absolute = true ∧ Scalar.le Scalar.zero control.absolute = true) ∧
      (Scalar.lt Scalar.zero control.relative = true ∨
        Scalar.lt Scalar.zero control.absolute = true) ∧
      Scalar.isFinite control.minStep = true ∧ Scalar.lt Scalar.zero control.minStep = true := by
  have hlast : ∀ holds : Bool, (if (!holds) = true then throw (.invalidSettings .minimumStep)
      else pure () : Except (Error α) Unit) = .ok () ↔ holds = true := by
    intro holds
    cases holds <;> simp
  unfold validate
  dsimp only
  rw [check_bind_eq_ok_iff, check_bind_eq_ok_iff, check_bind_eq_ok_iff, hlast]
  simp only [Bool.and_eq_true, Bool.or_eq_true]

namespace Adaptive

open Relation ExactOver

variable {ε α : Type} {n : Nat} [Scalar α] {tableau : Tableau} {control : StepControl α}
  {f : Rate ε α n}

/-! ## Repeating trials -/

/-- Trials that have ended are not affected by how often they might have been repeated. -/
theorem advance_add {goal : Goal α} {bound : Nat} {p : Progress α n} (extra : Nat)
    (h : (advance tableau control f goal bound p).2 ≠ .error .unfinished) :
    advance tableau control f goal (bound + extra) p = advance tableau control f goal bound p := by
  induction bound generalizing p with
  | zero =>
    rw [advance] at h
    have hdone : Scalar.lt p.now goal.stop = false := by
      by_contra hbefore
      exact h (if_pos (Bool.not_eq_false _ ▸ hbefore))
    rw [advance_of_not_lt hdone, advance_of_not_lt hdone]
  | succ bound ih =>
    rw [Nat.add_right_comm, advance, advance]
    rw [advance] at h
    split
    · rename_i hbefore
      rw [if_pos hbefore] at h
      cases htrial : trial tableau control f goal p with
      | accepted next =>
        rw [htrial] at h
        exact ih h
      | rejected next =>
        rw [htrial] at h
        exact ih h
      | failed next e => rfl
    · rfl

/-- An attempt that the system cut short, which comes to no verdict. -/
def interrupted : Except (StepFailure ε α) Unit → Nat
  | .error (.system _) => 1
  | _ => 0

/-! ## The bound -/

section Bound

variable {K : Type} [Field K] [LinearOrder K] [IsStrictOrderedRing K] [FloorSemiring K]
  {c : Cursor α n} {m start dt : K}

/-- Sizes that are not below a minimum are no more than the minimum fits into what they cover. -/
theorem length_le_floor {sizes : List K} (hm : 0 < m) (hminimal : ∀ h ∈ sizes, m ≤ h)
    (hwithin : sizes.sum ≤ dt) : sizes.length ≤ ⌊dt / m⌋₊ := by
  have hsum : sizes.length * m ≤ sizes.sum := by
    have hcard := List.card_nsmul_le_sum sizes m hminimal
    rwa [nsmul_eq_mul] at hcard
  exact Nat.le_floor ((le_div_iff₀ hm).2 (hsum.trans hwithin))

/-- The most attempts that a step of some length makes. -/
def mostAttempts (control : StepControl α) (m dt : K) : Nat :=
  (⌊dt / m⌋₊ + 1) * (control.maxRejections + 1)

/-- **There are always attempts left** while a step goes on. -/
theorem Stage.attempts_lt [ExactOver K α] {sizes : List K} {p : Progress α n} (hm : 0 < m)
    (h : Stage tableau control f c m start dt sizes p) :
    p.attempts < c.accepted + c.rejected + mostAttempts control m dt := by
  have hlength : sizes.length * (control.maxRejections + 1) ≤
      ⌊dt / m⌋₊ * (control.maxRejections + 1) :=
    Nat.mul_le_mul_right _ (length_le_floor hm h.minimal h.within)
  have hattempts := h.attempts
  have hrejections := h.rejections
  rw [mostAttempts, Nat.succ_mul]
  omega

/-- Trials of a step that begins at a number end, with no more attempts than that. -/
theorem Ends.within [ExactOver K α] (hmin : control.minStep = of m) (hm : 0 < m)
    (hstart : c.time = of start) (hdt : 0 < dt) {bound : Nat}
    (hbound : mostAttempts control m dt ≤ bound)
    {r : Progress α n × Except (StepFailure ε α) Unit}
    (h : Ends tableau control f (goalOf control c.time (of dt)) (outset (of dt) c) bound r) :
    r.2 ≠ .error .unfinished ∧
      r.1.attempts + interrupted r.2 ≤ c.accepted + c.rejected + mostAttempts control m dt := by
  have hleft : ∀ {q}, ReflTransGen (Goes tableau control f (goalOf control c.time (of dt)))
      (outset (of dt) c) q → q.attempts < c.accepted + c.rejected + mostAttempts control m dt := by
    intro q hleads
    obtain ⟨sizes, hstage⟩ := exists_stage hmin hstart hdt hleads
    exact hstage.attempts_lt hm
  cases h with
  | arrived hleads _ => exact ⟨by simp, (hleft hleads).le⟩
  | cut hleads hcount =>
    have hlt := hleft hleads
    have houtset : (outset (of dt) c).attempts = c.accepted + c.rejected := rfl
    omega
  | failed hleads _ htries =>
    cases htries with
    | small => exact ⟨by simp, (hleft hleads).le⟩
    | refused => exact ⟨by simp, hleft hleads⟩
    | exhausted => exact ⟨by simp, hleft hleads⟩

/-- **Trials end by themselves**, wherever the step begins — one that begins at no time at all has
nothing to do. -/
theorem advance_within [ExactOver K α] (hmin : control.minStep = of m) (hm : 0 < m)
    (hdt : 0 < dt) {bound : Nat} (hbound : mostAttempts control m dt ≤ bound)
    {r : Progress α n × Except (StepFailure ε α) Unit}
    (h : advance tableau control f (goalOf control c.time (of dt)) bound (outset (of dt) c) = r) :
    r.2 ≠ .error .unfinished ∧
      r.1.attempts + interrupted r.2 ≤ c.accepted + c.rejected + mostAttempts control m dt := by
  cases htime : Scalar.isFinite c.time with
  | true =>
    obtain ⟨start, hstart⟩ := exists_of (K := K) c.time htime
    exact (h ▸ ends ..).within hmin hm hstart hdt hbound
  | false =>
    have hdone : Scalar.lt (outset (of dt) c).now (goalOf control c.time (of dt)).stop = false := by
      rw [goalOf, absorbs _ htime]
      exact ExactOver.lt_irrefl K c.time
    rw [advance_of_not_lt hdone] at h
    subst h
    exact ⟨by simp, Nat.le_add_right _ _⟩

/-- The bound of a step is above that. -/
theorem mostAttempts_le [ExactFloor K α] (hmin : control.minStep = of m) (hm : 0 < m) :
    mostAttempts control m dt ≤ attemptBound control (of dt) := by
  have hpositive : Scalar.lt Scalar.zero control.minStep = true := by
    rw [hmin, zero_eq (K := K), lt, decide_eq_true hm]
  have hwhole : Scalar.whole (of dt / control.minStep) = ⌊dt / m⌋₊ := by
    rw [hmin, ExactFloor.div _ _ hm.ne', ExactFloor.whole]
  unfold attemptBound
  rw [if_pos hpositive, hwhole]
  exact (Nat.mul_le_mul_right _ (Nat.le_succ _)).trans (Nat.le_max_right _ _)

/-- **An adaptive step ends**, with success or with an error, after no more attempts than the whole
minima that fit into its length and one, each with the rejections that are tolerated; and its trials
might be repeated any number of times more. -/
theorem step_ends [ExactFloor K α] (hvalid : control.validate = .ok ())
    (hmin : control.minStep = of m) (hdt : 0 < dt) :
    (∃ next result, step tableau control f (of dt) c = (next, result) ∧
      result ≠ .error .unfinished ∧
      next.accepted + next.rejected + interrupted result ≤
        c.accepted + c.rejected + (⌊dt / m⌋₊ + 1) * (control.maxRejections + 1)) ∧
    ∀ bound ≥ (⌊dt / m⌋₊ + 1) * (control.maxRejections + 1),
      advance tableau control f (goalOf control c.time (of dt)) bound (outset (of dt) c) =
        advance tableau control f (goalOf control c.time (of dt)) (attemptBound control (of dt))
          (outset (of dt) c) := by
  have hm : 0 < m := by
    have hpositive := (StepControl.validate_eq_ok_iff.1 hvalid).2.2.2.2
    rw [hmin, zero_eq (K := K), lt, decide_eq_true_iff] at hpositive
    exact hpositive
  constructor
  · rcases hadvance : advance tableau control f (goalOf control c.time (of dt))
      (attemptBound control (of dt)) (outset (of dt) c) with ⟨q, result⟩
    obtain ⟨hended, hattempts⟩ := advance_within hmin hm hdt (mostAttempts_le hmin hm) hadvance
    exact ⟨_, result, step_of_advance hadvance, hended, hattempts⟩
  · have hsame : ∀ bound ≥ mostAttempts control m dt,
        advance tableau control f (goalOf control c.time (of dt)) bound (outset (of dt) c) =
          advance tableau control f (goalOf control c.time (of dt)) (mostAttempts control m dt)
            (outset (of dt) c) := by
      intro bound hbound
      obtain ⟨extra, rfl⟩ := Nat.exists_eq_add_of_le hbound
      exact advance_add extra (advance_within hmin hm hdt le_rfl rfl).1
    intro bound hbound
    rw [hsame bound hbound, hsame _ (mostAttempts_le hmin hm)]

end Bound

/-- A step that comes upon the end of the slope, where an error is no number, makes at most
forty-four attempts. -/
theorem fade_ends :
    (∃ next result,
      step .bogackiShampine fade.tolerances fade (.of 1) (fade.outset (3 / 2) none) = (next, result) ∧
        result ≠ .error .unfinished ∧
        next.accepted + next.rejected + interrupted result ≤ 0 + 0 + 44) ∧
    ∀ bound ≥ 44,
      advance .bogackiShampine fade.tolerances fade (goalOf fade.tolerances (.of (3 / 2)) (.of 1))
          bound (outset (.of 1) (fade.outset (3 / 2) none)) =
        advance .bogackiShampine fade.tolerances fade (goalOf fade.tolerances (.of (3 / 2)) (.of 1))
          (attemptBound fade.tolerances (.of 1)) (outset (.of 1) (fade.outset (3 / 2) none)) := by
  have hvalid : fade.tolerances.validate = .ok () := by decide +kernel
  have hmost : (⌊(1 : Rat) / (1 / 10)⌋₊ + 1) * (fade.tolerances.maxRejections + 1) = 44 := by
    decide +kernel
  rw [← hmost]
  exact step_ends (K := Rat) (m := 1 / 10) hvalid rfl one_pos

end Adaptive

end FieldFlow
