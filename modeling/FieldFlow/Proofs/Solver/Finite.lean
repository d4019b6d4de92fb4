import FieldFlow.Proofs.Solver.Adaptive

/-!
# Proofs/Solver/Finite — adaptive steps let nothing through that is not finite

What is not finite can come up in every stage of an attempt. Whatever it does there, a candidate
with one value that is not finite has an infinite error, and an infinite error is not accepted;
rejected and failed trials leave the state where the last accepted one put it. So a finite state
stays finite through any number of steps, successful or not (`Led.allFinite`).
-/

namespace FieldFlow

variable {ε α : Type} {n : Nat} [Scalar α]

/-- **Numbers that are all finite.** -/
def AllFinite (xs : Array α) : Prop := ∀ a ∈ xs, Scalar.isFinite a = true

instance (xs : Array α) : Decidable (AllFinite xs) :=
  inferInstanceAs (Decidable (∀ a ∈ xs, Scalar.isFinite a = true))

theorem AllFinite.getElem {y : Vector α n} (h : AllFinite y.toArray) {i : Nat} (hi : i < n) :
    Scalar.isFinite y[i] = true :=
  h y[i] ((Vector.mem_toArray_iff _ _).2 (Vector.getElem_mem hi))

theorem allFinite_of_all {y : Vector α n} (h : y.all Scalar.isFinite = true) :
    AllFinite y.toArray := by
  intro a ha
  obtain ⟨i, hi, rfl⟩ := Vector.mem_iff_getElem.1 ((Vector.mem_toArray_iff _ _).1 ha)
  exact Vector.all_eq_true.1 h i hi

namespace Adaptive

variable {tableau : Tableau} {control : StepControl α} {f : Rate ε α n} {goal : Goal α}

/-- **What is accepted is finite.** -/
theorem allFinite_of_accepted (hinfinite : Scalar.le (Scalar.infinity : α) Scalar.one = false)
    {p next : Progress α n} (h : Tries tableau control f goal p (.accepted next)) :
    AllFinite next.state.toArray := by
  cases h with
  | accepted hmakes herror =>
    obtain ⟨ks, -, -, hscaled⟩ := of_attempt hmakes.2
    rw [state_accept]
    by_cases hempty : n = 0
    · subst hempty
      intro a ha
      obtain ⟨i, hi, -⟩ := Vector.mem_iff_getElem.1 ((Vector.mem_toArray_iff _ _).1 ha)
      exact absurd hi (Nat.not_lt_zero i)
    · refine allFinite_of_all ?_
      by_contra hcandidate
      rw [if_neg hempty, if_neg hcandidate] at hscaled
      rw [hscaled, hinfinite] at herror
      exact Bool.false_ne_true herror

/-- **One step** keeps a state finite, whether it succeeds or fails. -/
theorem allFinite_step (hinfinite : Scalar.le (Scalar.infinity : α) Scalar.one = false) {dt : α}
    {c : Cursor α n} (h : AllFinite c.state.toArray) :
    AllFinite (step tableau control f dt c).1.state.toArray :=
  advance_induct (motive := fun p => AllFinite p.state.toArray)
    (fun _ haccepted _ => allFinite_of_accepted hinfinite haccepted) (fun _ _ hp => hp) h

/-- **The cursors that steps lead to**, one after another, each on a system of its own, from a time
and over a length of its own, whether they succeed or fail. -/
inductive Led (ε : Type) (tableau : Tableau) (control : StepControl α) (start : Cursor α n) :
    Cursor α n → Prop
  | start : Led ε tableau control start start
  | step {c : Cursor α n} (f : Rate ε α n) (t dt : α) : Led ε tableau control start c →
      Led ε tableau control start (Adaptive.step tableau control f dt { c with time := t }).1

/-- **Steps keep a state finite.** -/
theorem Led.allFinite (hinfinite : Scalar.le (Scalar.infinity : α) Scalar.one = false)
    {start c : Cursor α n} (h : Led ε tableau control start c)
    (hstart : AllFinite start.state.toArray) : AllFinite c.state.toArray := by
  induction h with
  | start => exact hstart
  | step f t dt _ ih => exact allFinite_step hinfinite ih

end Adaptive

end FieldFlow
