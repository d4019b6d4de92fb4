import FieldFlow.Proofs.Solver.Interval

/-!
# Proofs/Solver/Failed — what a step that fails leaves behind

A fixed step computes its state before it takes it over, so that one that fails leaves everything as
it is. An adaptive step takes over the state of each internal step as it is accepted. When a later
one fails, time stands where the step began, and the state where the accepted ones have brought it;
a step that fails before one is accepted leaves the state that it found (`step_failed`).
-/

namespace FieldFlow

open Adaptive

variable {ε α : Type} {n : Nat} [Scalar α]

/-- A fixed step that fails changes nothing. -/
theorem RungeKutta.step_of_error {f : Rate ε α n} {dt : α} {c next : Cursor α n}
    {e : StepFailure ε α} (h : step f dt c = (next, .error e)) : next = c := by
  unfold step at h
  split at h
  · exact nomatch (Prod.mk.inj h).2
  · exact (Prod.mk.inj h).1.symm

section

variable {tableau : Tableau} {control : StepControl α} {f : Rate ε α n} {goal : Goal α}

/-- A trial that fails takes nothing over. -/
theorem Adaptive.Tries.failed {p q : Progress α n} {e : StepFailure ε α}
    (h : Tries tableau control f goal p (.failed q e)) :
    q.state = p.state ∧ q.accepted = p.accepted ∧
      ∀ start cause, e = .impasse start cause → start = goal.start := by
  cases h with
  | small => exact ⟨rfl, rfl, fun _ _ h => (StepFailure.impasse.inj h).1.symm⟩
  | refused => exact ⟨rfl, rfl, nofun⟩
  | exhausted => exact ⟨rfl, rfl, fun _ _ h => (StepFailure.impasse.inj h).1.symm⟩

/-- Attempts one after another, of which there are none. -/
theorem Adaptive.Chain.eq_of_length {y z : Vector α n} {trace : List (α × α)}
    (h : Chain tableau control f y trace z) (hlength : trace.length = 0) : z = y := by
  obtain rfl := List.length_eq_zero_iff.1 hlength
  generalize htrace : ([] : List (α × α)) = trace at h
  cases h with
  | nil => rfl
  | snoc => simp at htrace

end

/-- **A step that fails.** A fixed one leaves everything as it is. An adaptive one leaves time where
it began, which is the start that its error names, and the state that the accepted internal steps
have come to: the one that it began with if there are none. -/
theorem step_failed (f : Rate ε α n) (dt : α) (c : Cursor α n) :
    (∀ next e, RungeKutta.step f dt c = (next, .error e) → next = c) ∧
    ∀ tableau control next e, Adaptive.step tableau control f dt c = (next, .error e) →
      next.time = c.time ∧ (∀ start cause, e = .impasse start cause → start = c.time) ∧
      (next.accepted = c.accepted → next.state = c.state) ∧
      ∃ trace, Chain tableau control f c.state trace next.state ∧
        next.accepted = c.accepted + trace.length := by
  refine ⟨fun next e h => RungeKutta.step_of_error h, fun tableau control next e h => ?_⟩
  obtain ⟨q, hends, rfl⟩ := exists_ends h
  have hchain : (∀ start cause, e = .impasse start cause → start = c.time) ∧
      ∃ trace, Chain tableau control f c.state trace q.state ∧
        q.accepted = c.accepted + trace.length := by
    cases hends with
    | cut hleads => exact ⟨nofun, exists_chain hleads⟩
    | failed hleads _ htries =>
      obtain ⟨hstate, haccepted, hnames⟩ := htries.failed
      rw [hstate, haccepted]
      exact ⟨hnames, exists_chain hleads⟩
  obtain ⟨hnames, trace, hchain, haccepted⟩ := hchain
  refine ⟨rfl, hnames, fun hnone => hchain.eq_of_length ?_, trace, hchain, haccepted⟩
  exact Nat.add_eq_left.1 (haccepted.symm.trans hnone)

/-- A step that comes upon the end of the slope, after two internal steps. -/
theorem fade_failed : fade.brink.time = .of (3 / 2) ∧ ∃ trace,
    Chain .bogackiShampine fade.tolerances fade (.replicate 1 (.of 0)) trace fade.brink.state ∧
      2 = 0 + trace.length := by
  obtain ⟨htime, -, -, htrace⟩ :=
    (step_failed fade (.of 1) (fade.outset (3 / 2) none)).2 _ _ _ _ fade_step
  exact ⟨htime, htrace⟩

/-- When it fails, time stands where it began, and the state does not. -/
theorem fade_moves : ∃ next e,
    Adaptive.step .bogackiShampine fade.tolerances fade (.of 1) (fade.outset (3 / 2) none) =
      (next, .error e) ∧
    ¬ (next.time = (fade.outset (3 / 2) none).time ∧
      next.state = (fade.outset (3 / 2) none).state) := by
  have hmoves : fade.brink.state ≠ (fade.outset (3 / 2) none).state := by decide +kernel
  exact ⟨fade.brink, _, fade_step, fun hsame => hmoves hsame.2⟩

end FieldFlow
