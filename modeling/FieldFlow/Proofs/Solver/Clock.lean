import FieldFlow.Proofs.Solver.Interval
import FieldFlow.Proofs.Solver.Pick
import Mathlib.Tactic.Linarith

/-!
# Proofs/Solver/Clock — a place of the state that keeps time

A place whose slope is one everywhere moves in a step by exactly the length of the step. For the
fixed step the weights of the four slopes make one; for an adaptive pair the weights of its solution
do (`Tableau.Consistent`), so that each internal step moves the place by its own size, and the sizes
of the accepted ones add up to the length (`OnTime`): a size that does not reach the end leaves time
short of it, and the last one is what remains. How many there are, and how many were rejected
between them, does not show.
-/

namespace FieldFlow

variable {ε α K : Type} {n : Nat}

/-- What stands at a place of a state that is given place by place. -/
theorem get_vectorOfFn (g : Fin n → α) (k : Fin n) : (Vector.ofFn g).get k = g k :=
  Vector.getElem_ofFn k.isLt

variable [Scalar α]

/-- **A place that keeps time**: whatever the state, its slope is one. -/
def Clock (f : Rate ε α n) (k : Fin n) : Prop :=
  ∀ t y slopes, f t y = .ok slopes → slopes.get k = Scalar.one

variable [Field K] [LinearOrder K] [IsStrictOrderedRing K] [ExactOver K α] {f : Rate ε α n}
  {k : Fin n} {c next : Cursor α n} {dt : K}

open ExactOver

/-! ## Fixed steps -/

theorem RungeKutta.clock_advance (hf : Clock f k) {t : α} {y z : Vector α n}
    (h : advance f t y (of dt) = .ok z) : z.get k = y.get k + of dt := by
  obtain ⟨k₁, h₁, h⟩ := bind_eq_ok_iff.1 h
  obtain ⟨k₂, h₂, h⟩ := bind_eq_ok_iff.1 h
  obtain ⟨k₃, h₃, h⟩ := bind_eq_ok_iff.1 h
  obtain ⟨k₄, h₄, h⟩ := bind_eq_ok_iff.1 h
  obtain rfl := pure_eq_ok_iff.1 h
  simp only [get_vectorOfFn, hf _ _ _ h₁, hf _ _ _ h₂, hf _ _ _ h₃, hf _ _ _ h₄,
    sixth_eq (K := K), one_eq (K := K), two_eq (K := K), mul, add]
  congr 2
  ring

/-- A fixed step takes a clock on by its length. -/
theorem RungeKutta.clock_step (hf : Clock f k) (h : step f (of dt) c = (next, .ok ())) :
    next.time = c.time + of dt ∧ next.state.get k = c.state.get k + of dt := by
  obtain ⟨state, hadvance, rfl⟩ := step_eq_ok_iff.1 h
  exact ⟨rfl, clock_advance hf hadvance⟩

/-! ## Internal steps -/

/-- **A consistent pair**: a weight for each stage, and weights that make one. -/
def Tableau.Consistent (t : Tableau) : Prop :=
  t.weights.length = min t.nodes.length t.rows.length ∧ t.weights.sum = 1

/-- The methods are consistent. -/
theorem Method.consistent {m : Method} {t : Tableau} (h : m.tableau? = some t) : t.Consistent := by
  cases m with
  | rk4 => exact nomatch h
  | rk23 =>
    obtain rfl := Option.some.inj h
    exact ⟨rfl, by norm_num [Tableau.bogackiShampine]⟩
  | rk45 =>
    obtain rfl := Option.some.inj h
    exact ⟨rfl, by norm_num [Tableau.dormandPrince]⟩
  | rk78 =>
    obtain rfl := Option.some.inj h
    exact ⟨rfl, by norm_num [Tableau.fehlberg]⟩

namespace Adaptive

/-- Weights of slopes that are all one are added up. -/
theorem foldl_weights {weights : List Rat} {slopes : List (Vector α n)} (acc : K)
    (hlength : weights.length = slopes.length) (hone : ∀ s ∈ slopes, s.get k = Scalar.one) :
    ((weights.map fun q => (Scalar.ofQuot q.num q.den : α)).zip slopes).foldl
      (fun acc (w, s) => acc + w * s.get k) (of acc) = of (acc + (weights.sum : K)) := by
  induction weights generalizing slopes acc with
  | nil => simp
  | cons w weights ih =>
    obtain ⟨s, slopes, rfl⟩ := List.exists_cons_of_length_eq_add_one hlength.symm
    rw [List.forall_mem_cons] at hone
    rw [List.map_cons, List.zip_cons_cons, List.foldl_cons]
    dsimp only
    rw [hone.1, ofQuot_num_den (K := K), one_eq (K := K), mul, add, mul_one,
      ih _ (Nat.succ.inj hlength) hone.2, List.sum_cons, Rat.cast_add, add_assoc]

variable {tableau : Tableau} {control : StepControl α} {goal : Goal α}

/-- An attempt takes a clock on by its size. -/
theorem clock_attempt (htableau : tableau.Consistent) (hf : Clock f k) {t : α} {y : Vector α n}
    {h : K} {tried : Attempt α n}
    (htried : attempt tableau.inScalars control f t y (of h) = .ok tried) :
    tried.candidate.get k = y.get k + of h := by
  obtain ⟨ks, hks, hcandidate, -⟩ := of_attempt htried
  obtain ⟨hlength, hone⟩ := of_slopes (P := fun s => s.get k = Scalar.one) (hf _ _ _) hks
    (fun s hs => absurd hs List.not_mem_nil)
  have hstages : tableau.weights.length = ks.length := by
    rw [hlength, htableau.1]
    simp [Tableau.inScalars]
  have hweights : weighted tableau.inScalars.weights ks k = (of (1 : K) : α) := by
    have hsum := foldl_weights (k := k) (0 : K) hstages hone
    rw [htableau.2, Rat.cast_one, zero_add, ← zero_eq] at hsum
    exact hsum
  rw [hcandidate, get_vectorOfFn, hweights, mul, mul_one]

/-- **Progress on time**: what has passed since the step began is on the clock, and is no more than
the length of the step. -/
def OnTime (k : Fin n) (start dt : K) (first : α) (p : Progress α n) : Prop :=
  ∃ passed ≤ dt, p.now = of (start + passed) ∧ p.state.get k = first + of passed

/-- An internal step that is accepted leaves progress on time. -/
theorem OnTime.accepted (htableau : tableau.Consistent) (hf : Clock f k) {start : K} {first : α}
    (hgoal : goal.stop = of (start + dt)) {p next : Progress α n}
    (h : Tries tableau control f goal p (.accepted next)) (hp : OnTime k start dt first p) :
    OnTime k start dt first next := by
  obtain ⟨passed, -, hnow, hplace⟩ := hp
  obtain ⟨size, tried, hadvances⟩ := h.advances hgoal hnow
  refine ⟨passed + size, hadvances.le, hadvances.now, ?_⟩
  have hmade := hadvances.made.2
  rw [hadvances.clamped] at hmade
  rw [hadvances.state, clock_attempt htableau hf hmade, hplace, add_of_add_of]

/-- **A step of a consistent pair** takes a clock on by its length. -/
theorem clock_step (htableau : tableau.Consistent) (hf : Clock f k) (hdt : 0 < dt) {start : K}
    (hstart : c.time = of start)
    (h : step tableau control f (of dt) c = (next, .ok ())) :
    next.time = c.time + of dt ∧ next.state.get k = c.state.get k + of dt := by
  obtain ⟨q, hadvance, htime, hstate⟩ := of_step h
  have hgoal : (goalOf control c.time (of dt)).stop = of (start + dt) := by
    rw [goalOf, hstart, add]
  have houtset : OnTime k start dt (c.state.get k) (outset (of dt) c) :=
    ⟨0, hdt.le, by rw [outset, hstart, add_zero], (add_of_zero _).symm⟩
  have hontime : OnTime k start dt (c.state.get k) q := by
    have hadvanced : OnTime k start dt (c.state.get k) (advance tableau control f
        (goalOf control c.time (of dt)) (attemptBound control (of dt))
        (outset (of dt) c)).1 :=
      advance_induct (fun _ htries hp => hp.accepted htableau hf hgoal htries) (fun _ _ hp => hp)
        houtset
    rwa [hadvance] at hadvanced
  obtain ⟨passed, hle, hnow, hplace⟩ := hontime
  have hdone := not_lt_of_advance hadvance
  rw [hnow, hgoal, lt, decide_eq_false_iff_not, not_lt] at hdone
  obtain rfl : passed = dt := le_antisymm hle (by linarith)
  exact ⟨htime, by rw [hstate, hplace]⟩

/-- A step that begins at no time at all ends where it begins. -/
theorem step_of_not_finite (htime : Scalar.isFinite c.time = false)
    (h : step tableau control f (of dt) c = (next, .ok ())) :
    next.time = c.time ∧ next.state = c.state := by
  obtain ⟨q, hadvance, htime', hstate⟩ := of_step h
  have hstop : Scalar.lt (outset (of dt) c).now
      (goalOf control c.time (of dt)).stop = false := by
    rw [goalOf, absorbs _ htime]
    exact lt_irrefl K c.time
  rw [advance_of_not_lt hstop] at hadvance
  refine ⟨htime'.trans (absorbs _ htime dt), ?_⟩
  rw [hstate, ← (Prod.mk.inj hadvance).1]
  rfl

end Adaptive

/-! ## Steps of any method -/

/-- **A step of any method** takes a clock on by its length. If it begins at no time at all, so must
the clock. -/
theorem Method.clock_step {m : Method} {control : StepControl α} (hf : Clock f k) (hdt : 0 < dt)
    (hstart : Scalar.isFinite c.time = false → Scalar.isFinite (c.state.get k) = false)
    (h : m.step control f (of dt) c = (next, .ok ())) :
    next.time = c.time + of dt ∧ next.state.get k = c.state.get k + of dt := by
  unfold Method.step at h
  split at h
  · exact RungeKutta.clock_step hf h
  · rename_i tableau htableau
    rcases exists_of_or K c.time with ⟨start, htime⟩ | htime
    · exact Adaptive.clock_step (Method.consistent htableau) hf hdt htime h
    · obtain ⟨hnext, hstate⟩ := Adaptive.step_of_not_finite htime h
      rw [hnext, hstate, absorbs _ htime, absorbs _ (hstart htime)]
      exact ⟨rfl, rfl⟩

end FieldFlow
