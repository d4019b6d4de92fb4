import FieldFlow.Proofs.Solver.Clock

/-!
# Proofs/Solver/Clocks — clocks go together

The size of a step and its weights are those of the whole state, so what a step adds to one place
whose slope is one it adds to every such place. Clocks that show the same before a step therefore
show the same after it, in any arithmetic and whatever the length of the step (`Method.agree_step`).
In an exact arithmetic what is added is a number (`Method.shift_step`) and could be taken away
again, so clocks that differ go on to differ.
-/

namespace FieldFlow

variable {ε α : Type} {n : Nat} [Scalar α] {f : Rate ε α n} {k l : Fin n} {c next : Cursor α n}

/-! ## Clocks that agree -/

section Agree

theorem RungeKutta.agree_advance (hk : Clock f k) (hl : Clock f l) {t dt : α} {y z : Vector α n}
    (hsame : y.get k = y.get l) (h : advance f t y dt = .ok z) : z.get k = z.get l := by
  obtain ⟨k₁, h₁, h⟩ := bind_eq_ok_iff.1 h
  obtain ⟨k₂, h₂, h⟩ := bind_eq_ok_iff.1 h
  obtain ⟨k₃, h₃, h⟩ := bind_eq_ok_iff.1 h
  obtain ⟨k₄, h₄, h⟩ := bind_eq_ok_iff.1 h
  obtain rfl := pure_eq_ok_iff.1 h
  simp only [get_vectorOfFn, hsame, hk _ _ _ h₁, hk _ _ _ h₂, hk _ _ _ h₃, hk _ _ _ h₄,
    hl _ _ _ h₁, hl _ _ _ h₂, hl _ _ _ h₃, hl _ _ _ h₄]

namespace Adaptive

variable {tableau : Tableau} {control : StepControl α}

/-- Slopes that are the same at two places add up to the same. -/
theorem weighted_congr {weights : List α} {slopes : List (Vector α n)}
    (h : ∀ s ∈ slopes, s.get k = s.get l) :
    weighted weights slopes k = weighted weights slopes l := by
  refine List.foldl_ext _ _ _ fun acc ws hws => ?_
  exact congrArg (acc + ws.1 * ·) (h ws.2 (List.of_mem_zip hws).2)

theorem agree_attempt (hk : Clock f k) (hl : Clock f l) {pair : Coefficients α} {t h : α}
    {y : Vector α n} {tried : Attempt α n} (hsame : y.get k = y.get l)
    (htried : attempt pair control f t y h = .ok tried) :
    tried.candidate.get k = tried.candidate.get l := by
  obtain ⟨ks, hks, hcandidate, -⟩ := of_attempt htried
  have hslopes : ∀ s ∈ ks, s.get k = s.get l :=
    (of_slopes (P := fun s => s.get k = s.get l)
      (fun hs => (hk _ _ _ hs).trans (hl _ _ _ hs).symm) hks nofun).2
  rw [hcandidate, get_vectorOfFn, get_vectorOfFn, hsame, weighted_congr hslopes]

theorem agree_step (hk : Clock f k) (hl : Clock f l) {dt : α}
    (hsame : c.state.get k = c.state.get l) (h : step tableau control f dt c = (next, .ok ())) :
    next.state.get k = next.state.get l := by
  obtain ⟨q, hadvance, -, hstate⟩ := of_step h
  obtain rfl : _ = q := congrArg Prod.fst hadvance
  rw [hstate]
  refine advance_induct (motive := fun p => p.state.get k = p.state.get l)
    (fun _ htries hp => ?_) (fun _ _ hp => hp) hsame
  cases htries with
  | accepted hmakes _ => exact agree_attempt hk hl hp hmakes.2

end Adaptive

/-- **Clocks that agree before a step** agree after it. -/
theorem Method.agree_step {m : Method} {control : StepControl α} {dt : α} (hk : Clock f k)
    (hl : Clock f l) (hsame : c.state.get k = c.state.get l)
    (h : m.step control f dt c = (next, .ok ())) : next.state.get k = next.state.get l := by
  unfold Method.step at h
  split at h
  · obtain ⟨state, hadvance, rfl⟩ := RungeKutta.step_eq_ok_iff.1 h
    exact RungeKutta.agree_advance hk hl hsame hadvance
  · exact Adaptive.agree_step hk hl hsame h

end Agree

/-! ## Clocks that differ -/

section Shift

variable {K : Type} [FieldOfNumbers K] [LinearOrder K] [IsStrictOrderedRing K] [ExactOver K α]

open ExactOver

/-- Internal steps take all clocks on by the sum of their sizes, wherever they lead to. -/
theorem Adaptive.shift_step {tableau : Tableau} {control : StepControl α} {dt : α}
    (htableau : tableau.Consistent) (h : step tableau control f dt c = (next, .ok ())) :
    ∃ x : K, ∀ k, Clock f k → next.state.get k = c.state.get k + of x := by
  obtain ⟨q, hadvance, -, hstate⟩ := of_step h
  obtain rfl : _ = q := congrArg Prod.fst hadvance
  rw [hstate]
  refine advance_induct
    (motive := fun p => ∃ x : K, ∀ k, Clock f k → p.state.get k = c.state.get k + of x)
    (fun _ htries ⟨x, hx⟩ => ?_) (fun _ _ hp => hp) ⟨0, fun k _ => (add_of_zero _).symm⟩
  cases htries with
  | @accepted tried hmakes _ =>
    obtain ⟨size, hsize⟩ := exists_of (K := K) _ hmakes.1.1
    have htried := hmakes.2
    rw [hsize] at htried
    refine ⟨x + size, fun k hk => ?_⟩
    rw [state_accept, clock_attempt htableau hk htried, hx k hk, add_of_add_of]

/-- **A step takes all clocks on by one number**, if its length is one. -/
theorem Method.shift_step {m : Method} {control : StepControl α} {dt : K}
    (h : m.step control f (of dt) c = (next, .ok ())) :
    ∃ x : K, ∀ k, Clock f k → next.state.get k = c.state.get k + of x := by
  unfold Method.step at h
  split at h
  · exact ⟨dt, fun k hk => (RungeKutta.clock_step hk h).2⟩
  · rename_i tableau htableau
    exact Adaptive.shift_step (Method.consistent htableau) h

end Shift

end FieldFlow
