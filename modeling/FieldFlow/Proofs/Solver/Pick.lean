import FieldFlow.Proofs.Outcome
import FieldFlow.Solver.RungeKutta

/-!
# Proofs/Solver/Pick — a step of fixed size moves every place of the state on its own

The fourth-order step combines slopes place by place. Where a second system has the slopes that some
places of a first one have, it makes the steps that those places make (`RungeKutta.advance_pick`).
-/

namespace FieldFlow

variable {ε ε' α : Type} {n k : Nat}

/-- **Some places of a state**, in a new order. -/
def pick (φ : Fin k → Fin n) (y : Vector α n) : Vector α k := Vector.ofFn fun i => y[φ i]

@[simp] theorem getElem_pick (φ : Fin k → Fin n) (y : Vector α n) (i : Nat) (hi : i < k) :
    (pick φ y)[i] = y[φ ⟨i, hi⟩] := Vector.getElem_ofFn hi

@[simp] theorem get_pick (φ : Fin k → Fin n) (y : Vector α n) (i : Fin k) :
    (pick φ y).get i = y.get (φ i) := getElem_pick φ y i i.isLt

@[simp] theorem pick_id (y : Vector α n) : pick id y = y := by
  ext i hi
  exact getElem_pick id y i hi

theorem pick_zipWith {β γ : Type} (φ : Fin k → Fin n) (f : α → β → γ) (y : Vector α n)
    (z : Vector β n) : pick φ (y.zipWith f z) = (pick φ y).zipWith f (pick φ z) := by
  ext i hi
  rw [getElem_pick, Vector.getElem_zipWith, getElem_pick, getElem_pick]
  exact Vector.getElem_zipWith _

/-- The second system has the slopes of the first at the picked places. -/
def Follows (φ : Fin k → Fin n) (f : Rate ε α n) (g : Rate ε' α k) : Prop :=
  ∀ t t' y slope, f t y = .ok slope → g t' (pick φ y) = .ok (pick φ slope)

/-- Slopes that do not depend on time follow themselves. -/
theorem follows_id (f : Vector α n → Except ε (Vector α n)) :
    Follows id (fun _ y => f y) fun _ y => f y := by
  intro _ _ y slope hslope
  rwa [pick_id, pick_id]

namespace RungeKutta

variable [Scalar α] {φ : Fin k → Fin n} {f : Rate ε α n} {g : Rate ε' α k}

/-- **A step of the picked places is the picked places of the step.** -/
theorem advance_pick (h : Follows φ f g) {t dt : α} (t' : α) {y z : Vector α n}
    (hadvance : advance f t y dt = .ok z) : advance g t' (pick φ y) dt = .ok (pick φ z) := by
  obtain ⟨k₁, h₁, hadvance⟩ := bind_eq_ok_iff.1 hadvance
  obtain ⟨k₂, h₂, hadvance⟩ := bind_eq_ok_iff.1 hadvance
  obtain ⟨k₃, h₃, hadvance⟩ := bind_eq_ok_iff.1 hadvance
  obtain ⟨k₄, h₄, hadvance⟩ := bind_eq_ok_iff.1 hadvance
  obtain rfl := pure_eq_ok_iff.1 hadvance
  have h₁' := h t t' y k₁ h₁
  have h₂' := h _ (t' + dt * Scalar.half) _ k₂ h₂
  have h₃' := h _ (t' + dt * Scalar.half) _ k₃ h₃
  have h₄' := h _ (t' + dt) _ k₄ h₄
  rw [pick_zipWith] at h₂' h₃' h₄'
  refine bind_eq_ok_iff.2 ⟨_, h₁', bind_eq_ok_iff.2 ⟨_, h₂', bind_eq_ok_iff.2 ⟨_, h₃',
    bind_eq_ok_iff.2 ⟨_, h₄', pure_eq_ok_iff.2 ?_⟩⟩⟩⟩
  ext i hi
  simp only [Vector.getElem_ofFn, getElem_pick, get_pick, Fin.getElem_fin]

theorem step_eq_ok_iff {c next : Cursor α n} {dt : α} : step f dt c = (next, .ok ()) ↔
    ∃ state, advance f c.time c.state dt = .ok state ∧
      { c with time := c.time + dt, state := state } = next := by
  unfold step
  cases advance f c.time c.state dt <;> simp

/-- A step from picked places ends at picked places. -/
theorem step_pick (h : Follows φ f g) {c next : Cursor α n} {dt : α} {c' : Cursor α k}
    (hstate : c'.state = pick φ c.state) (hstep : step f dt c = (next, .ok ())) :
    ∃ next', step g dt c' = (next', .ok ()) ∧ next'.state = pick φ next.state := by
  obtain ⟨state, hadvance, rfl⟩ := step_eq_ok_iff.1 hstep
  have hadvance' := advance_pick h c'.time hadvance
  rw [← hstate] at hadvance'
  exact ⟨_, step_eq_ok_iff.2 ⟨_, hadvance', rfl⟩, rfl⟩

end RungeKutta

end FieldFlow
