import FieldFlow.Solver.RungeKutta
import Mathlib.Data.List.FinRange

/-!
# Proofs/Solver/InPlace — the fourth-order step with buffers that are used again

A solver that takes many steps keeps the room it works in: a buffer for each slope, and one for the
points of the later stages, which are written into it one after another. Every place of a buffer is
written before it is read, so a step is the same whatever the buffers held before
(`stepInPlace_eq_step`).
-/

namespace FieldFlow.RungeKutta

variable {ε α : Type} {n : Nat}

/-- **The buffers of a solver**: the four slopes, and the point of the stage at hand. -/
structure Workspace (α : Type) (n : Nat) where
  k₁ : Vector α n
  k₂ : Vector α n
  k₃ : Vector α n
  k₄ : Vector α n
  point : Vector α n

/-- Writes every place of a buffer in turn, by its index and what it holds. -/
def overwrite (g : Fin n → α → α) (v : Vector α n) : Vector α n :=
  (List.finRange n).foldl (fun v (i : Fin n) => v.set i (g i (v.get i)) i.isLt) v

/-- **One step of fixed size in place.** It moves the state only when all four slopes are there, and
leaves the buffers as the last slope that it took found them. -/
def stepInPlace [Scalar α] (f : Rate ε α n) (dt : α) (w : Workspace α n) (c : Cursor α n) :
    Workspace α n × StepResult ε α n :=
  let half : α := Scalar.half
  let sixth : α := Scalar.ofQuot 1 6
  let two : α := Scalar.two
  match f c.time c.state with
  | .error e => (w, c, .error (.system e))
  | .ok k₁ =>
    let point := overwrite (fun i _ => c.state.get i + dt * k₁.get i * half) w.point
    let w := { w with k₁ := k₁, point := point }
    match f (c.time + dt * half) w.point with
    | .error e => (w, c, .error (.system e))
    | .ok k₂ =>
      let point := overwrite (fun i _ => c.state.get i + dt * k₂.get i * half) w.point
      let w := { w with k₂ := k₂, point := point }
      match f (c.time + dt * half) w.point with
      | .error e => (w, c, .error (.system e))
      | .ok k₃ =>
        let point := overwrite (fun i _ => c.state.get i + dt * k₃.get i) w.point
        let w := { w with k₃ := k₃, point := point }
        match f (c.time + dt) w.point with
        | .error e => (w, c, .error (.system e))
        | .ok k₄ =>
          let w := { w with k₄ := k₄ }
          let state := overwrite (fun i a => a + dt * sixth *
            (w.k₁.get i + two * w.k₂.get i + two * w.k₃.get i + w.k₄.get i)) c.state
          (w, { c with time := c.time + dt, state := state }, .ok ())

/-- **Steps one after another** in the same buffers, up to one that fails. -/
def stepsInPlace [Scalar α] (f : Rate ε α n) (dt : α) :
    Nat → Workspace α n → Cursor α n → Workspace α n × StepResult ε α n
  | 0, w, c => (w, c, .ok ())
  | k + 1, w, c =>
    match stepInPlace f dt w c with
    | (w, next, .ok ()) => stepsInPlace f dt k w next
    | failed => failed

/-! ## What is written before it is read -/

theorem get_set (v : Vector α n) (i j : Fin n) (a : α) :
    (v.set i a i.isLt).get j = if i = j then a else v.get j := by
  simp only [Fin.ext_iff]
  exact Vector.getElem_set i.isLt j.isLt

/-- Places that are written once each hold what is written, from what they held before. -/
theorem get_foldl_set (g : Fin n → α → α) {places : List (Fin n)} (hnodup : places.Nodup)
    (v : Vector α n) (j : Fin n) :
    (places.foldl (fun v (i : Fin n) => v.set i (g i (v.get i)) i.isLt) v).get j =
      if j ∈ places then g j (v.get j) else v.get j := by
  induction places generalizing v with
  | nil => rfl
  | cons i places ih =>
    obtain ⟨hi, hnodup⟩ := List.nodup_cons.1 hnodup
    rw [List.foldl_cons, ih hnodup, get_set]
    by_cases hij : i = j
    · subst hij
      rw [if_pos rfl, if_neg hi, if_pos List.mem_cons_self]
    · simp only [if_neg hij, List.mem_cons, Ne.symm hij, false_or]

theorem overwrite_eq (g : Fin n → α → α) (v : Vector α n) :
    overwrite g v = Vector.ofFn fun i => g i (v.get i) := by
  ext i hi
  have hplace := get_foldl_set g (List.nodup_finRange n) v ⟨i, hi⟩
  rw [if_pos (List.mem_finRange _)] at hplace
  rw [Vector.getElem_ofFn]
  exact hplace

theorem ofFn_eq_zipWith {β γ : Type} (g : α → β → γ) (y : Vector α n) (k : Vector β n) :
    (Vector.ofFn fun i => g (y.get i) (k.get i)) = y.zipWith g k := by
  ext i hi
  rw [Vector.getElem_ofFn, Vector.getElem_zipWith]
  rfl

variable [Scalar α]

/-- **What the buffers held makes no difference**: a step in place is a step.  Both take the same
four slopes, and stop at the first that is not there. -/
theorem stepInPlace_eq_step (f : Rate ε α n) (dt : α) (w : Workspace α n) (c : Cursor α n) :
    (stepInPlace f dt w c).2 = step f dt c := by
  have hmiddle (k : Vector α n) :
    (Vector.ofFn fun i => c.state.get i + dt * k.get i * Scalar.half) =
      c.state.zipWith (fun a k => a + dt * k * Scalar.half) k :=
    ofFn_eq_zipWith (fun a k => a + dt * k * Scalar.half) c.state k
  have hend (k : Vector α n) : (Vector.ofFn fun i => c.state.get i + dt * k.get i) =
      c.state.zipWith (fun a k => a + dt * k) k :=
    ofFn_eq_zipWith (fun a k => a + dt * k) c.state k
  unfold stepInPlace step advance
  simp only [overwrite_eq, hmiddle, hend, bind, Except.bind, pure, Except.pure]
  cases f c.time c.state with
  | error e => rfl
  | ok k₁ =>
    dsimp only
    cases f (c.time + dt * Scalar.half)
      (c.state.zipWith (fun a k => a + dt * k * Scalar.half) k₁) with
    | error e => rfl
    | ok k₂ =>
      dsimp only
      cases f (c.time + dt * Scalar.half)
        (c.state.zipWith (fun a k => a + dt * k * Scalar.half) k₂) with
      | error e => rfl
      | ok k₃ =>
        dsimp only
        cases f (c.time + dt) (c.state.zipWith (fun a k => a + dt * k) k₃) with
        | error e => rfl
        | ok k₄ => rfl

end FieldFlow.RungeKutta
