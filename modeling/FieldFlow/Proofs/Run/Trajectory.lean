import FieldFlow.Proofs.Run.Start

/-!
# Proofs/Run/Trajectory — dynamic fields on record are places of the state

At every time that a run has reached, a dynamic field has on record its stretch of the state that so
many steps lead to (`dynamic_recorded`). What is to be said of the field at all times is therefore
said of a cursor, and carried from step to step (`stepsFrom_induct`).
-/

namespace FieldFlow

/-- **What every successful step keeps**, with the number of steps, holds of every cursor that steps
lead to. -/
theorem stepsFrom_induct {ε α : Type} {n : Nat} {step : Cursor α n → StepResult ε α n}
    {start : Cursor α n} {motive : Nat → Cursor α n → Prop} (hstart : motive 0 start)
    (hstep : ∀ {t c next}, motive t c → step c = (next, .ok ()) → motive (t + 1) next) {t : Nat}
    {c : Cursor α n} (h : stepsFrom step start t = some c) : motive t c := by
  induction t generalizing c with
  | zero => exact Option.some.inj h ▸ hstart
  | succ t ih =>
    obtain ⟨before, hbefore, hnext⟩ := stepsFrom_succ_eq_some_iff.1 h
    exact hstep (ih hbefore) hnext

variable {α : Type} [Scalar α]

/-- The elements of a stretch stand behind its beginning. -/
theorem Tensor.get_ofSlice_eq {s : Shape} {n : Nat} {y : Vector α n} {o x r i j : Nat} {k : Fin n}
    (hin : o + s.size ≤ n) (h : s.Contains x r i j) (hk : o + s.position x r i j = k) :
    (ofSlice s y.toArray o).get x r i j = y.get k := by
  have hposition := s.position_lt h
  have hplace : (ofSlice s y.toArray o).data[s.position x r i j]? =
      some ((ofSlice s y.toArray o).get x r i j) :=
    getElem?_position h
  rw [data_ofSlice (by rwa [Vector.size_toArray]), Array.getElem?_extract, if_pos (by simp; omega),
    hk, Vector.getElem?_toArray, Vector.getElem?_eq_some_iff] at hplace
  exact hplace.2.symm

/-- **A dynamic field on record**: up to the last valid index, what it has on record at a place is
what stands at one place of the state that so many steps lead to. -/
structure Recording.Follows (rec : Recording α) (sys : System α)
    (step : Cursor α sys.dimension → StepResult (Failure α) α sys.dimension)
    (start : Cursor α sys.dimension) (slot : Slot α) (history : History α) : Prop where
  field : rec.field? slot.name = some history
  shape : history.shape = slot.shape
  place : ∀ {x r i j}, slot.shape.Contains x r i j → ∃ k : Fin sys.dimension,
    sys.start slot.name + slot.shape.position x r i j = k ∧ ∀ t ≤ rec.lastValid, ∃ c,
      stepsFrom step start t = some c ∧ c.state.get k = history.get t x r i j

/-- **Every dynamic field follows the state.** -/
theorem dynamic_recorded {m : Model α} {axes : RunAxes} {method : Method} {timeStep : α}
    {control : StepControl α} {outcome : Outcome α} (hm : m.Evaluable)
    (h : integrate m axes method timeStep control = .ok outcome) :
    ∃ sys initial, m.bind axes.runs axes.regions = .ok sys ∧ sys.initialState m = .ok initial ∧
      ∀ name f, m.field? name = some f → f.kind = .dynamic → ∃ i slot history,
        (i, slot) ∈ sys.dynamics ∧ slot.name = name ∧ SlotOf m axes.runs axes.regions i f slot ∧
          outcome.recording.Follows sys (sys.step method control timeStep) (startOf m initial) slot
            history := by
  obtain ⟨sys, initial, labels, track, hsetup, hrows, hends, rfl⟩ := integrate_eq_ok_iff.1 h
  have hbound := boundFrom_of_bind hsetup.bound
  have hw := hbound.wired hm
  refine ⟨sys, initial, hsetup.bound, hsetup.initial, fun name f hf hkind => ?_⟩
  obtain ⟨i, slot, hslot, rfl, hof⟩ := hbound.slot_of_field? hm hf
  have hdynamic : (i, slot) ∈ sys.dynamics :=
    System.mem_dynamics_iff.2 ⟨hslot, hof.kind.trans hkind⟩
  have hplaces := System.start_add_le hw hdynamic
  refine ⟨i, slot, _, hdynamic, rfl, hof, get?_historiesOf hw.names hslot, rfl, fun hin => ?_⟩
  refine ⟨⟨_, Nat.lt_of_lt_of_le (Nat.add_lt_add_left (slot.shape.position_lt hin) _) hplaces⟩,
    rfl, fun t ht => ?_⟩
  have ht : t < track.rows.size := Nat.lt_of_le_pred hrows.pos ht
  obtain ⟨c, hc, hframe⟩ :=
    hrows.exists_stretch hw hbound.shaped hdynamic ht (Nat.lt_of_lt_of_le ht hends.reached_le)
  refine ⟨c, hc, ?_⟩
  rw [← Tensor.get_ofSlice_eq hplaces hin rfl, ← hframe]
  exact History.get_frame hin

end FieldFlow
