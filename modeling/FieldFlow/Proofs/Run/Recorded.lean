import FieldFlow.Proofs.Run.Steps
import FieldFlow.Proofs.System.Consistency

/-!
# Proofs/Run/Recorded — what a run leaves on record

A run writes its history in two passes over the same buffers and can stop at any step. What stands
in row `t` in the end is still one thing: the state after `t` successful steps, with the algebraic
fields that solve their equations there (`Recorded.row`). Rows that were not reached hold no number,
and a divergence carries the index of the last row that was (`integrate_recorded`).
-/

namespace FieldFlow

variable {α : Type} [Scalar α]

/-- The value of a field at a time point; what does not change in time has one value for all of
them. -/
def Recording.value? (rec : Recording α) (name : String) (t : Nat) : Option (Tensor α) :=
  (rec.field? name).map fun h => h.frame (axisIndex h.steps t)

/-- **Values that solve a model at a state**: a dynamic field has its stretch of the state, an
algebraic field what its function gives for the values of its inputs, and all others have what was
bound. -/
structure Solves (m : Model α) (runs regions : Nat) (sys : System α) (x : Array α)
    (value : String → Option (Tensor α)) : Prop where
  dynamic : ∀ {name f}, m.field? name = some f → f.kind = .dynamic →
    ∃ span v, sys.span? name = some span ∧ v.data = x.extract span.start span.stop ∧
      m.shapeOf f runs regions = .ok v.shape ∧ value name = some v
  algebraic : ∀ {name f}, m.field? name = some f → f.kind = .algebraic →
    ∃ g values output shape v, f.function = some g ∧
      List.Forall₂ (fun input v => value input = some v) g.inputs values ∧
        g.apply values = .ok output ∧ m.shapeOf f runs regions = .ok shape ∧
          output.assignTo name shape = .ok v ∧ value name = some v
  settled : ∀ {name f}, m.field? name = some f → f.kind.isTimeVarying = false →
    ∃ v, value name = some v ∧ sys.value? sys.bound name = some v

/-- **What a run leaves on record**, in terms of the steps that it makes from its start. -/
structure Recorded (m : Model α) (axes : RunAxes) (sys : System α)
    (step : Cursor α sys.dimension → StepResult (Failure α) α sys.dimension)
    (start : Cursor α sys.dimension) (outcome : Outcome α) : Prop where
  inGrid : outcome.recording.lastValid < axes.steps
  complete_iff : outcome.divergence = none ↔ outcome.recording.lastValid = axes.steps - 1
  /-- A divergence carries the last valid index, and the next step is the one that failed. -/
  diverged : ∀ {e}, outcome.divergence = some e → outcome.recording.lastValid < axes.steps - 1 ∧
    ∃ c next began cause, stepsFrom step start outcome.recording.lastValid = some c ∧
      step c = (next, .error (.impasse began cause)) ∧
        e = .solverDivergence outcome.recording.lastValid began cause
  keys : outcome.recording.fields.keys = m.fields.keys
  /-- Every history has the time axis of its kind in front of the axes of its field. -/
  extent : ∀ {name f}, m.field? name = some f → ∃ h shape, outcome.recording.field? name = some h ∧
    m.shapeOf f axes.runs axes.regions = .ok shape ∧
      h.axes = (if f.kind.isTimeVarying then axes.steps else 1) :: shape.toList
  /-- A row that was reached is what any evaluation at its state gives, whatever the buffers held,
  and solves the model there. -/
  row : ∀ {t}, t ≤ outcome.recording.lastValid → ∃ c, stepsFrom step start t = some c ∧
    (∀ {before}, sys.Reached before → ∃ after, sys.evaluate c.state.toArray before = (after, .ok ()) ∧
      ∀ name, outcome.recording.value? name t = sys.value? after name) ∧
    Solves m axes.runs axes.regions sys c.state.toArray (outcome.recording.value? · t)
  unreached : ∀ {name f h}, m.field? name = some f → f.kind.isTimeVarying →
    outcome.recording.field? name = some h → ∀ {t x r i j}, outcome.recording.lastValid < t →
      t < axes.steps → h.shape.Contains x r i j → h.get t x r i j = Scalar.nan

/-! ## Rows -/

section Rows

variable {m : Model α} {runs regions : Nat} {sys : System α}
  {step : Cursor α sys.dimension → StepResult (Failure α) α sys.dimension}
  {start : Cursor α sys.dimension} {rows : Array (Buffers α)} {t : Nat} {row : Buffers α}

theorem Tracks.scratch (h : Tracks sys step start rows) (hw : sys.Wired)
    (hbound : System.Shaped sys.slots sys.bound) (hrow : rows[t]? = some row) :
    sys.Scratch row := by
  obtain ⟨c, -, hsnapshot⟩ := h.row hrow
  have hbound := System.Reached.bound.scratch hw hbound
  exact hbound.of_evaluate hw (System.snapshot_eq_ok_iff.1 hsnapshot)

/-- **The history of a slot at a row** is what stands in the row: the first row holds for all times
what does not change. -/
theorem Tracks.frame_historyOf (h : Tracks sys step start rows) (hw : sys.Wired)
    (hbound : System.Shaped sys.slots sys.bound) {steps i : Nat} {slot : Slot α}
    (hslot : sys.slots[i]? = some slot) (hsteps : rows.size ≤ steps) (hrow : rows[t]? = some row) :
    ∃ b, row[i]? = some b ∧ (historyOf steps rows slot i).frame
      (axisIndex (slot.recordedSteps steps) t) = b.value := by
  have hscratch := h.scratch hw hbound hrow
  obtain ⟨b, hb⟩ := hscratch.toFits.exists_buffer hslot
  have ht : t < steps := Nat.lt_of_lt_of_le (Array.getElem?_eq_some_iff.1 hrow).1 hsteps
  refine ⟨b, hb, ?_⟩
  cases hkind : slot.kind.isTimeVarying with
  | true =>
    have hrecorded : slot.recordedSteps steps = steps := by rw [Slot.recordedSteps, if_pos hkind]
    have hin : t < slot.recordedSteps steps := by rwa [hrecorded]
    rw [hrecorded, axisIndex_of_lt ht]
    exact FieldFlow.frame_historyOf hin hrow hb (hscratch.shape hslot hb)
  | false =>
    have hrecorded : slot.recordedSteps steps = 1 := by simp [Slot.recordedSteps, hkind]
    obtain ⟨-, first, hfirst, -⟩ := h.exists_row h.pos
    have hsame : first[i]? = some b := by
      rw [(h.scratch hw hbound hfirst).settled hslot hkind, ← hscratch.settled hslot hkind, hb]
    have hin : 0 < slot.recordedSteps steps := by
      rw [hrecorded]
      exact Nat.one_pos
    rw [hrecorded, axisIndex, if_pos rfl]
    exact FieldFlow.frame_historyOf hin hfirst hsame (hscratch.shape hslot hb)

omit [Scalar α] in
/-- What is found under a name is the current value of the slot of that name. -/
theorem System.of_value?_eq_some {buffers : Buffers α} {name : String} {v : Tensor α}
    (h : sys.value? buffers name = some v) :
    ∃ (i : Nat) (slot : Slot α), sys.slots[i]? = some slot ∧ slot.name = name := by
  obtain ⟨⟨slot, v⟩, hfind, -⟩ := Option.map_eq_some_iff.1 h
  have hname := List.find?_some hfind
  have hmem := List.of_mem_zip (List.mem_of_find?_eq_some hfind)
  obtain ⟨i, hi⟩ := List.mem_iff_getElem?.1 hmem.1
  exact ⟨i, slot, by simpa using hi, by simpa using hname⟩

/-- **The recorded values of a row** are the values in the row. -/
theorem Tracks.value?_eq (h : Tracks sys step start rows) (hw : sys.Wired)
    (hbound : System.Shaped sys.slots sys.bound) {steps : Nat} (hsteps : rows.size ≤ steps)
    (hrow : rows[t]? = some row) (name : String) :
    ((historiesOf sys steps rows).get? name).map (fun h => h.frame (axisIndex h.steps t)) =
      sys.value? row name := by
  refine Option.ext fun v => ?_
  have hslot : ∀ {i : Nat} {slot : Slot α}, sys.slots[i]? = some slot →
      ((historiesOf sys steps rows).get? slot.name).map (fun h => h.frame (axisIndex h.steps t)) =
        sys.value? row slot.name := by
    intro i slot hslot
    obtain ⟨b, hb, hframe⟩ := h.frame_historyOf hw hbound hslot hsteps hrow
    rw [get?_historiesOf hw.names hslot, Option.map_some,
      System.value?_eq_some hw (h.scratch hw hbound hrow).size hslot hb]
    exact congrArg some hframe
  constructor
  · intro hv
    obtain ⟨history, hhistory, -⟩ := Option.map_eq_some_iff.1 hv
    obtain ⟨i, slot, hget, rfl, -⟩ := of_get?_historiesOf hhistory
    rwa [← hslot hget]
  · intro hv
    obtain ⟨i, slot, hget, rfl⟩ := System.of_value?_eq_some hv
    rwa [hslot hget]

/-- Consistent buffers solve the model. -/
theorem Consistent.solves (hm : m.Evaluable) (hbound : BoundFrom m runs regions sys) {x : Array α}
    (h : Consistent m runs regions sys x row) : Solves m runs regions sys x (sys.value? row) where
  dynamic := h.dynamic
  algebraic := h.algebraic
  settled := fun {name f} hf hkind => by
    obtain ⟨i, slot, hslot, rfl, -⟩ := hbound.slot_of_field? hm hf
    obtain ⟨b, hb⟩ := hbound.shaped.exists_buffer hslot
    have hv := System.value?_eq_some (hbound.wired hm) hbound.shaped.size hslot hb
    exact ⟨b.value, (h.settled hf hkind).trans hv, hv⟩

/-- **What is recorded at a row** is what any evaluation at its state gives, and solves the
model. -/
theorem Tracks.exists_evaluated (h : Tracks sys step start rows) (hm : m.Evaluable)
    (hbound : BoundFrom m runs regions sys) {steps : Nat} (hsteps : rows.size ≤ steps)
    (ht : t < rows.size) : ∃ c, stepsFrom step start t = some c ∧
      (∀ {before}, sys.Reached before → ∃ after,
        sys.evaluate c.state.toArray before = (after, .ok ()) ∧ ∀ name,
          ((historiesOf sys steps rows).get? name).map (fun h => h.frame (axisIndex h.steps t)) =
            sys.value? after name) ∧
      Solves m runs regions sys c.state.toArray fun name =>
        ((historiesOf sys steps rows).get? name).map fun h => h.frame (axisIndex h.steps t) := by
  have hw := hbound.wired hm
  obtain ⟨c, row, hrow, hc, hsnapshot⟩ := h.exists_row ht
  have hscratch := System.Reached.bound.scratch hw hbound.shaped
  have hx : sys.dimension ≤ c.state.toArray.size := Nat.le_of_eq c.state.size_toArray.symm
  have hevaluate := System.snapshot_eq_ok_iff.1 hsnapshot
  have hvalue := h.value?_eq hw hbound.shaped hsteps hrow
  refine ⟨c, hc, fun {before} hbefore => ⟨row, ?_, hvalue⟩, ?_⟩
  · rw [System.evaluate_eq hw (hbefore.scratch hw hbound.shaped) hscratch hx, hevaluate]
  · have hsolves := (consistent_of_evaluate hm hbound hscratch hx hevaluate).solves hm hbound
    exact (funext hvalue : _ = sys.value? row) ▸ hsolves

end Rows

/-! ## Runs -/

section Run

variable {m : Model α} {axes : RunAxes} {method : Method} {timeStep : α} {control : StepControl α}

/-- **What is on record is what was computed** — a run that returns an outcome has recorded, up to
its last valid index, the states of its successful steps with everything that follows from them, and
no number behind it; it reports a divergence exactly when that index is not the last of the grid. -/
theorem integrate_recorded {registry : Registry α} {d : Description α} {outcome : Outcome α}
    (hm : m.InUse registry d) (h : integrate m axes method timeStep control = .ok outcome) :
    ∃ sys initial, m.bind axes.runs axes.regions = .ok sys ∧ sys.initialState m = .ok initial ∧
      Recorded m axes sys (sys.step method control timeStep) (startOf m initial) outcome := by
  obtain ⟨sys, initial, labels, track, hsetup, htrack, hends, rfl⟩ := integrate_eq_ok_iff.1 h
  have hm := hm.evaluable
  have hbound := boundFrom_of_bind hsetup.bound
  have hw := hbound.wired hm
  have hpos := htrack.pos
  have hsteps := hends.reached_le
  have hlast : (outcomeOf sys axes method timeStep labels track).recording.lastValid =
      track.rows.size - 1 := rfl
  have hfield : ∀ {i : Nat} {slot : Slot α}, sys.slots[i]? = some slot →
      (outcomeOf sys axes method timeStep labels track).recording.field? slot.name =
        some (historyOf axes.steps track.rows slot i) := fun hslot => get?_historiesOf hw.names hslot
  refine ⟨sys, initial, hsetup.bound, hsetup.initial, ?_⟩
  exact {
    inGrid := by omega
    complete_iff := by
      change track.divergence = none ↔ track.rows.size - 1 = axes.steps - 1
      rw [hends.eq_none_iff]
      omega
    diverged := fun {e} he => by
      have he : track.divergence = some e := he
      rw [he] at hends
      obtain ⟨hlt, hfails⟩ := hends.of_some
      exact ⟨by omega, hfails⟩
    keys := (keys_historiesOf hw.names).trans (hbound.names hm)
    extent := fun {name f} hf => by
      obtain ⟨i, slot, hslot, rfl, hof⟩ := hbound.slot_of_field? hm hf
      refine ⟨_, slot.shape, hfield hslot, hof.shape, ?_⟩
      rw [← hof.kind]
      rfl
    row := fun {t} ht => htrack.exists_evaluated hm hbound hsteps (by omega)
    unreached := fun {name f h} hf hkind hh {t x r i j} ht hin hplace => by
      obtain ⟨i, slot, hslot, rfl, hof⟩ := hbound.slot_of_field? hm hf
      obtain rfl := Option.some.inj ((hfield hslot).symm.trans hh)
      have hrecorded : slot.recordedSteps axes.steps = axes.steps := by
        rw [Slot.recordedSteps, hof.kind, if_pos hkind]
      have hin : t < slot.recordedSteps axes.steps := by rwa [hrecorded]
      exact get_historyOf_of_le hin (by omega) hplace }

end Run

/-- Growth under a control that allows no step as short as the grid asks for. -/
def growth.halted (m : Model Float) : Except (Failure Float) (Outcome Float) :=
  integrate m ⟨3, 1, 1⟩ .rk45 0.5 ⟨0.001, 0.001, 1.0, 4⟩

/-- It is given up at the first step, with the start on record. -/
theorem growth_recorded : ∃ m outcome sys initial, load .standard growth = .ok m ∧
    growth.halted m = .ok outcome ∧ outcome.recording.lastValid = 0 ∧
    outcome.divergence.isSome ∧ sys.initialState m = .ok initial ∧
    Recorded m ⟨3, 1, 1⟩ sys (sys.step .rk45 ⟨0.001, 0.001, 1.0, 4⟩ 0.5) (startOf m initial)
      outcome := by
  have hruns : ((load .standard growth).toOption.bind fun m =>
      (growth.halted m).toOption.map fun outcome =>
        (outcome.recording.lastValid, outcome.divergence.isSome)) = some (0, true) := by
    decide +kernel
  obtain ⟨m, hm, h⟩ := Option.bind_eq_some_iff.1 hruns
  obtain ⟨outcome, houtcome, h⟩ := Option.map_eq_some_iff.1 h
  obtain ⟨hlast, hdivergence⟩ := Prod.mk.inj h
  have hm := toOption_eq_some_iff.1 hm
  have houtcome := toOption_eq_some_iff.1 houtcome
  obtain ⟨sys, initial, -, hinitial, hrecorded⟩ := integrate_recorded (.loaded hm) houtcome
  exact ⟨m, outcome, sys, initial, hm, houtcome, hlast, hdivergence, hinitial, hrecorded⟩

end FieldFlow
