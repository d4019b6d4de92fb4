import FieldFlow.Proofs.Run.Recorded
import FieldFlow.Proofs.System.BindPart
import FieldFlow.Proofs.System.Place
import FieldFlow.Proofs.System.Stretches

/-!
# Proofs/Run/Start — what a run has on record at its start

At every time that a run reaches, a dynamic field has its stretch of the state on record
(`Tracks.exists_stretch`). The first row is taken at the initial state, before any step is made, and
there the stretch is the field's initial value, repeated over its shape (`start_recorded`).
-/

namespace FieldFlow

variable {α : Type} [Scalar α]

section State

variable {sys : System α} {m : Model α} {y : Vector α sys.dimension} {row : Buffers α} {i : Nat}
  {slot : Slot α}

/-- A dynamic slot has its stretch of the state in the row at the state. -/
theorem getElem?_snapshot_dynamic (hw : sys.Wired) (hbound : System.Shaped sys.slots sys.bound)
    (hrow : sys.snapshot y = .ok row) (hslot : sys.slots[i]? = some slot)
    (hkind : slot.kind = .dynamic) :
    row[i]? = some ⟨.ofSlice slot.shape y.toArray (sys.start slot.name), true⟩ := by
  have hstretch := getElem?_evaluate_dynamic hw (System.Reached.bound.scratch hw hbound)
    (Nat.le_of_eq y.size_toArray.symm) hslot hkind
  rwa [System.snapshot_eq_ok_iff.1 hrow] at hstretch

/-- At a time that the rows reach, a dynamic slot has its stretch of the state on record. -/
theorem Tracks.exists_stretch
    {step : Cursor α sys.dimension → StepResult (Failure α) α sys.dimension}
    {start : Cursor α sys.dimension} {rows : Array (Buffers α)} {steps t : Nat}
    (hrows : Tracks sys step start rows) (hw : sys.Wired)
    (hbound : System.Shaped sys.slots sys.bound) (hslot : (i, slot) ∈ sys.dynamics)
    (ht : t < rows.size) (hsteps : t < steps) :
    ∃ c, stepsFrom step start t = some c ∧ (historyOf steps rows slot i).frame t =
      .ofSlice slot.shape c.state.toArray (sys.start slot.name) := by
  obtain ⟨hslot, hkind⟩ := System.mem_dynamics_iff.1 hslot
  obtain ⟨c, row, hrow, hc, hsnapshot⟩ := hrows.exists_row ht
  have hrecorded : t < slot.recordedSteps steps := by
    rw [Slot.recordedSteps, hkind]
    exact hsteps
  exact ⟨c, hc, FieldFlow.frame_historyOf hrecorded hrow
    (getElem?_snapshot_dynamic hw hbound hsnapshot hslot hkind) rfl⟩

/-- The stretch of a dynamic slot in the initial state is its initial value, repeated over its
shape. -/
theorem ofSlice_initialState (hw : sys.Wired) (hy : sys.initialState m = .ok y)
    (hslot : (i, slot) ∈ sys.dynamics) : ∃ given v,
      (m.field? slot.name).bind Field.initial = some given ∧ given.toTensor slot.name = .ok v ∧
        Tensor.ofSlice slot.shape y.toArray (sys.start slot.name) = v.expand slot.shape := by
  obtain ⟨span, here, hspan, ⟨given, v, hgiven, hv, hhere⟩, hstretch⟩ :=
    (initialValues_eq_ok_iff.1 hy).exists_stretch hslot
  refine ⟨given, v, hgiven, hv, Tensor.ext_data rfl ?_⟩
  have hin : sys.start slot.name + slot.shape.size ≤ y.toArray.size := by
    rw [Vector.size_toArray]
    exact System.start_add_le hw hslot
  obtain ⟨hstop, -⟩ := System.of_mem_spansFrom hspan
  obtain ⟨-, hdata⟩ := Tensor.flatTo_eq_ok_iff.1 hhere
  rw [hdata, Tensor.data_ofSlice hin, hstretch, hstop, System.start_eq hw hspan]

end State

/-- **At its start** a run has the initial value of every dynamic field on record, repeated over the
field's shape. -/
theorem start_recorded {m : Model α} {axes : RunAxes} {method : Method} {timeStep : α}
    {control : StepControl α} {outcome : Outcome α} {name : String} {f : Field α} {given : Value α}
    (hm : m.Evaluable) (h : integrate m axes method timeStep control = .ok outcome)
    (hf : m.field? name = some f) (hkind : f.kind = .dynamic) (hgiven : f.initial = some given) :
    ∃ history v, outcome.recording.field? name = some history ∧
      m.shapeOf f axes.runs axes.regions = .ok history.shape ∧ given.toTensor name = .ok v ∧
        history.frame 0 = v.expand history.shape := by
  obtain ⟨sys, initial, labels, track, hsetup, hrows, hends, rfl⟩ := integrate_eq_ok_iff.1 h
  have hbound := boundFrom_of_bind hsetup.bound
  have hw := hbound.wired hm
  obtain ⟨i, slot, hslot, rfl, hof⟩ := hbound.slot_of_field? hm hf
  have hdynamic : (i, slot) ∈ sys.dynamics :=
    System.mem_dynamics_iff.2 ⟨hslot, hof.kind.trans hkind⟩
  obtain ⟨given', v, hgiven', hv, hstretch⟩ := ofSlice_initialState hw hsetup.initial hdynamic
  rw [hf, Option.bind_some, hgiven] at hgiven'
  obtain rfl := Option.some.inj hgiven'
  obtain ⟨c, hc, hframe⟩ :=
    hrows.exists_stretch hw hbound.shaped hdynamic hrows.pos hsetup.steps
  obtain rfl := Option.some.inj hc
  exact ⟨_, v, get?_historiesOf hw.names hslot, hof.shape, hv, hframe.trans hstretch⟩

end FieldFlow
