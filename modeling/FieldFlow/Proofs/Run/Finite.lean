import FieldFlow.Proofs.Run.Trajectory
import FieldFlow.Proofs.Scalar.Exact
import FieldFlow.Proofs.Solver.Finite

/-!
# Proofs/Run/Finite — adaptive runs record finite states

The initial state of a run is put together from the initial values of its dynamic fields
(`allFinite_initialState`). Where those are finite, every state that adaptive steps lead to is, and
so is whatever a dynamic field has on record (`adaptive_finite`).
-/

namespace FieldFlow

variable {α : Type} [Scalar α]

/-! ## The initial state -/

/-- Repeating a tensor along its axes adds no element. -/
theorem Tensor.mem_data_of_mem_expand {t : Tensor α} {s : Shape} (h : t.shape.expandsTo s = true)
    {a : α} (ha : a ∈ (t.expand s).data) : a ∈ t.data := by
  obtain ⟨hruns, hregions, hrows, hcolumns⟩ := Shape.expandsTo_iff.1 h
  obtain ⟨k, rfl⟩ := Array.mem_ofFn.1 ha
  obtain ⟨hx, hr, hi, hj⟩ := s.contains_at k.isLt
  have hin : t.shape.Contains (axisIndex t.shape.runs (s.runAt k))
      (axisIndex t.shape.regions (s.regionAt k)) (axisIndex t.shape.sectorA (s.rowAt k))
      (axisIndex t.shape.sectorB (s.columnAt k)) :=
    ⟨axisIndex_lt hruns hx, axisIndex_lt hregions hr, axisIndex_lt hrows hi,
      axisIndex_lt hcolumns hj⟩
  exact Array.mem_of_getElem? (getElem?_position hin)

omit [Scalar α] in
/-- What holds of every element of the stretches holds of every element of a state that is gathered
from them. -/
theorem Gathers.forall_mem {P : (i : Nat) → (slot : Slot α) → Vector α slot.shape.size → Prop}
    {Q : α → Prop} {slots : List (Nat × Slot α)} {v : Vector α (stateSize slots)}
    (h : Gathers P slots v) (hP : ∀ {i slot here}, (i, slot) ∈ slots → P i slot here →
      ∀ a ∈ here.toArray, Q a) : ∀ a ∈ v.toArray, Q a := by
  induction h with
  | nil => exact fun a ha => absurd ha (Array.not_mem_empty a)
  | @cons i slot rest here others hhere _ ih =>
    intro a ha
    rw [Vector.toArray_append] at ha
    rcases Array.mem_append.1 ha with ha | ha
    · exact hP List.mem_cons_self hhere a ha
    · exact ih (fun hmem => hP (List.mem_cons_of_mem _ hmem)) a ha

/-- A model whose dynamic fields start from finite values. -/
def Model.StartsFinite (m : Model α) : Prop :=
  ∀ f ∈ m.fields.values, f.kind = .dynamic →
    ∀ given ∈ f.initial, ∀ t ∈ (given.toTensor f.name).toOption, AllFinite t.data

instance (m : Model α) : Decidable m.StartsFinite :=
  inferInstanceAs (Decidable (∀ f ∈ m.fields.values, f.kind = .dynamic →
    ∀ given ∈ f.initial, ∀ t ∈ (given.toTensor f.name).toOption, AllFinite t.data))

theorem allFinite_initialState {m : Model α} {runs regions : Nat} {sys : System α}
    {initial : Vector α sys.dimension} (hm : m.Evaluable) (hbound : BoundFrom m runs regions sys)
    (hstart : m.StartsFinite) (h : sys.initialState m = .ok initial) :
    AllFinite initial.toArray := by
  refine (initialValues_eq_ok_iff.1 h).forall_mem ?_
  rintro i slot here hmem ⟨given, t, hgiven, ht, hhere⟩ a ha
  obtain ⟨hslot, hkind⟩ := System.mem_dynamics_iff.1 hmem
  obtain ⟨f, hf, -, hof⟩ := hbound.field?_of_slot hm hslot
  rw [hf, Option.bind_some] at hgiven
  obtain ⟨hexpands, hdata⟩ := Tensor.flatTo_eq_ok_iff.1 hhere
  rw [← hdata] at ha
  have hvalue : f ∈ m.fields.values := OrderedMap.mem_values_iff.2 ⟨slot.name, hf⟩
  rw [hof.name] at ht
  exact hstart f hvalue (hof.kind.symm.trans hkind) given hgiven t (toOption_eq_some_iff.2 ht) a
    (Tensor.mem_data_of_mem_expand hexpands ha)

/-! ## Runs -/

section Run

variable {m : Model α} {axes : RunAxes} {method : Method} {timeStep : α} {control : StepControl α}

/-- A step of an adaptive method keeps a state finite. -/
theorem System.allFinite_step (hinfinite : Scalar.le (Scalar.infinity : α) Scalar.one = false)
    {sys : System α} {tableau : Tableau} (hmethod : method.tableau? = some tableau)
    {c : Cursor α sys.dimension} (h : AllFinite c.state.toArray) :
    AllFinite (sys.step method control timeStep c).1.state.toArray := by
  rw [System.step, Method.step, hmethod]
  exact Adaptive.allFinite_step hinfinite h

/-- **Adaptive solvers let nothing through that is not finite**, as long as an infinite error is
more than one — whatever the systems return, a finite state is finite after any number of steps,
successful or not; and in an adaptive run from finite initial values the dynamic fields have finite
values on record at every time up to the last valid one. -/
theorem adaptive_finite (hinfinite : Scalar.le (Scalar.infinity : α) Scalar.one = false) :
    (∀ (ε : Type) (n : Nat) (tableau : Tableau) (control : StepControl α) (start c : Cursor α n),
      AllFinite start.state.toArray → Adaptive.Led ε tableau control start c →
        AllFinite c.state.toArray) ∧
    ∀ (registry : Registry α) (d : Description α) (m : Model α) (axes : RunAxes) (method : Method)
      (timeStep : α) (control : StepControl α) (outcome : Outcome α), m.InUse registry d →
      method.tableau?.isSome → m.StartsFinite →
      integrate m axes method timeStep control = .ok outcome →
        ∀ name f history, m.field? name = some f → f.kind = .dynamic →
          outcome.recording.field? name = some history → ∀ t ≤ outcome.recording.lastValid,
            ∀ x r i j, history.shape.Contains x r i j →
              Scalar.isFinite (history.get t x r i j) = true := by
  constructor
  · intro ε n tableau control start c hstart hled
    exact hled.allFinite hinfinite hstart
  · intro registry d m axes method timeStep control outcome hm hmethod hstart h name f history hf
      hkind hhistory t ht x r i j hin
    obtain ⟨tableau, hmethod⟩ := Option.isSome_iff_exists.1 hmethod
    obtain ⟨sys, initial, hbind, hinitial, hrecorded⟩ := dynamic_recorded hm.evaluable h
    have hbound := boundFrom_of_bind hbind
    obtain ⟨own, slot, history', -, rfl, -, hfollows⟩ := hrecorded name f hf hkind
    obtain rfl := Option.some.inj (hhistory.symm.trans hfollows.field)
    obtain ⟨k, -, hplace⟩ := hfollows.place (hfollows.shape ▸ hin)
    obtain ⟨c, hc, hk⟩ := hplace t ht
    have hfinite : AllFinite c.state.toArray := by
      refine stepsFrom_induct (motive := fun _ c => AllFinite c.state.toArray)
        (allFinite_initialState hm.evaluable hbound hstart hinitial)
        (fun {t c next} hc hnext => ?_) hc
      have hstep : AllFinite (sys.step method control timeStep c).1.state.toArray :=
        System.allFinite_step hinfinite hmethod hc
      rwa [hnext] at hstep
    exact hk ▸ hfinite.getElem k.isLt

end Run

/-! ## A rate with a gap -/

/-- The time that is left until two. -/
def gap.ahead : Expression Rough := .binary .sub (.number (.of 2)) (.input "time")

/-- A height that grows at rate one, by a quotient that has no value at time two. -/
def gap : Description Rough where
  name := "gap"
  differential := .ofList
    [("height", ⟨[("func", .function ((Expression.binary .div gap.ahead gap.ahead).toFunction
        ["time"])),
      ("initial", .value (.scalar (.of 0)))]⟩)]

/-- A run to the third time point in unit steps. -/
def gap.run (m : Model Rough) : Except (Failure Rough) (Outcome Rough) :=
  integrate m ⟨3, 1, 1⟩ .rk23 (.of 1) ⟨.of 1, .of 1, .of (1 / 10), 3⟩

/-- A rate that is never a number. -/
def gap.numberless : Rate Empty Rough 1 := fun _ _ => .ok #v[Scalar.nan]

/-- A height of zero. -/
def gap.ground : Cursor Rough 1 where
  time := .of 0
  state := #v[.of 0]

/-- An adaptive run comes to the gap and gives up in front of it, with finite heights on record; and
where no slope is a number, a step leaves the state that it began with. -/
theorem gap_finite : ∃ m outcome history, m.InUse .empty gap ∧ m.StartsFinite ∧
    gap.run m = .ok outcome ∧ outcome.divergence.isSome ∧ outcome.recording.lastValid = 1 ∧
    outcome.recording.field? "height" = some history ∧
    (∀ t ≤ 1, Scalar.isFinite (history.get t 0 0 0 0) = true) ∧
    AllFinite (Adaptive.step .bogackiShampine .standard gap.numberless (.of 1)
      gap.ground).1.state.toArray := by
  have hruns : ((load .empty gap).toOption.bind fun m =>
      (gap.run m).toOption.map fun outcome => (decide m.StartsFinite,
        (m.field? "height").map Field.kind, outcome.divergence.isSome, outcome.recording.lastValid,
        (outcome.recording.field? "height").map History.shape)) =
          some (true, some .dynamic, true, 1, some ⟨1, 1, 1, 1⟩) := by
    decide +kernel
  obtain ⟨m, hm, h⟩ := Option.bind_eq_some_iff.1 hruns
  obtain ⟨outcome, houtcome, h⟩ := Option.map_eq_some_iff.1 h
  simp only [Prod.mk.injEq, decide_eq_true_eq] at h
  obtain ⟨hstart, hfield, hdiverges, hvalid, hrecorded⟩ := h
  obtain ⟨f, hf, hkind⟩ := Option.map_eq_some_iff.1 hfield
  obtain ⟨history, hhistory, hshape⟩ := Option.map_eq_some_iff.1 hrecorded
  have hm : m.InUse .empty gap := .loaded (toOption_eq_some_iff.1 hm)
  have houtcome := toOption_eq_some_iff.1 houtcome
  obtain ⟨hled, hrecords⟩ := adaptive_finite (α := Rough) rfl
  refine ⟨m, outcome, history, hm, hstart, houtcome, hdiverges, hvalid, hhistory, fun t ht => ?_, ?_⟩
  · have hin : history.shape.Contains 0 0 0 0 := by simp [hshape, Shape.Contains]
    exact hrecords _ _ m _ .rk23 _ _ outcome hm rfl hstart houtcome "height" f history hf hkind
      hhistory t (hvalid ▸ ht) 0 0 0 0 hin
  · have hground : AllFinite gap.ground.state.toArray := by decide +kernel
    exact hled _ _ _ _ gap.ground _ hground (.step gap.numberless (.of 0) (.of 1) .start)

end FieldFlow
