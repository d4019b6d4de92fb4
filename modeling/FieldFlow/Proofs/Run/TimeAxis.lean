import FieldFlow.Proofs.Model.Names
import FieldFlow.Proofs.Run.Finite
import FieldFlow.Proofs.Run.Initials
import FieldFlow.Proofs.Solver.Clock

/-!
# Proofs/Run/TimeAxis — the time on record is the grid

The time that is added to a model is a dynamic field with slope one, whatever is assigned to it
(`Model.InUse.field?_time`), so its places in the state are clocks (`System.clock`), and every step
takes them on by its length. From where time starts in a run and region, the times on record are
therefore the points of the grid (`time_on_grid`), also where the steps between them were cut up and
tried again for the sake of other fields.
-/

namespace FieldFlow

variable {α : Type} [Scalar α]

/-! ## The added time -/

/-- **The time that is added** stays a dynamic field without sectors whose slope is one. -/
theorem Model.InUse.field?_time {registry : Registry α} {d : Description α} {m : Model α}
    (h : m.InUse registry d) (hdeclares : ¬ d.Declares "time") :
    ∃ f, m.field? "time" = some f ∧ f.kind = .dynamic ∧ f.axes = (unitAxis, unitAxis) ∧
      f.function = some (.constant (.scalar Scalar.one)) := by
  induction h with
  | loaded hload => exact ⟨_, (loadedFrom_of_load hload).field?_time hdeclares, rfl, rfl, rfl⟩
  | assigned _ hset ih =>
    obtain ⟨f, hf, hkind, haxes, hfunction⟩ := ih
    obtain ⟨g, hg, hfg⟩ := (reassigned_of_setField hset).kept hf
    refine ⟨g, hg, hfg.kind.trans hkind, hfg.axes.trans haxes, ?_⟩
    rcases hfg.function with heq | ⟨hparameter, -⟩
    · exact heq.trans hfunction
    · exact nomatch hkind.symm.trans hparameter

/-- The places of a field with slope one keep time. -/
theorem System.clock {sys : System α} (hw : sys.Wired) {own : Nat} {slot : Slot α}
    (hslot : (own, slot) ∈ sys.dynamics)
    (hfunction : slot.function = some (.constant (.scalar Scalar.one))) {x r i j : Nat}
    (hin : slot.shape.Contains x r i j) {k : Fin sys.dimension}
    (hk : sys.start slot.name + slot.shape.position x r i j = k) :
    Clock (fun _ y => sys.rate y) k := by
  intro t y slopes h
  obtain ⟨after, -, hslopes⟩ := rate_eq_ok_iff.1 h
  obtain ⟨span, here, hspan, ⟨output, hcall, hhere⟩, hat⟩ :=
    (derivatives_eq_ok_iff.1 hslopes).exists_span hslot (y := slopes.toArray) (o := 0) fun k _ => by
      rw [Nat.zero_add]
  obtain ⟨slot', g, values, hslot', hg, -, houtput⟩ := call_eq_ok_iff.1 hcall
  obtain rfl := Option.some.inj (hslot'.symm.trans (mem_dynamics_iff.1 hslot).1)
  obtain rfl := Option.some.inj (hg.symm.trans hfunction)
  obtain rfl := Except.ok.inj houtput
  obtain ⟨-, hdata⟩ := Tensor.flatTo_eq_ok_iff.1 hhere
  have hone : slopes.toArray[k.val]? =
      some (((Tensor.scalar (Scalar.one : α)).expand slot'.shape).get x r i j) := by
    rw [← hk, start_eq hw hspan, hat _ (slot'.shape.position_lt hin), ← hdata]
    exact Tensor.getElem?_position hin
  rw [Tensor.get_expand_scalar hin, Vector.getElem?_toArray, Vector.getElem?_eq_some_iff] at hone
  exact hone.2

/-- **Steps of any method** take their time and a clock on by their number times their length. -/
theorem Method.clock_steps {ε K : Type} [FieldOfNumbers K] [LinearOrder K] [IsStrictOrderedRing K]
    [ExactOver K α] {dt : K} {n t : Nat} {method : Method} {control : StepControl α}
    {f : Rate ε α n} {k : Fin n} {start c : Cursor α n} (hf : Clock f k) (hdt : 0 < dt)
    (hstart : Scalar.isFinite start.time = false → Scalar.isFinite (start.state.get k) = false)
    (h : stepsFrom (method.step control f (ExactOver.of dt)) start t = some c) :
    c.time = start.time + ExactOver.of (t * dt) ∧
      c.state.get k = start.state.get k + ExactOver.of (t * dt) := by
  refine stepsFrom_induct (motive := fun t c => c.time = start.time + ExactOver.of (t * dt) ∧
    c.state.get k = start.state.get k + ExactOver.of (t * dt)) ?_ (fun {t c next} hc hnext => ?_) h
  · simp [ExactOver.add_of_zero]
  · obtain ⟨htime, hplace⟩ := hc
    have hgone : Scalar.isFinite c.time = false → Scalar.isFinite (c.state.get k) = false := by
      rw [htime, hplace, ExactOver.isFinite_add_of, ExactOver.isFinite_add_of]
      exact hstart
    obtain ⟨htime', hplace'⟩ := clock_step hf hdt hgone hnext
    have hsteps : (t : K) * dt + dt = (t + 1 : Nat) * dt := by
      push_cast
      ring
    rw [htime', hplace', htime, hplace, ExactOver.add_of_add_of, ExactOver.add_of_add_of, hsteps]
    exact ⟨rfl, rfl⟩

/-! ## Runs -/

section Run

variable {registry : Registry α} {d : Description α} {m : Model α} {axes : RunAxes}
  {method : Method} {control : StepControl α} {outcome : Outcome α}

/-- **Time on record** is what clocks of the state show. -/
theorem time_recorded {timeStep : α} (hm : m.InUse registry d) (hdeclares : ¬ d.Declares "time")
    (h : integrate m axes method timeStep control = .ok outcome) :
    ∃ sys initial history, m.bind axes.runs axes.regions = .ok sys ∧
      sys.initialState m = .ok initial ∧ outcome.recording.field? "time" = some history ∧
      history.shape = ⟨axes.runs, axes.regions, 1, 1⟩ ∧
        ∀ x < axes.runs, ∀ r < axes.regions, ∃ k, Clock (fun _ y => sys.rate y) k ∧
          ∀ t ≤ outcome.recording.lastValid, ∃ c,
            stepsFrom (sys.step method control timeStep) (startOf m initial) t = some c ∧
              c.state.get k = history.get t x r 0 0 := by
  obtain ⟨f, hf, hkind, haxes, hfunction⟩ := hm.field?_time hdeclares
  obtain ⟨sys, initial, hbind, hinitial, hrecorded⟩ := dynamic_recorded hm.evaluable h
  obtain ⟨own, slot, history, hslot, hname, hof, hfollows⟩ := hrecorded "time" f hf hkind
  have hunit : history.shape = ⟨axes.runs, axes.regions, 1, 1⟩ := by
    have hshape := hof.shape
    rw [Model.shapeOf, hkind, haxes] at hshape
    exact hfollows.shape.trans (pure_eq_ok_iff.1 hshape).symm
  refine ⟨sys, initial, history, hbind, hinitial, hname ▸ hfollows.field, hunit,
    fun x hx r hr => ?_⟩
  have hin : slot.shape.Contains x r 0 0 := by
    rw [← hfollows.shape, hunit]
    exact ⟨hx, hr, Nat.one_pos, Nat.one_pos⟩
  obtain ⟨k, hk, hplace⟩ := hfollows.place hin
  have hw := (boundFrom_of_bind hbind).wired hm.evaluable
  exact ⟨k, System.clock hw hslot (hof.function.trans hfunction) hin hk, hplace⟩

/-- A time that starts at one number for all runs has this number on record. -/
theorem get_start_of_scalar {timeStep c : α} {f : Field α} {history : History α} (hm : m.Evaluable)
    (h : integrate m axes method timeStep control = .ok outcome)
    (hf : m.field? "time" = some f) (hkind : f.kind = .dynamic) (hc : f.initial = some (.scalar c))
    (hhistory : outcome.recording.field? "time" = some history) {x r i j : Nat}
    (hin : history.shape.Contains x r i j) : history.get 0 x r i j = c := by
  obtain ⟨history', v, hhistory', -, hv, hframe⟩ := start_recorded hm h hf hkind hc
  obtain rfl := Option.some.inj (hhistory.symm.trans hhistory')
  rw [← History.get_frame hin, hframe, ← Except.ok.inj hv, Tensor.get_expand_scalar hin]

/-- Where a run starts at no time at all, so does the time on record — a time that differs from run
to run is not where the solver starts. -/
theorem start_not_finite (K : Type) [FieldOfNumbers K] [LinearOrder K] [IsStrictOrderedRing K]
    [ExactOver K α] {timeStep : α} {f : Field α} {history : History α} (hm : m.Evaluable)
    (h : integrate m axes method timeStep control = .ok outcome)
    (hf : m.field? "time" = some f) (hkind : f.kind = .dynamic)
    (hhistory : outcome.recording.field? "time" = some history) {x r i j : Nat}
    (hin : history.shape.Contains x r i j) (hstart : Scalar.isFinite (startTime m) = false) :
    Scalar.isFinite (history.get 0 x r i j) = false := by
  obtain ⟨given, hgiven⟩ := Option.isSome_iff_exists.1 (hm.dynamic hf hkind).2
  rw [startTime, hf, Option.bind_some, hgiven] at hstart
  cases given with
  | scalar c => rwa [get_start_of_scalar hm h hf hkind hgiven hhistory hin]
  | runs | sectors | matrix | array =>
    have hzero : Scalar.isFinite (Scalar.zero : α) = true := by
      rw [ExactOver.zero_eq (K := K), ExactOver.isFinite_of]
    exact nomatch hzero.symm.trans hstart

variable [Exact α] {dt : Rat}

/-- **The time on record is the grid** — in an exact arithmetic, a model that does not declare its
time has on record, at every time point that a run has reached and in every run and region, the time
where it starts there and as many steps more. -/
theorem time_on_grid (hm : m.InUse registry d) (hdeclares : ¬ d.Declares "time") (hdt : 0 < dt)
    (h : integrate m axes method (Exact.of dt) control = .ok outcome) :
    ∃ history, outcome.recording.field? "time" = some history ∧
      history.shape = ⟨axes.runs, axes.regions, 1, 1⟩ ∧
        ∀ t ≤ outcome.recording.lastValid, ∀ x < axes.runs, ∀ r < axes.regions,
          history.get t x r 0 0 = history.get 0 x r 0 0 + Scalar.ofNat t * Exact.of dt := by
  obtain ⟨f, hf, hkind, -⟩ := hm.field?_time hdeclares
  obtain ⟨sys, initial, history, -, -, hhistory, hunit, hclocks⟩ := time_recorded hm hdeclares h
  refine ⟨history, hhistory, hunit, fun t ht x hx r hr => ?_⟩
  have hin : history.shape.Contains x r 0 0 := by
    rw [hunit]
    exact ⟨hx, hr, Nat.one_pos, Nat.one_pos⟩
  obtain ⟨k, hclock, hplace⟩ := hclocks x hx r hr
  obtain ⟨first, hfirst, hplace₀⟩ := hplace 0 (Nat.zero_le _)
  obtain rfl := Option.some.inj hfirst
  obtain ⟨c, hc, hplaceₜ⟩ := hplace t ht
  have hstart : Scalar.isFinite (startOf m initial).time = false →
      Scalar.isFinite ((startOf m initial).state.get k) = false := by
    rw [hplace₀]
    exact start_not_finite Rat hm.evaluable h hf hkind hhistory hin
  rw [← hplaceₜ, ← hplace₀, (Method.clock_steps hclock hdt hstart hc).2, Exact.ofNat_eq, Exact.mul]
  rfl

end Run

/-! ## Runs over a gap -/

/-- What is read off a run of the gap, once something is assigned. -/
def gap.afterwards? {β : Type} (name : String) (given : Assignment Rough)
    (run : Model Rough → Except (Failure Rough) (Outcome Rough)) (read : Outcome Rough → β) :
    Option β :=
  (Simulation.load .empty gap 0).toOption.bind fun loaded =>
    match loaded.setField name given with
    | (s, .ok ()) => (run s.model).toOption.map read
    | (_, .error _) => none

theorem gap.afterwards?_eq_some {β : Type} {name : String} {given : Assignment Rough}
    {run : Model Rough → Except (Failure Rough) (Outcome Rough)} {read : Outcome Rough → β} {b : β}
    (h : afterwards? name given run read = some b) : ∃ loaded s outcome,
      Simulation.load .empty gap 0 = .ok loaded ∧ loaded.setField name given = (s, .ok ()) ∧
      run s.model = .ok outcome ∧ s.model.InUse .empty gap ∧ read outcome = b := by
  obtain ⟨loaded, hloaded, h⟩ := Option.bind_eq_some_iff.1 h
  have hloaded := toOption_eq_some_iff.1 hloaded
  split at h
  · rename_i s hset
    obtain ⟨outcome, houtcome, hread⟩ := Option.map_eq_some_iff.1 h
    exact ⟨loaded, s, outcome, hloaded, hset, toOption_eq_some_iff.1 houtcome,
      .assigned (.of_load hloaded) hset, hread⟩
  · contradiction

/-- With a time that starts at three halves, the first step of a run meets the gap in its middle, so
that it is tried again in smaller ones. The times on record are a unit apart all the same. -/
theorem gap_on_grid : ∃ loaded s outcome history, Simulation.load .empty gap 0 = .ok loaded ∧
    loaded.setField "time" (.value (.scalar (.of (3 / 2)))) = (s, .ok ()) ∧
    ¬ gap.Declares "time" ∧ gap.run s.model = .ok outcome ∧ outcome.recording.lastValid = 2 ∧
    outcome.recording.field? "time" = some history ∧
    ∀ t ≤ 2, history.get t 0 0 0 0 = .of (3 / 2) + Scalar.ofNat t * .of 1 := by
  have hruns : gap.afterwards? "time" (.value (.scalar (.of (3 / 2)))) gap.run (fun outcome =>
      (outcome.recording.lastValid, (outcome.recording.field? "time").map (·.get 0 0 0 0 0))) =
        some (2, some (.of (3 / 2))) := by
    decide +kernel
  obtain ⟨loaded, s, outcome, hloaded, hset, houtcome, hm, hread⟩ := gap.afterwards?_eq_some hruns
  obtain ⟨hvalid, hrecorded⟩ := Prod.mk.inj hread
  have hdeclares : ¬ gap.Declares "time" := by decide +kernel
  obtain ⟨history, hhistory, -, hgrid⟩ := time_on_grid hm hdeclares one_pos houtcome
  rw [hhistory, Option.map_some, Option.some.injEq] at hrecorded
  refine ⟨loaded, s, outcome, history, hloaded, hset, hdeclares, houtcome, hvalid, hhistory,
    fun t ht => ?_⟩
  rw [← hrecorded]
  exact hgrid t (hvalid ▸ ht) 0 (by decide) 0 (by decide)

end FieldFlow
