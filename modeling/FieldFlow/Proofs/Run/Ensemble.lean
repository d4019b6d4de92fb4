import FieldFlow.Proofs.Run.Member
import FieldFlow.Proofs.Run.Plan
import FieldFlow.Proofs.Scalar.Fraction

/-!
# Proofs/Run/Ensemble — an ensemble run is its single runs side by side

Where no function tells one run from another, running several values per parameter at once is
running each of them alone: the recorded fields of the ensemble at a run are the recorded fields of
the simulation that is given the values at that run, and one run (`run_member`).
-/

namespace FieldFlow

variable {α : Type} [Scalar α] {n x : Nat}

/-! ## The number of runs -/

theorem assigned_member (f : Field α) (x : Nat) :
    (f.member x).assigned = f.assigned.map (·.member x) := by
  unfold Field.assigned Field.member
  cases f.kind <;> rfl

/-- The values of a member are of one run. -/
theorem valueLengths_member {m : Model α} (h : ∀ entry ∈ Simulation.valueLengths m, 0 < entry.2)
    (x : Nat) : ∀ entry ∈ Simulation.valueLengths (m.member x), entry.2 = 1 := by
  intro entry hentry
  rw [valueLengths_eq, Model.values_member, List.mem_filterMap] at hentry
  obtain ⟨f', hf', hentry⟩ := hentry
  obtain ⟨f, hf, rfl⟩ := List.mem_map.1 hf'
  rw [assigned_member, Option.map_map] at hentry
  obtain ⟨v, hv, rfl⟩ := Option.map_eq_some_iff.1 hentry
  have hlength : (f.name, v.runCount) ∈ Simulation.valueLengths m := by
    rw [valueLengths_eq]
    exact List.mem_filterMap.2 ⟨f, hf, by rw [hv, Option.map_some]⟩
  exact Value.runCount_member (h _ hlength) x

/-! ## Runs of a simulation -/

/-- **The single run of an ensemble**: one run, from the values at run `x`. -/
def Simulation.member (s : Simulation α) (x : Nat) : Simulation α :=
  { s with model := s.model.member x, runs := 1 }

theorem runs_of_run {s s' : Simulation α} {name : String} {timeStep span : α}
    {control : StepControl α} {rec : Recording α}
    (hmethod : (Method.ofName name : Except (Error α) Method) = .ok .rk4)
    (h : s.run name timeStep span control = (s', .ok ())) (hlast : s'.last = some rec)
    {field : String} {history : History α} (hhistory : rec.field? field = some history) :
    history.shape.runs = rec.axes.runs := by
  obtain ⟨method, axes, outcome, hplan, houtcome, -, rfl⟩ := run_eq_ok_iff.1 h
  obtain rfl := Except.ok.inj ((plan_eq_ok_iff.1 hplan).1.symm.trans hmethod)
  obtain rfl := Option.some.inj hlast
  rw [runs_of_integrate houtcome hhistory, axes_of_integrate houtcome]

/-- **A single run of an ensemble** records the member of what the ensemble records. -/
theorem run_member {s s' : Simulation α} {name : String} {timeStep span : α}
    {control : StepControl α} {rec : Recording α} (hs : s.model.RunWise)
    (hmethod : (Method.ofName name : Except (Error α) Method) = .ok .rk4)
    (h : s.run name timeStep span control = (s', .ok ())) (hlast : s'.last = some rec)
    (hx : x < rec.axes.runs) :
    (s.member x).run name timeStep span control =
      ({ s.member x with last := some (rec.member x) }, .ok ()) := by
  obtain ⟨method, axes, outcome, hplan, houtcome, hdivergence, rfl⟩ := run_eq_ok_iff.1 h
  obtain ⟨hmethod', hsteps, hruns, hregions⟩ := plan_eq_ok_iff.1 hplan
  obtain rfl := Except.ok.inj (hmethod'.symm.trans hmethod)
  obtain rfl := Option.some.inj hlast
  rw [axes_of_integrate houtcome] at hx
  obtain ⟨hpos, hlengths, -⟩ := runCount_eq_ok_iff.1 hruns
  have hone : ∀ entry ∈ Simulation.valueLengths (s.member x).model, entry.2 = 1 := by
    refine valueLengths_member (fun entry hentry => ?_) x
    rcases hlengths entry hentry with hentry | hentry <;> omega
  have hplan' : (s.member x).plan name timeStep span = .ok (.rk4, { axes with runs := 1 }) :=
    plan_eq_ok_iff.2 ⟨hmethod, hsteps, runCount_eq_ok_iff.2
      ⟨Nat.one_pos, fun entry hentry => .inl (hone entry hentry), .inl (Nat.le_refl 1),
        fun h => absurd h (Nat.lt_irrefl 1)⟩, hregions⟩
  exact run_eq_ok_iff.2 ⟨_, _, _, hplan', integrate_member hs hx houtcome, hdivergence, rfl⟩

/-- **What one run of an ensemble and a single run have in common**: at every time, region and
sector the single run has the value of the ensemble at run `x`. -/
structure History.IsAlone (single h : History α) (x : Nat) : Prop where
  run : x < h.shape.runs
  steps : single.steps = h.steps
  shape : single.shape = { h.shape with runs := 1 }
  value : ∀ {t r i j : Nat}, t < h.steps → r < h.shape.regions → i < h.shape.sectorA →
    j < h.shape.sectorB → single.get t 0 r i j = h.get t x r i j

theorem History.isAlone_member {h : History α} (hruns : h.shape.runs = n) (hx : x < n) :
    (h.member x).IsAlone h x where
  run := hruns ▸ hx
  steps := rfl
  shape := by
    have hone : min h.shape.runs 1 = 1 := by omega
    change Shape.member h.shape = _
    rw [Shape.member, hone]
  value := fun ht hr hi hj => History.get_member hruns hx ht ⟨hruns ▸ hx, hr, hi, hj⟩

/-- **An ensemble run is its single runs side by side** — where the functions of a model are
expressions that treat every run alike, a run of fixed steps that succeeds for the ensemble succeeds
for the values at any of its runs, and records in every field what the ensemble records there. -/
theorem ensemble_eq_single_runs {s s' : Simulation α} {name : String} {timeStep span : α}
    {control : StepControl α} {rec : Recording α}
    (hfunctions : ∀ f ∈ s.model.fields.values, ∀ g, f.function = some g →
      ∃ (inputs : List String) (body : Expression α), g = body.toFunction inputs ∧ body.RunWise)
    (hmethod : (Method.ofName name : Except (Error α) Method) = .ok .rk4)
    (h : s.run name timeStep span control = (s', .ok ())) (hlast : s'.last = some rec)
    (hx : x < rec.axes.runs) :
    ∃ single, (s.member x).run name timeStep span control =
        ({ s.member x with last := some single }, .ok ()) ∧
      single.axes = { rec.axes with runs := 1 } ∧ single.fields.keys = rec.fields.keys ∧
        ∀ field history, rec.field? field = some history →
          ∃ alone, single.field? field = some alone ∧ alone.IsAlone history x := by
  have hs : s.model.RunWise := by
    intro f hf g hg
    obtain ⟨inputs, body, rfl, hbody⟩ := hfunctions f hf g hg
    exact runWise_toFunction hbody inputs
  refine ⟨rec.member x, run_member hs hmethod h hlast hx, rfl, rec.fields.keys_map _, ?_⟩
  intro field history hhistory
  refine ⟨history.member x, ?_, History.isAlone_member (runs_of_run hmethod h hlast hhistory) hx⟩
  exact (OrderedMap.get?_map _ rec.fields field).trans (congrArg (Option.map _) hhistory)

/-! ## An ensemble to look at -/

/-- A field with an expression for its function. -/
private def computedField (name : String) (kind : FieldKind) (inputs : List String)
    (body : Expression Fraction) : Field Fraction :=
  { Field.bare name kind with function := some (body.toFunction inputs) }

/-- A stock that decays at a rate, in one run for each of two rates. -/
def decay : Simulation Fraction where
  model :=
    { name := "decay"
      summary := ""
      fields := .ofList
        [("rate", { Field.bare "rate" .parameter with value := some (.runs [.of 1, .of 2]) }),
          ("loss", computedField "loss" .algebraic ["rate", "stock"]
            (.binary .mul (.input "rate") (.input "stock"))),
          ("stock", { computedField "stock" .dynamic ["loss"] (.unary .neg (.input "loss")) with
            initial := some (.scalar (.of 1)) })]
      presets := .empty
      sectorIndices := .empty
      order := ["loss"]
      parameterOrder := []
      auxiliary := [] }
  runs := 1
  regions := 1
  generator := .ofSeed 0
  last := none

/-- Two steps of length one; a fixed step has no use for tolerances. -/
def decay.ended : Simulation.Result Fraction :=
  decay.run "rk4" (.of 1) (.of 2) ⟨.of 1, .of 1, .of 1, 1⟩

theorem decay_functions : ∀ f ∈ decay.model.fields.values, ∀ g, f.function = some g →
    ∃ (inputs : List String) (body : Expression Fraction),
      g = body.toFunction inputs ∧ body.RunWise := by
  intro f hf g hg
  rcases List.mem_cons.1 hf with rfl | hf
  · exact nomatch hg
  rcases List.mem_cons.1 hf with rfl | hf
  · exact ⟨_, _, (Option.some.inj hg).symm, trivial, trivial⟩
  · obtain rfl := List.mem_singleton.1 hf
    exact ⟨_, _, (Option.some.inj hg).symm, trivial⟩

/-- In each step a decay at rate two leaves one third of the stock, alone as in the ensemble. -/
theorem decay_eq_single_runs : ∃ rec single stock alone, decay.ended.1.last = some rec ∧
    (decay.member 1).run "rk4" (.of 1) (.of 2) ⟨.of 1, .of 1, .of 1, 1⟩ =
      ({ decay.member 1 with last := some single }, .ok ()) ∧
    rec.field? "stock" = some stock ∧ single.field? "stock" = some alone ∧
    alone.IsAlone stock 1 ∧ stock.get 2 1 0 0 0 = .of (1 / 9) := by
  have hends : decay.ended.2.toOption.isSome = true := by decide +kernel
  have hruns : (decay.ended.1.last.map fun rec => rec.axes.runs) = some 2 := by decide +kernel
  have hstock : (decay.ended.1.last.bind fun rec =>
      (rec.field? "stock").map fun h => h.get 2 1 0 0 0) = some (.of (1 / 9)) := by decide +kernel
  obtain ⟨s', hs'⟩ := exists_eq_ok_of_isSome hends
  obtain ⟨rec, hrec, hruns⟩ := Option.map_eq_some_iff.1 hruns
  rw [hrec, Option.bind_some] at hstock
  obtain ⟨stock, hstock, hvalue⟩ := Option.map_eq_some_iff.1 hstock
  have hlast : s'.last = some rec := by
    rw [← hrec, hs']
  obtain ⟨single, hsingle, -, -, hfields⟩ :=
    ensemble_eq_single_runs (x := 1) decay_functions rfl hs' hlast (by rw [hruns]; decide)
  obtain ⟨alone, halone, hsame⟩ := hfields "stock" stock hstock
  exact ⟨rec, single, stock, alone, hrec, hsingle, hstock, halone, hsame, hvalue⟩

end FieldFlow
