import FieldFlow.Proofs.Analysis.Histories
import FieldFlow.Proofs.Analysis.InRange
import FieldFlow.Proofs.Scalar.Fraction

/-!
# Proofs/Analysis/Orderly — when the analysis of a run fails with an error at worst

Fields that are asked for are checked before they are read, and then every place that is read
exists. The times are read without such a check: they are there if time is recorded at all points
that were reached and there is a run to read them from, and otherwise the analysis faults
(`analysis_orderly`). From what has been read, cycles are made at places that exist
(`cycles_in_range`).
-/

namespace FieldFlow

/-! ## Computations without faults -/

section Orderly

variable {α β γ : Type} {e : Except (Failure α) β}

/-- **A computation that fails with an error at worst**, never with a fault. -/
def Orderly (e : Except (Failure α) β) : Prop := ∀ fault, e ≠ .error (.fault fault)

theorem Orderly.of_ok {b : β} (h : e = .ok b) : Orderly e := by
  intro fault hfault
  exact nomatch h.symm.trans hfault

theorem Orderly.bind {f : β → Except (Failure α) γ} (he : Orderly e)
    (hf : ∀ b, e = .ok b → Orderly (f b)) : Orderly (e >>= f) := by
  intro fault hfault
  rcases bind_eq_error_iff.1 hfault with h | ⟨b, hb, h⟩
  · exact he fault h
  · exact hf b hb fault h

theorem Orderly.of_bind {f : β → Except (Failure α) γ} (h : Orderly (e >>= f)) :
    Orderly e ∧ ∀ b, e = .ok b → Orderly (f b) :=
  ⟨fun fault hfault => h fault (bind_eq_error_iff.2 (.inl hfault)),
    fun b hb fault hfault => h fault (bind_eq_error_iff.2 (.inr ⟨b, hb, hfault⟩))⟩

theorem Orderly.mapM {f : γ → Except (Failure α) β} {xs : List γ} (h : ∀ x ∈ xs, Orderly (f x)) :
    Orderly (xs.mapM f) := by
  intro fault hfault
  obtain ⟨x, hx, hfailed⟩ := exists_of_mapM_eq_error hfault
  exact h x hx fault hfailed

/-- The fault of a computation that ends with one. -/
def fault? : Except (Failure α) β → Option Fault
  | .error (.fault fault) => some fault
  | _ => none

theorem fault?_eq_some_iff {fault : Fault} : fault? e = some fault ↔ e = .error (.fault fault) := by
  rcases e with (_ | _) | _ <;> simp [fault?]

end Orderly

/-! ## Readers -/

section Readers

variable {α : Type} {rec : Recording α} {name reader : String} {h : History α} {region : Nat}

theorem checkRegion_eq_ok_iff : checkRegion rec region = .ok () ↔ region < rec.axes.regions := by
  unfold checkRegion
  split
  · simp only [reduceCtorEq, false_iff]
    omega
  · simp only [true_iff]
    omega

theorem orderly_checkRegion (rec : Recording α) (region : Nat) :
    Orderly (checkRegion rec region) := by
  unfold checkRegion
  split
  · exact fun _ h => nomatch h
  · exact .of_ok rfl

theorem varyingField_eq_ok_iff : varyingField rec name reader = .ok h ↔
    rec.field? name = some h ∧ rec.validPoints ≤ h.steps := by
  unfold varyingField
  cases rec.field? name with
  | none => simp
  | some h' =>
    simp only [Option.some.injEq]
    split
    · rename_i hlt
      simp only [reduceCtorEq, false_iff, not_and]
      rintro rfl
      omega
    · rename_i hle
      rw [Except.ok.injEq]
      exact ⟨fun heq => ⟨heq, heq ▸ Nat.le_of_not_lt hle⟩, fun heq => heq.1⟩

theorem orderly_varyingField (rec : Recording α) (name reader : String) :
    Orderly (varyingField rec name reader) := by
  unfold varyingField
  split
  · exact fun _ h => nomatch h
  · split
    · exact fun _ h => nomatch h
    · exact .of_ok rfl

theorem validTimes_eq_ok_iff : validTimes rec = .ok h ↔ rec.field? "time" = some h := by
  unfold validTimes
  cases rec.field? "time" <;> simp

/-- What cycles are made from. -/
theorem of_cycles_eq_ok [Scalar α] {field reference : String} {result : List (List (Cycle α))}
    (h : cycles rec field reference region = .ok result) :
    ∃ time times values bounds, rec.field? "time" = some time ∧
      cycleSeries time rec.validPoints 0 0 = .ok times ∧
      (rec.field? field = some values ∧ rec.validPoints ≤ values.steps) ∧
      (rec.field? reference = some bounds ∧ rec.validPoints ≤ bounds.steps) ∧
      region < rec.axes.regions ∧
      List.Forall₂ (fun run cs => ∃ x r,
          cycleSeries values rec.validPoints run region = .ok x ∧
          cycleSeries bounds rec.validPoints run region = .ok r ∧
          (consecutive (localMaxima r)).map
            (fun (start, stop) => describeCycle x times start stop) = cs)
        (List.range rec.axes.runs) result := by
  obtain ⟨⟨⟩, hregion, h⟩ := bind_eq_ok_iff.1 h
  obtain ⟨time, htime, h⟩ := bind_eq_ok_iff.1 h
  obtain ⟨times, htimes, h⟩ := bind_eq_ok_iff.1 h
  obtain ⟨values, hvalues, h⟩ := bind_eq_ok_iff.1 h
  obtain ⟨-, -, h⟩ := bind_eq_ok_iff.1 h
  obtain ⟨bounds, hbounds, h⟩ := bind_eq_ok_iff.1 h
  obtain ⟨-, -, h⟩ := bind_eq_ok_iff.1 h
  obtain ⟨-, -, h⟩ := bind_eq_ok_iff.1 h
  refine ⟨time, times, values, bounds, validTimes_eq_ok_iff.1 htime, htimes,
    varyingField_eq_ok_iff.1 hvalues, varyingField_eq_ok_iff.1 hbounds,
    checkRegion_eq_ok_iff.1 hregion, (mapM_eq_ok_iff.1 h).imp fun run cs hcs => ?_⟩
  obtain ⟨x, hx, hcs⟩ := bind_eq_ok_iff.1 hcs
  obtain ⟨r, hr, hcs⟩ := bind_eq_ok_iff.1 hcs
  exact ⟨x, r, hx, hr, pure_eq_ok_iff.1 hcs⟩

end Readers

/-! ## Reading a run -/

section Run

variable {α : Type} [Scalar α] {m : Model α} {axes : RunAxes} {method : Method} {timeStep : α}
  {control : StepControl α} {outcome : Outcome α} {kind : FieldKind} {h : History α}
  {name : String} {points run region : Nat}

/-- A series for a cycle, read within a history. -/
theorem cycleSeries_eq (hh : h.OfRun axes kind) (hpoints : points ≤ h.steps) (hrun : run < axes.runs)
    (hregion : region < axes.regions) : cycleSeries h points run region =
      .ok (h.series points run region) := by
  have hlast : min run (h.shape.runs - 1) = run := by
    rw [hh.runs]
    omega
  rw [cycleSeries, hlast, hh.seriesOf_eq hpoints hrun hregion]
  rfl

/-- A series that is read is within its history. -/
theorem History.OfRun.of_cycleSeries_eq_ok {h : History α} {kind : FieldKind} {points : Nat}
    {x : Array α} (hh : h.OfRun axes kind) (hpoints : points < memoryEnd)
    (hok : cycleSeries h points 0 region = .ok x) : points ≤ h.steps ∧ 0 < axes.runs := by
  by_contra hnot
  have hout : Recording.seriesOf h points 0 region = .error .outOfRange :=
    hh.seriesOf_eq_outOfRange (by omega)
  rw [cycleSeries, Nat.zero_min, hout] at hok
  contradiction

/-- **The cycles of a run are made from three histories** — the times at the first run and region,
and the values of the field and of the reference in each run, as far as the run has come. -/
theorem exists_histories_of_cycles {field reference : String} {result : List (List (Cycle α))}
    (hm : m.Evaluable) (hrun : integrate m axes method timeStep control = .ok outcome)
    (hcycles : cycles outcome.recording field reference region = .ok result) :
    ∃ times values bounds,
      outcome.recording.field? "time" = some times ∧
      outcome.recording.field? field = some values ∧
      outcome.recording.field? reference = some bounds ∧
      (∀ h ∈ [times, values, bounds], outcome.recording.validPoints ≤ h.steps) ∧
      0 < axes.runs ∧ region < axes.regions ∧ result.length = axes.runs ∧
      ∀ run cs, result[run]? = some cs →
        times.shape.Contains 0 0 0 0 ∧ values.shape.Contains run region 0 0 ∧
        bounds.shape.Contains run region 0 0 ∧
        (consecutive (localMaxima
          (bounds.series outcome.recording.validPoints run region))).map
            (fun (start, stop) => describeCycle
              (values.series outcome.recording.validPoints run region)
              (times.series outcome.recording.validPoints 0 0) start stop) = cs := by
  obtain ⟨times, t, values, bounds, htimes, ht, ⟨hvalues, hvaluePoints⟩, ⟨hbounds, hboundPoints⟩,
    hregion, hrows⟩ := of_cycles_eq_ok hcycles
  obtain ⟨_, -, htimesOf⟩ := exists_ofRun hm hrun htimes
  obtain ⟨_, -, hvaluesOf⟩ := exists_ofRun hm hrun hvalues
  obtain ⟨_, -, hboundsOf⟩ := exists_ofRun hm hrun hbounds
  rw [axes_of_integrate hrun] at hregion hrows
  have hregions : 0 < axes.regions := Nat.zero_lt_of_lt hregion
  obtain ⟨htimePoints, hruns⟩ := htimesOf.of_cycleSeries_eq_ok
    (hvaluePoints.trans_lt hvaluesOf.steps_lt) ht
  obtain rfl := Except.ok.inj (ht.symm.trans (cycleSeries_eq htimesOf htimePoints hruns hregions))
  have hlength : result.length = axes.runs := by rw [← hrows.length_eq, List.length_range]
  refine ⟨times, values, bounds, htimes, hvalues, hbounds, ?_, hruns, hregion, hlength,
    fun run cs hcs => ?_⟩
  · simp only [List.forall_mem_cons]
    exact ⟨htimePoints, hvaluePoints, hboundPoints, nofun⟩
  · obtain ⟨hresult, rfl⟩ := List.getElem?_eq_some_iff.1 hcs
    have hin : run < axes.runs := hlength ▸ hresult
    obtain ⟨x, r, hx, hr, hrow⟩ := hrows.get (i := run) (by simpa using hin) hresult
    rw [List.get_eq_getElem, List.getElem_range] at hx hr
    obtain rfl := Except.ok.inj (hx.symm.trans (cycleSeries_eq hvaluesOf hvaluePoints hin hregion))
    obtain rfl := Except.ok.inj (hr.symm.trans (cycleSeries_eq hboundsOf hboundPoints hin hregion))
    exact ⟨htimesOf.contains hruns hregions, hvaluesOf.contains hin hregion,
      hboundsOf.contains hin hregion, hrow⟩

omit [Scalar α] in
theorem checkReadable_eq (hh : h.OfRun axes kind) (hregion : region < axes.regions) :
    checkReadable h region = .ok () := by
  rw [checkReadable, hh.place?_region hregion]
  simp [hh.rows, hh.columns]

/-- A target field is read in every run, or refused. -/
theorem orderly_targetSeries (hm : m.Evaluable)
    (hrun : integrate m axes method timeStep control = .ok outcome)
    (hregion : region < axes.regions) (name : String) :
    Orderly (targetSeries outcome.recording region name) := by
  refine (orderly_varyingField _ _ _).bind fun h hh => ?_
  obtain ⟨f, -, hof⟩ := exists_ofRun hm hrun (varyingField_eq_ok_iff.1 hh).1
  have hsectors : ¬ (h.shape.sectorA = 0 || h.shape.sectorB = 0) = true := by
    simp [Nat.ne_of_gt hof.rows, Nat.ne_of_gt hof.columns]
  have hruns : ¬ (h.shape.runs ≠ outcome.recording.axes.runs && h.shape.runs ≠ 1) = true := by
    simp [axes_of_integrate hrun, hof.runs]
  simp only [hof.place?_region hregion]
  rw [if_neg hsectors, if_neg hruns]
  exact .of_ok rfl

/-- Time reaches as far as the run did, if it varies or if there is one point only. -/
theorem validPoints_le_of_time (hrun : integrate m axes method timeStep control = .ok outcome)
    (hh : h.OfRun axes kind)
    (htime : kind.isTimeVarying = true ∨ outcome.recording.lastValid = 0) :
    0 < outcome.recording.validPoints ∧ outcome.recording.validPoints ≤ h.steps := by
  have hlast := lastValid_lt_of_integrate hrun
  have hsteps := hh.steps
  have hlt := hh.steps_lt
  have hword := wordEnd_eq
  by_cases hzero : outcome.recording.lastValid = 0
  · have hone : outcome.recording.validPoints = 1 := by
      rw [Recording.validPoints, hzero]
      rfl
    split at hsteps <;> omega
  · rw [if_pos (htime.resolve_right hzero)] at hsteps
    have hpoints : outcome.recording.validPoints = outcome.recording.lastValid + 1 :=
      Nat.mod_eq_of_lt (by omega)
    omega

section Times

variable {time : History α} (hrun : integrate m axes method timeStep control = .ok outcome)
  (htime : outcome.recording.field? "time" = some time) (hof : time.OfRun axes kind)

include hrun htime hof

/-- Rates are given, or refused, where the times can be read. -/
theorem orderly_convergenceRates (hm : m.Evaluable)
    (hvaries : kind.isTimeVarying = true ∨ outcome.recording.lastValid = 0)
    (hruns : 0 < axes.runs) (target : OrderedMap α) (region : Nat) :
    Orderly (convergenceRates outcome.recording target region) := by
  have haxes := axes_of_integrate hrun
  have htimes := validTimes_eq_ok_iff.2 htime
  obtain ⟨hpos, hpoints⟩ := validPoints_le_of_time hrun hof hvaries
  refine (orderly_checkRegion _ _).bind fun _ hregion => ?_
  have hregion : region < axes.regions := haxes ▸ checkRegion_eq_ok_iff.1 hregion
  refine (Orderly.of_ok htimes).bind fun found hfound => ?_
  obtain rfl := Except.ok.inj (htimes.symm.trans hfound)
  have hextent := hof.checkExtent_eq hpos hpoints hregion
  have hseries := hof.seriesOf_eq hpoints hruns (Nat.zero_lt_of_lt hregion)
  rw [← haxes] at hextent
  refine (Orderly.of_ok (mapError_eq_ok_iff.2 hextent)).bind fun _ _ => ?_
  have htargets := Orderly.mapM fun name (_ : name ∈ target.keys) =>
    orderly_targetSeries hm hrun hregion name
  refine htargets.bind fun series _ => ?_
  exact (Orderly.of_ok (mapError_eq_ok_iff.2 hseries)).bind fun _ _ => .of_ok rfl

/-- Cycles are given, or refused, where the times can be read. -/
theorem orderly_cycles (hm : m.Evaluable)
    (hvaries : kind.isTimeVarying = true ∨ outcome.recording.lastValid = 0)
    (hruns : 0 < axes.runs) (hroom : axes.runs * listBytes < memoryEnd) (field reference : String)
    (region : Nat) : Orderly (cycles outcome.recording field reference region) := by
  have haxes := axes_of_integrate hrun
  have htimes := validTimes_eq_ok_iff.2 htime
  obtain ⟨-, hpoints⟩ := validPoints_le_of_time hrun hof hvaries
  refine (orderly_checkRegion _ _).bind fun _ hregion => ?_
  have hregion : region < axes.regions := haxes ▸ checkRegion_eq_ok_iff.1 hregion
  refine (Orderly.of_ok htimes).bind fun found hfound => ?_
  obtain rfl := Except.ok.inj (htimes.symm.trans hfound)
  have hseries := cycleSeries_eq hof hpoints hruns (Nat.zero_lt_of_lt hregion)
  refine (Orderly.of_ok hseries).bind fun _ _ => ?_
  refine (orderly_varyingField _ _ _).bind fun values hvalues => ?_
  obtain ⟨hvalues, hvaluePoints⟩ := varyingField_eq_ok_iff.1 hvalues
  obtain ⟨_, -, hvaluesOf⟩ := exists_ofRun hm hrun hvalues
  refine (Orderly.of_ok (checkReadable_eq hvaluesOf hregion)).bind fun _ _ => ?_
  refine (orderly_varyingField _ _ _).bind fun bounds hbounds => ?_
  obtain ⟨hbounds, hboundPoints⟩ := varyingField_eq_ok_iff.1 hbounds
  obtain ⟨_, -, hboundsOf⟩ := exists_ofRun hm hrun hbounds
  refine (Orderly.of_ok (checkReadable_eq hboundsOf hregion)).bind fun _ _ => ?_
  have hcapacity : checkCapacity outcome.recording.axes.runs listBytes = .ok () :=
    if_pos (haxes ▸ hroom)
  refine (Orderly.of_ok (mapError_eq_ok_iff.2 hcapacity)).bind fun _ _ => ?_
  refine Orderly.mapM fun run hin => ?_
  have hin : run < axes.runs := haxes ▸ List.mem_range.1 hin
  refine (Orderly.of_ok (cycleSeries_eq hvaluesOf hvaluePoints hin hregion)).bind fun _ _ => ?_
  exact (Orderly.of_ok (cycleSeries_eq hboundsOf hboundPoints hin hregion)).bind
    fun _ _ => .of_ok rfl

/-- Times that are not there cannot be read. -/
theorem not_orderly_analysis (hout : kind.isTimeVarying = false ∧ 0 < outcome.recording.lastValid ∧
      outcome.recording.lastValid + 1 < memoryEnd ∨ axes.runs = 0) (hregion : region < axes.regions) :
    ¬ Orderly (convergenceRates outcome.recording .empty region) ∧
      ∀ field reference, ¬ Orderly (cycles outcome.recording field reference region) := by
  have hchecked : checkRegion outcome.recording region = .ok () :=
    checkRegion_eq_ok_iff.2 (axes_of_integrate hrun ▸ hregion)
  have htimes := validTimes_eq_ok_iff.2 htime
  have hseries : Recording.seriesOf time outcome.recording.validPoints 0 0 =
      .error .outOfRange := by
    refine hof.seriesOf_eq_outOfRange ?_
    have hsteps := hof.steps
    have hword := wordEnd_eq
    rcases hout with ⟨hkind, hlast, hlt⟩ | hruns
    · have hpoints : outcome.recording.validPoints = outcome.recording.lastValid + 1 :=
        Nat.mod_eq_of_lt (by omega)
      rw [hkind] at hsteps
      simp only [Bool.false_eq_true, if_false] at hsteps
      omega
    · omega
  constructor
  · intro horderly
    have horderly := (horderly.of_bind.2 () hchecked).of_bind.2 time htimes
    cases hextent : checkExtent [outcome.recording.validPoints, outcome.recording.axes.runs] with
    | error fault =>
      exact horderly.of_bind.1 fault (mapError_eq_error_iff.2 ⟨fault, hextent, rfl⟩)
    | ok =>
      have horderly := horderly.of_bind.2 () (mapError_eq_ok_iff.2 hextent)
      have hread := (horderly.of_bind.2 [] rfl).of_bind.1
      exact hread .outOfRange (mapError_eq_error_iff.2 ⟨.outOfRange, hseries, rfl⟩)
  · intro field reference horderly
    have hcycle : cycleSeries time outcome.recording.validPoints 0 0 =
        .error (.fault .outOfRange) := by
      rw [cycleSeries, Nat.zero_min, hseries]
      rfl
    have hread := ((horderly.of_bind.2 () hchecked).of_bind.2 time htimes).of_bind.1
    exact hread .outOfRange hcycle

end Times

/-- **The analysis of a run fails with an error at worst, where its times can be read** — where time
varies, or the run has only one point, and there is a run at all. Otherwise reading the times is a
fault, whichever fields are asked for. -/
theorem analysis_orderly {registry : Registry α} {d : Description α} (hm : m.InUse registry d)
    (h : integrate m axes method timeStep control = .ok outcome) :
    ∃ time, m.field? "time" = some time ∧
      ((time.kind.isTimeVarying = true ∨ outcome.recording.lastValid = 0) → 0 < axes.runs →
        (∀ target region, Orderly (convergenceRates outcome.recording target region)) ∧
        (axes.runs * listBytes < memoryEnd → ∀ field reference region,
          Orderly (cycles outcome.recording field reference region))) ∧
      (time.kind.isTimeVarying = false ∧ 0 < outcome.recording.lastValid ∧
          outcome.recording.lastValid + 1 < memoryEnd ∨ axes.runs = 0 →
        ∀ region < axes.regions,
          ¬ Orderly (convergenceRates outcome.recording .empty region) ∧
          ∀ field reference, ¬ Orderly (cycles outcome.recording field reference region)) := by
  obtain ⟨time, history, htime, hhistory, hof⟩ := exists_time_ofRun hm h
  refine ⟨time, htime, fun hvaries hruns => ⟨fun target region => ?_,
    fun hroom field reference region => ?_⟩, fun hout region hregion => ?_⟩
  · exact orderly_convergenceRates h hhistory hof hm.evaluable hvaries hruns target region
  · exact orderly_cycles h hhistory hof hm.evaluable hvaries hruns hroom field reference region
  · exact not_orderly_analysis h hhistory hof hout hregion

/-- **Cycles are made from places that exist** — they are what comes out if every place is looked up
first: the neighbours of each point that may be a maximum, the values from one maximum up to the
next, the times of both and the middle of the values. -/
theorem cycles_in_range {field reference : String} {result : List (List (Cycle α))}
    (hm : m.Evaluable) (h : integrate m axes method timeStep control = .ok outcome)
    (hcycles : cycles outcome.recording field reference region = .ok result) :
    ∃ times values bounds,
      outcome.recording.field? "time" = some times ∧
      outcome.recording.field? field = some values ∧
      outcome.recording.field? reference = some bounds ∧
      ∀ run cs, result[run]? = some cs →
        checkedCycles (values.series outcome.recording.validPoints run region)
          (times.series outcome.recording.validPoints 0 0)
          (bounds.series outcome.recording.validPoints run region) = .ok cs := by
  obtain ⟨times, values, bounds, htimes, hvalues, hbounds, -, -, -, -, hrows⟩ :=
    exists_histories_of_cycles hm h hcycles
  refine ⟨times, values, bounds, htimes, hvalues, hbounds, fun run cs hcs => ?_⟩
  obtain ⟨-, -, -, rfl⟩ := hrows run cs hcs
  exact checkedCycles_eq (by simp [History.series]) (by simp [History.series])

end Run

/-! ## Clocks to look at -/

/-- A field that grows by one in each unit of time. -/
def clock : Description Fraction where
  name := "clock"
  differential := .ofList
    [("x", ⟨[("func", .function ((Expression.number (.of 1)).toFunction [])),
      ("initial", .value (.scalar (.of 0)))]⟩)]

/-- The same field, with a time that stands still. -/
def stoppedClock : Description Fraction :=
  { clock with
    name := "stopped clock"
    parameter := .ofList [("time", ⟨[("value", .value (.scalar (.of 1)))]⟩)] }

/-- A run over two points. -/
def twoPoints (m : Model Fraction) : Except (Failure Fraction) (Outcome Fraction) :=
  integrate m ⟨2, 1, 1⟩ .rk4 (.of 1) ⟨.of 0, .of 0, .of 0, 0⟩

/-- A clock that goes can be analysed. -/
theorem clock_orderly : ∃ m outcome, load .empty clock = .ok m ∧ twoPoints m = .ok outcome ∧
    0 < outcome.recording.lastValid ∧
    (∀ target region, Orderly (convergenceRates outcome.recording target region)) ∧
    ∀ field reference region, Orderly (cycles outcome.recording field reference region) := by
  have hruns : ((load .empty clock).toOption.bind fun m => (m.field? "time").bind fun time =>
      (twoPoints m).toOption.map fun outcome =>
        (time.kind.isTimeVarying, outcome.recording.lastValid)) = some (true, 1) := by
    decide +kernel
  obtain ⟨m, hm, hruns⟩ := Option.bind_eq_some_iff.1 hruns
  obtain ⟨time, htime, hruns⟩ := Option.bind_eq_some_iff.1 hruns
  obtain ⟨outcome, houtcome, hruns⟩ := Option.map_eq_some_iff.1 hruns
  obtain ⟨hvaries, hlast⟩ := Prod.mk.inj hruns
  have hm := toOption_eq_some_iff.1 hm
  have houtcome := toOption_eq_some_iff.1 houtcome
  obtain ⟨time', htime', horderly, -⟩ := analysis_orderly (.loaded hm) houtcome
  obtain rfl := Option.some.inj (htime.symm.trans htime')
  obtain ⟨hrates, hcycles⟩ := horderly (.inl hvaries) Nat.one_pos
  exact ⟨m, outcome, hm, houtcome, by omega, hrates, hcycles (by decide)⟩

/-- **A model may give time a value of its own** — loading accepts it, and a run of two points
succeeds; its cycles are then a fault, and not an error that names the time. -/
theorem stoppedClock_faults : ∃ m outcome, load .empty stoppedClock = .ok m ∧
    twoPoints m = .ok outcome ∧
    cycles outcome.recording "x" "x" 0 = .error (.fault .outOfRange) := by
  have hruns : ((load .empty stoppedClock).toOption.bind fun m =>
      (twoPoints m).toOption.map fun outcome =>
        fault? (cycles outcome.recording "x" "x" 0)) = some (some .outOfRange) := by
    decide +kernel
  obtain ⟨m, hm, hruns⟩ := Option.bind_eq_some_iff.1 hruns
  obtain ⟨outcome, houtcome, hruns⟩ := Option.map_eq_some_iff.1 hruns
  exact ⟨m, outcome, toOption_eq_some_iff.1 hm, toOption_eq_some_iff.1 houtcome,
    fault?_eq_some_iff.1 hruns⟩

end FieldFlow
