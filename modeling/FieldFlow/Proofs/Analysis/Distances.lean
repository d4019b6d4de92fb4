import FieldFlow.Proofs.Analysis.Orderly
import FieldFlow.Proofs.Run.TimeAxis

/-!
# Proofs/Analysis/Distances — how far the runs are from a target

A recording that can be measured has a rate for each run, and the rate is that of the distances from
the target at the times of the first run (`Recording.convergenceRates_eq`). What a model leaves that
brings its own time is such a recording if it has rates at all
(`Recording.measures_of_integrate`).
-/

namespace FieldFlow

variable {α : Type}

/-- **A history that is read** at a region and the first sector, up to a number of time points. -/
structure History.Readable (h : History α) (points region : Nat) : Prop where
  points_le : points ≤ h.steps
  steps_lt : h.steps < memoryEnd
  region_lt : region < h.shape.regions
  regions_lt : h.shape.regions < memoryEnd
  rows : 0 < h.shape.sectorA
  columns : 0 < h.shape.sectorB

/-- **A recording that is measured against a target** — time is recorded, and every field of the
target up to the last valid time, in every run or in one that stands for all. -/
structure Recording.Measures (rec : Recording α) (target : OrderedMap α) (region : Nat) : Prop where
  region_lt : region < rec.axes.regions
  room : checkExtent [rec.validPoints, rec.axes.runs] = .ok ()
  time : ∃ h, rec.field? "time" = some h ∧ h.Readable rec.validPoints 0 ∧ 0 < h.shape.runs
  goals : ∀ name ∈ target.keys, ∃ h, rec.field? name = some h ∧
    h.Readable rec.validPoints region ∧ (h.shape.runs = rec.axes.runs ∨ h.shape.runs = 1)

variable [Scalar α]

namespace Recording

/-- What a run has of a field at a region and the first sector; a field with one run stands for
every run. -/
def reading (rec : Recording α) (name : String) (x region t : Nat) : α :=
  match rec.field? name with
  | some h => h.get t (if h.shape.runs = 1 then 0 else x) region 0 0
  | none => default

/-- The times of the first run. -/
def timeAt (rec : Recording α) (t : Nat) : α := rec.reading "time" 0 0 t

/-- **The distance of a run from a target** at one time. -/
def distance (rec : Recording α) (target : OrderedMap α) (region x t : Nat) : α :=
  Scalar.sqrt (Scalar.sum (target.entries.map fun (name, goal) =>
    Scalar.square (rec.reading name x region t - goal)))

variable {rec : Recording α} {target : OrderedMap α} {region : Nat}

/-- A field of a target is read in every run. -/
theorem targetSeries_eq {name : String} {h : History α} (hfield : rec.field? name = some h)
    (hh : h.Readable rec.validPoints region)
    (hruns : h.shape.runs = rec.axes.runs ∨ h.shape.runs = 1) :
    targetSeries rec region name = .ok ((List.range rec.axes.runs).map fun x =>
      (List.range rec.validPoints).map (rec.reading name x region)) := by
  have hvarying : varyingField rec name "convergence target" = .ok h :=
    varyingField_eq_ok_iff.2 ⟨hfield, hh.points_le⟩
  have hsectors : ¬ (h.shape.sectorA = 0 || h.shape.sectorB = 0) = true := by
    simp [hh.rows.ne', hh.columns.ne']
  have hshape : ¬ (h.shape.runs ≠ rec.axes.runs && h.shape.runs ≠ 1) = true := by
    rcases hruns with h | h <;> simp [h]
  unfold targetSeries reading
  rw [hvarying, hfield]
  simp only [bind, Except.bind, place?_of_lt hh.region_lt hh.regions_lt, if_neg hsectors,
    if_neg hshape]
  rfl

/-- The distances of one run, from the values of the fields of the target. -/
theorem distancesTo_eq (x : Nat) : distancesTo rec.validPoints target.values
    (target.keys.map fun name => (List.range rec.validPoints).map (rec.reading name x region)) =
      (List.range rec.validPoints).map (rec.distance target region x) := by
  refine List.map_congr_left fun t ht => ?_
  have hread (name : String) :
      ((List.range rec.validPoints).map (rec.reading name x region)).toArray[t]?.getD default =
        rec.reading name x region t := by
    simp [List.mem_range.1 ht]
  simp only [distance, OrderedMap.keys, OrderedMap.values, List.map_map, List.zip_map',
    Function.comp_def, hread]

/-- **The rates of a recording that can be measured.** -/
theorem convergenceRates_eq (hm : rec.Measures target region) :
    convergenceRates rec target region = .ok ((List.range rec.axes.runs).map fun x =>
      decayConstant ((List.range rec.validPoints).map rec.timeAt)
        ((List.range rec.validPoints).map (rec.distance target region x))) := by
  obtain ⟨time, htime, htimeRead, hfirst⟩ := hm.time
  have htimes : Recording.seriesOf time rec.validPoints 0 0 =
      .ok ((List.range rec.validPoints).map rec.timeAt) := by
    have hcut : cut? time.steps rec.validPoints = some rec.validPoints :=
      (cut?_eq_some_iff (Nat.lt_of_le_of_lt htimeRead.points_le htimeRead.steps_lt)).2
        ⟨htimeRead.points_le, rfl⟩
    have hin : (0 < time.shape.runs && 0 < time.shape.sectorA && 0 < time.shape.sectorB) = true := by
      simp [hfirst, htimeRead.rows, htimeRead.columns]
    have hread : rec.timeAt = fun t => time.get t 0 0 0 0 := by
      funext t
      simp only [timeAt, reading, htime, ite_self]
    rw [seriesOf, hcut, place?_of_lt htimeRead.region_lt htimeRead.regions_lt, hread]
    exact if_pos hin
  have hseries : target.keys.mapM (targetSeries rec region) = .ok (target.keys.map fun name =>
      (List.range rec.axes.runs).map fun x =>
        (List.range rec.validPoints).map (rec.reading name x region)) := by
    rw [mapM_eq_ok_iff, List.forall₂_map_right_iff, List.forall₂_same]
    intro name hname
    obtain ⟨h, hfield, hread, hruns⟩ := hm.goals name hname
    exact targetSeries_eq hfield hread hruns
  have hcheck : checkRegion rec region = .ok () := checkRegion_eq_ok_iff.2 hm.region_lt
  rw [convergenceRates, hcheck, validTimes_eq_ok_iff.2 htime]
  simp only [bind, Except.bind, hm.room, Except.mapError, hseries, htimes]
  refine congrArg Except.ok (List.map_congr_left fun x hx => ?_)
  have hrun (name : String) : ((List.range rec.axes.runs).map fun x =>
      (List.range rec.validPoints).map (rec.reading name x region)).getD x [] =
        (List.range rec.validPoints).map (rec.reading name x region) := by
    simp [List.mem_range.1 hx]
  simp only [List.map_map, Function.comp_def, hrun, distancesTo_eq]

/-- Where rates are given, all that they need has been found. -/
theorem of_convergenceRates_eq_ok {rates : List α} (h : convergenceRates rec target region = .ok rates) :
    ∃ time times, region < rec.axes.regions ∧ rec.field? "time" = some time ∧
      checkExtent [rec.validPoints, rec.axes.runs] = .ok () ∧
      Recording.seriesOf time rec.validPoints 0 0 = .ok times ∧
      ∀ name ∈ target.keys, ∃ h, rec.field? name = some h ∧ rec.validPoints ≤ h.steps := by
  obtain ⟨⟨⟩, hregion, h⟩ := bind_eq_ok_iff.1 h
  obtain ⟨time, htime, h⟩ := bind_eq_ok_iff.1 h
  obtain ⟨⟨⟩, hroom, h⟩ := bind_eq_ok_iff.1 h
  obtain ⟨series, hseries, h⟩ := bind_eq_ok_iff.1 h
  obtain ⟨times, htimes, -⟩ := bind_eq_ok_iff.1 h
  refine ⟨time, times, checkRegion_eq_ok_iff.1 hregion, validTimes_eq_ok_iff.1 htime,
    mapError_eq_ok_iff.1 hroom, mapError_eq_ok_iff.1 htimes, fun name hname => ?_⟩
  obtain ⟨_, -, hname⟩ := exists_ok_of_mapM_eq_ok hseries name hname
  obtain ⟨found, hfound, -⟩ := bind_eq_ok_iff.1 hname
  exact ⟨found, varyingField_eq_ok_iff.1 hfound⟩

end Recording

/-! ## What a run leaves -/

section Run

variable {m : Model α} {axes : RunAxes} {method : Method} {timeStep : α} {control : StepControl α}
  {outcome : Outcome α} {kind : FieldKind} {h : History α} {points region : Nat}

omit [Scalar α] in
theorem History.OfRun.readable (hh : h.OfRun axes kind) (hpoints : points ≤ h.steps)
    (hregion : region < axes.regions) : h.Readable points region where
  points_le := hpoints
  steps_lt := hh.steps_lt
  region_lt := hh.regions ▸ hregion
  regions_lt := lt_memoryEnd_of_mem hh.addressable (by simp [Shape.toList])
  rows := hh.rows
  columns := hh.columns

/-- **What is left by a model that brings its own time** can be measured if it has rates, at every
time up to the last valid one. -/
theorem Recording.measures_of_integrate {registry : Registry α} {d : Description α}
    (hm : m.InUse registry d) (hdeclares : ¬ d.Declares "time")
    (hrun : integrate m axes method timeStep control = .ok outcome) {target : OrderedMap α}
    {rates : List α} (hrates : convergenceRates outcome.recording target region = .ok rates) :
    outcome.recording.Measures target region ∧
      outcome.recording.validPoints = outcome.recording.lastValid + 1 := by
  obtain ⟨time, times, hregion, htime, hroom, htimes, hgoals⟩ := of_convergenceRates_eq_ok hrates
  have haxes := axes_of_integrate hrun
  obtain ⟨f, hf, hof⟩ := exists_ofRun hm.evaluable hrun htime
  obtain ⟨g, hg, hkind, -⟩ := hm.field?_time hdeclares
  obtain rfl := Option.some.inj (hf.symm.trans hg)
  have hvaries : f.kind.isTimeVarying = true := by rw [hkind]; rfl
  have hpoints : outcome.recording.validPoints = outcome.recording.lastValid + 1 := by
    have hlast := lastValid_lt_of_integrate hrun
    have hlt := hof.steps_lt
    rw [hof.steps, if_pos hvaries] at hlt
    exact Nat.mod_eq_of_lt (by rw [wordEnd_eq]; omega)
  have hruns : 0 < axes.runs := by
    refine Nat.pos_of_ne_zero fun hzero => ?_
    rw [hof.seriesOf_eq_outOfRange (.inr hzero.le)] at htimes
    contradiction
  rw [haxes] at hregion
  have hreached := (validPoints_le_of_time hrun hof (.inl hvaries)).2
  refine ⟨⟨haxes ▸ hregion, hroom, ⟨time, htime, ?_, hof.runs ▸ hruns⟩, ?_⟩, hpoints⟩
  · exact hof.readable hreached (Nat.zero_lt_of_lt hregion)
  · intro name hname
    obtain ⟨h, hfield, hle⟩ := hgoals name hname
    obtain ⟨_, -, hhof⟩ := exists_ofRun hm.evaluable hrun hfield
    exact ⟨h, hfield, hhof.readable hle hregion, .inl (haxes ▸ hhof.runs)⟩

end Run

end FieldFlow
