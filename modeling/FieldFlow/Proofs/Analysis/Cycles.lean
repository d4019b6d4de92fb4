import FieldFlow.Proofs.Analysis.Orderly
import FieldFlow.Proofs.Analysis.Summary

/-!
# Proofs/Analysis/Cycles — the cycles of a run tile it between the maxima of a reference

Two maxima are never neighbours, so a cycle has two values at least, and all that is read to
describe it is there. Cycles are the gaps between maxima that follow each other, so one begins where
the last has ended and no maximum is left inside (`cycles_tile`).
-/

namespace FieldFlow

/-! ## Maxima -/

section Maxima

variable {α : Type} [Scalar α]

/-- **A local maximum** of a field in a run, which is neither the first point nor one of the last
two. -/
structure History.IsMaximum (h : History α) (points run region i : Nat) : Prop where
  pos : 1 ≤ i
  le : i + 3 ≤ points
  above_last : Scalar.lt (h.get (i - 1) run region 0 0) (h.get i run region 0 0) = true
  above_next : Scalar.lt (h.get (i + 1) run region 0 0) (h.get i run region 0 0) = true

variable {h : History α} {points run region i j : Nat}

theorem History.getElem?_series (hi : i < points) :
    (h.series points run region)[i]?.getD default = h.get i run region 0 0 := by
  simp [series, hi]

theorem mem_localMaxima :
    i ∈ localMaxima (h.series points run region) ↔ h.IsMaximum points run region i := by
  have hsize : (h.series points run region).size = points := by simp [History.series]
  rw [localMaxima, hsize, List.mem_filter, mem_candidates_iff, Bool.and_eq_true]
  dsimp only
  constructor
  · rintro ⟨⟨hpos, hle⟩, habove⟩
    rw [h.getElem?_series (by omega), h.getElem?_series (by omega), h.getElem?_series (by omega)]
      at habove
    exact ⟨hpos, hle, habove.1, habove.2⟩
  · rintro ⟨hpos, hle, hlast, hnext⟩
    rw [h.getElem?_series (by omega), h.getElem?_series (by omega), h.getElem?_series (by omega)]
    exact ⟨⟨hpos, hle⟩, hlast, hnext⟩

/-- **Maxima are not neighbours** — each of the two would be above the other. -/
theorem History.IsMaximum.add_two_le [Compares α] (hi : h.IsMaximum points run region i)
    (hj : h.IsMaximum points run region j) (hij : i < j) : i + 2 ≤ j := by
  by_contra hle
  obtain rfl : j = i + 1 := by omega
  exact nomatch (Compares.lt_asymm hi.above_next).symm.trans hj.above_last

end Maxima

/-! ## Cycles between maxima -/

section Cycles

variable {α : Type} [Scalar α]

/-- **Cycles that tile a run** between the given maxima. -/
structure Tiles (cs : List (Cycle α)) (maxima : List Nat) : Prop where
  /-- There is one cycle for each maximum and the next one, in order. -/
  pairs : cs.map (fun c => (c.start, c.stop)) = maxima.zip maxima.tail
  joined : cs.IsChain fun c next => c.stop = next.start
  clear : ∀ c ∈ cs, ∀ i ∈ maxima, i ≤ c.start ∨ c.stop ≤ i
  lone : maxima.length < 2 → cs = []

/-- Cycles between the maxima of a list in line. -/
theorem tiles_consecutive {maxima : List Nat} (h : maxima.Pairwise (· < ·)) (x t : Array α) :
    Tiles ((consecutive maxima).map fun (start, stop) => describeCycle x t start stop) maxima where
  pairs := by
    rw [List.map_map, ← consecutive_eq]
    exact List.map_id _
  joined := (List.isChain_map _).2 (isChain_consecutive maxima)
  clear c hc := by
    obtain ⟨p, hp, rfl⟩ := List.mem_map.1 hc
    exact (of_mem_consecutive h hp).2.2.2
  lone hlone := by
    rw [consecutive_eq]
    match maxima, hlone with
    | [], _ | [_], _ => rfl

/-- The values of a field in one run, from one time point up to another. -/
def History.window (h : History α) (start stop run region : Nat) : List α :=
  (List.range' start (stop - start)).map fun t => h.get t run region 0 0

theorem History.extract_series {h : History α} {points start stop run region : Nat}
    (hstop : stop ≤ points) : ((h.series points run region).extract start stop).toList =
      h.window start stop run region := by
  refine List.ext_getElem ?_ fun k hk _ => ?_
  · simp only [series, window, Array.length_toList, Array.size_extract, List.size_toArray,
      List.length_map, List.length_range, List.length_range']
    omega
  · simp [series, window]

/-- **A cycle that describes its window** of a field. -/
structure Cycle.Describes (c : Cycle α) (values times : History α) (run region : Nat) : Prop where
  gap : c.start + 2 ≤ c.stop
  /-- Neither the number of values nor that of the gaps between them is zero. -/
  long : 2 ≤ (values.window c.start c.stop run region).length
  startTime : c.startTime = times.get c.start 0 0 0 0
  stopTime : c.stopTime = times.get c.stop 0 0 0 0
  summary : c.summary = .ofList (values.window c.start c.stop run region)
  figures : c.summary.Describes (values.window c.start c.stop run region)
  coefficients : c.coefficients =
    (List.range cycleHarmonics).map (fourierMagnitude (values.window c.start c.stop run region))
  harmonicity : c.harmonicity = harmonicityOf c.coefficients

theorem describes_describeCycle [Compares α] {values times : History α}
    {points start stop run region : Nat} (hgap : start + 2 ≤ stop) (hstop : stop < points) :
    (describeCycle (values.series points run region) (times.series points 0 0) start stop).Describes
      values times run region := by
  have hwindow : ((values.series points run region).extract start stop).toList =
      values.window start stop run region := values.extract_series hstop.le
  have hlong : 2 ≤ (values.window start stop run region).length := by
    rw [History.window, List.length_map, List.length_range']
    omega
  have hne : values.window start stop run region ≠ [] := List.length_pos_iff.1 (by omega)
  have hsummary : Cycle.figuresOf ((values.series points run region).extract start stop).toList =
      .ofList (values.window start stop run region) := by
    rw [hwindow, Cycle.figuresOf_eq hne]
  exact {
    gap := hgap
    long := hlong
    startTime := times.getElem?_series (by omega)
    stopTime := times.getElem?_series (by omega)
    summary := hsummary
    figures := (congrArg (Summary.Describes · _) hsummary).mpr (Summary.describes_ofList hne)
    coefficients := congrArg (fun w => (List.range cycleHarmonics).map (fourierMagnitude w)) hwindow
    harmonicity := rfl }

/-- **The cycles of one run** between the maxima of a reference. -/
theorem exists_maxima [Compares α] (values times bounds : History α) (points run region : Nat) :
    ∃ maxima, maxima.Pairwise (· < ·) ∧
      (∀ i, i ∈ maxima ↔ bounds.IsMaximum points run region i) ∧
      let cs := (consecutive (localMaxima (bounds.series points run region))).map
        fun (start, stop) =>
          describeCycle (values.series points run region) (times.series points 0 0) start stop
      Tiles cs maxima ∧ ∀ c ∈ cs, c.stop < points ∧ c.Describes values times run region := by
  have hline := pairwise_localMaxima (bounds.series points run region)
  refine ⟨_, hline, fun i => mem_localMaxima, tiles_consecutive hline _ _, fun c hc => ?_⟩
  obtain ⟨⟨start, stop⟩, hp, rfl⟩ := List.mem_map.1 hc
  obtain ⟨hstart, hstop, hlt, -⟩ := of_mem_consecutive hline hp
  have hstop := mem_localMaxima.1 hstop
  have hgap := (mem_localMaxima.1 hstart).add_two_le hstop hlt
  have hbound : stop < points := by
    have := hstop.le
    omega
  exact ⟨hbound, describes_describeCycle hgap hbound⟩

/-! ## The cycles of a run -/

variable {m : Model α} {axes : RunAxes} {method : Method} {timeStep : α} {control : StepControl α}
  {outcome : Outcome α} {rec : Recording α} {field reference : String} {region : Nat}
  {result : List (List (Cycle α))}

/-- **The cycles of a run tile it between the maxima of the reference** — there is one for each
maximum and the next, and it describes the values of the field from the one up to the other. -/
theorem cycles_tile [Compares α] {registry : Registry α} {d : Description α}
    (hm : m.InUse registry d) (h : integrate m axes method timeStep control = .ok outcome)
    (hword : axes.steps < wordEnd)
    (hcycles : cycles outcome.recording field reference region = .ok result) :
    ∃ times values bounds,
      outcome.recording.field? "time" = some times ∧
      outcome.recording.field? field = some values ∧
      outcome.recording.field? reference = some bounds ∧
      (∀ h ∈ [times, values, bounds], outcome.recording.lastValid < h.steps) ∧
      result.length = axes.runs ∧
      ∀ run cs, result[run]? = some cs →
        times.shape.Contains 0 0 0 0 ∧ values.shape.Contains run region 0 0 ∧
        bounds.shape.Contains run region 0 0 ∧
        ∃ maxima, maxima.Pairwise (· < ·) ∧
          (∀ i, i ∈ maxima ↔ bounds.IsMaximum (outcome.recording.lastValid + 1) run region i) ∧
          Tiles cs maxima ∧
          ∀ c ∈ cs, c.stop ≤ outcome.recording.lastValid ∧ c.Describes values times run region := by
  obtain ⟨times, values, bounds, htimes, hvalues, hbounds, hsteps, -, -, hlength, hrows⟩ :=
    exists_histories_of_cycles hm.evaluable h hcycles
  have hpoints : outcome.recording.validPoints = outcome.recording.lastValid + 1 :=
    Nat.mod_eq_of_lt (Nat.lt_of_le_of_lt (lastValid_lt_of_integrate h) hword)
  rw [hpoints] at hsteps hrows
  refine ⟨times, values, bounds, htimes, hvalues, hbounds, hsteps, hlength, fun run cs hcs => ?_⟩
  obtain ⟨htimesIn, hvaluesIn, hboundsIn, rfl⟩ := hrows run cs hcs
  obtain ⟨maxima, hline, hmaxima, htiles, hcycle⟩ :=
    exists_maxima values times bounds (outcome.recording.lastValid + 1) run region
  exact ⟨htimesIn, hvaluesIn, hboundsIn, maxima, hline, hmaxima, htiles,
    fun c hc => (hcycle c hc).imp_left Nat.le_of_lt_succ⟩

end Cycles

/-! ## A wave to look at -/

/-- A field that reaches its height twice, as another one grows. -/
def wave : Description Float where
  name := "wave"
  differential := .ofList
    [("x", ⟨[("func", .function ((Expression.number 1.0).toFunction [])),
      ("initial", .value (.scalar 0.0))]⟩)]
  statevar :=
    let depth : Expression Float := .binary .mul (.binary .sub (.input "x") (.number 1.0))
      (.binary .sub (.input "x") (.number 3.0))
    .ofList [("y", ⟨[("func", .function
      ((Expression.unary .neg (.binary .mul depth depth)).toFunction ["x"]))]⟩)]

/-- A run over six points. -/
def wave.run (m : Model Float) : Except (Failure Float) (Outcome Float) :=
  integrate m ⟨6, 1, 1⟩ .rk4 1.0 ⟨0.0, 0.0, 0.0, 0⟩

/-- The wave has one cycle, from its first height to its second. -/
theorem wave_cycle : ∃ m outcome values times c, load .empty wave = .ok m ∧
    wave.run m = .ok outcome ∧ cycles outcome.recording "y" "y" 0 = .ok [[c]] ∧
    outcome.recording.field? "y" = some values ∧ c.start = 1 ∧ c.stop = 3 ∧
    c.Describes values times 0 0 := by
  have hruns : ((load .empty wave).toOption.bind fun m =>
      (wave.run m).toOption.bind fun outcome =>
        (cycles outcome.recording "y" "y" 0).toOption.map fun result =>
          result.map (·.map fun c => (c.start, c.stop))) = some [[(1, 3)]] := by
    decide +kernel
  obtain ⟨m, hm, hruns⟩ := Option.bind_eq_some_iff.1 hruns
  obtain ⟨outcome, houtcome, hruns⟩ := Option.bind_eq_some_iff.1 hruns
  obtain ⟨result, hresult, hruns⟩ := Option.map_eq_some_iff.1 hruns
  have hm := toOption_eq_some_iff.1 hm
  have houtcome := toOption_eq_some_iff.1 houtcome
  have hresult := toOption_eq_some_iff.1 hresult
  obtain ⟨times, values, bounds, -, hvalues, -, -, -, hcycles⟩ :=
    cycles_tile (.loaded hm) houtcome (by decide) hresult
  obtain ⟨cs, rfl, hcs⟩ := List.map_eq_singleton_iff.1 hruns
  obtain ⟨c, rfl, hc⟩ := List.map_eq_singleton_iff.1 hcs
  obtain ⟨hstart, hstop⟩ := Prod.mk.inj hc
  obtain ⟨-, -, -, maxima, -, -, -, hdescribes⟩ := hcycles 0 [c] rfl
  exact ⟨m, outcome, values, times, c, hm, houtcome, hresult, hvalues, hstart, hstop,
    (hdescribes c List.mem_cons_self).2⟩

end FieldFlow
