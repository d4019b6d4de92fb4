import FieldFlow.Proofs.Analysis.Cycles
import FieldFlow.Proofs.Run.TimeAxis
import FieldFlow.Proofs.Solver.Clocks

/-!
# Proofs/Analysis/Timing — the times of cycles

A cycle has the times that are on record in the first run and region, whichever run it is a cycle
of. The times of two runs are clocks of one state: they stay equal where they start equal, in any
arithmetic, and in an exact one they stay as far apart as they start. A cycle therefore has the
times of its own run exactly where time starts there as it does in the first run and region, and it
has the period of its own run in any case (`cycles_timed`).
-/

namespace FieldFlow

variable {α : Type} [Scalar α]

/-! ## Clocks over many steps -/

section Steps

variable {ε : Type} {n t : Nat} {f : Rate ε α n} {method : Method} {control : StepControl α}
  {start c : Cursor α n}

theorem Method.agree_steps {timeStep : α} {k l : Fin n} (hk : Clock f k) (hl : Clock f l)
    (hsame : start.state.get k = start.state.get l)
    (h : stepsFrom (method.step control f timeStep) start t = some c) :
    c.state.get k = c.state.get l :=
  stepsFrom_induct (motive := fun _ c => c.state.get k = c.state.get l) hsame
    (fun hc hnext => Method.agree_step hk hl hc hnext) h

theorem Method.shift_steps {K : Type} [FieldOfNumbers K] [LinearOrder K] [IsStrictOrderedRing K]
    [ExactOver K α] {dt : K}
    (h : stepsFrom (method.step control f (ExactOver.of dt)) start t = some c) :
    ∃ y : K, ∀ k, Clock f k → c.state.get k = start.state.get k + ExactOver.of y := by
  refine stepsFrom_induct
    (motive := fun _ c => ∃ y : K, ∀ k, Clock f k →
      c.state.get k = start.state.get k + ExactOver.of y)
    ⟨0, fun k _ => (ExactOver.add_of_zero _).symm⟩ (fun ⟨y, hy⟩ hnext => ?_) h
  obtain ⟨z, hz⟩ := Method.shift_step (K := K) hnext
  exact ⟨y + z, fun k hk => by rw [hz k hk, hy k hk, ExactOver.add_of_add_of]⟩

end Steps

section Run

variable {registry : Registry α} {d : Description α} {m : Model α} {axes : RunAxes}
  {method : Method} {timeStep : α} {control : StepControl α} {outcome : Outcome α}
  {times : History α}

/-! ## Times on record in different places -/

/-- **Times that start together** in two places stay together. -/
theorem times_agree (hm : m.InUse registry d) (hdeclares : ¬ d.Declares "time")
    (h : integrate m axes method timeStep control = .ok outcome)
    (htimes : outcome.recording.field? "time" = some times) {x x' r r' t : Nat}
    (hx : x < axes.runs) (hr : r < axes.regions) (hx' : x' < axes.runs) (hr' : r' < axes.regions)
    (hsame : times.get 0 x r 0 0 = times.get 0 x' r' 0 0) (ht : t ≤ outcome.recording.lastValid) :
    times.get t x r 0 0 = times.get t x' r' 0 0 := by
  obtain ⟨sys, initial, history, -, -, hhistory, -, hclocks⟩ := time_recorded hm hdeclares h
  obtain rfl := Option.some.inj (hhistory.symm.trans htimes)
  obtain ⟨k, hk, hplace⟩ := hclocks x hx r hr
  obtain ⟨l, hl, hplace'⟩ := hclocks x' hx' r' hr'
  obtain ⟨first, hfirst, hstart⟩ := hplace 0 (Nat.zero_le _)
  obtain ⟨first', hfirst', hstart'⟩ := hplace' 0 (Nat.zero_le _)
  obtain rfl := Option.some.inj (hfirst.symm.trans hfirst')
  obtain rfl := Option.some.inj hfirst
  obtain ⟨c, hc, hat⟩ := hplace t ht
  obtain ⟨c', hc', hat'⟩ := hplace' t ht
  obtain rfl := Option.some.inj (hc.symm.trans hc')
  rw [← hstart, ← hstart'] at hsame
  rw [← hat, ← hat']
  exact Method.agree_steps hk hl hsame hc

/-- **Times on record move together**: at each time point they are all as far from their start. -/
theorem times_shift {K : Type} [FieldOfNumbers K] [LinearOrder K] [IsStrictOrderedRing K]
    [ExactOver K α] {dt : K} (hm : m.InUse registry d) (hdeclares : ¬ d.Declares "time")
    (h : integrate m axes method (ExactOver.of dt) control = .ok outcome)
    (htimes : outcome.recording.field? "time" = some times) {t : Nat}
    (ht : t ≤ outcome.recording.lastValid) : ∃ y : K, ∀ x < axes.runs, ∀ r < axes.regions,
      times.get t x r 0 0 = times.get 0 x r 0 0 + ExactOver.of y := by
  obtain ⟨sys, initial, history, -, -, hhistory, -, hclocks⟩ := time_recorded hm hdeclares h
  obtain rfl := Option.some.inj (hhistory.symm.trans htimes)
  by_cases hplaces : 0 < axes.runs ∧ 0 < axes.regions
  · obtain ⟨k, hk, hplace⟩ := hclocks 0 hplaces.1 0 hplaces.2
    obtain ⟨c, hc, -⟩ := hplace t ht
    obtain ⟨y, hy⟩ := Method.shift_steps (K := K) hc
    refine ⟨y, fun x hx r hr => ?_⟩
    obtain ⟨l, hl, hplace⟩ := hclocks x hx r hr
    obtain ⟨first, hfirst, hstart⟩ := hplace 0 (Nat.zero_le _)
    obtain ⟨c', hc', hat⟩ := hplace t ht
    obtain rfl := Option.some.inj (hc.symm.trans hc')
    obtain rfl := Option.some.inj hfirst
    rw [← hat, ← hstart, hy l hl]
  · exact ⟨0, fun x hx r hr => absurd ⟨Nat.zero_lt_of_lt hx, Nat.zero_lt_of_lt hr⟩ hplaces⟩

/-! ## Cycles -/

/-- **A cycle that is timed by a run** in a region. -/
structure Cycle.TimedBy (c : Cycle α) (times : History α) (run region : Nat) : Prop where
  startTime : c.startTime = times.get c.start run region 0 0
  stopTime : c.stopTime = times.get c.stop run region 0 0
  period : c.period = times.get c.stop run region 0 0 - times.get c.start run region 0 0

variable {field reference : String} {region : Nat} {result : List (List (Cycle α))}

/-- A cycle whose ends have the times of a run is timed by it. -/
theorem Cycle.TimedBy.of_ends {c : Cycle α} {run : Nat}
    (hstart : c.startTime = times.get c.start run region 0 0)
    (hstop : c.stopTime = times.get c.stop run region 0 0) : c.TimedBy times run region :=
  ⟨hstart, hstop, by rw [Cycle.period, hstart, hstop]⟩

/-- Time varies, so it has as many points as the run, which can therefore be counted. -/
theorem validPoints_of_time (h : integrate m axes method timeStep control = .ok outcome)
    (htimes : times.OfRun axes .dynamic) :
    outcome.recording.validPoints = outcome.recording.lastValid + 1 := by
  have hsteps : times.steps = axes.steps := by rw [htimes.steps]; rfl
  have hvalid := lastValid_lt_of_integrate h
  have hcount := htimes.steps_lt
  rw [Recording.validPoints, Nat.mod_eq_of_lt (by rw [wordEnd_eq]; omega)]

/-- **The cycles of all runs** are timed by the first run and region. -/
theorem timedBy_first (hm : m.InUse registry d) (hdeclares : ¬ d.Declares "time")
    (h : integrate m axes method timeStep control = .ok outcome)
    (htimes : outcome.recording.field? "time" = some times)
    (hcycles : cycles outcome.recording field reference region = .ok result) :
    0 < axes.runs ∧ region < axes.regions ∧ result.length = axes.runs ∧
      ∀ cs ∈ result, ∀ c ∈ cs,
        c.start < c.stop ∧ c.stop ≤ outcome.recording.lastValid ∧ c.TimedBy times 0 0 := by
  obtain ⟨f, hf, hkind, -⟩ := hm.field?_time hdeclares
  obtain ⟨f', hf', htimesOf⟩ := exists_ofRun hm.evaluable h htimes
  obtain rfl := Option.some.inj (hf.symm.trans hf')
  obtain ⟨history, values, bounds, hhistory, -, -, -, hruns, hregion, hlength, hrows⟩ :=
    exists_histories_of_cycles hm.evaluable h hcycles
  obtain rfl := Option.some.inj (htimes.symm.trans hhistory)
  have hpoints := validPoints_of_time h (hkind ▸ htimesOf)
  refine ⟨hruns, hregion, hlength, fun cs hcs c hc => ?_⟩
  obtain ⟨run, hresult⟩ := List.mem_iff_getElem?.1 hcs
  obtain ⟨-, -, -, rfl⟩ := hrows run cs hresult
  obtain ⟨⟨start, stop⟩, hends, rfl⟩ := List.mem_map.1 hc
  obtain ⟨-, hstop, hlt, -⟩ := of_mem_consecutive (pairwise_localMaxima _) hends
  have hle := (mem_localMaxima.1 hstop).le
  exact ⟨hlt, by change stop ≤ _; omega,
    .of_ends (times.getElem?_series (by omega)) (times.getElem?_series (by omega))⟩

section Own

variable {run : Nat} {c : Cycle α} (hm : m.InUse registry d) (hdeclares : ¬ d.Declares "time")
  (h : integrate m axes method timeStep control = .ok outcome)
  (htimes : outcome.recording.field? "time" = some times) (hrun : run < axes.runs)
  (hregion : region < axes.regions) (hlt : c.start < c.stop)
  (hle : c.stop ≤ outcome.recording.lastValid) (hfirst : c.TimedBy times 0 0)

include hm hdeclares h htimes hrun hregion hlt hle hfirst

/-- A cycle has the times of its own run if time starts there as in the first run. -/
theorem Cycle.TimedBy.of_start (hsame : times.get 0 run region 0 0 = times.get 0 0 0 0 0) :
    c.TimedBy times run region := by
  have hat {t : Nat} (ht : t ≤ outcome.recording.lastValid) :=
    times_agree hm hdeclares h htimes hrun hregion (Nat.zero_lt_of_lt hrun)
      (Nat.zero_lt_of_lt hregion) hsame ht
  exact .of_ends (hfirst.startTime.trans (hat (hlt.le.trans hle)).symm)
    (hfirst.stopTime.trans (hat hle).symm)

omit h in
/-- In an exact arithmetic it has them only then, and the period of its own run in any case. -/
theorem Cycle.TimedBy.own_exact {K : Type} [FieldOfNumbers K] [LinearOrder K] [IsStrictOrderedRing K]
    [ExactOver K α] {dt : K}
    (h : integrate m axes method (ExactOver.of dt) control = .ok outcome) :
    (c.TimedBy times run region → times.get 0 run region 0 0 = times.get 0 0 0 0 0) ∧
    (Scalar.isFinite (times.get 0 0 0 0 0) = true →
      Scalar.isFinite (times.get 0 run region 0 0) = true →
        c.period = times.get c.stop run region 0 0 - times.get c.start run region 0 0) := by
  have hruns := Nat.zero_lt_of_lt hrun
  have hregions := Nat.zero_lt_of_lt hregion
  obtain ⟨y, hy⟩ := times_shift hm hdeclares h htimes (hlt.le.trans hle)
  obtain ⟨z, hz⟩ := times_shift hm hdeclares h htimes hle
  refine ⟨fun hown => ?_, fun hfinite hfinite' => ?_⟩
  · have hsame := hown.startTime.symm.trans hfirst.startTime
    rwa [hy run hrun region hregion, hy 0 hruns 0 hregions, ExactOver.add_of_inj] at hsame
  · obtain ⟨a, ha⟩ := ExactOver.exists_of (K := K) _ hfinite
    obtain ⟨b, hb⟩ := ExactOver.exists_of (K := K) _ hfinite'
    rw [hfirst.period, hz 0 hruns 0 hregions, hy 0 hruns 0 hregions, hz run hrun region hregion,
      hy run hrun region hregion, ha, hb]
    simp only [ExactOver.add, ExactOver.sub, add_sub_add_left_eq_sub]

end Own

/-- **When a cycle is timed by its own run** — a cycle of a model that does not declare its time has
the times on record in the first run and region, and its period is the difference of these. They are
those of its own run and region if time starts there as it does in the first ones, as it does
everywhere where the initial time is one number. In an exact arithmetic they are those of its own
run only then; its period is that of its own run also where time starts at another number. -/
theorem cycles_timed (hm : m.InUse registry d) (hdeclares : ¬ d.Declares "time")
    (h : integrate m axes method timeStep control = .ok outcome)
    (hcycles : cycles outcome.recording field reference region = .ok result) :
    ∃ times given, outcome.recording.field? "time" = some times ∧
      times.shape = ⟨axes.runs, axes.regions, 1, 1⟩ ∧
      (m.field? "time").bind Field.initial = some given ∧
      region < axes.regions ∧ result.length = axes.runs ∧
      ∀ run cs, result[run]? = some cs → ∀ c ∈ cs,
        c.start < c.stop ∧ c.stop ≤ outcome.recording.lastValid ∧ c.TimedBy times 0 0 ∧
        c.period = c.stopTime - c.startTime ∧
        ((∃ t, given = .scalar t) → c.TimedBy times run region) ∧
        (times.get 0 run region 0 0 = times.get 0 0 0 0 0 → c.TimedBy times run region) ∧
        ∀ (K : Type) [FieldOfNumbers K] [LinearOrder K] [IsStrictOrderedRing K] [ExactOver K α]
          (dt : K), timeStep = ExactOver.of dt →
            (c.TimedBy times run region → times.get 0 run region 0 0 = times.get 0 0 0 0 0) ∧
            (Scalar.isFinite (times.get 0 0 0 0 0) = true →
              Scalar.isFinite (times.get 0 run region 0 0) = true →
                c.period = times.get c.stop run region 0 0 - times.get c.start run region 0 0) := by
  obtain ⟨f, hf, hkind, -⟩ := hm.field?_time hdeclares
  obtain ⟨given, hgiven⟩ := Option.isSome_iff_exists.1 (hm.evaluable.dynamic hf hkind).2
  obtain ⟨-, -, times, -, -, htimes, hshape, -⟩ := time_recorded hm hdeclares h
  obtain ⟨hruns, hregion, hlength, hfirst⟩ := timedBy_first hm hdeclares h htimes hcycles
  have hregions := Nat.zero_lt_of_lt hregion
  refine ⟨times, given, htimes, hshape, by rw [hf, Option.bind_some, hgiven], hregion, hlength,
    fun run cs hcs c hc => ?_⟩
  have hrun : run < axes.runs := hlength ▸ (List.getElem?_eq_some_iff.1 hcs).1
  obtain ⟨hlt, hle, htimed⟩ := hfirst cs (List.mem_of_getElem? hcs) c hc
  have hown := Cycle.TimedBy.of_start hm hdeclares h htimes hrun hregion hlt hle htimed
  refine ⟨hlt, hle, htimed, rfl, fun ⟨t, ht⟩ => hown ?_, hown, ?_⟩
  · have hinitial : f.initial = some (.scalar t) := hgiven.trans (congrArg some ht)
    have hin {x r : Nat} (hx : x < axes.runs) (hr : r < axes.regions) :
        times.shape.Contains x r 0 0 := by
      rw [hshape]
      exact ⟨hx, hr, Nat.one_pos, Nat.one_pos⟩
    rw [get_start_of_scalar hm.evaluable h hf hkind hinitial htimes (hin hrun hregion),
      get_start_of_scalar hm.evaluable h hf hkind hinitial htimes (hin hruns hregions)]
  · rintro K _ _ _ _ dt rfl
    exact Cycle.TimedBy.own_exact hm hdeclares htimes hrun hregion hlt hle htimed h

end Run

/-! ## Tides on two shores -/

/-- A level that is high twice, as an hour goes on. -/
def tide : Description Rough where
  name := "tide"
  differential := .ofList
    [("hour", ⟨[("func", .function ((Expression.number (.of 1)).toFunction [])),
      ("initial", .value (.scalar (.of 0)))]⟩)]
  statevar :=
    let depth : Expression Rough := .binary .mul (.binary .sub (.input "hour") (.number (.of 1)))
      (.binary .sub (.input "hour") (.number (.of 3)))
    .ofList [("level", ⟨[("func", .function
      ((Expression.unary .neg (.binary .mul depth depth)).toFunction ["hour"]))]⟩)]

/-- A run over six points on two shores. -/
def tide.run (m : Model Rough) : Except (Failure Rough) (Outcome Rough) :=
  integrate m ⟨6, 2, 1⟩ .rk4 (.of 1) .standard

/-- What is read off the cycles of a run, once each shore has a time of its own. -/
def tide.timed? {β : Type} (times : List Rough)
    (read : Outcome Rough → List (List (Cycle Rough)) → β) : Option β :=
  (Simulation.load .empty tide 0).toOption.bind fun loaded =>
    match loaded.setField "time" (.value (.runs times)) with
    | (s, .ok ()) => (tide.run s.model).toOption.bind fun outcome =>
        (cycles outcome.recording "level" "level" 0).toOption.map (read outcome)
    | (_, .error _) => none

theorem tide.timed?_eq_some {β : Type} {times : List Rough}
    {read : Outcome Rough → List (List (Cycle Rough)) → β} {b : β}
    (h : timed? times read = some b) :
    ∃ loaded s outcome result, Simulation.load .empty tide 0 = .ok loaded ∧
      loaded.setField "time" (.value (.runs times)) = (s, .ok ()) ∧ s.model.InUse .empty tide ∧
      tide.run s.model = .ok outcome ∧
      cycles outcome.recording "level" "level" 0 = .ok result ∧ read outcome result = b := by
  obtain ⟨loaded, hloaded, h⟩ := Option.bind_eq_some_iff.1 h
  have hloaded := toOption_eq_some_iff.1 hloaded
  split at h
  · rename_i s hset
    obtain ⟨outcome, houtcome, h⟩ := Option.bind_eq_some_iff.1 h
    obtain ⟨result, hresult, hread⟩ := Option.map_eq_some_iff.1 h
    exact ⟨loaded, s, outcome, result, hloaded, hset, .assigned (.of_load hloaded) hset,
      toOption_eq_some_iff.1 houtcome, toOption_eq_some_iff.1 hresult, hread⟩
  · contradiction

theorem tide.not_declares_time : ¬ tide.Declares "time" := by decide +kernel

/-- With five for the start on either shore, the tides of the second are timed by the second. -/
theorem tide_timed : ∃ (s : Simulation Rough) (outcome : Outcome Rough) (times : History Rough)
    (c : Cycle Rough), s.model.InUse .empty tide ∧ ¬ tide.Declares "time" ∧
    tide.run s.model = .ok outcome ∧
    (∃ other, cycles outcome.recording "level" "level" 0 = .ok [[other], [c]]) ∧
    outcome.recording.field? "time" = some times ∧ c.TimedBy times 1 0 ∧
    c.startTime = .of 6 ∧ c.stopTime = .of 8 := by
  have hruns : tide.timed? [.of 5, .of 5] (fun outcome result =>
      (result.map (·.map fun c => (c.startTime, c.stopTime)),
        (outcome.recording.field? "time").map fun h => (h.get 0 0 0 0 0, h.get 0 1 0 0 0))) =
      some ([[(.of 6, .of 8)], [(.of 6, .of 8)]], some (.of 5, .of 5)) := by
    decide +kernel
  obtain ⟨loaded, s, outcome, result, -, -, hm, houtcome, hresult, hread⟩ :=
    tide.timed?_eq_some hruns
  obtain ⟨hcycles, hstarts⟩ := Prod.mk.inj hread
  obtain ⟨first, rest, rfl, hfirst, hrest⟩ := List.map_eq_cons_iff.1 hcycles
  obtain ⟨second, rfl, hsecond⟩ := List.map_eq_singleton_iff.1 hrest
  obtain ⟨other, rfl, -⟩ := List.map_eq_singleton_iff.1 hfirst
  obtain ⟨c, rfl, hc⟩ := List.map_eq_singleton_iff.1 hsecond
  obtain ⟨times, given, htimes, -, -, -, -, htimed⟩ :=
    cycles_timed hm tide.not_declares_time houtcome hresult
  rw [htimes, Option.map_some, Option.some.injEq, Prod.mk.injEq] at hstarts
  obtain ⟨-, -, -, -, -, hown, -⟩ := htimed 1 [c] rfl c List.mem_cons_self
  obtain ⟨hstart, hstop⟩ := Prod.mk.inj hc
  exact ⟨s, outcome, times, c, hm, tide.not_declares_time, houtcome, ⟨other, hresult⟩, htimes,
    hown (hstarts.2.trans hstarts.1.symm), hstart, hstop⟩

/-- **A tide at the time of another shore** — where time starts at zero on the first shore and at
ten on the second, the tides of the second are high at one and three, and eleven and thirteen are on
record. -/
theorem tide_mistimed : ∃ loaded s outcome times c, Simulation.load .empty tide 0 = .ok loaded ∧
    loaded.setField "time" (.value (.runs [.of 0, .of 10])) = (s, .ok ()) ∧
    ¬ tide.Declares "time" ∧ tide.run s.model = .ok outcome ∧
    (∃ other, cycles outcome.recording "level" "level" 0 = .ok [[other], [c]]) ∧
    outcome.recording.field? "time" = some times ∧
    c.startTime = .of 1 ∧ times.get c.start 1 0 0 0 = .of 11 ∧
    c.stopTime = .of 3 ∧ times.get c.stop 1 0 0 0 = .of 13 ∧ ¬ c.TimedBy times 1 0 := by
  have hruns : tide.timed? [.of 0, .of 10] (fun outcome result =>
      (result.map (·.map fun c => ([c.start, c.stop], [c.startTime, c.stopTime])),
        (outcome.recording.field? "time").map fun h => [h.get 1 1 0 0 0, h.get 3 1 0 0 0])) =
      some ([[([1, 3], [.of 1, .of 3])], [([1, 3], [.of 1, .of 3])]], some [.of 11, .of 13]) := by
    decide +kernel
  obtain ⟨loaded, s, outcome, result, hloaded, hset, -, houtcome, hresult, hread⟩ :=
    tide.timed?_eq_some hruns
  obtain ⟨hcycles, htimes⟩ := Prod.mk.inj hread
  obtain ⟨first, rest, rfl, hfirst, hrest⟩ := List.map_eq_cons_iff.1 hcycles
  obtain ⟨second, rfl, hsecond⟩ := List.map_eq_singleton_iff.1 hrest
  obtain ⟨other, rfl, -⟩ := List.map_eq_singleton_iff.1 hfirst
  obtain ⟨c, rfl, hc⟩ := List.map_eq_singleton_iff.1 hsecond
  obtain ⟨times, htimes, hrecorded⟩ := Option.map_eq_some_iff.1 htimes
  simp only [List.cons.injEq, and_true] at hrecorded
  obtain ⟨hfirstTime, hsecondTime⟩ := hrecorded
  simp only [Prod.mk.injEq, List.cons.injEq, and_true] at hc
  obtain ⟨⟨hstart, hstop⟩, hstartTime, hstopTime⟩ := hc
  have hfirstTime : times.get c.start 1 0 0 0 = .of 11 := by rw [hstart, hfirstTime]
  have hsecondTime : times.get c.stop 1 0 0 0 = .of 13 := by rw [hstop, hsecondTime]
  refine ⟨loaded, s, outcome, times, c, hloaded, hset, tide.not_declares_time, houtcome,
    ⟨other, hresult⟩, htimes, hstartTime, hfirstTime, hstopTime, hsecondTime, fun htimed => ?_⟩
  have heq : Rough.of 1 = .of 11 :=
    hstartTime.symm.trans (htimed.startTime.trans hfirstTime)
  exact absurd heq (by decide)

end FieldFlow
