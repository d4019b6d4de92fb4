import FieldFlow.Proofs.Analysis.Histories
import FieldFlow.Proofs.Run.TimeAxis
import FieldFlow.Proofs.Solver.Failed

/-!
# Proofs/Run/Divergence — the time that a divergence carries

An adaptive step that gives up names the time where it began, and its length was positive then
(`Method.of_step_impasse`). So the clock of the solver and the times on record have gone as many
steps of one length, each from its own start: the time that a divergence carries is the one on
record if both have started together (`divergence_dated`). The solver starts at the initial value of
`time` if that is one number for all runs, and at zero otherwise.
-/

namespace FieldFlow

/-! ## Steps that are given up -/

section Steps

variable {ε α : Type} {n : Nat} [Scalar α] {control : StepControl α} {f : Rate ε α n} {dt began : α}
  {c next : Cursor α n} {cause : Impasse α}

/-- An impasse carries the time where its step began, and the goal of the step lies ahead — with its
goal not ahead, a step succeeds without a trial. -/
theorem Adaptive.of_step_impasse {tableau : Tableau}
    (h : step tableau control f dt c = (next, .error (.impasse began cause))) :
    began = c.time ∧ Scalar.lt c.time (c.time + dt) = true := by
  constructor
  · obtain ⟨q, hends, -⟩ := exists_ends h
    cases hends with
    | failed _ _ htries => exact htries.failed.2.2 _ _ rfl
  · by_contra hlt
    have hahead : Scalar.lt (outset dt c).now (goalOf control c.time dt).stop = false :=
      Bool.eq_false_iff.2 hlt
    have hstep : step tableau control f dt c = _ := step_of_advance (advance_of_not_lt hahead)
    exact nomatch (Prod.mk.inj (h.symm.trans hstep)).2

/-- **A step that is given up** names the time where it began, which lies before its goal. -/
theorem Method.of_step_impasse {m : Method}
    (h : m.step control f dt c = (next, .error (.impasse began cause))) :
    began = c.time ∧ Scalar.lt c.time (c.time + dt) = true := by
  unfold Method.step at h
  split at h
  · unfold RungeKutta.step at h
    split at h
    · exact nomatch (Prod.mk.inj h).2
    · exact nomatch (Prod.mk.inj h).2
  · exact Adaptive.of_step_impasse h

end Steps

section Run

variable {α : Type} [Scalar α] {registry : Registry α} {d : Description α} {m : Model α}
  {axes : RunAxes} {method : Method} {control : StepControl α} {outcome : Outcome α}

/-- The times on record, by the history of `time`. -/
theorem times_eq {timeStep : α} (hm : m.InUse registry d)
    (h : integrate m axes method timeStep control = .ok outcome) {history : History α}
    (hhistory : outcome.recording.field? "time" = some history) (hruns : 0 < axes.runs)
    (hregions : 0 < axes.regions) : ∃ times, outcome.recording.times = .ok (some times) ∧
      ∀ t < history.steps, times[t]? = some (history.get t 0 0 0 0) := by
  obtain ⟨f, -, hof⟩ := exists_ofRun hm.evaluable h hhistory
  refine ⟨(history.series history.steps 0 0).toList, ?_, fun t ht => ?_⟩
  · rw [Recording.times, hhistory]
    dsimp only
    rw [hof.seriesOf_eq le_rfl hruns hregions]
    rfl
  · simp [History.series, ht]

/-- The solver starts at the initial value of `time`, if that is one number, and else at zero. -/
theorem startTime_eq {given : Value α} (hgiven : (m.field? "time").bind Field.initial = some given) :
    given = .scalar (startTime m) ∨ (∀ c, given ≠ .scalar c) ∧ startTime m = Scalar.zero := by
  rw [startTime, hgiven]
  cases given with
  | scalar c => exact .inl rfl
  | runs | sectors | matrix | array => exact .inr ⟨by simp, rfl⟩

/-- **A step that is given up in a run** lies as many steps of one positive length behind the start
of the solver. -/
theorem of_diverges {timeStep : α} (h : integrate m axes method timeStep control = .ok outcome)
    {e : Error α} (hdiverges : outcome.divergence = some e) {sys : System α}
    {initial : Vector α sys.dimension} (hbind : m.bind axes.runs axes.regions = .ok sys)
    (hinitial : sys.initialState m = .ok initial) : ∃ c cause,
      stepsFrom (sys.step method control timeStep) (startOf m initial)
        outcome.recording.lastValid = some c ∧
      e = .solverDivergence outcome.recording.lastValid c.time cause ∧
      Scalar.lt c.time (c.time + timeStep) = true := by
  obtain ⟨sys', initial', labels, track, hsetup, -, hends, rfl⟩ := integrate_eq_ok_iff.1 h
  obtain rfl := Except.ok.inj (hbind.symm.trans hsetup.bound)
  obtain rfl := Except.ok.inj (hinitial.symm.trans hsetup.initial)
  have hdiverges : track.divergence = some e := hdiverges
  rw [hdiverges] at hends
  obtain ⟨-, c, next, began, cause, hc, hfails, he⟩ := hends.of_some
  obtain ⟨rfl, hahead⟩ := Method.of_step_impasse hfails
  exact ⟨c, cause, hc, he, hahead⟩

section Clocks

variable {K : Type} [FieldOfNumbers K] [LinearOrder K] [IsStrictOrderedRing K] [ExactOver K α]
  {dt : K} {e : Error α}

/-- **Two clocks** — the time that a divergence carries is the time on record in a run and region if
the solver starts at the time where this one starts.  Both go the same way, which can be taken
back. -/
theorem divergence_clocks (hm : m.InUse registry d) (hdeclares : ¬ d.Declares "time")
    (h : integrate m axes method (ExactOver.of dt) control = .ok outcome)
    (hdiverges : outcome.divergence = some e) : ∃ history began cause,
      outcome.recording.field? "time" = some history ∧
      history.shape = ⟨axes.runs, axes.regions, 1, 1⟩ ∧
      e = .solverDivergence outcome.recording.lastValid began cause ∧
      ∀ x < axes.runs, ∀ r < axes.regions,
        (began = history.get outcome.recording.lastValid x r 0 0 ↔
          startTime m = history.get 0 x r 0 0) := by
  obtain ⟨f, hf, hkind, -⟩ := hm.field?_time hdeclares
  obtain ⟨sys, initial, history, hbind, hinitial, hhistory, hunit, hclocks⟩ :=
    time_recorded hm hdeclares h
  obtain ⟨c, cause, hc, he, hahead⟩ := of_diverges h hdiverges hbind hinitial
  refine ⟨history, c.time, cause, hhistory, hunit, he, fun x hx r hr => ?_⟩
  have hin : history.shape.Contains x r 0 0 := by
    rw [hunit]
    exact ⟨hx, hr, Nat.one_pos, Nat.one_pos⟩
  obtain ⟨k, hclock, hplace⟩ := hclocks x hx r hr
  obtain ⟨first, hfirst, hplace₀⟩ := hplace 0 (Nat.zero_le _)
  obtain rfl := Option.some.inj hfirst
  obtain ⟨c', hc', hplaceₜ⟩ := hplace _ le_rfl
  obtain rfl := Option.some.inj (hc.symm.trans hc')
  obtain ⟨htime, hstate⟩ := Method.clock_steps hclock (ExactOver.pos_of_lt_add hahead)
    (fun hnone => hplace₀ ▸ start_not_finite K hm.evaluable h hf hkind hhistory hin hnone) hc
  rw [htime, ← hplaceₜ, hstate, ExactOver.add_of_inj, hplace₀]
  rfl

/-- **The time that a divergence carries** is the time on record at the last valid index if time
starts at one number for all runs, or at zero in the first run and region, and is another one
otherwise. -/
theorem divergence_dated (hm : m.InUse registry d) (hdeclares : ¬ d.Declares "time")
    (h : integrate m axes method (ExactOver.of dt) control = .ok outcome)
    (hdiverges : outcome.divergence = some e) :
    ∃ began cause given, e = .solverDivergence outcome.recording.lastValid began cause ∧
      (m.field? "time").bind Field.initial = some given ∧
      (0 < axes.runs → 0 < axes.regions → ∃ times first recorded,
        outcome.recording.times = .ok (some times) ∧ times[0]? = some first ∧
        times[outcome.recording.lastValid]? = some recorded ∧
        (began = recorded ↔ (∃ c, given = .scalar c) ∨ first = Scalar.zero)) := by
  obtain ⟨f, hf, hkind, -⟩ := hm.field?_time hdeclares
  obtain ⟨given, hgiven⟩ := Option.isSome_iff_exists.1 (hm.evaluable.dynamic hf hkind).2
  have hstarts : (m.field? "time").bind Field.initial = some given := by
    rw [hf, Option.bind_some, hgiven]
  obtain ⟨history, began, cause, hhistory, hunit, he, hagree⟩ :=
    divergence_clocks hm hdeclares h hdiverges
  refine ⟨began, cause, given, he, hstarts, fun hruns hregions => ?_⟩
  have hreached : outcome.recording.lastValid < history.steps := by
    obtain ⟨f', hf', hof⟩ := exists_ofRun hm.evaluable h hhistory
    obtain rfl := Option.some.inj (hf.symm.trans hf')
    rw [hof.steps, hkind]
    exact lastValid_lt_of_integrate h
  obtain ⟨times, htimes, hat⟩ := times_eq hm h hhistory hruns hregions
  refine ⟨times, _, _, htimes, hat 0 (Nat.zero_lt_of_lt hreached), hat _ hreached, ?_⟩
  rw [hagree 0 hruns 0 hregions]
  rcases startTime_eq hstarts with hscalar | ⟨hother, hzero⟩
  · have hin : history.shape.Contains 0 0 0 0 := by
      rw [hunit]
      exact ⟨hruns, hregions, Nat.one_pos, Nat.one_pos⟩
    have hsame := get_start_of_scalar hm.evaluable h hf hkind (hgiven.trans (congrArg some hscalar))
      hhistory hin
    exact iff_of_true hsame.symm (.inl ⟨_, hscalar⟩)
  · rw [hzero, or_iff_right fun ⟨c, hc⟩ => hother c hc]
    exact eq_comm

end Clocks

end Run

/-- From zero, an adaptive run gives up in front of the gap, at the time that it has on record
there. -/
theorem gap_dated : ∃ loaded s outcome began cause times,
    Simulation.load .empty gap 0 = .ok loaded ∧
    loaded.setField "Tini" (.value (.scalar (.of 0))) = (s, .ok ()) ∧
    gap.run s.model = .ok outcome ∧ outcome.divergence = some (.solverDivergence 1 began cause) ∧
    outcome.recording.times = .ok (some times) ∧ times[1]? = some began := by
  have hruns : gap.afterwards? "Tini" (.value (.scalar (.of 0))) gap.run (fun outcome =>
      (outcome.recording.lastValid, outcome.divergence.isSome,
        outcome.recording.times.toOption.join.bind (·[0]?))) =
          some (1, true, some Scalar.zero) := by
    decide +kernel
  obtain ⟨loaded, s, outcome, hloaded, hset, houtcome, hm, hread⟩ := gap.afterwards?_eq_some hruns
  simp only [Prod.mk.injEq] at hread
  obtain ⟨hvalid, hdiverges, hzero⟩ := hread
  obtain ⟨e, he⟩ := Option.isSome_iff_exists.1 hdiverges
  obtain ⟨began, cause, given, rfl, -, hdated⟩ :=
    divergence_dated (K := Rat) hm (by decide +kernel) houtcome he
  obtain ⟨times, first, recorded, htimes, hfirst, hrecorded, hiff⟩ :=
    hdated Nat.one_pos Nat.one_pos
  rw [htimes] at hzero
  have hsame : began = recorded :=
    hiff.2 (.inr (Option.some.inj (hfirst.symm.trans hzero)))
  rw [hvalid] at he hrecorded
  exact ⟨loaded, s, outcome, began, cause, times, hloaded, hset, houtcome, he, htimes,
    hsame ▸ hrecorded⟩

/-- Steps that are shorter than the least one that an adaptive method takes. -/
def gap.held (m : Model Rough) : Except (Failure Rough) (Outcome Rough) :=
  integrate m ⟨3, 1, 1⟩ .rk45 (.of (1 / 2)) { StepControl.standard with minStep := .of 1 }

/-- The index and the time that a divergence carries. -/
def Error.divergedAt? {α : Type} : Error α → Option (Nat × α)
  | .solverDivergence lastValid time _ => some (lastValid, time)
  | _ => none

/-- **A time that is given run by run** is on record from five on, and the divergence carries
zero. -/
theorem gap_misdated : ∃ loaded s outcome e times, Simulation.load .empty gap 0 = .ok loaded ∧
    loaded.setField "time" (.value (.runs [.of 5])) = (s, .ok ()) ∧ ¬ gap.Declares "time" ∧
    gap.held s.model = .ok outcome ∧ outcome.divergence = some e ∧
    e.divergedAt? = some (0, .of 0) ∧ outcome.recording.lastValid = 0 ∧
    outcome.recording.times = .ok (some times) ∧ times[0]? = some (.of 5) := by
  have hruns : gap.afterwards? "time" (.value (.runs [.of 5])) gap.held (fun outcome =>
      (outcome.divergence.bind Error.divergedAt?, outcome.recording.lastValid,
        outcome.recording.times.toOption.join.bind (·[0]?))) =
          some (some (0, .of 0), 0, some (.of 5)) := by
    decide +kernel
  obtain ⟨loaded, s, outcome, hloaded, hset, houtcome, -, hread⟩ := gap.afterwards?_eq_some hruns
  simp only [Prod.mk.injEq] at hread
  obtain ⟨hdiverges, hvalid, htimes⟩ := hread
  obtain ⟨e, he, hdated⟩ := Option.bind_eq_some_iff.1 hdiverges
  obtain ⟨times, hsome, hfive⟩ := Option.bind_eq_some_iff.1 htimes
  rw [Option.join_eq_some_iff, toOption_eq_some_iff] at hsome
  exact ⟨loaded, s, outcome, e, times, hloaded, hset, by decide +kernel, houtcome, he, hdated,
    hvalid, hsome, hfive⟩

end FieldFlow
