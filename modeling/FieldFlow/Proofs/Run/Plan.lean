import FieldFlow.Proofs.OrderedMap
import FieldFlow.Proofs.Outcome
import FieldFlow.Simulation

/-!
# Proofs/Run/Plan — what a simulation asks of a run

A run is planned from the name of its method, its time span and the values that are given per run
(`plan_eq_ok_iff`). The number of runs is the one length above one that those values may have
(`runCount_eq_ok_iff`). A run that succeeds was planned, and came to its end (`run_eq_ok_iff`).
-/

namespace FieldFlow

variable {α : Type}

/-! ## The number of runs -/

/-- The longest of the lengths given. -/
def longestRun (lengths : List (String × Nat)) : Nat := (lengths.map Prod.snd).foldl max 0

theorem le_longestRun {lengths : List (String × Nat)} {entry : String × Nat}
    (hentry : entry ∈ lengths) : entry.2 ≤ longestRun lengths :=
  (List.max?_eq_some_iff.1 List.max?_cons').2 _ (.tail _ (List.mem_map_of_mem hentry))

/-- The longest length is that of some entry. -/
theorem exists_longestRun {lengths : List (String × Nat)} (h : 0 < longestRun lengths) :
    ∃ entry ∈ lengths, entry.2 = longestRun lengths := by
  have hmem : longestRun lengths ∈ 0 :: lengths.map Prod.snd :=
    (List.max?_eq_some_iff.1 List.max?_cons').1
  exact List.mem_map.1 ((List.mem_cons.1 hmem).resolve_left (Nat.ne_of_gt h))

/-- The longest of the lengths given, or the setting where they leave it open. -/
def mostRuns (nx : Nat) (lengths : List (String × Nat)) : Nat :=
  if 1 < longestRun lengths then longestRun lengths else max nx 1

theorem of_mostRuns (nx : Nat) (lengths : List (String × Nat)) : 0 < mostRuns nx lengths ∧
    (1 < mostRuns nx lengths → nx = mostRuns nx lengths ∨
      ∃ entry ∈ lengths, entry.2 = mostRuns nx lengths) := by
  unfold mostRuns
  split
  · rename_i hlong
    exact ⟨Nat.lt_of_succ_lt hlong, fun _ => .inr (exists_longestRun (Nat.lt_of_succ_lt hlong))⟩
  · exact ⟨Nat.le_max_right nx 1, fun h => .inl (by omega)⟩

theorem mostRuns_eq {nx runs : Nat} {lengths : List (String × Nat)} (hpos : 0 < runs)
    (hfits : ∀ entry ∈ lengths, entry.2 = 1 ∨ entry.2 = runs) (hnx : nx ≤ 1 ∨ nx = runs)
    (hmost : 1 < runs → nx = runs ∨ ∃ entry ∈ lengths, entry.2 = runs) :
    mostRuns nx lengths = runs := by
  unfold mostRuns
  split
  · rename_i hlong
    obtain ⟨entry, hentry, heq⟩ := exists_longestRun (Nat.lt_of_succ_lt hlong)
    exact heq ▸ (hfits entry hentry).resolve_left (by omega)
  · rename_i hshort
    by_cases hone : runs = 1
    · omega
    · rcases hmost (by omega) with heq | ⟨entry, hentry, heq⟩
      · omega
      · have hle := le_longestRun hentry
        omega

theorem runCount_eq {nx : Nat} {lengths : List (String × Nat)} :
    (runCount nx lengths : Except (Error α) Nat) =
      match misfit? (mostRuns nx lengths) lengths with
      | some (name, n) => .error (.shapeMismatch name [mostRuns nx lengths] [n])
      | none => if 1 < nx && nx ≠ mostRuns nx lengths then
          .error (.shapeMismatch "nx" [mostRuns nx lengths] [nx])
        else .ok (mostRuns nx lengths) := rfl

theorem misfit?_eq_none_iff {runs : Nat} {lengths : List (String × Nat)} :
    misfit? runs lengths = none ↔ ∀ entry ∈ lengths, entry.2 = 1 ∨ entry.2 = runs := by
  unfold misfit?
  rw [List.find?_eq_none]
  refine forall₂_congr fun entry _ => ?_
  simp [Decidable.or_iff_not_imp_left]

/-- **The number of runs** is positive, every length is one or that number, and a number above one
is that of some length or of the setting. -/
theorem runCount_eq_ok_iff {nx runs : Nat} {lengths : List (String × Nat)} :
    (runCount nx lengths : Except (Error α) Nat) = .ok runs ↔
      0 < runs ∧ (∀ entry ∈ lengths, entry.2 = 1 ∨ entry.2 = runs) ∧ (nx ≤ 1 ∨ nx = runs) ∧
        (1 < runs → nx = runs ∨ ∃ entry ∈ lengths, entry.2 = runs) := by
  rw [runCount_eq]
  constructor
  · intro h
    split at h
    · exact nomatch h
    rename_i hmisfit
    split at h
    · exact nomatch h
    rename_i hnx
    obtain rfl := Except.ok.inj h
    simp only [Bool.and_eq_true, decide_eq_true_eq, not_and, Decidable.not_not] at hnx
    obtain ⟨hpos, hmost⟩ := of_mostRuns nx lengths
    exact ⟨hpos, misfit?_eq_none_iff.1 hmisfit,
      (Nat.lt_or_ge 1 nx).symm.imp_right fun hlt => hnx hlt, hmost⟩
  · rintro ⟨hpos, hfits, hnx, hmost⟩
    rw [mostRuns_eq hpos hfits hnx hmost, misfit?_eq_none_iff.2 hfits]
    dsimp only
    rw [if_neg]
    simp only [Bool.and_eq_true, decide_eq_true_eq, not_and, Decidable.not_not]
    exact fun hlt => hnx.resolve_left (Nat.not_le.2 hlt)

/-- **Lengths that are that number or were there before** leave the number of runs as it was, if
none of the old ones is gone but for one of that number. -/
theorem runCount_of_lengths {nx runs : Nat} {lengths lengths' : List (String × Nat)}
    (hruns : (runCount nx lengths : Except (Error α) Nat) = .ok runs)
    (hfits : ∀ entry' ∈ lengths', entry'.2 = runs ∨ ∃ entry ∈ lengths, entry.2 = entry'.2)
    (hkept : ∀ entry ∈ lengths, ∃ entry' ∈ lengths', entry'.2 = runs ∨ entry'.2 = entry.2) :
    (runCount nx lengths' : Except (Error α) Nat) = .ok runs := by
  obtain ⟨hpos, hold, hnx, hmost⟩ := runCount_eq_ok_iff.1 hruns
  refine runCount_eq_ok_iff.2 ⟨hpos, fun entry' hentry' => ?_, hnx, fun hmany =>
    (hmost hmany).imp_right ?_⟩
  · rcases hfits entry' hentry' with heq | ⟨entry, hentry, heq⟩
    · exact .inr heq
    · exact heq ▸ hold entry hentry
  · rintro ⟨entry, hentry, heq⟩
    obtain ⟨entry', hentry', hlength⟩ := hkept entry hentry
    exact ⟨entry', hentry', hlength.elim id fun hsame => hsame.trans heq⟩

/-- The value of a field that is told apart by runs. -/
def Field.assigned (f : Field α) : Option (Value α) :=
  match f.kind with
  | .dynamic => f.initial
  | .parameter => f.value
  | .algebraic | .size => none

theorem Field.assigned_of_dynamic {f : Field α} (hkind : f.kind = .dynamic) :
    f.assigned = f.initial := by
  rw [assigned, hkind]

/-- What a field that is not dynamic starts from is not looked at. -/
theorem Field.assigned_of_ne_dynamic {f : Field α} (hkind : f.kind ≠ .dynamic)
    (initial : Option (Value α)) :
    ({ f with initial := initial } : Field α).assigned = f.assigned := by
  unfold assigned
  cases hf : f.kind with
  | dynamic => exact absurd hf hkind
  | algebraic | parameter | size => rfl

theorem valueLengths_eq [Scalar α] (m : Model α) : Simulation.valueLengths m =
    m.fields.values.filterMap fun f => f.assigned.map fun v => (f.name, v.runCount) := rfl

theorem mem_valueLengths_iff [Scalar α] {m : Model α} {entry : String × Nat} :
    entry ∈ Simulation.valueLengths m ↔ ∃ name f v, m.field? name = some f ∧ f.assigned = some v ∧
      (f.name, v.runCount) = entry := by
  rw [valueLengths_eq, List.mem_filterMap]
  simp only [Option.map_eq_some_iff]
  constructor
  · rintro ⟨f, hf, v, hv, heq⟩
    obtain ⟨name, hname⟩ := OrderedMap.mem_values_iff.1 hf
    exact ⟨name, f, v, hname, hv, heq⟩
  · rintro ⟨name, f, v, hname, hv, heq⟩
    exact ⟨f, OrderedMap.mem_values_iff.2 ⟨name, hname⟩, v, hv, heq⟩

/-! ## Runs of a simulation -/

variable [Scalar α]

/-- The method and the axes that a run is planned with. -/
def Simulation.plan (s : Simulation α) (name : String) (timeStep span : α) :
    Except (Error α) (Method × RunAxes) := do
  let method ← Method.ofName name
  let steps ← timePoints span timeStep
  let runs ← runCount s.runs (valueLengths s.model)
  return (method, ⟨steps, runs, s.regions⟩)

theorem plan_eq_ok_iff {s : Simulation α} {name : String} {timeStep span : α} {method : Method}
    {axes : RunAxes} : s.plan name timeStep span = .ok (method, axes) ↔
      (Method.ofName name : Except (Error α) Method) = .ok method ∧
        timePoints span timeStep = .ok axes.steps ∧
          (runCount s.runs (Simulation.valueLengths s.model) : Except (Error α) Nat) =
            .ok axes.runs ∧ s.regions = axes.regions := by
  constructor
  · intro h
    obtain ⟨_, hmethod, h⟩ := bind_eq_ok_iff.1 h
    obtain ⟨steps, hsteps, h⟩ := bind_eq_ok_iff.1 h
    obtain ⟨runs, hruns, h⟩ := bind_eq_ok_iff.1 h
    obtain ⟨rfl, rfl⟩ := Prod.mk.inj (pure_eq_ok_iff.1 h)
    exact ⟨hmethod, hsteps, hruns, rfl⟩
  · rintro ⟨hmethod, hsteps, hruns, hregions⟩
    refine bind_eq_ok_iff.2 ⟨_, hmethod, bind_eq_ok_iff.2 ⟨_, hsteps, bind_eq_ok_iff.2
      ⟨_, hruns, ?_⟩⟩⟩
    rw [hregions]
    rfl

/-- Plans for the same method and time span differ in numbers of runs and regions only. -/
theorem eq_of_plan {s s' : Simulation α} {name : String} {timeStep span : α}
    {method method' : Method} {axes axes' : RunAxes}
    (h : s.plan name timeStep span = .ok (method, axes))
    (h' : s'.plan name timeStep span = .ok (method', axes')) (hruns : axes.runs = axes'.runs)
    (hregions : s.regions = s'.regions) : method = method' ∧ axes = axes' := by
  obtain ⟨hmethod, hsteps, -, hr⟩ := plan_eq_ok_iff.1 h
  obtain ⟨hmethod', hsteps', -, hr'⟩ := plan_eq_ok_iff.1 h'
  obtain ⟨steps, runs, regions⟩ := axes
  obtain ⟨steps', runs', regions'⟩ := axes'
  obtain rfl : steps = steps' := Except.ok.inj (hsteps.symm.trans hsteps')
  obtain rfl : runs = runs' := hruns
  obtain rfl : regions = regions' := hr.symm.trans (hregions.trans hr')
  exact ⟨Except.ok.inj (hmethod.symm.trans hmethod'), rfl⟩

/-- **A run that succeeds** has been planned and has come to its end. -/
theorem run_eq_ok_iff {s s' : Simulation α} {name : String} {timeStep span : α}
    {control : StepControl α} : s.run name timeStep span control = (s', .ok ()) ↔
      ∃ method axes outcome, s.plan name timeStep span = .ok (method, axes) ∧
        integrate s.model axes method timeStep control = .ok outcome ∧
          outcome.divergence = none ∧ { s with last := some outcome.recording } = s' := by
  unfold Simulation.run
  extract_lets planned
  have hplan : s.plan name timeStep span = planned := rfl
  clear_value planned
  subst hplan
  cases s.plan name timeStep span with
  | error e => simp
  | ok plan =>
    obtain ⟨method, axes⟩ := plan
    dsimp only
    cases houtcome : integrate s.model axes method timeStep control with
    | error e => simp [houtcome]
    | ok outcome => cases hdivergence : outcome.divergence <;> simp [houtcome, hdivergence]

/-- **The recording that a run leaves**, if it leaves one: a run that diverges does, too. -/
def Simulation.recordingOf (s : Simulation α) (method : String) (timeStep span : α)
    (control : StepControl α) : Option (Recording α) :=
  (({ s with last := none } : Simulation α).run method timeStep span control).1.last

theorem recordingOf_eq_some_iff {s : Simulation α} {name : String} {timeStep span : α}
    {control : StepControl α} {rec : Recording α} :
    s.recordingOf name timeStep span control = some rec ↔ ∃ method axes outcome,
      s.plan name timeStep span = .ok (method, axes) ∧
        integrate s.model axes method timeStep control = .ok outcome ∧ outcome.recording = rec := by
  unfold Simulation.recordingOf Simulation.run
  extract_lets planned
  have hplan : s.plan name timeStep span = planned := rfl
  clear_value planned
  subst hplan
  cases s.plan name timeStep span with
  | error e => simp
  | ok plan =>
    obtain ⟨method, axes⟩ := plan
    dsimp only
    cases houtcome : integrate s.model axes method timeStep control with
    | error e => simp [houtcome]
    | ok outcome => simp [houtcome]

end FieldFlow
