import FieldFlow.Proofs.Model.Auxiliary
import FieldFlow.Proofs.Model.Names
import FieldFlow.Proofs.Run.Plan
import FieldFlow.Proofs.Run.Start
import FieldFlow.Proofs.Simulation.Calls

/-!
# Proofs/Simulation/Settings — settings of a run that are assigned by name

`nx`, `nr` and `Tini` are settings where no field of the model has their name. Then a number
assigned to one of them stays in force in whatever is done with other names, and runs follow it
(`settings_in_force`). A function that reads the name of a setting gives the model a parameter of
that name, and from then on assignments go to the parameter alone (`settings_fixed_of_reads`,
`shadowed_keeps_one_run`).
-/

namespace FieldFlow

variable {α : Type} [Scalar α]

/-- **A recording that starts at a time**: its first row has that number for `time`, in every run
and region. -/
def Recording.StartsAt (rec : Recording α) (c : α) : Prop :=
  ∃ history, rec.field? "time" = some history ∧
    history.shape = ⟨rec.axes.runs, rec.axes.regions, 1, 1⟩ ∧
      ∀ x < rec.axes.runs, ∀ r < rec.axes.regions, history.get 0 x r 0 0 = c

namespace Simulation

variable {allowed : String → Prop} {s s' next later : Simulation α} {c : α} {n : Nat}

/-! ## What calls leave of the settings -/

omit [Scalar α] in
theorem field?_eq_none_of_reassigned {m m' : Model α} (h : m.Reassigned m') {name : String} :
    m'.field? name = none ↔ m.field? name = none := by
  rw [← Option.map_eq_none_iff (f := Field.kind), ← kind?_of_reassigned h, Option.map_eq_none_iff]

/-- The numbers of runs and regions change by assignments to `nx` and `nr` only, where no field has
that name — each is looked up in the model that the others left, whose fields have the same
names. -/
theorem Reaches.settings (h : s.Reaches allowed s') :
    (s'.runs = s.runs ∨ allowed "nx" ∧ s.model.field? "nx" = none) ∧
      (s'.regions = s.regions ∨ allowed "nr" ∧ s.model.field? "nr" = none) := by
  refine (h.induct (motive := fun mid => s.model.Reassigned mid.model ∧
    (mid.runs = s.runs ∨ allowed "nx" ∧ s.model.field? "nx" = none) ∧
      (mid.regions = s.regions ∨ allowed "nr" ∧ s.model.field? "nr" = none))
    (fun hallowed hassigns hmid => ?_) (fun _ _ hmid => hmid) ⟨.refl _, .inl rfl, .inl rfl⟩).2
  obtain ⟨hmodel, hruns, hregions⟩ := hmid
  refine ⟨hmodel.trans hassigns.reassigned, ?_⟩
  cases hassigns with
  | initial | value | start => exact ⟨hruns, hregions⟩
  | runs hnone =>
    exact ⟨.inr ⟨hallowed, (field?_eq_none_of_reassigned hmodel).1 hnone⟩, hregions⟩
  | regions hnone =>
    exact ⟨hruns, .inr ⟨hallowed, (field?_eq_none_of_reassigned hmodel).1 hnone⟩⟩

/-- **A model that starts at a time**: its `time` is one number for all runs and regions, and has
that number to start from. -/
def StartsAt (s : Simulation α) (c : α) : Prop :=
  ∃ f, s.model.field? "time" = some f ∧ f.kind = .dynamic ∧ f.axes = (unitAxis, unitAxis) ∧
    f.initial = some (.scalar c)

omit [Scalar α] in
theorem StartsAt.withField (h : s.StartsAt c) {name : String} (hname : name ≠ "time")
    (u : Field α → Field α) : (s.withField name u).StartsAt c := by
  obtain ⟨f, hf, hkind⟩ := h
  refine ⟨f, ?_, hkind⟩
  rw [field?_withField, if_neg hname.symm, hf]

/-- The time to start from changes by assignments to it only, by either name. -/
theorem Reaches.startsAt (h : s.Reaches allowed s') (htime : ¬ allowed "time")
    (hsetting : ¬ allowed "Tini") (hs : s.StartsAt c) : s'.StartsAt c := by
  refine h.induct (motive := fun mid => mid.StartsAt c) (fun hallowed hassigns hmid => ?_)
    (fun _ _ hmid => hmid) hs
  cases hassigns with
  | initial | value => exact hmid.withField (fun heq => htime (heq ▸ hallowed)) _
  | runs | regions => exact hmid
  | start => exact absurd hallowed hsetting

/-! ## Runs -/

section Runs

variable {method : String} {timeStep span : α} {control : StepControl α} {rec : Recording α}

/-- A recording has the runs that are set, if no value has more than one — more runs than one come
from the setting or from a value with as many. -/
theorem runs_of_recordingOf (h : s.recordingOf method timeStep span control = some rec)
    (hpos : 0 < s.runs) (hsingle : ∀ entry ∈ valueLengths s.model, entry.2 ≤ 1) :
    rec.axes.runs = s.runs := by
  obtain ⟨method, axes, outcome, hplan, houtcome, rfl⟩ := recordingOf_eq_some_iff.1 h
  obtain ⟨-, -, hruns, -⟩ := plan_eq_ok_iff.1 hplan
  obtain ⟨hpos', -, hsetting, hmany⟩ := runCount_eq_ok_iff.1 hruns
  rw [axes_of_integrate houtcome]
  rcases hsetting with hone | heq
  · by_contra hne
    rcases hmany (by omega) with heq | ⟨entry, hentry, hlength⟩
    · omega
    · have := hsingle entry hentry
      omega
  · exact heq.symm

theorem regions_of_recordingOf (h : s.recordingOf method timeStep span control = some rec) :
    rec.axes.regions = s.regions := by
  obtain ⟨method, axes, outcome, hplan, houtcome, rfl⟩ := recordingOf_eq_some_iff.1 h
  obtain ⟨-, -, -, hregions⟩ := plan_eq_ok_iff.1 hplan
  rw [axes_of_integrate houtcome, hregions]

theorem StartsAt.recorded (hs : s.StartsAt c) (hm : s.model.Evaluable)
    (h : s.recordingOf method timeStep span control = some rec) : rec.StartsAt c := by
  obtain ⟨method, axes, outcome, hplan, houtcome, rfl⟩ := recordingOf_eq_some_iff.1 h
  obtain ⟨f, hf, hkind, haxes, hinitial⟩ := hs
  obtain ⟨history, v, hhistory, hshape, hv, hframe⟩ :=
    start_recorded hm houtcome hf hkind hinitial
  have hunit : history.shape = ⟨axes.runs, axes.regions, 1, 1⟩ := by
    rw [Model.shapeOf, hkind, haxes] at hshape
    exact (pure_eq_ok_iff.1 hshape).symm
  rw [Recording.StartsAt, axes_of_integrate houtcome]
  refine ⟨history, hhistory, hunit, fun x hx r hr => ?_⟩
  have hin : history.shape.Contains x r 0 0 := by
    rw [hunit]
    exact ⟨hx, hr, Nat.one_pos, Nat.one_pos⟩
  rw [← History.get_frame hin, hframe, ← Except.ok.inj hv, Tensor.get_expand_scalar hin]

end Runs

/-! ## Runs from now on -/

/-- **Of every recording from now on**, whatever is assigned to allowed names before it is made. -/
def Henceforth (s : Simulation α) (allowed : String → Prop)
    (P : Simulation α → Recording α → Prop) : Prop :=
  ∀ later, s.Reaches allowed later → ∀ method timeStep span control rec,
    later.recordingOf method timeStep span control = some rec → P later rec

theorem runs_henceforth (hpos : 0 < s.runs) : s.Henceforth (· ≠ "nx") fun later rec =>
    (∀ entry ∈ valueLengths later.model, entry.2 ≤ 1) → rec.axes.runs = s.runs := by
  intro later hlater method timeStep span control rec hrec hsingle
  have hruns : later.runs = s.runs := hlater.settings.1.resolve_right fun h => h.1 rfl
  rw [runs_of_recordingOf hrec (hruns ▸ hpos) hsingle, hruns]

theorem regions_henceforth (s : Simulation α) :
    s.Henceforth (· ≠ "nr") fun _ rec => rec.axes.regions = s.regions := by
  intro later hlater method timeStep span control rec hrec
  have hregions : later.regions = s.regions := hlater.settings.2.resolve_right fun h => h.1 rfl
  rw [regions_of_recordingOf hrec, hregions]

theorem StartsAt.henceforth {registry : Registry α} {d : Description α} (hs : s.StartsAt c)
    (hm : s.model.InUse registry d) :
    s.Henceforth (fun name => name ≠ "Tini" ∧ name ≠ "time") fun _ rec => rec.StartsAt c := by
  intro later hlater method timeStep span control rec hrec
  have hstarts := hlater.startsAt (fun h => h.2 rfl) (fun h => h.1 rfl) hs
  exact hstarts.recorded (hlater.inUse hm).evaluable hrec

/-! ## Settings in force -/

section InForce

variable {registry : Registry α} {d : Description α}

/-- Of the names that are not declared those are settings that no function reads. -/
theorem InUse.field?_eq_none_iff (hs : s.InUse registry d) {name : String} (hself : name ≠ itself)
    (htime : name ≠ "time") (hdeclares : ¬ d.Declares name) :
    s.model.field? name = none ↔ ¬ d.Reads name := by
  obtain ⟨seed, loaded, hload, hreaches⟩ := hs
  have hloaded := loadedFrom_of_load (load_of_loadSimulation hload)
  rw [field?_eq_none_of_reassigned hreaches.reassigned, hloaded.field?_eq_none_iff hself]
  simp [hdeclares, htime]

/-- Assigning an initial time moves the time that was added to a model. -/
theorem InUse.startsAt_withField (hs : s.InUse registry d) (hdeclares : ¬ d.Declares "time") (c : α) :
    (s.withField "time" fun field => { field with initial := some (.scalar c) }).StartsAt c := by
  obtain ⟨seed, loaded, hload, hreaches⟩ := hs
  have htime := (loadedFrom_of_load (load_of_loadSimulation hload)).field?_time hdeclares
  obtain ⟨f, hf, hreassigned⟩ := hreaches.reassigned.kept htime
  refine ⟨{ f with initial := some (.scalar c) }, ?_, hreassigned.kind, hreassigned.axes, rfl⟩
  rw [field?_withField, if_pos rfl, hf, Option.map_some]

/-- **Settings are fixed** where a function reads their name: nothing that is done with a simulation
changes its number of runs or regions. -/
theorem settings_fixed_of_reads (hs : s.InUse registry d) (h : s.Reaches allowed later) :
    (¬ d.Declares "nx" → d.Reads "nx" → later.runs = s.runs) ∧
      (¬ d.Declares "nr" → d.Reads "nr" → later.regions = s.regions) := by
  obtain ⟨hruns, hregions⟩ := h.settings
  constructor
  · intro hdeclares hreads
    refine hruns.resolve_right fun ⟨_, hnone⟩ => ?_
    exact (hs.field?_eq_none_iff (by decide) (by decide) hdeclares).1 hnone hreads
  · intro hdeclares hreads
    refine hregions.resolve_right fun ⟨_, hnone⟩ => ?_
    exact (hs.field?_eq_none_iff (by decide) (by decide) hdeclares).1 hnone hreads

/-- **Settings take effect** where no function reads their name — a count assigned to `nx` is the
number of runs as long as no value is given for more than one run, a count assigned to `nr` is the
number of regions, and a number assigned to `Tini` is the first time on record in every run and
region, whatever is assigned to other names in between. -/
theorem settings_in_force (hs : s.InUse registry d)
    (hdeclared : ∀ name ∈ ["nx", "nr", "Tini", "time"], ¬ d.Declares name) :
    (¬ d.Reads "nx" → ∀ c n, Scalar.toCount? c = some n → 0 < n →
      ∃ next, s.setField "nx" (.value (.scalar c)) = (next, .ok ()) ∧
        next.Henceforth (· ≠ "nx") fun later rec =>
          (∀ entry ∈ valueLengths later.model, entry.2 ≤ 1) → rec.axes.runs = n) ∧
    (¬ d.Reads "nr" → ∀ c n, Scalar.toCount? c = some n →
      ∃ next, s.setField "nr" (.value (.scalar c)) = (next, .ok ()) ∧
        next.Henceforth (· ≠ "nr") fun _ rec => rec.axes.regions = n) ∧
    (¬ d.Reads "Tini" → ∀ c,
      ∃ next, s.setField "Tini" (.value (.scalar c)) = (next, .ok ()) ∧
        next.Henceforth (fun name => name ≠ "Tini" ∧ name ≠ "time") fun _ rec =>
          rec.StartsAt c) := by
  have hnames : ∀ name ∈ ["nx", "nr", "Tini"], name ≠ itself ∧ name ≠ "time" ∧
      name ∈ ["nx", "nr", "Tini", "time"] := by decide
  have hnone : ∀ name ∈ ["nx", "nr", "Tini"], ¬ d.Reads name → s.model.field? name = none := by
    intro name hname hreads
    obtain ⟨hself, htime, hlisted⟩ := hnames name hname
    exact (hs.field?_eq_none_iff hself htime (hdeclared name hlisted)).2 hreads
  refine ⟨fun hreads c n hn hpos => ?_, fun hreads c n hn => ?_, fun hreads c => ?_⟩
  · exact ⟨_, setField_eq_ok_iff.2 (.runs (hnone "nx" (by simp) hreads) hn), runs_henceforth hpos⟩
  · exact ⟨_, setField_eq_ok_iff.2 (.regions (hnone "nr" (by simp) hreads) hn),
      regions_henceforth _⟩
  · have hset := setField_eq_ok_iff.2 (.start (c := c) (hnone "Tini" (by simp) hreads))
    have hstarts := hs.startsAt_withField (hdeclared "time" (by simp)) c
    exact ⟨_, hset, hstarts.henceforth (.assigned hs.model hset)⟩

end InForce

end Simulation

/-- A setting of a cascade, and the recording of a run with it. -/
def cascade.recordedWith (name : String) (c : Rat) (s : Simulation Fraction) :
    Option (Recording Fraction) :=
  (s.setField name (.value (.scalar (.of c)))).1.recordingOf "rk4" (.of (1 / 2)) (.of 1)
    ⟨.of 1, .of 1, .of 1, 1⟩

theorem cascade_in_force : ∃ s, Simulation.load .empty cascade 0 = .ok s ∧
    (∃ rec, cascade.recordedWith "nx" 2 s = some rec ∧ rec.axes.runs = 2) ∧
    (∃ rec, cascade.recordedWith "nr" 3 s = some rec ∧ rec.axes.regions = 3) ∧
    ∃ rec history, cascade.recordedWith "Tini" 5 s = some rec ∧ rec.field? "time" = some history ∧
      history.get 0 0 0 0 0 = .of 5 := by
  have hruns : ((Simulation.load .empty cascade 0).toOption.map fun s =>
      let counted := (s.setField "nx" (.value (.scalar (.of 2)))).1
      ((Simulation.valueLengths counted.model).all (·.2 ≤ 1),
        (cascade.recordedWith "nx" 2 s).isSome, (cascade.recordedWith "nr" 3 s).isSome,
        (cascade.recordedWith "Tini" 5 s).map fun rec => (rec.axes.runs, rec.axes.regions))) =
          some (true, true, true, some (1, 1)) := by
    decide +kernel
  obtain ⟨s, hs, h⟩ := Option.map_eq_some_iff.1 hruns
  simp only [Prod.mk.injEq] at h
  obtain ⟨hsingle, hnx, hnr, hTini⟩ := h
  obtain ⟨rec, hnx⟩ := Option.isSome_iff_exists.1 hnx
  obtain ⟨rec', hnr⟩ := Option.isSome_iff_exists.1 hnr
  obtain ⟨rec'', hTini, haxes⟩ := Option.map_eq_some_iff.1 hTini
  obtain ⟨hone, hone'⟩ := Prod.mk.inj haxes
  have hs := toOption_eq_some_iff.1 hs
  obtain ⟨hruns, hregions, hstart⟩ := Simulation.settings_in_force (s := s) (d := cascade)
    ⟨0, s, hs, .start⟩ (by decide +kernel)
  have hcount : ∀ n : Nat, n ∈ [2, 3] → Scalar.toCount? (Fraction.of n) = some n := by
    decide +kernel
  refine ⟨s, hs, ⟨rec, hnx, ?_⟩, ⟨rec', hnr, ?_⟩, rec'', ?_⟩
  · obtain ⟨next, hnext, hlater⟩ :=
      hruns (by decide +kernel) (.of 2) 2 (hcount 2 (by simp)) (by decide)
    rw [cascade.recordedWith, hnext] at hnx
    rw [hnext] at hsingle
    exact hlater next .start _ _ _ _ rec hnx (by simpa using hsingle)
  · obtain ⟨next, hnext, hlater⟩ := hregions (by decide +kernel) (.of 3) 3 (hcount 3 (by simp))
    rw [cascade.recordedWith, hnext] at hnr
    exact hlater next .start _ _ _ _ rec' hnr
  · obtain ⟨next, hnext, hlater⟩ := hstart (by decide +kernel) (.of 5)
    have hrec := hTini
    rw [cascade.recordedWith, hnext] at hrec
    obtain ⟨history, hhistory, -, hfirst⟩ := hlater next .start _ _ _ _ rec'' hrec
    exact ⟨history, hTini, hhistory, hfirst 0 (by omega) 0 (by omega)⟩

/-- An algebraic field that reads the number of runs. -/
def counted : Description Fraction where
  name := "counted"
  statevar := .ofList
    [("count", ⟨[("func", .function ((Expression.input "nx").toFunction ["nx"]))]⟩)]

/-- **A setting can be shadowed**: the model has a parameter `nx`, to which the assignment goes, and
runs are as many as before. -/
theorem shadowed_keeps_one_run : ∃ s next rec, Simulation.load .standard counted 0 = .ok s ∧
    (∀ name ∈ ["nx", "nr", "Tini", "time"], ¬ counted.Declares name) ∧
    Scalar.toCount? (Fraction.of 2) = some 2 ∧
    s.setField "nx" (.value (.scalar (.of 2))) = (next, .ok ()) ∧
    (∀ entry ∈ Simulation.valueLengths next.model, entry.2 ≤ 1) ∧
    next.recordingOf "rk4" (.of 1) (.of 0) ⟨.of 1, .of 1, .of 1, 1⟩ = some rec ∧
    rec.axes.runs = 1 := by
  have hruns : ((Simulation.load .standard counted 0).toOption.map fun s =>
      let next := s.setField "nx" (.value (.scalar (.of 2)))
      (next.2.toOption.isSome, (Simulation.valueLengths next.1.model).all (·.2 ≤ 1),
        (next.1.recordingOf "rk4" (.of 1) (.of 0) ⟨.of 1, .of 1, .of 1, 1⟩).map
          fun rec => rec.axes.runs)) = some (true, true, some 1) := by
    decide +kernel
  obtain ⟨s, hs, h⟩ := Option.map_eq_some_iff.1 hruns
  simp only [Prod.mk.injEq] at h
  obtain ⟨hset, hsingle, hrecorded⟩ := h
  obtain ⟨next, hnext⟩ := exists_eq_ok_of_isSome hset
  rw [hnext] at hsingle hrecorded
  obtain ⟨rec, hrec, hone⟩ := Option.map_eq_some_iff.1 hrecorded
  exact ⟨s, next, rec, toOption_eq_some_iff.1 hs, by decide +kernel, by decide +kernel, hnext,
    by simpa using hsingle, hrec, hone⟩

end FieldFlow
