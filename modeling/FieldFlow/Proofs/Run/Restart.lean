import FieldFlow.Proofs.Model.Auxiliary
import FieldFlow.Proofs.Run.Initials
import FieldFlow.Proofs.Run.Plan
import FieldFlow.Proofs.Run.Shortened
import FieldFlow.Proofs.Run.Start

/-!
# Proofs/Run/Restart — a run of fixed steps can be stopped and restarted

The rows of a run from one on are the rows of a run that starts at the state there
(`Tracks.suffix`), and of a step of fixed size the state is all that counts (`Tracks.of_state`).
That state is what the recorded arrays of the dynamic fields make up again
(`initialState_of_frames`), and they ask for as many runs as before (`runCount_of_reinitialized`).
So a run that is stopped and restarted from its last row records what it would have recorded without
the stop (`run_restarts`).
-/

namespace FieldFlow

variable {α : Type} [Scalar α]

/-! ## Parts of a track -/

namespace Tracks

variable {sys : System α} {start start' c : Cursor α sys.dimension} {rows : Array (Buffers α)}
  {k : Nat}

/-- The rows from one on start at the state there. -/
theorem suffix {step : Cursor α sys.dimension → StepResult (Failure α) α sys.dimension}
    (h : Tracks sys step start rows) (hk : k < rows.size) (hc : stepsFrom step start k = some c) :
    Tracks sys step c (rows.extract k) := by
  refine ⟨by rw [Array.size_extract]; omega, fun {t row} hrow => ?_⟩
  rw [Array.getElem?_extract] at hrow
  split at hrow
  · rw [← stepsFrom_add hc]
    exact h.row hrow
  · exact nomatch hrow

/-- **Of a step of fixed size the state is all that counts.** -/
theorem of_state {control : StepControl α} {timeStep : α}
    (h : Tracks sys (sys.step .rk4 control timeStep) start rows)
    (hstate : start'.state = start.state) :
    Tracks sys (sys.step .rk4 control timeStep) start' rows := by
  refine ⟨h.pos, fun hrow => ?_⟩
  obtain ⟨c, hc, hsnapshot⟩ := h.row hrow
  obtain ⟨c', hc', hsame⟩ := stepsFrom_pick (follows_id sys.rate)
    (hstate.trans (pick_id start.state).symm) hc
  rw [pick_id] at hsame
  exact ⟨c', hc', hsame ▸ hsnapshot⟩

end Tracks

/-! ## The state in a row -/

section State

variable {sys : System α} {m : Model α} {y : Vector α sys.dimension} {row : Buffers α} {i : Nat}
  {slot : Slot α}

/-- **A state is recovered** from the arrays of its stretches. -/
theorem initialState_of_frames (hw : sys.Wired) (h : ∀ {i slot}, (i, slot) ∈ sys.dynamics →
    (m.field? slot.name).bind Field.initial =
      some (.array (.ofSlice slot.shape y.toArray (sys.start slot.name)))) :
    sys.initialState m = .ok y := by
  refine initialValues_eq_ok_iff.2 (System.gathers_of_stretches hw ?_)
  rintro ⟨i, slot⟩ hentry
  have hin : sys.start slot.name + slot.shape.size ≤ y.toArray.size := by
    rw [Vector.size_toArray]
    exact System.start_add_le hw hentry
  let frame := Tensor.ofSlice slot.shape y.toArray (sys.start slot.name)
  refine ⟨⟨frame.data, frame.size_data⟩, ⟨_, frame, h hentry, rfl, Tensor.flatTo_of_data rfl⟩,
    fun k hk => ?_⟩
  have hdata : frame.data = y.toArray.extract (sys.start slot.name) _ := Tensor.data_ofSlice hin
  change frame.data[k]? = _
  rw [hdata, Array.getElem?_extract, Nat.min_eq_left hin, Nat.add_sub_cancel_left, if_pos hk]

end State

/-! ## Restarting a model -/

/-- A run from another state begins with the same system and the same room. -/
theorem RunSetup.restart {m m' : Model α} {axes : RunAxes} {method : Method}
    {control : StepControl α} {sys : System α} {initial y : Vector α sys.dimension}
    {labels : OrderedMap (List String)} (h : RunSetup m axes method control sys initial labels)
    (hmodel : m'.withoutInitials = m.withoutInitials) (hy : sys.initialState m' = .ok y) :
    RunSetup m' axes method control sys y labels :=
  { h with
    bound := (bind_congr hmodel axes.runs axes.regions).trans h.bound
    initial := hy
    labels := (sectorLabels_congr hmodel).trans h.labels }

/-- **A model that goes on from a row** of a recording: it starts where the row stood, and is
otherwise the model that was recorded. -/
structure Model.GoesOn (m m' : Model α) (rec : Recording α) (t : Nat) : Prop where
  model : m'.withoutInitials = m.withoutInitials
  initial : ∀ {name f}, m.field? name = some f → f.kind = .dynamic → ∃ h,
    rec.field? name = some h ∧ (m'.field? name).bind Field.initial = some (.array (h.frame t))

/-- It starts in the state that the row was recorded at. -/
theorem Model.GoesOn.initialState {m m' : Model α} {axes : RunAxes} {method : Method} {timeStep : α}
    {sys : System α} {labels : OrderedMap (List String)} {track : Track α} {t : Nat} {row : Buffers α}
    {y : Vector α sys.dimension}
    (h : m.GoesOn m' (outcomeOf sys axes method timeStep labels track).recording t)
    (hm : m.Evaluable) (hbound : BoundFrom m axes.runs axes.regions sys) (ht : t < axes.steps)
    (hat : track.rows[t]? = some row) (hrow : sys.snapshot y = .ok row) :
    sys.initialState m' = .ok y := by
  have hw := hbound.wired hm
  refine initialState_of_frames hw fun {i slot} hentry => ?_
  obtain ⟨hslot, hkind⟩ := System.mem_dynamics_iff.1 hentry
  obtain ⟨f, hf, -, hof⟩ := hbound.field?_of_slot hm hslot
  obtain ⟨history, hhistory, hgiven⟩ := h.initial hf (hof.kind.symm.trans hkind)
  have hrecorded : (historiesOf sys axes.steps track.rows).get? slot.name = _ :=
    get?_historiesOf hw.names hslot
  obtain rfl := Option.some.inj (hrecorded.symm.trans hhistory)
  have hin : t < slot.recordedSteps axes.steps := by rwa [Slot.recordedSteps, hkind]
  rw [hgiven, frame_historyOf hin hat
    (getElem?_snapshot_dynamic hw hbound.shaped hrow hslot hkind) rfl]

section Cut

variable {m m' : Model α} {axes : RunAxes} {timeStep : α} {control : StepControl α} {sys : System α}
  {initial : Vector α sys.dimension} {labels : OrderedMap (List String)} {rows : Array (Buffers α)}
  {n more : Nat}

/-- **A shorter run** of fixed steps has the first rows. -/
theorem integrate_stopped (hsetup : RunSetup m axes .rk4 control sys initial labels)
    (hrows : Tracks sys (sys.step .rk4 control timeStep) (startOf m initial) rows)
    (hsize : rows.size = axes.steps) (hn : n < axes.steps) :
    integrate m { axes with steps := n + 1 } .rk4 timeStep control =
      .ok (outcomeOf sys { axes with steps := n + 1 } .rk4 timeStep labels
        ⟨rows.extract 0 (n + 1), none⟩) := by
  have htake : (⟨rows.extract 0 (n + 1), none⟩ : Track α) = Track.take ⟨rows, none⟩ (n + 1) := by
    rw [Track.take, ite_self]
  rw [htake]
  exact integrate_shortened hsetup hrows (.complete hsize) (Nat.succ_pos n) hn

/-- **A run from the state of a row** has the rows from there on. -/
theorem integrate_resumed (hsetup : RunSetup m axes .rk4 control sys initial labels)
    (hrows : Tracks sys (sys.step .rk4 control timeStep) (startOf m initial) rows)
    (hsize : rows.size = axes.steps) (hsteps : axes.steps = n + more + 1)
    {c : Cursor α sys.dimension}
    (hc : stepsFrom (sys.step .rk4 control timeStep) (startOf m initial) n = some c)
    (hmodel : m'.withoutInitials = m.withoutInitials) (hstate : sys.initialState m' = .ok c.state) :
    integrate m' { axes with steps := more + 1 } .rk4 timeStep control =
      .ok (outcomeOf sys { axes with steps := more + 1 } .rk4 timeStep labels
        ⟨rows.extract n, none⟩) := by
  have hsetup' := (hsetup.of_le (Nat.succ_pos more) (by omega)).restart hmodel hstate
  have hrows' : Tracks sys (sys.step .rk4 control timeStep) (startOf m' c.state) (rows.extract n) :=
    (hrows.suffix (by omega) hc).of_state rfl
  have hdrop : (rows.extract n).size = more + 1 := by
    rw [Array.size_extract]
    omega
  exact integrate_rk4_eq_ok_iff.2 ⟨sys, c.state, labels, _, hsetup', hrows', hdrop, rfl⟩

end Cut

/-- **A run is its beginning and what goes on from there**: where a run of fixed steps succeeds, so
does a shorter one, and one that goes on from its end and leaves the rows that the whole run has
there. -/
theorem integrate_restart {m : Model α} {axes : RunAxes} {timeStep : α} {control : StepControl α}
    {n more : Nat} {whole : Outcome α} (hm : m.Evaluable) (hsteps : axes.steps = n + more + 1)
    (h : integrate m axes .rk4 timeStep control = .ok whole) :
    ∃ first, integrate m { axes with steps := n + 1 } .rk4 timeStep control = .ok first ∧
      first.divergence = none ∧ ∀ m', m.GoesOn m' first.recording n → ∃ second,
        integrate m' { axes with steps := more + 1 } .rk4 timeStep control = .ok second ∧
          second.divergence = none ∧ ∀ name f, m.field? name = some f → f.kind.isTimeVarying →
            ∃ history later, whole.recording.field? name = some history ∧
              second.recording.field? name = some later ∧
                ∀ j ≤ more, later.frame j = history.frame (n + j) := by
  obtain ⟨sys, initial, labels, rows, hsetup, hrows, hsize, rfl⟩ := integrate_rk4_eq_ok_iff.1 h
  have hbound := boundFrom_of_bind hsetup.bound
  have hw := hbound.wired hm
  obtain ⟨c, row, hrow, hc, hsnapshot⟩ := hrows.exists_row (t := n) (by omega)
  refine ⟨_, integrate_stopped hsetup hrows hsize (by omega), rfl, fun m' hgoesOn => ?_⟩
  have hat : (rows.extract 0 (n + 1))[n]? = some row := by
    rw [Array.getElem?_extract, if_pos (by omega), Nat.zero_add, hrow]
  refine ⟨_, integrate_resumed hsetup hrows hsize hsteps hc hgoesOn.model
    (hgoesOn.initialState hm hbound (Nat.lt_succ_self n) hat hsnapshot), rfl,
      fun name f hf hkind => ?_⟩
  obtain ⟨i, slot, hslot, rfl, hof⟩ := hbound.slot_of_field? hm hf
  refine ⟨_, _, get?_historiesOf hw.names hslot, get?_historiesOf hw.names hslot, fun j hj => ?_⟩
  have hlater : n + j < rows.size := by omega
  have hthere := Array.getElem?_eq_getElem hlater
  have hhere : (rows.extract n)[j]? = some rows[n + j] := by
    rw [Array.getElem?_extract, if_pos (by omega), hthere]
  exact frame_historyOf_congr (hrows.scratch hw hbound.shaped hthere) hslot (hof.kind ▸ hkind)
    (Nat.lt_succ_of_le hj) (hsize ▸ hlater) hhere hthere

/-! ## Restarting a simulation -/

/-- The values of all dynamic fields at a time point, in any order. -/
structure Recording.StateAt (rec : Recording α) (m : Model α) (t : Nat)
    (values : List (String × Value α)) : Prop where
  names : (values.map Prod.fst).Perm (m.namesOf .dynamic)
  arrays : ∀ entry ∈ values, ∃ h, rec.field? entry.1 = some h ∧ entry.2 = .array (h.frame t)

/-- The arrays of all dynamic fields, in the order of their declaration. -/
def Recording.stateAt (rec : Recording α) (m : Model α) (t : Nat) : List (String × Value α) :=
  (m.namesOf .dynamic).map fun name =>
    (name, .array (((rec.field? name).map fun h => h.frame t).getD default))

/-- Whatever is run records an array of every dynamic field. -/
theorem stateAt_of_run {s s' : Simulation α} {method : String} {timeStep span : α}
    {control : StepControl α} {rec : Recording α} (hm : s.model.Evaluable)
    (h : s.run method timeStep span control = (s', .ok ())) (hlast : s'.last = some rec) (t : Nat) :
    rec.StateAt s.model t (rec.stateAt s.model t) where
  names := by
    rw [Recording.stateAt, List.map_map]
    exact .of_eq (List.map_id _)
  arrays := fun entry hentry => by
    obtain ⟨_, axes, outcome, -, houtcome, -, rfl⟩ := run_eq_ok_iff.1 h
    obtain rfl := Option.some.inj hlast
    obtain ⟨name, hname, rfl⟩ := List.mem_map.1 hentry
    obtain ⟨f, hf, -⟩ := (Model.mem_namesOf_iff hm.named).1 hname
    obtain ⟨history, hhistory⟩ := Option.isSome_iff_exists.1
      ((isSome_recorded_iff hm houtcome).2 (Option.isSome_of_mem hf))
    exact ⟨history, hhistory, by rw [hhistory, Option.map_some, Option.getD_some]⟩

namespace Recording.StateAt

variable {rec : Recording α} {m : Model α} {t : Nat} {values : List (String × Value α)}

theorem areInitials (h : rec.StateAt m t values) (hm : m.Evaluable) : m.AreInitials values :=
  fun _ hentry => (Model.mem_namesOf_iff hm.named).1 (h.names.mem_iff.1 (List.mem_map_of_mem hentry))

theorem laid (h : rec.StateAt m t values) :
    ∀ entry ∈ values, ∃ v, entry.2.toTensor entry.1 = .ok v := by
  intro entry hentry
  obtain ⟨history, -, hv⟩ := h.arrays entry hentry
  rw [hv]
  exact ⟨_, rfl⟩

/-- Every dynamic field is given its array. -/
theorem get?_ofList (h : rec.StateAt m t values) (hm : m.Evaluable) {name : String} {f : Field α}
    (hf : m.field? name = some f) (hkind : f.kind = .dynamic) : ∃ history,
      rec.field? name = some history ∧
        (OrderedMap.ofList values).get? name = some (.array (history.frame t)) := by
  have hnodup := h.names.nodup_iff.2 (Model.nodup_namesOf hm.named .dynamic)
  obtain ⟨⟨_, v⟩, hentry, rfl⟩ :=
    List.mem_map.1 (h.names.mem_iff.2 ((Model.mem_namesOf_iff hm.named).2 ⟨f, hf, hkind⟩))
  obtain ⟨history, hhistory, hv⟩ := h.arrays _ hentry
  refine ⟨history, hhistory, OrderedMap.get?_eq_some_iff.2 ?_⟩
  rw [OrderedMap.entries_ofList hnodup, ← hv]
  exact hentry

/-- Assigning them makes a model that goes on from there. -/
theorem goesOn {s next : Simulation α} (h : rec.StateAt s.model t values) (hm : s.model.Evaluable)
    (hnext : s.Reinitialized next values) : s.model.GoesOn next.model rec t where
  model := hnext.model
  initial := fun hf hkind => by
    obtain ⟨history, hhistory, hgiven⟩ := h.get?_ofList hm hf hkind
    refine ⟨history, hhistory, ?_⟩
    rw [hnext.field hf, Option.bind_some, hgiven, Option.some_or]

end Recording.StateAt

/-- **Values for every run** in all dynamic fields leave the number of runs as it was. -/
theorem runCount_of_reinitialized {s next : Simulation α} {values : List (String × Value α)}
    {runs : Nat} (h : s.Reinitialized next values)
    (hgiven : ∀ {name f}, s.model.field? name = some f → f.kind = .dynamic →
      ∃ v, (OrderedMap.ofList values).get? name = some v ∧ v.runCount = runs)
    (hruns : (runCount s.runs (Simulation.valueLengths s.model) : Except (Error α) Nat) = .ok runs) :
    (runCount next.runs (Simulation.valueLengths next.model) : Except (Error α) Nat) = .ok runs := by
  have hrestarted : ∀ {name f}, s.model.field? name = some f → f.kind = .dynamic →
      ∃ g v, next.model.field? name = some g ∧ g.assigned = some v ∧ v.runCount = runs := by
    intro name f hf hkind
    obtain ⟨v, hv, hlength⟩ := hgiven hf hkind
    refine ⟨_, v, h.field hf, ?_, hlength⟩
    rw [Field.assigned_of_dynamic (by exact hkind), hv, Option.some_or]
  rw [h.runs]
  refine runCount_of_lengths hruns (fun entry' hentry' => ?_) fun entry hentry => ?_
  · obtain ⟨name, g, v, hg, hv, rfl⟩ := mem_valueLengths_iff.1 hentry'
    obtain ⟨f, hf, rfl⟩ := h.origin hg
    by_cases hkind : f.kind = .dynamic
    · obtain ⟨g', v', hg', hv', hlength⟩ := hrestarted hf hkind
      obtain rfl := Option.some.inj (hg'.symm.trans hg)
      obtain rfl := Option.some.inj (hv'.symm.trans hv)
      exact .inl hlength
    · rw [Field.assigned_of_ne_dynamic hkind] at hv
      exact .inr ⟨_, mem_valueLengths_iff.2 ⟨name, f, v, hf, hv, rfl⟩, rfl⟩
  · obtain ⟨name, f, v, hf, hv, rfl⟩ := mem_valueLengths_iff.1 hentry
    by_cases hkind : f.kind = .dynamic
    · obtain ⟨g, v', hg, hv', hlength⟩ := hrestarted hf hkind
      exact ⟨_, mem_valueLengths_iff.2 ⟨name, g, v', hg, hv', rfl⟩, .inl hlength⟩
    · exact ⟨_, mem_valueLengths_iff.2 ⟨name, _, v, h.field hf,
        (Field.assigned_of_ne_dynamic hkind _).trans hv, rfl⟩, .inr rfl⟩

/-- **Runs of fixed steps can be stopped and restarted** — where a run of `n + more + 1` points
succeeds, so does one of `n + 1` points; the arrays that it has recorded last can be assigned to the
dynamic fields in any order, and a run of `more + 1` points from there succeeds with as many runs
and records what the whole run has recorded from point `n` on. -/
theorem run_restarts {registry : Registry α} {d : Description α} {s ended : Simulation α}
    {method : String} {timeStep span span₁ span₂ : α} {control : StepControl α} {n more : Nat}
    {rec : Recording α} (hm : s.model.InUse registry d)
    (hmethod : (Method.ofName method : Except (Error α) Method) = .ok .rk4)
    (hspan : timePoints span timeStep = .ok (n + more + 1))
    (hspan₁ : timePoints span₁ timeStep = .ok (n + 1))
    (hspan₂ : timePoints span₂ timeStep = .ok (more + 1))
    (hrun : s.run method timeStep span control = (ended, .ok ())) (hlast : ended.last = some rec) :
    ∃ stopped rec₁, s.run method timeStep span₁ control = (stopped, .ok ()) ∧
      stopped.last = some rec₁ ∧ ∀ values, rec₁.StateAt s.model n values →
        ∃ restarted resumed rec₂, stopped.setAll values = (restarted, .ok ()) ∧
          restarted.run method timeStep span₂ control = (resumed, .ok ()) ∧
            resumed.last = some rec₂ ∧ rec₂.axes = { rec.axes with steps := more + 1 } ∧
              ∀ name f, s.model.field? name = some f → f.kind.isTimeVarying →
                ∃ history later, rec.field? name = some history ∧ rec₂.field? name = some later ∧
                  ∀ j ≤ more, later.frame j = history.frame (n + j) := by
  obtain ⟨_, axes, outcome, hplan, houtcome, -, rfl⟩ := run_eq_ok_iff.1 hrun
  obtain rfl := Option.some.inj hlast
  obtain ⟨hmethod', hsteps, hruns, hregions⟩ := plan_eq_ok_iff.1 hplan
  obtain rfl := Except.ok.inj (hmethod'.symm.trans hmethod)
  have hsteps := Except.ok.inj (hsteps.symm.trans hspan)
  obtain ⟨first, hfirst, hcomplete, hrestart⟩ := integrate_restart hm.evaluable hsteps houtcome
  have hplan₁ : s.plan method timeStep span₁ = .ok (.rk4, { axes with steps := n + 1 }) :=
    plan_eq_ok_iff.2 ⟨hmethod, hspan₁, hruns, hregions⟩
  let stopped : Simulation α := { s with last := some first.recording }
  refine ⟨stopped, first.recording, run_eq_ok_iff.2 ⟨_, _, first, hplan₁, hfirst, hcomplete, rfl⟩,
    rfl, fun values hvalues => ?_⟩
  have hvalues : first.recording.StateAt stopped.model n values := hvalues
  have hinitials := hvalues.areInitials hm.evaluable
  obtain ⟨restarted, hrestarted⟩ := exists_setAll hinitials hvalues.laid
  have hinit : stopped.Reinitialized restarted values := reinitialized_of_setAll hinitials hrestarted
  obtain ⟨second, hsecond, hdone, hrows⟩ :=
    hrestart restarted.model (hvalues.goesOn hm.evaluable hinit)
  have hruns' := runCount_of_reinitialized hinit (fun {name f} hf hkind => by
    obtain ⟨history, hhistory, hgiven⟩ := hvalues.get?_ofList hm.evaluable hf hkind
    exact ⟨_, hgiven, runs_of_integrate hfirst hhistory⟩) hruns
  have hplan₂ : restarted.plan method timeStep span₂ =
      .ok (.rk4, { axes with steps := more + 1 }) :=
    plan_eq_ok_iff.2 ⟨hmethod, hspan₂, hruns', hinit.regions.trans hregions⟩
  refine ⟨restarted, _, second.recording, hrestarted,
    run_eq_ok_iff.2 ⟨_, _, second, hplan₂, hsecond, hdone, rfl⟩, rfl, ?_, hrows⟩
  rw [axes_of_integrate hsecond, axes_of_integrate houtcome]

/-- A cascade that is stopped half-way. -/
theorem cascade_restarts : ∃ s ended rec stopped rec₁ restarted resumed rec₂,
    s.model.InUse .empty cascade ∧ cascade.runFor 1 s = (ended, .ok ()) ∧ ended.last = some rec ∧
    cascade.runFor (1 / 2) s = (stopped, .ok ()) ∧ stopped.last = some rec₁ ∧
    stopped.setAll (rec₁.stateAt s.model 1) = (restarted, .ok ()) ∧
    cascade.runFor (1 / 2) restarted = (resumed, .ok ()) ∧ resumed.last = some rec₂ ∧
    ∃ history later, rec.field? "stock" = some history ∧ rec₂.field? "stock" = some later ∧
      later.frame 1 = history.frame 2 := by
  have hspan : timePoints (Fraction.of 1) (.of (1 / 2)) = .ok (1 + 1 + 1) := by
    rw [← toOption_eq_some_iff]
    decide +kernel
  have hhalf : timePoints (Fraction.of (1 / 2)) (.of (1 / 2)) = .ok (1 + 1) := by
    rw [← toOption_eq_some_iff]
    decide +kernel
  have hruns : ((Simulation.load .empty cascade 0).toOption.map fun s =>
      let ended := cascade.runFor 1 s
      (ended.2.toOption.isSome, ended.1.last.isSome,
        (s.model.field? "stock").map fun f => f.kind.isTimeVarying)) =
          some (true, true, some true) := by
    decide +kernel
  obtain ⟨s, hs, h⟩ := Option.map_eq_some_iff.1 hruns
  simp only [Prod.mk.injEq] at h
  obtain ⟨hrun, hlast, hstock⟩ := h
  obtain ⟨ended, hrun⟩ := exists_eq_ok_of_isSome hrun
  rw [hrun] at hlast
  obtain ⟨rec, hlast⟩ := Option.isSome_iff_exists.1 hlast
  obtain ⟨f, hf, hvarying⟩ := Option.map_eq_some_iff.1 hstock
  have hm : s.model.InUse .empty cascade := .of_load (toOption_eq_some_iff.1 hs)
  obtain ⟨stopped, rec₁, hstopped, hlast₁, hrestart⟩ :=
    run_restarts hm rfl hspan hhalf hhalf hrun hlast
  obtain ⟨restarted, resumed, rec₂, hset, hresumed, hlast₂, -, hrows⟩ :=
    hrestart _ (stateAt_of_run hm.evaluable hstopped hlast₁ 1)
  obtain ⟨history, later, hhistory, hlater, hsame⟩ := hrows "stock" f hf hvarying
  exact ⟨s, ended, rec, stopped, rec₁, restarted, resumed, rec₂, hm, hrun, hlast, hstopped, hlast₁,
    hset, hresumed, hlast₂, history, later, hhistory, hlater, hsame 1 (Nat.le_refl 1)⟩

end FieldFlow
