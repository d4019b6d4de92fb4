import FieldFlow.Proofs.Solver.Pick
import FieldFlow.Proofs.System.Layout
import FieldFlow.Proofs.Tensor.History
import FieldFlow.Run.Integrate

/-!
# Proofs/Run/Steps — a run is the successful steps of its method, recorded one by one

`stepsFrom` repeats a step and stops where one fails. The time loop records the state after each
number of steps (`Tracks`), up to the end of its grid or to a step on which error control gives up
(`Ends`). Nothing else about it is left open: the loop succeeds with exactly such a track
(`drive_eq_ok_iff`), and a run with exactly its histories (`integrate_eq_ok_iff`).
-/

namespace FieldFlow

/-! ## Steps one after another -/

section Steps

variable {ε α : Type} {n : Nat} {step : Cursor α n → StepResult ε α n} {start c next : Cursor α n}

/-- **The cursor after a number of steps**, if every one of them succeeds. -/
def stepsFrom (step : Cursor α n → StepResult ε α n) (start : Cursor α n) :
    Nat → Option (Cursor α n)
  | 0 => some start
  | k + 1 => (stepsFrom step start k).bind fun c =>
    match step c with
    | (next, .ok ()) => some next
    | (_, .error _) => none

theorem stepsFrom_succ_eq_some_iff {k : Nat} : stepsFrom step start (k + 1) = some next ↔
    ∃ c, stepsFrom step start k = some c ∧ step c = (next, .ok ()) := by
  rw [stepsFrom, Option.bind_eq_some_iff]
  refine exists_congr fun c => and_congr_right fun _ => ?_
  obtain ⟨after, result⟩ := step c
  cases result <;> simp

/-- Steps after steps are counted together. -/
theorem stepsFrom_add {j : Nat} (h : stepsFrom step start j = some c) :
    ∀ k, stepsFrom step start (j + k) = stepsFrom step c k
  | 0 => h
  | k + 1 => by rw [← Nat.add_assoc, stepsFrom, stepsFrom_add h k, stepsFrom]

/-- **How a run of steps ends** — at the end of its grid, or in front of a step on which error
control gives up. -/
inductive Ends (step : Cursor α n → StepResult ε α n) (start : Cursor α n) (steps reached : Nat) :
    Option (Error α) → Prop
  | complete : reached = steps → Ends step start steps reached none
  | diverged {c next : Cursor α n} {began : α} {cause : Impasse α} : reached < steps →
      stepsFrom step start (reached - 1) = some c →
        step c = (next, .error (.impasse began cause)) →
          Ends step start steps reached (some (.solverDivergence (reached - 1) began cause))

namespace Ends

variable {steps reached : Nat} {divergence : Option (Error α)}

theorem reached_le (h : Ends step start steps reached divergence) : reached ≤ steps := by
  cases h with
  | complete hreached => exact Nat.le_of_eq hreached
  | diverged hlt => exact Nat.le_of_lt hlt

theorem eq_none_iff (h : Ends step start steps reached divergence) :
    divergence = none ↔ reached = steps := by
  cases h with
  | complete hreached => simp [hreached]
  | diverged hlt => simp [Nat.ne_of_lt hlt]

theorem of_some {e : Error α} (h : Ends step start steps reached (some e)) : reached < steps ∧
    ∃ c next began cause, stepsFrom step start (reached - 1) = some c ∧
      step c = (next, .error (.impasse began cause)) ∧
        e = .solverDivergence (reached - 1) began cause := by
  cases h with
  | diverged hlt hc hstep => exact ⟨hlt, _, _, _, _, hc, hstep, rfl⟩

end Ends

end Steps

/-! ## The time loop -/

section Loop

variable {α : Type} [Scalar α]

/-- One step of a method on a system. -/
def System.step (sys : System α) (method : Method) (control : StepControl α) (timeStep : α) :
    Cursor α sys.dimension → StepResult (Failure α) α sys.dimension :=
  method.step control (fun _ x => sys.rate x) timeStep

variable {sys : System α} {method : Method} {control : StepControl α} {timeStep : α}

/-- **A step of the time loop**: it is recorded, or error control gives up. -/
theorem drive_succ_eq_ok_iff {more : Nat} {cursor : Cursor α sys.dimension}
    {rows : Array (Buffers α)} {track : Track α} :
    drive sys method control timeStep (more + 1) cursor rows = .ok track ↔
      (∃ next row, sys.step method control timeStep cursor = (next, .ok ()) ∧
        sys.snapshot next.state = .ok row ∧
          drive sys method control timeStep more next (rows.push row) = .ok track) ∨
      ∃ next began cause,
        sys.step method control timeStep cursor = (next, .error (.impasse began cause)) ∧
          track = ⟨rows, some (.solverDivergence (rows.size - 1) began cause)⟩ := by
  rw [drive, ← System.step]
  obtain ⟨next, result⟩ := sys.step method control timeStep cursor
  cases result with
  | ok u => simp [bind_eq_ok_iff]
  | error e => cases e <;> simp [eq_comm]

/-- **Rows that hold the state after each number of steps**, with everything computed from it. -/
structure Tracks (sys : System α)
    (step : Cursor α sys.dimension → StepResult (Failure α) α sys.dimension)
    (start : Cursor α sys.dimension) (rows : Array (Buffers α)) : Prop where
  pos : 0 < rows.size
  row : ∀ {t : Nat} {row}, rows[t]? = some row →
    ∃ c, stepsFrom step start t = some c ∧ sys.snapshot c.state = .ok row

namespace Tracks

variable {step : Cursor α sys.dimension → StepResult (Failure α) α sys.dimension}
  {start c : Cursor α sys.dimension} {rows rows' : Array (Buffers α)}

theorem single {row : Buffers α} (h : sys.snapshot start.state = .ok row) :
    Tracks sys step start #[row] := by
  refine ⟨Nat.one_pos, fun {t row'} hrow => ?_⟩
  obtain ⟨ht, rfl⟩ := Array.getElem?_eq_some_iff.1 hrow
  obtain rfl : t = 0 := Nat.lt_one_iff.1 ht
  exact ⟨start, rfl, h⟩

theorem push {row : Buffers α} (h : Tracks sys step start rows)
    (hc : stepsFrom step start rows.size = some c) (hrow : sys.snapshot c.state = .ok row) :
    Tracks sys step start (rows.push row) := by
  refine ⟨by simp, fun {t row'} hrow' => ?_⟩
  rw [Array.getElem?_push] at hrow'
  split at hrow'
  · rename_i ht
    obtain rfl := Option.some.inj hrow'
    exact ⟨c, ht ▸ hc, hrow⟩
  · exact h.row hrow'

theorem ofFn {k : Nat} (hk : 0 < k) {row : Fin k → Buffers α}
    (h : ∀ t : Fin k, ∃ c, stepsFrom step start t = some c ∧ sys.snapshot c.state = .ok (row t)) :
    Tracks sys step start (Array.ofFn row) := by
  refine ⟨by rwa [Array.size_ofFn], fun {t _} hrow => ?_⟩
  obtain ⟨ht, rfl⟩ := Array.getElem?_eq_some_iff.1 hrow
  rw [Array.getElem_ofFn]
  exact h ⟨t, _⟩

/-- The row at a time. -/
theorem exists_row (h : Tracks sys step start rows) {t : Nat} (ht : t < rows.size) :
    ∃ c row, rows[t]? = some row ∧ stepsFrom step start t = some c ∧
      sys.snapshot c.state = .ok row := by
  have hrow := Array.getElem?_eq_getElem ht
  obtain ⟨c, hc, hsnapshot⟩ := h.row hrow
  exact ⟨c, _, hrow, hc, hsnapshot⟩

/-- What rows hold at a time is known. -/
theorem getElem?_eq (h : Tracks sys step start rows) (h' : Tracks sys step start rows') {t : Nat}
    (ht : t < rows.size) (ht' : t < rows'.size) : rows[t]? = rows'[t]? := by
  obtain ⟨c, row, hrow, hc, hsnapshot⟩ := h.exists_row ht
  obtain ⟨c', row', hrow', hc', hsnapshot'⟩ := h'.exists_row ht'
  obtain rfl := Option.some.inj (hc.symm.trans hc')
  obtain rfl := Except.ok.inj (hsnapshot.symm.trans hsnapshot')
  rw [hrow, hrow']

/-- Rows of one length are the same rows. -/
theorem eq_of_size_eq (h : Tracks sys step start rows) (h' : Tracks sys step start rows')
    (hsize : rows.size = rows'.size) : rows = rows' := by
  refine Array.ext_getElem? fun t => ?_
  rcases Nat.lt_or_ge t rows.size with ht | ht
  · exact h.getElem?_eq h' ht (hsize ▸ ht)
  · rw [Array.getElem?_eq_none ht, Array.getElem?_eq_none (hsize ▸ ht)]

end Tracks

/-- A track goes on behind a row with the step that the row's state makes. -/
theorem Tracks.exists_next
    {step : Cursor α sys.dimension → StepResult (Failure α) α sys.dimension}
    {start cursor : Cursor α sys.dimension} {rows : Array (Buffers α)} {t : Nat}
    (h : Tracks sys step start rows) (hcursor : stepsFrom step start t = some cursor)
    (ht : t + 1 < rows.size) : ∃ next row, step cursor = (next, .ok ()) ∧
      stepsFrom step start (t + 1) = some next ∧ sys.snapshot next.state = .ok row := by
  obtain ⟨next, row, -, hnext, hrow⟩ := h.exists_row ht
  obtain ⟨c, hc, hstep⟩ := stepsFrom_succ_eq_some_iff.1 hnext
  obtain rfl := Option.some.inj (hcursor.symm.trans hc)
  exact ⟨next, row, hstep, hnext, hrow⟩

section Drive

variable {start : Cursor α sys.dimension} {track : Track α}

/-- The time loop records every state that it comes to, and stops where error control gives up. -/
theorem tracks_of_drive {more : Nat} {cursor : Cursor α sys.dimension} {rows : Array (Buffers α)}
    (hrows : Tracks sys (sys.step method control timeStep) start rows)
    (hcursor : stepsFrom (sys.step method control timeStep) start (rows.size - 1) = some cursor)
    (h : drive sys method control timeStep more cursor rows = .ok track) :
    rows.size ≤ track.rows.size ∧ Tracks sys (sys.step method control timeStep) start track.rows ∧
      Ends (sys.step method control timeStep) start (rows.size + more) track.rows.size
        track.divergence := by
  induction more generalizing cursor rows with
  | zero =>
    obtain rfl := Except.ok.inj h
    exact ⟨Nat.le_refl _, hrows, .complete rfl⟩
  | succ more ih =>
    rcases drive_succ_eq_ok_iff.1 h with ⟨next, row, hstep, hrow, hrest⟩ |
      ⟨next, began, cause, hstep, rfl⟩
    · have hnext : stepsFrom (sys.step method control timeStep) start rows.size = some next :=
        Nat.sub_add_cancel hrows.pos ▸ stepsFrom_succ_eq_some_iff.2 ⟨cursor, hcursor, hstep⟩
      have hsize : (rows.push row).size = rows.size + 1 := Array.size_push row
      obtain ⟨hle, htrack, hends⟩ := ih (hrows.push hnext hrow)
        (by rw [hsize, Nat.add_sub_cancel, hnext]) hrest
      rw [hsize] at hle
      rw [hsize, Nat.add_assoc, Nat.add_comm 1] at hends
      exact ⟨by omega, htrack, hends⟩
    · exact ⟨Nat.le_refl _, hrows, .diverged (Nat.lt_add_of_pos_right (Nat.succ_pos more)) hcursor
        hstep⟩

/-- …and leaves any track that is as long as its steps succeed. -/
theorem drive_of_tracks {more : Nat} {cursor : Cursor α sys.dimension} {rows : Array (Buffers α)}
    (hrows : Tracks sys (sys.step method control timeStep) start rows)
    (hcursor : stepsFrom (sys.step method control timeStep) start (rows.size - 1) = some cursor)
    (hle : rows.size ≤ track.rows.size)
    (htrack : Tracks sys (sys.step method control timeStep) start track.rows)
    (hends : Ends (sys.step method control timeStep) start (rows.size + more) track.rows.size
      track.divergence) :
    drive sys method control timeStep more cursor rows = .ok track := by
  obtain ⟨final, divergence⟩ := track
  dsimp only at hle htrack hends
  induction more generalizing cursor rows with
  | zero =>
    cases hends with
    | complete hsize => rw [drive, hrows.eq_of_size_eq htrack hsize.symm]
    | diverged hlt => exact absurd hlt (Nat.not_lt.2 hle)
  | succ more ih =>
    rw [drive_succ_eq_ok_iff]
    rcases Nat.lt_or_ge rows.size final.size with hlt | hge
    · have hpos : rows.size - 1 + 1 = rows.size := Nat.sub_add_cancel hrows.pos
      obtain ⟨next, row, hstep, hnext, hrow⟩ := htrack.exists_next hcursor (hpos.symm ▸ hlt)
      rw [hpos] at hnext
      have hsize : (rows.push row).size = rows.size + 1 := Array.size_push row
      refine .inl ⟨next, row, hstep, hrow, ih (hrows.push hnext hrow) ?_ ?_ ?_⟩
      · rw [hsize, Nat.add_sub_cancel, hnext]
      · rw [hsize]
        exact hlt
      · rwa [hsize, Nat.add_assoc, Nat.add_comm 1]
    · obtain rfl := hrows.eq_of_size_eq htrack (Nat.le_antisymm hle hge)
      cases hends with
      | complete hend => exact absurd hend (by omega)
      | diverged _ hc hstep =>
        obtain rfl := Option.some.inj (hcursor.symm.trans hc)
        exact .inr ⟨_, _, _, hstep, rfl⟩

/-- **What the time loop leaves** is every state that the method reaches in the grid, and the reason
if it did not get further. -/
theorem drive_eq_ok_iff {more : Nat} {cursor : Cursor α sys.dimension} {rows : Array (Buffers α)}
    (hrows : Tracks sys (sys.step method control timeStep) start rows)
    (hcursor : stepsFrom (sys.step method control timeStep) start (rows.size - 1) = some cursor) :
    drive sys method control timeStep more cursor rows = .ok track ↔
      rows.size ≤ track.rows.size ∧
        Tracks sys (sys.step method control timeStep) start track.rows ∧
          Ends (sys.step method control timeStep) start (rows.size + more) track.rows.size
            track.divergence :=
  ⟨tracks_of_drive hrows hcursor, fun ⟨hle, htrack, hends⟩ =>
    drive_of_tracks hrows hcursor hle htrack hends⟩

end Drive

end Loop

/-! ## Steps of fixed size -/

section Fixed

variable {α : Type} [Scalar α] {sys : System α} {control : StepControl α} {timeStep : α}

theorem step_rk4 (sys : System α) (control : StepControl α) (timeStep : α) :
    sys.step .rk4 control timeStep = RungeKutta.step (fun _ y => sys.rate y) timeStep := rfl

/-- **A run of fixed steps never gives up**: it comes to the end of its grid. -/
theorem Ends.of_rk4 {start : Cursor α sys.dimension} {steps reached : Nat}
    {divergence : Option (Error α)}
    (h : Ends (sys.step .rk4 control timeStep) start steps reached divergence) :
    reached = steps ∧ divergence = none := by
  cases h with
  | complete hsteps => exact ⟨hsteps, rfl⟩
  | diverged _ _ hstep =>
    rw [step_rk4, RungeKutta.step] at hstep
    split at hstep <;> simp at hstep

/-- From picked places, steps lead to picked places. -/
theorem stepsFrom_pick {ε ε' : Type} {n k : Nat} {φ : Fin k → Fin n} {f : Rate ε α n}
    {g : Rate ε' α k} (h : Follows φ f g) {start : Cursor α n} {start' : Cursor α k}
    (hstart : start'.state = pick φ start.state) {dt : α} :
    ∀ {t : Nat} {c : Cursor α n}, stepsFrom (RungeKutta.step f dt) start t = some c →
      ∃ c', stepsFrom (RungeKutta.step g dt) start' t = some c' ∧ c'.state = pick φ c.state
  | 0, c, hc => ⟨start', rfl, Option.some.inj hc ▸ hstart⟩
  | t + 1, c, hc => by
      obtain ⟨before, hbefore, hstep⟩ := stepsFrom_succ_eq_some_iff.1 hc
      obtain ⟨before', hbefore', hstate⟩ := stepsFrom_pick h hstart hbefore
      obtain ⟨c', hstep', hstate'⟩ := RungeKutta.step_pick h hstate hstep
      exact ⟨c', stepsFrom_succ_eq_some_iff.2 ⟨before', hbefore', hstep'⟩, hstate'⟩

/-- **A system that moves as some places of another one** is recorded as long as that one is, and
its rows are related to the rows there as a row is to the row at the same state. -/
theorem Tracks.exists_pick {sys' : System α} {R : Buffers α → Buffers α → Prop}
    {φ : Fin sys'.dimension → Fin sys.dimension}
    (hrate : Follows φ (fun _ y => sys.rate y) (fun _ y => sys'.rate y))
    (hsnapshot : ∀ y row, sys.snapshot y = .ok row →
      ∃ row', sys'.snapshot (pick φ y) = .ok row' ∧ R row row')
    {start : Cursor α sys.dimension} {start' : Cursor α sys'.dimension}
    (hstart : start'.state = pick φ start.state) {rows : Array (Buffers α)}
    (h : Tracks sys (sys.step .rk4 control timeStep) start rows) :
    ∃ rows', Tracks sys' (sys'.step .rk4 control timeStep) start' rows' ∧
      rows'.size = rows.size ∧
        ∀ (t : Nat) row row', rows[t]? = some row → rows'[t]? = some row' → R row row' := by
  have hrow : ∀ t : Fin rows.size, ∃ row',
      (∃ c', stepsFrom (sys'.step .rk4 control timeStep) start' t = some c' ∧
        sys'.snapshot c'.state = .ok row') ∧ R rows[t] row' := by
    intro t
    obtain ⟨c, hc, hrow⟩ := h.row (Array.getElem?_eq_getElem t.isLt)
    obtain ⟨c', hc', hstate⟩ := stepsFrom_pick hrate hstart hc
    obtain ⟨row', hrow', hrelated⟩ := hsnapshot _ _ hrow
    exact ⟨row', ⟨c', hc', hstate ▸ hrow'⟩, hrelated⟩
  choose row' hrow' hrelated using hrow
  refine ⟨Array.ofFn row', .ofFn h.pos hrow', Array.size_ofFn, fun t row _ hrow hrow'' => ?_⟩
  obtain ⟨ht, rfl⟩ := Array.getElem?_eq_some_iff.1 hrow
  obtain ⟨-, rfl⟩ := Array.getElem?_eq_some_iff.1 hrow''
  rw [Array.getElem_ofFn]
  exact hrelated ⟨t, ht⟩

end Fixed

/-! ## Histories -/

section Histories

variable {α : Type} [Scalar α]

/-- The histories of all fields from the recorded rows. -/
def historiesOf (sys : System α) (steps : Nat) (rows : Array (Buffers α)) :
    OrderedMap (History α) :=
  .ofList (sys.slots.toList.zipIdx.map fun (slot, i) => (slot.name, historyOf steps rows slot i))

variable {sys : System α} {steps : Nat} {rows : Array (Buffers α)} {i : Nat} {slot : Slot α}

omit [Scalar α] in
theorem map_name_zipIdx {β : Type} (f : Slot α → Nat → β) (slots : List (Slot α)) :
    (slots.zipIdx.map fun (slot, i) => (slot.name, f slot i)).map Prod.fst =
      slots.map Slot.name := by
  conv_rhs => rw [← List.zipIdx_map_fst 0 slots, List.map_map]
  rw [List.map_map]
  rfl

theorem entries_historiesOf (hnames : (sys.slots.toList.map Slot.name).Nodup) :
    (historiesOf sys steps rows).entries =
      sys.slots.toList.zipIdx.map fun (slot, i) => (slot.name, historyOf steps rows slot i) :=
  OrderedMap.entries_ofList (map_name_zipIdx (historyOf steps rows) sys.slots.toList ▸ hnames)

theorem keys_historiesOf (hnames : (sys.slots.toList.map Slot.name).Nodup) :
    (historiesOf sys steps rows).keys = sys.slots.toList.map Slot.name := by
  rw [OrderedMap.keys, entries_historiesOf hnames]
  exact map_name_zipIdx (historyOf steps rows) sys.slots.toList

/-- Every slot has a history under its name. -/
theorem get?_historiesOf (hnames : (sys.slots.toList.map Slot.name).Nodup)
    (hslot : sys.slots[i]? = some slot) :
    (historiesOf sys steps rows).get? slot.name = some (historyOf steps rows slot i) := by
  rw [OrderedMap.get?_eq_some_iff, entries_historiesOf hnames]
  exact List.mem_map.2 ⟨(slot, i), List.mem_zipIdx_iff_getElem?.2 (by simpa using hslot), rfl⟩

/-- Every history is that of a slot. -/
theorem of_get?_historiesOf {name : String} {h : History α}
    (hget : (historiesOf sys steps rows).get? name = some h) : ∃ (i : Nat) (slot : Slot α),
      sys.slots[i]? = some slot ∧ slot.name = name ∧ h = historyOf steps rows slot i := by
  obtain ⟨⟨slot, i⟩, hentry, heq⟩ := List.mem_map.1 (OrderedMap.mem_of_get?_ofList hget)
  obtain ⟨rfl, rfl⟩ := Prod.mk.inj heq
  exact ⟨i, slot, getElem?_of_mem_zipIdx hentry, rfl, rfl⟩

/-- A row that was recorded is read back. -/
theorem frame_historyOf {t : Nat} {row : Buffers α} {b : Buffer α}
    (ht : t < slot.recordedSteps steps) (hrow : rows[t]? = some row) (hb : row[i]? = some b)
    (hshape : b.value.shape = slot.shape) : (historyOf steps rows slot i).frame t = b.value := by
  refine History.frame_ofFrames ht ?_ hshape
  rw [Array.getElem?_map, hrow, Option.map_some, hb, Option.map_some, Option.getD_some]

/-- At times that were not reached there is no number. -/
theorem get_historyOf_of_le {t x r i' j : Nat} (ht : t < slot.recordedSteps steps)
    (hrow : rows.size ≤ t) (hin : slot.shape.Contains x r i' j) :
    (historyOf steps rows slot i).get t x r i' j = Scalar.nan := by
  unfold historyOf
  dsimp only
  rw [History.get_ofFrames ht hin, Array.getElem?_map, Array.getElem?_eq_none hrow]
  rfl

end Histories

/-! ## Runs -/

section Run

variable {α : Type} [Scalar α] {m : Model α} {axes : RunAxes} {method : Method} {timeStep : α}
  {control : StepControl α}

/-- **What a run begins with**: settings that hold, a bound system with its initial state, room for
every history, and the labels of the sectors. -/
structure RunSetup (m : Model α) (axes : RunAxes) (method : Method) (control : StepControl α)
    (sys : System α) (initial : Vector α sys.dimension) (labels : OrderedMap (List String)) :
    Prop where
  settings : method.tableau?.isSome → control.validate = .ok ()
  steps : 0 < axes.steps
  bound : m.bind axes.runs axes.regions = .ok sys
  initial : sys.initialState m = .ok initial
  room : ∀ slot ∈ sys.slots, History.check (slot.recordedSteps axes.steps) slot.shape = .ok ()
  labels : sectorLabels m = .ok labels

/-- Where a run starts. -/
def startOf (m : Model α) {n : Nat} (initial : Vector α n) : Cursor α n :=
  { time := startTime m, state := initial }

/-- The outcome of a run from the track that its time loop leaves. -/
def outcomeOf (sys : System α) (axes : RunAxes) (method : Method) (timeStep : α)
    (labels : OrderedMap (List String)) (track : Track α) : Outcome α where
  recording :=
    { timeStep := timeStep
      axes := axes
      sectorLabels := labels
      method := method.name
      lastValid := track.rows.size - 1
      fields := historiesOf sys axes.steps track.rows }
  divergence := track.divergence

/-- The parts of a run, with its time loop as a whole. -/
theorem integrate_eq_ok_iff_drive {outcome : Outcome α} :
    integrate m axes method timeStep control = .ok outcome ↔ ∃ sys initial labels first track,
      RunSetup m axes method control sys initial labels ∧ sys.snapshot initial = .ok first ∧
        drive sys method control timeStep (axes.steps - 1) (startOf m initial) #[first] =
          .ok track ∧ outcome = outcomeOf sys axes method timeStep labels track := by
  have hsteps : (axes.steps = 0 → (throw (Failure.error (.invalidSettings .noTimePoint)) :
      Except (Failure α) PUnit) = .ok ⟨⟩) ↔ 0 < axes.steps := by
    simp [Nat.pos_iff_ne_zero]
  unfold integrate
  dsimp only
  rw [ite_bind_eq_ok_iff, ite_bind_eq_ok_iff, hsteps, mapError_eq_ok_iff]
  constructor
  · rintro ⟨hsettings, hpos, h⟩
    obtain ⟨sys, hsys, h⟩ := bind_eq_ok_iff.1 h
    obtain ⟨initial, hinitial, h⟩ := bind_eq_ok_iff.1 h
    obtain ⟨_, hcheck, h⟩ := bind_eq_ok_iff.1 h
    obtain ⟨labels, hlabels, h⟩ := bind_eq_ok_iff.1 h
    obtain ⟨first, hfirst, h⟩ := bind_eq_ok_iff.1 h
    obtain ⟨track, htrack, h⟩ := bind_eq_ok_iff.1 h
    have hsetup : RunSetup m axes method control sys initial labels := {
      settings := hsettings
      steps := hpos
      bound := hsys
      initial := mapError_eq_ok_iff.1 hinitial
      room := array_forM_eq_ok_iff.1 (mapError_eq_ok_iff.1 hcheck)
      labels := mapError_eq_ok_iff.1 hlabels }
    exact ⟨sys, initial, labels, first, track, hsetup, hfirst, htrack, (pure_eq_ok_iff.1 h).symm⟩
  · rintro ⟨sys, initial, labels, first, track, hsetup, hfirst, htrack, rfl⟩
    exact ⟨hsetup.settings, hsetup.steps, bind_eq_ok_iff.2 ⟨sys, hsetup.bound,
      bind_eq_ok_iff.2 ⟨_, mapError_eq_ok_iff.2 hsetup.initial, bind_eq_ok_iff.2 ⟨⟨⟩,
        mapError_eq_ok_iff.2 (array_forM_eq_ok_iff.2 hsetup.room), bind_eq_ok_iff.2
          ⟨_, mapError_eq_ok_iff.2 hsetup.labels, bind_eq_ok_iff.2 ⟨_, hfirst,
            bind_eq_ok_iff.2 ⟨_, htrack, rfl⟩⟩⟩⟩⟩⟩⟩

/-- **A run** succeeds with the histories of every state that its method reaches in the grid. -/
theorem integrate_eq_ok_iff {outcome : Outcome α} :
    integrate m axes method timeStep control = .ok outcome ↔ ∃ sys initial labels track,
      RunSetup m axes method control sys initial labels ∧
        Tracks sys (sys.step method control timeStep) (startOf m initial) track.rows ∧
          Ends (sys.step method control timeStep) (startOf m initial) axes.steps track.rows.size
            track.divergence ∧
            outcome = outcomeOf sys axes method timeStep labels track := by
  rw [integrate_eq_ok_iff_drive]
  constructor
  · rintro ⟨sys, initial, labels, first, track, hsetup, hfirst, htrack, houtcome⟩
    obtain ⟨-, hrows, hends⟩ := (drive_eq_ok_iff (Tracks.single hfirst) rfl).1 htrack
    have hsteps : #[first].size + (axes.steps - 1) = axes.steps := Nat.add_sub_cancel' hsetup.steps
    exact ⟨sys, initial, labels, track, hsetup, hrows, hsteps ▸ hends, houtcome⟩
  · rintro ⟨sys, initial, labels, track, hsetup, hrows, hends, houtcome⟩
    obtain ⟨c, first, -, hc, hfirst⟩ := hrows.exists_row hrows.pos
    obtain rfl := Option.some.inj hc
    have hsteps : axes.steps = #[first].size + (axes.steps - 1) :=
      (Nat.add_sub_cancel' hsetup.steps).symm
    have htrack := (drive_eq_ok_iff (Tracks.single hfirst) rfl).2
      ⟨hrows.pos, hrows, hsteps ▸ hends⟩
    exact ⟨sys, initial, labels, first, track, hsetup, hfirst, htrack, houtcome⟩

/-- **A run of fixed steps** succeeds with the histories of as many states as its grid has
points. -/
theorem integrate_rk4_eq_ok_iff {outcome : Outcome α} :
    integrate m axes .rk4 timeStep control = .ok outcome ↔ ∃ sys initial labels rows,
      RunSetup m axes .rk4 control sys initial labels ∧
        Tracks sys (sys.step .rk4 control timeStep) (startOf m initial) rows ∧
          rows.size = axes.steps ∧
            outcome = outcomeOf sys axes .rk4 timeStep labels ⟨rows, none⟩ := by
  rw [integrate_eq_ok_iff]
  constructor
  · rintro ⟨sys, initial, labels, ⟨rows, divergence⟩, hsetup, hrows, hends, rfl⟩
    obtain ⟨hreached, rfl⟩ := hends.of_rk4
    exact ⟨sys, initial, labels, rows, hsetup, hrows, hreached, rfl⟩
  · rintro ⟨sys, initial, labels, rows, hsetup, hrows, hreached, rfl⟩
    exact ⟨sys, initial, labels, ⟨rows, none⟩, hsetup, hrows, .complete hreached, rfl⟩

theorem axes_of_integrate {outcome : Outcome α}
    (h : integrate m axes method timeStep control = .ok outcome) :
    outcome.recording.axes = axes := by
  obtain ⟨_, _, _, _, -, -, -, rfl⟩ := integrate_eq_ok_iff.1 h
  rfl

/-- Every history of a run has its number of runs. -/
theorem runs_of_integrate {outcome : Outcome α}
    (h : integrate m axes method timeStep control = .ok outcome) {name : String}
    {history : History α} (hhistory : outcome.recording.field? name = some history) :
    history.shape.runs = axes.runs := by
  obtain ⟨sys, _, _, track, hsetup, -, -, rfl⟩ := integrate_eq_ok_iff.1 h
  obtain ⟨i, slot, hslot, -, rfl⟩ := of_get?_historiesOf hhistory
  obtain ⟨f, -, hof⟩ := (boundFrom_of_bind hsetup.bound).field hslot
  exact Model.runs_of_shapeOf hof.shape

/-- The fields of a model are recorded, and nothing else is. -/
theorem isSome_recorded_iff (hm : m.Evaluable) {outcome : Outcome α}
    (h : integrate m axes method timeStep control = .ok outcome) {name : String} :
    (outcome.recording.field? name).isSome ↔ (m.field? name).isSome := by
  obtain ⟨sys, _, _, track, hsetup, -, -, rfl⟩ := integrate_eq_ok_iff.1 h
  have hbound := boundFrom_of_bind hsetup.bound
  constructor
  · intro hrecorded
    obtain ⟨history, hhistory⟩ := Option.isSome_iff_exists.1 hrecorded
    obtain ⟨i, slot, hslot, rfl, -⟩ := of_get?_historiesOf hhistory
    obtain ⟨f, hf, -⟩ := hbound.field?_of_slot hm hslot
    exact Option.isSome_of_mem hf
  · intro hfield
    obtain ⟨f, hf⟩ := Option.isSome_iff_exists.1 hfield
    obtain ⟨i, slot, hslot, rfl, -⟩ := hbound.slot_of_field? hm hf
    exact Option.isSome_of_mem (get?_historiesOf (hbound.wired hm).names hslot)

end Run

end FieldFlow
