import FieldFlow.Proofs.Run.Recorded
import FieldFlow.Proofs.Tensor.Extent

/-!
# Proofs/Run/Shortened — a longer run never changes what a shorter one has recorded

The grid's length is no part of a step: it only says when to stop. So the track of a run over fewer
points is the beginning of the track of a longer one, its divergence included where that comes early
enough (`integrate_shortened`). In terms of outcomes: a run that is made longer keeps everything
that it had on record (`integrate_begins`), by whatever method and wherever error control gives up.
-/

namespace FieldFlow

variable {α : Type} [Scalar α]

/-! ## Fewer points -/

omit [Scalar α] in
/-- **The end of a run over fewer points** — a divergence is met if it comes in front of the new
end, and else the new end is reached. -/
theorem Ends.shorten {ε : Type} {k n steps reached : Nat} {divergence : Option (Error α)}
    {step : Cursor α k → StepResult ε α k} {start : Cursor α k}
    (h : Ends step start steps reached divergence) (hle : n ≤ steps) :
    Ends step start n (min n reached) (if reached < n then divergence else none) := by
  rcases Nat.lt_or_ge reached n with hlt | hge
  · rw [Nat.min_eq_right (Nat.le_of_lt hlt), if_pos hlt]
    cases h with
    | complete hreached => exact absurd hle (by omega)
    | diverged _ hc hstep => exact .diverged hlt hc hstep
  · rw [Nat.min_eq_left hge, if_neg (Nat.not_lt.2 hge)]
    exact .complete rfl

/-- The first rows of a track. -/
theorem Tracks.take {sys : System α} {start : Cursor α sys.dimension} {rows : Array (Buffers α)}
    {k : Nat} {step : Cursor α sys.dimension → StepResult (Failure α) α sys.dimension}
    (h : Tracks sys step start rows) (hk : 0 < k) : Tracks sys step start (rows.extract 0 k) := by
  have hpos := h.pos
  refine ⟨by rw [Array.size_extract]; omega, fun {t row} hrow => h.row ?_⟩
  rw [Array.getElem?_extract] at hrow
  split at hrow
  · rwa [Nat.zero_add] at hrow
  · exact nomatch hrow

/-- Fewer time points need no more room. -/
theorem RunSetup.of_le {m : Model α} {axes : RunAxes} {method : Method} {control : StepControl α}
    {sys : System α} {initial : Vector α sys.dimension} {labels : OrderedMap (List String)}
    (h : RunSetup m axes method control sys initial labels) {steps : Nat} (hpos : 0 < steps)
    (hle : steps ≤ axes.steps) :
    RunSetup m { axes with steps := steps } method control sys initial labels :=
  { h with
    steps := hpos
    room := fun slot hslot => by
      have hshrinks : Shrinks (slot.recordedSteps steps) (slot.recordedSteps axes.steps) := by
        unfold Slot.recordedSteps
        split
        · exact ⟨hle, fun hzero => absurd hzero (Nat.ne_of_gt hpos)⟩
        · exact .refl 1
      have hshape : List.Forall₂ Shrinks slot.shape.toList slot.shape.toList :=
        List.forall₂_same.2 fun _ _ => .refl _
      exact checkExtent_of_shrinks (.cons hshrinks hshape) (h.room slot hslot) }

/-- The first rows of a track, and its divergence if that came before there were as many. -/
def Track.take (track : Track α) (n : Nat) : Track α :=
  ⟨track.rows.extract 0 n, if track.rows.size < n then track.divergence else none⟩

omit [Scalar α] in
theorem Track.size_take (track : Track α) (n : Nat) :
    (track.take n).rows.size = min n track.rows.size := by
  rw [Track.take, Array.size_extract, Nat.sub_zero]

omit [Scalar α] in
theorem Track.getElem?_take (track : Track α) {n t : Nat} (ht : t < n) :
    (track.take n).rows[t]? = track.rows[t]? := by
  rw [Track.take, Array.getElem?_extract, Nat.zero_add]
  split
  · rfl
  · rw [Array.getElem?_eq_none (by omega)]

omit [Scalar α] in
theorem Track.divergence_of_take {track : Track α} {n : Nat} {e : Error α}
    (h : (track.take n).divergence = some e) : track.divergence = some e := by
  unfold Track.take at h
  dsimp only at h
  split at h
  · exact h
  · cases h

omit [Scalar α] in
/-- The divergence of a track is among its first rows if it comes between them. -/
theorem Track.isSome_take_iff {ε : Type} {track : Track α} {k steps n : Nat}
    {step : Cursor α k → StepResult ε α k} {start : Cursor α k}
    (h : Ends step start steps track.rows.size track.divergence) (hle : n ≤ steps)
    (hpos : 0 < track.rows.size) :
    (track.take n).divergence.isSome ↔ track.rows.size - 1 < n - 1 := by
  have hnone : (track.take n).divergence = none ↔ min n track.rows.size = n :=
    (h.shorten hle).eq_none_iff
  rw [← Option.ne_none_iff_isSome, ne_eq, hnone]
  omega

section Run

variable {m : Model α} {axes : RunAxes} {method : Method} {timeStep : α} {control : StepControl α}
  {sys : System α} {initial : Vector α sys.dimension} {labels : OrderedMap (List String)}
  {track : Track α} {n : Nat}

/-- **A shorter run** leaves the beginning of the track. -/
theorem integrate_shortened (hsetup : RunSetup m axes method control sys initial labels)
    (hrows : Tracks sys (sys.step method control timeStep) (startOf m initial) track.rows)
    (hends : Ends (sys.step method control timeStep) (startOf m initial) axes.steps
      track.rows.size track.divergence) (hpos : 0 < n) (hle : n ≤ axes.steps) :
    integrate m { axes with steps := n } method timeStep control =
      .ok (outcomeOf sys { axes with steps := n } method timeStep labels (track.take n)) := by
  have hends' := hends.shorten hle
  rw [← track.size_take n] at hends'
  exact integrate_eq_ok_iff.2
    ⟨sys, initial, labels, track.take n, hsetup.of_le hpos hle, hrows.take hpos, hends', rfl⟩

end Run

/-! ## Histories of different length -/

section Histories

variable {sys : System α} {row : Buffers α} {i : Nat} {slot : Slot α}

/-- A row has the same frame in every history that it is in. -/
theorem frame_historyOf_congr (hrow : sys.Scratch row) (hslot : sys.slots[i]? = some slot)
    (hkind : slot.kind.isTimeVarying) {rows rows' : Array (Buffers α)} {steps steps' t t' : Nat}
    (ht : t < steps) (ht' : t' < steps') (hat : rows[t]? = some row) (hat' : rows'[t']? = some row) :
    (historyOf steps rows slot i).frame t = (historyOf steps' rows' slot i).frame t' := by
  have hrecorded : ∀ n, slot.recordedSteps n = n := fun n => if_pos hkind
  obtain ⟨b, hb⟩ := hrow.exists_buffer hslot
  have hshape := hrow.shape hslot hb
  rw [frame_historyOf ((hrecorded steps).symm ▸ ht) hat hb hshape,
    frame_historyOf ((hrecorded steps').symm ▸ ht') hat' hb hshape]

/-- What does not change is recorded from the first row. -/
theorem historyOf_settled (hkind : slot.kind.isTimeVarying = false) {rows rows' : Array (Buffers α)}
    (hfirst : rows[0]? = rows'[0]?) (steps steps' : Nat) :
    historyOf steps rows slot i = historyOf steps' rows' slot i := by
  have hrecorded : ∀ n, slot.recordedSteps n = 1 := fun n => by rw [Slot.recordedSteps, hkind]; rfl
  unfold historyOf
  dsimp only
  rw [hrecorded, hrecorded]
  refine History.ofFrames_congr fun t ht => ?_
  obtain rfl := Nat.lt_one_iff.1 ht
  rw [Array.getElem?_map, Array.getElem?_map, hfirst]

end Histories

/-! ## Longer runs -/

/-- **A run begins with another one** of `n` points: that one is on record as far as both go, and
has met the divergence exactly if it had not come to its end before. -/
structure Outcome.BeginsWith (m : Model α) (n : Nat) (whole first : Outcome α) : Prop where
  axes : first.recording.axes = { whole.recording.axes with steps := n }
  sectorLabels : first.recording.sectorLabels = whole.recording.sectorLabels
  keys : first.recording.fields.keys = whole.recording.fields.keys
  lastValid : first.recording.lastValid = min whole.recording.lastValid (n - 1)
  diverged_iff : first.divergence.isSome ↔ whole.recording.lastValid < n - 1
  divergence : ∀ {e}, first.divergence = some e → whole.divergence = some e
  rows : ∀ {name f}, m.field? name = some f → f.kind.isTimeVarying → ∃ h h',
    whole.recording.field? name = some h ∧ first.recording.field? name = some h' ∧
      h'.axes = n :: h.shape.toList ∧
        ∀ t ≤ min whole.recording.lastValid (n - 1), h'.frame t = h.frame t
  settled : ∀ {name f}, m.field? name = some f → f.kind.isTimeVarying = false → ∃ h,
    whole.recording.field? name = some h ∧ first.recording.field? name = some h

section Begins

variable {m : Model α} {axes : RunAxes} {method : Method} {timeStep : α} {control : StepControl α}
  {sys : System α} {initial : Vector α sys.dimension} {labels : OrderedMap (List String)}
  {track : Track α} {n : Nat}

/-- The frames of a track are those of its beginning, as far as that goes. -/
theorem Tracks.frame_take {start : Cursor α sys.dimension}
    {step : Cursor α sys.dimension → StepResult (Failure α) α sys.dimension}
    (hrows : Tracks sys step start track.rows) (hw : sys.Wired)
    (hbound : System.Shaped sys.slots sys.bound) {i : Nat} {slot : Slot α}
    (hslot : sys.slots[i]? = some slot) (hkind : slot.kind.isTimeVarying) {steps t : Nat}
    (hsteps : t < steps) (hn : t < n) (ht : t < track.rows.size) :
    (historyOf n (track.take n).rows slot i).frame t = (historyOf steps track.rows slot i).frame t := by
  have hrow := Array.getElem?_eq_getElem ht
  exact frame_historyOf_congr (hrows.scratch hw hbound hrow) hslot hkind hn hsteps
    ((track.getElem?_take hn).trans hrow) hrow

/-- The outcome of a track begins with the outcome of its first rows. -/
theorem outcomeOf_take (hm : m.Evaluable)
    (hsetup : RunSetup m axes method control sys initial labels)
    (hrows : Tracks sys (sys.step method control timeStep) (startOf m initial) track.rows)
    (hends : Ends (sys.step method control timeStep) (startOf m initial) axes.steps
      track.rows.size track.divergence) (hpos : 0 < n) (hle : n ≤ axes.steps) :
    (outcomeOf sys axes method timeStep labels track).BeginsWith m n
      (outcomeOf sys { axes with steps := n } method timeStep labels (track.take n)) := by
  have hbound := boundFrom_of_bind hsetup.bound
  have hw := hbound.wired hm
  have hreached := hrows.pos
  exact {
    axes := rfl
    sectorLabels := rfl
    keys := (keys_historiesOf hw.names).trans (keys_historiesOf hw.names).symm
    lastValid := by
      change (track.take n).rows.size - 1 = min (track.rows.size - 1) (n - 1)
      rw [track.size_take]
      omega
    diverged_iff := Track.isSome_take_iff hends hle hreached
    divergence := Track.divergence_of_take
    rows := fun {name f} hf hkind => by
      obtain ⟨i, slot, hslot, rfl, hof⟩ := hbound.slot_of_field? hm hf
      have hkind : slot.kind.isTimeVarying := hof.kind ▸ hkind
      have hrecorded : slot.recordedSteps n = n := if_pos hkind
      refine ⟨_, _, get?_historiesOf hw.names hslot, get?_historiesOf hw.names hslot,
        congrArg (· :: slot.shape.toList) hrecorded, fun t ht => ?_⟩
      have ht : t ≤ min (track.rows.size - 1) (n - 1) := ht
      have hn : t < n := by omega
      exact hrows.frame_take hw hbound.shaped hslot hkind (hn.trans_le hle) hn (by omega)
    settled := fun {name f} hf hkind => by
      obtain ⟨i, slot, hslot, rfl, hof⟩ := hbound.slot_of_field? hm hf
      have hsame := historyOf_settled (i := i) (hof.kind.symm ▸ hkind) (track.getElem?_take hpos) n
        axes.steps
      exact ⟨_, get?_historiesOf hw.names hslot, hsame ▸ get?_historiesOf hw.names hslot⟩ }

end Begins

/-- **Extending a run never changes its past** — where a run succeeds, so does every shorter one,
and the longer one begins with it. -/
theorem integrate_begins {registry : Registry α} {d : Description α} {m : Model α} {axes : RunAxes}
    {method : Method} {timeStep : α} {control : StepControl α} {n : Nat} {whole : Outcome α}
    (hm : m.InUse registry d) (hpos : 0 < n) (hle : n ≤ axes.steps)
    (h : integrate m axes method timeStep control = .ok whole) :
    ∃ first, integrate m { axes with steps := n } method timeStep control = .ok first ∧
      whole.BeginsWith m n first := by
  obtain ⟨sys, initial, labels, track, hsetup, hrows, hends, rfl⟩ := integrate_eq_ok_iff.1 h
  exact ⟨_, integrate_shortened hsetup hrows hends hpos hle,
    outcomeOf_take hm.evaluable hsetup hrows hends hpos hle⟩

/-- A tank that is filled at a given rate, and how full it is. -/
def filling : Description Float where
  name := "filling"
  differential := .ofList
    [("tank", ⟨[("func", .function ((Expression.input "flow").toFunction ["flow"])),
      ("initial", .value (.scalar 1.0))]⟩)]
  statevar := .ofList
    [("level", ⟨[("func", .function
      ((Expression.binary .mul (.input "tank") (.number 0.5)).toFunction ["tank"]))]⟩)]
  parameter := .ofList [("flow", ⟨[("value", .value (.scalar 2.0))]⟩)]

/-- A run under a control that allows no internal step shorter than those of the grid, so that the
fourth, which rounding makes shorter, is not made. -/
def filling.runOver (steps : Nat) (m : Model Float) : Except (Failure Float) (Outcome Float) :=
  integrate m ⟨steps, 1, 1⟩ .rk78 0.1 ⟨0.001, 0.001, 0.1, 4⟩

/-- The run is cut short between its points, or behind them. -/
theorem filling_begins : ∃ m whole, load .empty filling = .ok m ∧
    filling.runOver 6 m = .ok whole ∧ whole.recording.lastValid = 3 ∧ whole.divergence.isSome ∧
    (∃ first, filling.runOver 5 m = .ok first ∧ first.divergence.isSome ∧
      whole.BeginsWith m 5 first) ∧
    ∃ first, filling.runOver 3 m = .ok first ∧ first.divergence = none ∧
      whole.BeginsWith m 3 first := by
  have hruns : ((load .empty filling).toOption.bind fun m =>
      (filling.runOver 6 m).toOption.map fun whole =>
        (whole.recording.lastValid, whole.divergence.isSome)) = some (3, true) := by
    decide +kernel
  obtain ⟨m, hm, h⟩ := Option.bind_eq_some_iff.1 hruns
  obtain ⟨whole, hwhole, h⟩ := Option.map_eq_some_iff.1 h
  obtain ⟨hlast, hdivergence⟩ := Prod.mk.inj h
  have hm := toOption_eq_some_iff.1 hm
  have hwhole := toOption_eq_some_iff.1 hwhole
  have hin : m.InUse .empty filling := .loaded hm
  obtain ⟨long, hlong, hbegins⟩ := integrate_begins (n := 5) hin (by decide) (by decide) hwhole
  obtain ⟨short, hshort, hbegins'⟩ := integrate_begins (n := 3) hin (by decide) (by decide) hwhole
  refine ⟨m, whole, hm, hwhole, hlast, hdivergence, ⟨long, hlong, ?_, hbegins⟩,
    short, hshort, ?_, hbegins'⟩
  · rw [hbegins.diverged_iff, hlast]
    decide
  · rw [← Option.not_isSome_iff_eq_none, hbegins'.diverged_iff, hlast]
    decide

end FieldFlow
