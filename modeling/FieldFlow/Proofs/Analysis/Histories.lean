import FieldFlow.Analysis.Cycle
import FieldFlow.Proofs.Model.Assignment
import FieldFlow.Proofs.Run.Steps
import FieldFlow.Proofs.Tensor.Extent
import Mathlib.Algebra.BigOperators.Group.List.Lemmas
import Mathlib.Algebra.Order.BigOperators.GroupWithZero.List
import Mathlib.Algebra.Order.Ring.Nat

/-!
# Proofs/Analysis/Histories — what the histories of a run offer to a reader

Every field of a run has a history with the runs and regions of the run, at least one sector either
way, and either all time points or one (`History.OfRun`). It could be laid out, so its axes can be
counted, and a reader that stays inside finds what is recorded there (`History.OfRun.seriesOf_eq`).
-/

namespace FieldFlow

/-! ## Axes that can be counted -/

theorem wordEnd_eq : wordEnd = 2 * memoryEnd := rfl

/-- An axis along which something is laid out is not too long. -/
theorem lt_memoryEnd_of_mem {axes : List Nat} (h : isAddressable axes = true) {a : Nat}
    (ha : a ∈ axes) : a < memoryEnd := by
  by_cases hzero : a = 0
  · rw [hzero]
    decide
  · rw [isAddressable, decide_eq_true_eq, ← List.prod_eq_foldl_nat] at h
    have hmem : a ∈ axes.filter (· ≠ 0) := List.mem_filter.2 ⟨ha, by simpa using hzero⟩
    have hpos : ∀ b ∈ axes.filter (· ≠ 0), 0 < b := fun b hb =>
      Nat.pos_of_ne_zero (by simpa using (List.mem_filter.1 hb).2)
    exact Nat.lt_of_le_of_lt (Nat.le_of_dvd (List.prod_pos hpos) (List.dvd_prod hmem)) h

/-- Axes of length one take no room. -/
theorem checkExtent_append_ones (axes : List Nat) :
    checkExtent (axes ++ [1, 1, 1]) = checkExtent axes := by
  simp [checkExtent, isAddressable]

/-- A cut at a number that counts from the start. -/
theorem cut?_eq_some_iff {length word k : Nat} (h : word < memoryEnd) :
    cut? length word = some k ↔ word ≤ length ∧ word = k := by
  have hword : 2 * word < wordEnd := by
    rw [wordEnd_eq]
    omega
  rw [cut?, if_pos hword, Option.ite_none_right_eq_some, Option.some.injEq]

theorem place?_of_lt {length k : Nat} (h : k < length) (hlength : length < memoryEnd) :
    place? length k = some k := by
  have hcut : cut? length k = some k :=
    (cut?_eq_some_iff (h.trans hlength)).2 ⟨Nat.le_of_lt h, rfl⟩
  rw [place?, hcut, Option.filter_some, if_pos (decide_eq_true h)]

/-! ## Histories -/

section Histories

variable {α : Type} {axes : RunAxes} {kind : FieldKind} {h : History α} {points run region : Nat}

/-- **The history of a field of some kind in a run.** -/
structure History.OfRun (h : History α) (axes : RunAxes) (kind : FieldKind) : Prop where
  steps : h.steps = if kind.isTimeVarying then axes.steps else 1
  runs : h.shape.runs = axes.runs
  regions : h.shape.regions = axes.regions
  rows : 0 < h.shape.sectorA
  columns : 0 < h.shape.sectorB
  room : History.check h.steps h.shape = .ok ()

namespace History.OfRun

theorem addressable (hh : h.OfRun axes kind) :
    isAddressable (h.steps :: h.shape.toList) = true :=
  (checkExtent_eq_ok_iff.1 hh.room).1

theorem steps_lt (hh : h.OfRun axes kind) : h.steps < memoryEnd :=
  lt_memoryEnd_of_mem hh.addressable List.mem_cons_self

/-- A region of the run is found. -/
theorem place?_region (hh : h.OfRun axes kind) (hregion : region < axes.regions) :
    place? h.shape.regions region = some region := by
  have hregions : h.shape.regions < memoryEnd :=
    lt_memoryEnd_of_mem hh.addressable (by simp [Shape.toList])
  exact place?_of_lt (hh.regions ▸ hregion) hregions

theorem contains (hh : h.OfRun axes kind) (hrun : run < axes.runs)
    (hregion : region < axes.regions) : h.shape.Contains run region 0 0 :=
  ⟨hh.runs ▸ hrun, hh.regions ▸ hregion, hh.rows, hh.columns⟩

/-- Room for a number at every time point and run that are read. -/
theorem checkExtent_eq (hh : h.OfRun axes kind) (hpos : 0 < points) (hpoints : points ≤ h.steps)
    (hregion : region < axes.regions) : checkExtent [points, axes.runs] = .ok () := by
  have hregions : 0 < h.shape.regions := hh.regions ▸ Nat.zero_lt_of_lt hregion
  have hshrinks : List.Forall₂ Shrinks ([points, axes.runs] ++ [1, 1, 1])
      (h.steps :: h.shape.toList) := by
    refine .cons ⟨hpoints, by omega⟩ (.cons (hh.runs ▸ Shrinks.refl _) ?_)
    exact .cons ⟨hregions, by omega⟩
      (.cons ⟨hh.rows, by omega⟩ (.cons ⟨hh.columns, by omega⟩ .nil))
  exact (checkExtent_append_ones _).symm.trans (checkExtent_of_shrinks hshrinks hh.room)

end History.OfRun

variable [Inhabited α]

/-- The first values of a field in one run, at a region and the first sector. -/
def History.series (h : History α) (points run region : Nat) : Array α :=
  ((List.range points).map fun t => h.get t run region 0 0).toArray

namespace History.OfRun

/-- **What is read within a history** is what is recorded there. -/
theorem seriesOf_eq (hh : h.OfRun axes kind) (hpoints : points ≤ h.steps) (hrun : run < axes.runs)
    (hregion : region < axes.regions) : Recording.seriesOf h points run region =
      .ok (h.series points run region).toList := by
  have hcut : cut? h.steps points = some points :=
    (cut?_eq_some_iff (Nat.lt_of_le_of_lt hpoints hh.steps_lt)).2 ⟨hpoints, rfl⟩
  have hin : (run < h.shape.runs && 0 < h.shape.sectorA && 0 < h.shape.sectorB) = true := by
    simp [hh.runs, hrun, hh.rows, hh.columns]
  rw [Recording.seriesOf, hcut, hh.place?_region hregion]
  exact if_pos hin

/-- Nothing is read behind the last time point, or where there is no run. -/
theorem seriesOf_eq_outOfRange (hh : h.OfRun axes kind)
    (hout : h.steps < points ∧ points < memoryEnd ∨ axes.runs ≤ run) :
    Recording.seriesOf h points run region = .error .outOfRange := by
  unfold Recording.seriesOf
  split
  · rename_i hcut _
    refine if_neg fun hin => ?_
    rw [Bool.and_eq_true, Bool.and_eq_true, decide_eq_true_eq, hh.runs] at hin
    rcases hout with ⟨hlt, hpoints⟩ | hrun
    · have := ((cut?_eq_some_iff hpoints).1 hcut).1
      omega
    · omega
  · rfl

end History.OfRun

end Histories

/-! ## Fields of a run -/

section Run

variable {α : Type} {m : Model α}

/-- No sector axis is empty. -/
theorem Model.Evaluable.axisLength_pos (hm : m.Evaluable) {name axis : String} {f : Field α}
    (hf : m.field? name = some f) (haxis : axis ∈ [f.axes.1, f.axes.2]) {n : Nat}
    (h : m.axisLength axis = .ok n) : 0 < n := by
  unfold axisLength at h
  split at h
  · obtain rfl := Except.ok.inj h
    exact Nat.one_pos
  · rename_i hunit
    obtain ⟨g, hg, hkind⟩ := (hm.axes hf axis haxis).resolve_left hunit
    obtain ⟨-, sectors, hsectors, hpos⟩ := hm.sized hg hkind
    rw [hg] at h
    dsimp only at h
    rw [hsectors] at h
    obtain rfl := Except.ok.inj h
    exact hpos

/-- The shape of a field in a run. -/
theorem Model.Evaluable.of_shapeOf (hm : m.Evaluable) {name : String} {f : Field α}
    (hf : m.field? name = some f) {runs regions : Nat} {s : Shape}
    (h : m.shapeOf f runs regions = .ok s) :
    s.runs = runs ∧ s.regions = regions ∧ 0 < s.sectorA ∧ 0 < s.sectorB := by
  unfold shapeOf at h
  split at h
  · obtain rfl := Except.ok.inj h
    exact ⟨rfl, rfl, Nat.one_pos, Nat.one_pos⟩
  · obtain ⟨rows, hrows, h⟩ := bind_eq_ok_iff.1 h
    obtain ⟨columns, hcolumns, h⟩ := bind_eq_ok_iff.1 h
    obtain rfl := pure_eq_ok_iff.1 h
    exact ⟨rfl, rfl, hm.axisLength_pos hf (by simp) hrows, hm.axisLength_pos hf (by simp) hcolumns⟩

variable [Scalar α] {axes : RunAxes} {method : Method} {timeStep : α} {control : StepControl α}
  {outcome : Outcome α}

/-- **The histories of a run** are those of the fields of its model. -/
theorem exists_ofRun (hm : m.Evaluable) (h : integrate m axes method timeStep control = .ok outcome)
    {name : String} {history : History α}
    (hhistory : outcome.recording.field? name = some history) :
    ∃ f, m.field? name = some f ∧ history.OfRun axes f.kind := by
  obtain ⟨sys, _, _, track, hsetup, -, -, rfl⟩ := integrate_eq_ok_iff.1 h
  have hbound := boundFrom_of_bind hsetup.bound
  obtain ⟨i, slot, hslot, rfl, rfl⟩ := of_get?_historiesOf hhistory
  obtain ⟨f, hf, -, hof⟩ := hbound.field?_of_slot hm hslot
  obtain ⟨hruns, hregions, hrows, hcolumns⟩ := hm.of_shapeOf hf hof.shape
  refine ⟨f, hf, ?_, hruns, hregions, hrows, hcolumns, ?_⟩
  · rw [← hof.kind]
    rfl
  · exact hsetup.room slot (Array.mem_of_getElem? hslot)

theorem lastValid_lt_of_integrate (h : integrate m axes method timeStep control = .ok outcome) :
    outcome.recording.lastValid < axes.steps := by
  obtain ⟨_, _, _, track, -, htrack, hends, rfl⟩ := integrate_eq_ok_iff.1 h
  have hpos := htrack.pos
  have hreached := hends.reached_le
  change track.rows.size - 1 < axes.steps
  omega

/-- Time is on record in every run. -/
theorem exists_time_ofRun {registry : Registry α} {d : Description α} (hm : m.InUse registry d)
    (h : integrate m axes method timeStep control = .ok outcome) :
    ∃ f history, m.field? "time" = some f ∧ outcome.recording.field? "time" = some history ∧
      history.OfRun axes f.kind := by
  have htimed : (m.field? "time").isSome := by
    clear h
    induction hm with
    | loaded hload => exact (load_sound hload).timed
    | assigned _ hset ih =>
      obtain ⟨f, hf⟩ := Option.isSome_iff_exists.1 ih
      obtain ⟨g, hg, -⟩ := (reassigned_of_setField hset).kept hf
      exact Option.isSome_of_mem hg
  obtain ⟨history, hhistory⟩ :=
    Option.isSome_iff_exists.1 ((isSome_recorded_iff hm.evaluable h).2 htimed)
  obtain ⟨f, hf, hof⟩ := exists_ofRun hm.evaluable h hhistory
  exact ⟨f, history, hf, hhistory, hof⟩

end Run

end FieldFlow
