import FieldFlow.Proofs.Run.Steps
import FieldFlow.Proofs.System.BindPart

/-!
# Proofs/Run/Part — a run of a part of a model

A part of a model moves along with the whole, at the seats of its state. Where a run of fixed steps
succeeds for the whole it succeeds for the part, and records the same histories for the fields of
the part (`integrate_partOf`).
-/

namespace FieldFlow

variable {α : Type} [Scalar α] {part whole : Model α}

theorem historyOf_congr {steps i k : Nat} {slot slot' : Slot α} {rows rows' : Array (Buffers α)}
    (hsame : slot.Same slot') (hsize : rows.size = rows'.size)
    (hrow : ∀ (t : Nat) row row', rows[t]? = some row → rows'[t]? = some row' →
      row[i]? = row'[k]?) : historyOf steps rows slot i = historyOf steps rows' slot' k := by
  have hframes : (rows.map fun row => (row[i]?.map Buffer.value).getD (.fill slot.shape Scalar.nan)) =
      rows'.map fun row => (row[k]?.map Buffer.value).getD (.fill slot'.shape Scalar.nan) := by
    refine Array.ext (by simp [hsize]) fun t ht ht' => ?_
    rw [Array.getElem_map, Array.getElem_map]
    rw [Array.size_map] at ht ht'
    rw [hrow t _ _ (Array.getElem?_eq_getElem ht) (Array.getElem?_eq_getElem ht'), hsame.shape]
  unfold historyOf Slot.recordedSteps
  rw [hframes, hsame.kind, hsame.shape]

/-- **Rows that agree** leave the same histories of what the part has. -/
theorem get?_historiesOf_partOf {sys sys' : System α} (h : sys.PartOf sys') {steps i : Nat}
    {slot : Slot α} {rows rows' : Array (Buffers α)} (hsize : rows.size = rows'.size)
    (hagree : ∀ (t : Nat) row' row, rows'[t]? = some row' → rows[t]? = some row →
      System.Agree sys sys' row row') (hslot : sys.slots[i]? = some slot) :
    (historiesOf sys steps rows).get? slot.name = (historiesOf sys' steps rows').get? slot.name := by
  obtain ⟨k, slot', hslot', hsame⟩ := h.twin hslot
  rw [get?_historiesOf h.wired.names hslot, hsame.name, get?_historiesOf h.wired_whole.names hslot']
  exact congrArg some (historyOf_congr hsame hsize fun t row row' hrow hrow' =>
    hagree t row' row hrow' hrow ⟨slot, slot', hslot, hslot', hsame⟩)

omit [Scalar α] in
/-- The labels of the sizes of a part can be listed where those of the whole can. -/
theorem exists_sectorLabels (h : part.PartOf whole) {labels' : OrderedMap (List String)}
    (hlabels' : sectorLabels whole = .ok labels') : ∃ labels, sectorLabels part = .ok labels := by
  obtain ⟨listed', hlisted', -⟩ := bind_eq_ok_iff.1 hlabels'
  have hsizes : ∀ size ∈ part.fields.values.filterMap (fun field =>
      field.sectors.map fun sectors => (field.name, sectors)),
        size ∈ whole.fields.values.filterMap fun field =>
          field.sectors.map fun sectors => (field.name, sectors) := by
    intro size hsize
    obtain ⟨f, hf, hsectors⟩ := List.mem_filterMap.1 hsize
    obtain ⟨name, hname⟩ := OrderedMap.mem_values_iff.1 hf
    exact List.mem_filterMap.2 ⟨f, OrderedMap.mem_values_iff.2 ⟨name, h.field hname⟩, hsectors⟩
  obtain ⟨listed, hlisted⟩ := exists_mapM_eq_ok fun size hsize => by
    obtain ⟨listed, -, hnames⟩ := exists_ok_of_mapM_eq_ok hlisted' size (hsizes size hsize)
    exact ⟨listed, hnames⟩
  exact ⟨_, bind_eq_ok_iff.2 ⟨listed, hlisted, rfl⟩⟩

/-- What a run of the whole begins with, a run of the part begins with at its seats. -/
theorem RunSetup.of_partOf (h : part.PartOf whole) {axes : RunAxes} {method : Method}
    {control : StepControl α} {sys sys' : System α} {initial' : Vector α sys'.dimension}
    {labels labels' : OrderedMap (List String)}
    (hsetup : RunSetup whole axes method control sys' initial' labels')
    (hbind : part.bind axes.runs axes.regions = .ok sys) (hpart : sys.PartOf sys')
    (hlabels : sectorLabels part = .ok labels) :
    RunSetup part axes method control sys (pick hpart.seats initial') labels where
  settings := hsetup.settings
  steps := hsetup.steps
  bound := hbind
  initial := initialState_partOf h (boundFrom_of_bind hbind) hpart hsetup.initial
  room := fun slot hslot => by
    obtain ⟨i, hi⟩ := Array.mem_iff_getElem?.1 hslot
    obtain ⟨k, slot', hslot', hsame⟩ := hpart.twin hi
    have hroom := hsetup.room slot' (Array.mem_of_getElem? hslot')
    rwa [Slot.recordedSteps, ← hsame.kind, ← hsame.shape] at hroom
  labels := hlabels

/-- **A part runs as it does in the whole**: what the whole records of its fields, it records
alone. -/
theorem integrate_partOf (h : part.PartOf whole) {axes : RunAxes} {timeStep : α}
    {control : StepControl α} {outcome' : Outcome α}
    (hrun : integrate whole axes .rk4 timeStep control = .ok outcome') :
    ∃ outcome, integrate part axes .rk4 timeStep control = .ok outcome ∧
      outcome.recording.lastValid = outcome'.recording.lastValid ∧
        outcome.divergence = outcome'.divergence ∧
          ∀ name, (part.field? name).isSome →
            outcome.recording.field? name = outcome'.recording.field? name := by
  obtain ⟨sys', initial', labels', rows', hsetup', hrows', hreached, rfl⟩ :=
    integrate_rk4_eq_ok_iff.1 hrun
  obtain ⟨sys, hbind, hpart, hagree⟩ := bind_partOf h hsetup'.bound
  obtain ⟨labels, hlabels⟩ := exists_sectorLabels h hsetup'.labels
  have hbound := boundFrom_of_bind hbind
  have hbound' := boundFrom_of_bind hsetup'.bound
  have hstart : (startOf part (pick hpart.seats initial')).state =
      pick hpart.seats (startOf whole initial').state := rfl
  obtain ⟨rows, hrows, hsize, hrelated⟩ := hrows'.exists_pick
    (R := fun row' row => System.Agree sys sys' row row')
    (hpart.rate hbound.shaped hbound'.shaped hagree)
    (fun _ _ hrow => hpart.snapshot hbound.shaped hbound'.shaped hagree hrow) hstart
  refine ⟨outcomeOf sys axes .rk4 timeStep labels ⟨rows, none⟩,
    integrate_rk4_eq_ok_iff.2 ⟨sys, _, labels, rows, hsetup'.of_partOf h hbind hpart hlabels, hrows,
      hsize.trans hreached, rfl⟩, congrArg (· - 1) hsize, rfl, ?_⟩
  intro name hname
  obtain ⟨f, hf⟩ := Option.isSome_iff_exists.1 hname
  obtain ⟨i, slot, hslot, rfl, -⟩ := hbound.slot_of_field? h.evaluable hf
  exact get?_historiesOf_partOf hpart hsize hrelated hslot

end FieldFlow
