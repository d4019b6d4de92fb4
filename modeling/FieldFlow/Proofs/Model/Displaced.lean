import FieldFlow.Proofs.Model.Rearranged

/-!
# Proofs/Model/Displaced — a fixed parameter may stand anywhere

What is checked and settled once the fields are there depends on look-ups, and on the order of
the fields that are computed or have sectors. A parameter with a value of its own is neither
(`Field.Plain`), so wherever it stands among the fields a description loads to the same model
(`LoadedFrom.displaced`).
-/

namespace FieldFlow

open OrderedMap (Displaced)

variable {α : Type}

/-- **A field whose place does not matter**: a parameter that is not computed, without sectors. -/
structure Field.Plain (f : Field α) : Prop where
  kind : f.kind = .parameter
  function : f.function = none
  sectors : f.sectors = none

namespace OrderedMap.Displaced

variable {name : String} {fields fields' : FieldMap α} (h : Displaced name fields fields')
  (hplain : ∀ f, fields.get? name = some f → f.Plain)

include h

/-! ## What is looked up -/

theorem partitionInputs_eq : partitionInputs fields = partitionInputs fields' := by
  have hfile : fileInput fields = fileInput fields' := by
    funext field p input
    rw [fileInput, fileInput, h.get?]
  funext field
  rw [partitionInputs, partitionInputs, hfile]

theorem checkListed_eq (order seen : List String) :
    checkListed fields seen order = checkListed fields' seen order := by
  induction order generalizing seen with
  | nil => rfl
  | cons first rest ih =>
    rw [checkListed, checkListed, h.get?]
    simp only [ih]

theorem checkPresets_eq (presets : OrderedMap (Preset α)) :
    checkPresets fields presets = checkPresets fields' presets := by
  unfold checkPresets
  simp only [h.get?]

theorem checkAxes_eq_ok_iff : checkAxes fields = .ok () ↔ checkAxes fields' = .ok () := by
  unfold checkAxes
  rw [forM_eq_ok_iff, forM_eq_ok_iff]
  simp only [h.mem_values_iff, h.get?]

/-! ## What is listed -/

include hplain

theorem computedOf_eq (kind : FieldKind) : computedOf fields kind = computedOf fields' kind :=
  h.filter_values fun f hf => by simp [Field.isComputed, (hplain f hf).function]

theorem readersOf_eq (kind : FieldKind) : readersOf fields kind = readersOf fields' kind := by
  unfold readersOf
  rw [h.computedOf_eq hplain, h.partitionInputs_eq]

theorem resolveOrder_eq (kind : FieldKind) :
    resolveOrder fields kind = resolveOrder fields' kind := by
  unfold resolveOrder
  rw [h.readersOf_eq hplain]

theorem verifyOrder_eq (order : List String) :
    verifyOrder fields order = verifyOrder fields' order := by
  have hmissing : (fields.values.find? fun f => f.kind = .algebraic && !order.contains f.name) =
      fields'.values.find? fun f => f.kind = .algebraic && !order.contains f.name := by
    rw [← List.head?_filter, ← List.head?_filter, h.filter_values]
    intro f hf
    simp [(hplain f hf).kind]
  unfold verifyOrder
  rw [h.checkListed_eq, hmissing, h.readersOf_eq hplain]

theorem auxiliaryFields_eq : auxiliaryFields fields = auxiliaryFields fields' := by
  have hcomputed : fields.values.filter Field.isComputed = fields'.values.filter Field.isComputed :=
    h.filter_values fun f hf => by simp [Field.isComputed, (hplain f hf).function]
  unfold auxiliaryFields
  rw [hcomputed]

theorem sectorPositions_eq : sectorPositions fields = sectorPositions fields' := by
  have hsame : (fields.values.filter fun f => f.sectors.isSome) =
      fields'.values.filter fun f => f.sectors.isSome :=
    h.filter_values fun f hf => by rw [(hplain f hf).sectors, Option.isSome_none]
  unfold sectorPositions
  refine (foldlM_filter (p := fun f => f.sectors.isSome) ?_).trans
    (hsame ▸ (foldlM_filter ?_).symm)
  all_goals
    intro f _ hnone found
    rw [Option.isSome_eq_false_iff, Option.isNone_iff_eq_none] at hnone
    rw [hnone]
    rfl

end OrderedMap.Displaced

/-- The fields that a description comes to: those that are declared, the time, and those that are
pulled in. -/
def Description.ComesTo [Scalar α] (d : Description α) (registry : Registry α)
    (fields : FieldMap α) : Prop :=
  ∃ declared, buildFields registry d.declarations = .ok declared ∧
    pullParameters registry (declared.insertFirst "time" (timeField registry)) = .ok fields

/-- **A model loads alike** wherever a plain field stands among its fields, if these are what a
description comes to that has the same presets and the same order. -/
theorem LoadedFrom.displaced [Scalar α] {registry : Registry α} {d d' : Description α} {m : Model α}
    {name : String} {fields : FieldMap α} (hm : LoadedFrom registry d m)
    (hfields : d'.ComesTo registry fields) (h : Displaced name m.fields fields)
    (hplain : ∀ f, m.field? name = some f → f.Plain)
    (hnamed : d'.name = d.name ∧ d'.summary = d.summary)
    (hgiven : d'.presets = d.presets ∧ d'.order = d.order) :
    LoadedFrom registry d' { m with fields := fields } where
  built := hfields
  axes := h.checkAxes_eq_ok_iff.1 hm.axes
  partitioned f hf hcomputed := by
    rw [← h.partitionInputs_eq]
    exact hm.partitioned f (h.mem_values_iff.2 hf) hcomputed
  positions := (h.sectorPositions_eq hplain).symm.trans hm.positions
  parameterOrder := (h.resolveOrder_eq hplain _).symm.trans hm.parameterOrder
  order := by
    have horder := hm.order
    rw [hgiven.2]
    split at horder
    · exact (h.verifyOrder_eq hplain _).symm.trans horder
    · exact (h.resolveOrder_eq hplain _).symm.trans horder
  presets := (h.checkPresets_eq _).symm.trans hm.presets
  described := by
    obtain ⟨hname, hsummary, hpresets⟩ := hm.described
    exact ⟨hname.trans hnamed.1.symm, hsummary.trans hnamed.2.symm, hpresets.trans hgiven.1.symm⟩
  auxiliary := hm.auxiliary.trans (h.auxiliaryFields_eq hplain)

end FieldFlow
