import FieldFlow.Field.Expression
import FieldFlow.Proofs.Model.Loading

/-!
# Proofs/Model/Soundness — a model that loads is whole

`load_sound` is what the passes of loading establish together. The part of it that evaluation rests
on is `Model.Evaluable`; it asks for no particular value, so assignments can keep it.
-/

namespace FieldFlow

variable {α : Type}

/-- **What evaluation needs of a model.** -/
structure Model.Evaluable (m : Model α) : Prop where
  named : Named m.fields
  /-- Every input is one that its field may read. -/
  reads : ∀ {name f}, m.field? name = some f → ∀ input ∈ f.inputs, MayRead m.fields f input
  /-- A dynamic field has a function and an initial value. -/
  dynamic : ∀ {name f}, m.field? name = some f → f.kind = .dynamic →
    f.function.isSome ∧ f.initial.isSome
  /-- An algebraic field has a function. -/
  algebraic : ∀ {name f}, m.field? name = some f → f.kind = .algebraic → f.function.isSome
  /-- A size has sectors, and no function. -/
  sized : ∀ {name f}, m.field? name = some f → f.kind = .size →
    f.function = none ∧ ∃ s, f.sectors = some s ∧ 0 < s.size
  /-- Every sector axis is the unit axis or a size. -/
  axes : ∀ {name f}, m.field? name = some f → ∀ axis ∈ [f.axes.1, f.axes.2],
    axis = unitAxis ∨ ∃ g, m.field? axis = some g ∧ g.kind = .size
  order : EvaluationOrder m.fields .algebraic m.order
  parameterOrder : EvaluationOrder m.fields .parameter m.parameterOrder

/-- **What loading establishes.** -/
structure Model.Sound (m : Model α) : Prop extends m.Evaluable where
  timed : (m.field? "time").isSome
  wellMade : ∀ {name f}, m.field? name = some f → f.WellMade
  /-- Labels of sectors differ from each other. -/
  labels : ∀ {name f labels}, m.field? name = some f → f.sectors = some (.labels labels) →
    labels.Nodup
  /-- The order lists the algebraic fields, each once. -/
  order_perm : m.order.Perm (m.namesOf .algebraic)
  /-- The order of parameters lists those that are computed, each once. -/
  parameterOrder_perm : m.parameterOrder.Perm ((computedOf m.fields .parameter).map Field.name)
  /-- A preset sets fields of the model, and none that is algebraic. -/
  presets : ∀ entry ∈ m.presets.entries, ∀ target ∈ entry.2.values.keys,
    ∃ g, m.field? target = some g ∧ g.kind ≠ .algebraic

namespace LoadedFrom

variable [Scalar α] {registry : Registry α} {d : Description α} {m : Model α}

/-- The passes together make a model whole. -/
theorem sound (hload : LoadedFrom registry d m) : m.Sound := by
  have hparameters := evaluationOrder_of_resolveOrder hload.named (.inr rfl) hload.parameterOrder
  have hmade : ∀ {name f}, m.field? name = some f → f.WellMade := fun hf => (hload.field hf).2.1
  exact {
    named := hload.named
    reads := fun {name f} hf input hinput => by
      have hcomputed := Field.isComputed_of_mem_inputs hinput
      obtain ⟨p, hp⟩ := hload.partitioned f (OrderedMap.mem_values_iff.2 ⟨name, hf⟩) hcomputed
      exact mayRead_of_partitionInputs hp input hinput
    dynamic := fun hf hkind => by
      have := hmade hf
      rwa [Field.WellMade, hkind] at this
    algebraic := fun hf hkind => by
      have := hmade hf
      rw [Field.WellMade, hkind] at this
      exact this.1
    sized := fun hf hkind => by
      have := hmade hf
      rwa [Field.WellMade, hkind] at this
    axes := fun hf => of_checkAxes hload.axes hf
    order := hload.evaluationOrder.2
    parameterOrder := hparameters.2
    timed := hload.isSome_time
    wellMade := hmade
    labels := fun {name f labels} hf hlabels =>
      nodup_of_sectorPositions hload.positions (OrderedMap.mem_values_iff.2 ⟨name, hf⟩) hlabels
    order_perm := by
      have hcomputed : computedOf m.fields .algebraic =
          m.fields.values.filter fun f => f.kind = .algebraic := by
        refine List.filter_congr fun f hf => ?_
        by_cases hkind : f.kind = .algebraic
        · simp [hkind, hload.algebraic_isComputed hf hkind]
        · simp [hkind]
      rw [Model.namesOf, ← hcomputed]
      exact hload.evaluationOrder.1
    parameterOrder_perm := hparameters.1
    presets := of_checkPresets hload.presets }

end LoadedFrom

/-- **A model that loads is whole.** -/
theorem load_sound [Scalar α] {registry : Registry α} {d : Description α} {m : Model α}
    (h : load registry d = .ok m) : m.Sound :=
  (loadedFrom_of_load h).sound

/-! ## Models to look at -/

/-- A function of inputs, by an expression of them. -/
private def computedBy (inputs : List String) (body : Expression Float) : String × Attribute Float :=
  ("func", .function (body.toFunction inputs))

private def valued (key : String) (v : Value Float) : String × Attribute Float := (key, .value v)

/-- Growth at a rate that an algebraic field multiplies from two parameters, one of them
computed. -/
def growth : Description Float where
  name := "growth"
  differential := .ofList
    [("y", ⟨[computedBy ["g", itself] (.binary .mul (.input "g") (.input itself)),
      valued "initial" (.scalar 2.0)]⟩)]
  statevar := .ofList
    [("g", ⟨[computedBy ["k", "half"] (.binary .mul (.input "k") (.input "half"))]⟩)]
  parameter := .ofList
    [("k", ⟨[valued "value" (.scalar 0.3)]⟩),
      ("half", ⟨[computedBy ["one"] (.binary .mul (.input "one") (.number 0.5))]⟩),
      ("one", ⟨[valued "value" (.scalar 1.0)]⟩),
      ("price", ⟨[valued "value" (.sectors [1.0, 2.0]), ("size", .names ["goods"])]⟩)]
  size := .ofList [("goods", ⟨[("labels", .names ["corn", "iron"])]⟩)]
  presets := .ofList [("fast", ⟨.ofList [("k", .scalar 0.6), ("y", .scalar 1.0)], "quick growth"⟩)]

theorem growth_sound : ∃ m, load .standard growth = .ok m ∧ m.Sound := by
  have hloads : (load .standard growth).toOption.isSome = true := by decide +kernel
  obtain ⟨m, hm⟩ := Option.isSome_iff_exists.1 hloads
  have hm := toOption_eq_some_iff.1 hm
  exact ⟨m, hm, load_sound hm⟩

/-- A dynamic field whose name is the reserved one. -/
def selfNamed : Description Float where
  name := "m"
  differential := .ofList
    [(itself, ⟨[computedBy [itself] (.input itself), valued "initial" (.scalar 1.0)]⟩)]

/-- **A dynamic field can list its own name** — where that name is the reserved one, which is read
as the field's own value before any names are compared. -/
theorem selfNamed_lists_own_name : ∃ m, load .empty selfNamed = .ok m ∧
    ∃ f, m.field? itself = some f ∧ f.kind = .dynamic ∧ f.name ∈ f.inputs := by
  have hlists : ((load .empty selfNamed).toOption.bind (Model.field? · itself)).any (fun f =>
      f.kind = .dynamic ∧ f.name ∈ f.inputs) = true := by decide +kernel
  obtain ⟨f, hf, hown⟩ := (Option.any_eq_true _ _).1 hlists
  obtain ⟨m, hm, hfield⟩ := Option.bind_eq_some_iff.1 hf
  exact ⟨m, toOption_eq_some_iff.1 hm, f, hfield, of_decide_eq_true hown⟩

end FieldFlow
