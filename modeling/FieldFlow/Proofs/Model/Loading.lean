import FieldFlow.Model.Load
import FieldFlow.Proofs.Model.EvaluationOrder

/-!
# Proofs/Model/Loading — what each pass of loading has done

Loading checks a model in passes: each declaration on its own, then what is read but not declared,
sector axes, inputs, labels, the two orders and the presets. `LoadedFrom` names the outcome of every
pass; a fact about a loaded model is read off the pass that establishes it, and `LoadedFrom.origin`
says where each of its fields comes from.
-/

namespace FieldFlow

variable {α : Type}

/-- **A field made as its kind asks.** -/
def Field.WellMade (f : Field α) : Prop :=
  match f.kind with
  | .dynamic => f.function.isSome ∧ f.initial.isSome
  | .algebraic => f.function.isSome ∧ f.value = none ∧ f.initial = none
  | .parameter => f.value.isSome ∧ f.function = none ∨ f.value = none ∧ f.function.isSome
  | .size => f.function = none ∧ ∃ s, f.sectors = some s ∧ 0 < s.size

/-! ## One declaration -/

/-- **Where the sectors of a size come from**: labels under either key, or a count. -/
inductive SectorsFrom [Scalar α] (d : Declaration α) : Sectors → Prop
  | labelled {labels : List String} : d.get? "value" = none → d.labels? = some labels →
      SectorsFrom d (.labels labels)
  | listed {labels : List String} : d.get? "value" = some (.names labels) → d.labels? = none →
      SectorsFrom d (.labels labels)
  | counted {c : α} {n : Nat} : d.get? "value" = some (.value (.scalar c)) → d.labels? = none →
      Scalar.toCount? c = some n → SectorsFrom d (.count n)

/-- A size has at least one sector — whichever way its sectors are found, they pass the same last
check. -/
theorem of_sectorsOf [Scalar α] {name : String} {d : Declaration α} {s : Sectors}
    (h : sectorsOf name d = .ok s) : SectorsFrom d s ∧ 0 < s.size := by
  unfold sectorsOf at h
  extract_lets refuse checked at h
  have hchecked : ∀ found, checked found = .ok s → found = s ∧ 0 < s.size := fun found h => by
    simp only [checked] at h
    split at h
    · exact nomatch h
    · rename_i hempty
      rw [← Except.ok.inj h]
      exact ⟨rfl, Nat.pos_of_ne_zero (by simpa [Sectors.isEmpty] using hempty)⟩
  split at h
  case h_1 | h_5 | h_6 => exact nomatch h
  case h_2 labels hvalue hlabels =>
    obtain ⟨rfl, hpos⟩ := hchecked _ h
    exact ⟨.labelled hvalue hlabels, hpos⟩
  case h_3 labels hvalue hlabels =>
    obtain ⟨rfl, hpos⟩ := hchecked _ h
    exact ⟨.listed hvalue hlabels, hpos⟩
  case h_4 c hvalue hlabels =>
    split at h
    · rename_i n hn
      obtain ⟨rfl, hpos⟩ := hchecked _ h
      exact ⟨.counted hvalue hlabels hn, hpos⟩
    · exact nomatch h

/-- **All that a field can be completed to**: a field of each kind, and a parameter in two ways. -/
inductive Completion [Scalar α] (d : Declaration α) (defaults : Option (Defaults α))
    (field : Field α) : Field α → Prop
  | dynamic {g : Function α} {v : Value α} : field.kind = .dynamic → d.function? = some g →
      d.get? "value" = none → initialOf field.name d defaults = .ok v →
        Completion d defaults field { field with function := some g, initial := some v }
  | algebraic {g : Function α} : field.kind = .algebraic → d.function? = some g →
      d.get? "value" = none → d.get? "initial" = none →
        Completion d defaults field { field with function := some g }
  | computed {g : Function α} : field.kind = .parameter → d.function? = some g →
      d.get? "value" = none → Completion d defaults field { field with function := some g }
  | fixed {v : Value α} : field.kind = .parameter → d.function? = none →
      parameterValue field.name d defaults = .ok v →
        Completion d defaults field { field with value := some v }
  | size {s : Sectors} : field.kind = .size → d.function? = none →
      sectorsOf field.name d = .ok s → Completion d defaults field { field with sectors := some s }

/-- A completed field is made up as its kind has it, with or without a function; three of these
cases are refused. -/
theorem completion_of_completeField [Scalar α] {d : Declaration α}
    {defaults : Option (Defaults α)} {field f : Field α}
    (h : completeField d defaults field = .ok f) : Completion d defaults field f := by
  unfold completeField at h
  dsimp only at h
  split at h
  case h_1 | h_2 | h_7 => exact nomatch h
  case h_3 g hkind hg =>
    split at h
    · exact nomatch h
    rename_i hvalue
    obtain ⟨v, hv, h⟩ := bind_eq_ok_iff.1 h
    rw [← pure_eq_ok_iff.1 h]
    exact .dynamic hkind hg (by simpa using hvalue) hv
  case h_4 g hkind hg =>
    split at h
    · exact nomatch h
    rename_i hvalue
    split at h
    · exact nomatch h
    rename_i hinitial
    rw [← pure_eq_ok_iff.1 h]
    exact .algebraic hkind hg (by simpa using hvalue) (by simpa using hinitial)
  case h_5 g hkind hg =>
    split at h
    · rename_i hvalue
      rw [← pure_eq_ok_iff.1 h]
      exact .computed hkind hg hvalue
    · exact nomatch h
    · exact nomatch h
  case h_6 hkind hg =>
    obtain ⟨v, hv, h⟩ := bind_eq_ok_iff.1 h
    rw [← pure_eq_ok_iff.1 h]
    exact .fixed hkind hg hv
  case h_8 hkind hg =>
    obtain ⟨s, hs, h⟩ := bind_eq_ok_iff.1 h
    rw [← pure_eq_ok_iff.1 h]
    exact .size hkind hg hs

/-- A completed field is made as its kind asks, around the declared function if any. -/
theorem of_completeField [Scalar α] {d : Declaration α} {defaults : Option (Defaults α)}
    {field f : Field α} (hfunction : field.function = none) (hvalue : field.value = none)
    (hinitial : field.initial = none) (h : completeField d defaults field = .ok f) :
    f.name = field.name ∧ f.kind = field.kind ∧ f.WellMade ∧
      (f.function = none ∨ f.function = d.function?) := by
  cases completion_of_completeField h with
  | dynamic hkind hg => exact ⟨rfl, rfl, by simp [Field.WellMade, hkind], .inr hg.symm⟩
  | algebraic hkind hg =>
    exact ⟨rfl, rfl, by simp [Field.WellMade, hkind, hvalue, hinitial], .inr hg.symm⟩
  | computed hkind hg =>
    exact ⟨rfl, rfl, by simp [Field.WellMade, hkind, hvalue], .inr hg.symm⟩
  | fixed hkind =>
    exact ⟨rfl, rfl, by simp [Field.WellMade, hkind, hfunction], .inl hfunction⟩
  | size hkind _ hs =>
    refine ⟨rfl, rfl, ?_, .inl hfunction⟩
    simpa [Field.WellMade, hkind, hfunction] using (of_sectorsOf hs).2

theorem Field.mem_inputs_iff {f : Field α} {input : String} :
    input ∈ f.inputs ↔ ∃ g, f.function = some g ∧ input ∈ g.inputs := by
  cases hf : f.function with
  | none => simp [Field.inputs, hf]
  | some g => simp [Field.inputs, hf]

/-- A field before its declaration completes it. -/
def Declaration.bare (registry : Registry α) (category : Category) (name : String)
    (d : Declaration α) : Field α :=
  { Field.bare name (kindOf category d) with metadata := mergeMetadata d (registry.get? name) }

/-- **A field is built** where its declaration passes its check and can be completed, and its axes
are names. -/
theorem buildField_eq_ok_iff [Scalar α] {registry : Registry α} {category : Category}
    {name : String} {d : Declaration α} {f : Field α} :
    buildField registry category name d = .ok f ↔ d.check name = .ok () ∧
      ((d.function?.any Function.readsItself) = true → kindOf category d = .dynamic) ∧
      ∃ g axes, completeField d (registry.get? name) (d.bare registry category name) = .ok g ∧
        axesOf name (kindOf category d) d = .ok axes ∧ { g with axes := axes } = f := by
  have hself : ((d.function?.any Function.readsItself) && decide (kindOf category d ≠ .dynamic)) =
      true ↔ ¬ ((d.function?.any Function.readsItself) = true → kindOf category d = .dynamic) := by
    rw [Bool.and_eq_true, decide_eq_true_iff, Classical.not_imp]
  unfold buildField
  dsimp only
  rw [bind_eq_ok_iff]
  constructor
  · rintro ⟨⟨⟩, hcheck, h⟩
    rw [ite_bind_eq_ok_iff] at h
    obtain ⟨hnone, h⟩ := h
    obtain ⟨g, hg, h⟩ := bind_eq_ok_iff.1 h
    obtain ⟨axes, haxes, h⟩ := bind_eq_ok_iff.1 h
    refine ⟨hcheck, ?_, g, axes, hg, haxes, pure_eq_ok_iff.1 h⟩
    by_contra hforeign
    exact absurd (hnone (hself.2 hforeign)) throw_ne_ok
  · rintro ⟨hcheck, hallowed, g, axes, hg, haxes, rfl⟩
    refine ⟨⟨⟩, hcheck, ite_bind_eq_ok_iff.2 ⟨fun hforeign => ?_, ?_⟩⟩
    · exact absurd hallowed (hself.1 hforeign)
    · exact bind_eq_ok_iff.2 ⟨g, hg, bind_eq_ok_iff.2 ⟨axes, haxes, rfl⟩⟩

/-- **A built field** is a completed one with its axes; it is dynamic if its function reads
itself. -/
theorem exists_completed [Scalar α] {registry : Registry α} {category : Category} {name : String}
    {d : Declaration α} {f : Field α} (h : buildField registry category name d = .ok f) :
    ∃ g axes, completeField d (registry.get? name) (d.bare registry category name) = .ok g ∧
      ((d.function?.any Function.readsItself) = true → kindOf category d = .dynamic) ∧
        f = { g with axes := axes } := by
  obtain ⟨-, hself, g, axes, hg, -, rfl⟩ := buildField_eq_ok_iff.1 h
  exact ⟨g, axes, hg, hself, rfl⟩

/-- **A field built from its declaration** has the name and kind it was declared with, is made as
that kind asks, and reads itself only where it is dynamic. -/
theorem of_buildField [Scalar α] {registry : Registry α} {category : Category} {name : String}
    {d : Declaration α} {f : Field α} (h : buildField registry category name d = .ok f) :
    f.name = name ∧ f.kind = kindOf category d ∧ f.WellMade ∧
      (itself ∈ f.inputs → f.kind = .dynamic) := by
  obtain ⟨g, axes, hg, hself, rfl⟩ := exists_completed h
  obtain ⟨hname, hkind, hmade, hfunction⟩ := of_completeField rfl rfl rfl hg
  refine ⟨hname, hkind, hmade, fun hitself => hkind.trans (hself ?_)⟩
  obtain ⟨e, he, hreads⟩ := Field.mem_inputs_iff.1 hitself
  have he : d.function? = some e := by
    rcases hfunction with hnone | hsome
    · exact nomatch he.symm.trans hnone
    · exact hsome.symm.trans he
  have hreads : e.readsItself = true := by
    simpa [Function.readsItself] using hreads
  simp [he, hreads]

/-! ## All declarations -/

/-- Every field was built from one of the declarations. -/
def BuiltFrom [Scalar α] (registry : Registry α)
    (declarations : List (Category × String × Declaration α)) (fields : FieldMap α) : Prop :=
  ∀ name f, fields.get? name = some f → ∃ category d, (category, name, d) ∈ declarations ∧
    buildField registry category name d = .ok f

/-- Every declared field was built from its declaration. -/
theorem of_buildFields [Scalar α] {registry : Registry α}
    {declarations : List (Category × String × Declaration α)} {fields : FieldMap α}
    (h : buildFields registry declarations = .ok fields) :
    BuiltFrom registry declarations fields := by
  obtain ⟨⟨built, origins⟩, hfold, h⟩ := bind_eq_ok_iff.1 h
  obtain rfl : built = fields := pure_eq_ok_iff.1 h
  refine foldlM_induct (motive := fun acc => BuiltFrom registry declarations acc.1) ?_
    (fun _ _ hnone => ?_) hfold
  case refine_2 => exact absurd hnone (by simp)
  rintro ⟨fields, origins⟩ ⟨category, name, d⟩ hmem acc hacc hstep name' f' hf'
  dsimp only at hstep
  split at hstep
  · obtain ⟨_, hstep, -⟩ := bind_eq_ok_iff.1 hstep
    exact absurd hstep throw_ne_ok
  obtain ⟨g, hg, hstep⟩ := bind_eq_ok_iff.1 hstep
  obtain rfl := pure_eq_ok_iff.1 hstep
  rw [OrderedMap.get?_insert] at hf'
  split at hf'
  · rename_i heq
    obtain rfl := Option.some.inj hf'
    exact ⟨category, d, heq ▸ hmem, heq ▸ hg⟩
  · exact hacc name' f' hf'

/-- A parameter taken from the registry. -/
def registryParameter (name : String) (value : α) (metadata : Metadata) : Field α :=
  { Field.bare name .parameter with value := some (.scalar value), metadata := metadata }

/-- Pulling parameters in leaves the fields that there are, and adds parameters with a value. -/
theorem of_pullParameters {registry : Registry α} {fields pulled : FieldMap α}
    (h : pullParameters registry fields = .ok pulled) :
    (∀ name f, pulled.get? name = some f →
      fields.get? name = some f ∨ ∃ value metadata, f = registryParameter name value metadata) ∧
    ∀ name, (fields.get? name).isSome → (pulled.get? name).isSome := by
  refine foldlM_induct (motive := fun acc => (∀ name f, acc.get? name = some f →
      fields.get? name = some f ∨ ∃ value metadata, f = registryParameter name value metadata) ∧
      ∀ name, (fields.get? name).isSome → (acc.get? name).isSome) ?_
    ⟨fun _ _ hf => .inl hf, fun _ hf => hf⟩ h
  rintro acc ⟨name, reader⟩ - next ⟨hacc, hkeys⟩ hstep
  dsimp only at hstep
  split at hstep
  case h_2 => exact absurd hstep throw_ne_ok
  split at hstep
  case h_2 => exact absurd hstep throw_ne_ok
  rename_i defaults _ _ value hvalue
  obtain rfl := pure_eq_ok_iff.1 hstep
  constructor
  · intro name' f' hf'
    rw [OrderedMap.get?_insert] at hf'
    split at hf'
    · rename_i heq
      obtain rfl := Option.some.inj hf'
      exact .inr ⟨value, defaults.metadata, heq ▸ rfl⟩
    · exact hacc name' f' hf'
  · intro name' hname'
    rw [OrderedMap.get?_insert]
    split
    · rfl
    · exact hkeys name' hname'

/-- A model that passes the check of its axes has sizes for them. -/
theorem of_checkAxes {fields : FieldMap α} (h : checkAxes fields = .ok ()) {name : String}
    {f : Field α} (hf : fields.get? name = some f) : ∀ axis ∈ [f.axes.1, f.axes.2],
      axis = unitAxis ∨ ∃ g, fields.get? axis = some g ∧ g.kind = .size := by
  intro axis haxis
  have hfield := forM_eq_ok_iff.1 h f (OrderedMap.mem_values_iff.2 ⟨name, hf⟩)
  have hstep := forM_eq_ok_iff.1 hfield axis haxis
  by_cases hunit : axis = unitAxis
  · exact .inl hunit
  · rw [if_pos hunit] at hstep
    split at hstep
    · exact absurd hstep throw_ne_ok
    rename_i g hg
    split at hstep
    · exact absurd hstep throw_ne_ok
    · rename_i hkind
      exact .inr ⟨g, hg, by simpa using hkind⟩

/-- Labels that have positions differ from each other, and from those that had one before. -/
theorem nodup_of_positions {field : String} :
    ∀ {labels : List String} {k : Nat} {before after : OrderedMap Nat},
      ((labels.zipIdx k).foldlM (fun positions (label, i) => do
        if positions.contains label then throw (.malformedField field (.repeatedLabel label))
        return positions.insert label i) before : Except (Error α) (OrderedMap Nat)) = .ok after →
      labels.Nodup ∧ ∀ label ∈ labels, label ∉ before.keys
  | [], _, _, _, _ => ⟨List.nodup_nil, by simp⟩
  | label :: rest, k, before, after, h => by
      rw [List.zipIdx_cons, List.foldlM_cons, bind_eq_ok_iff] at h
      obtain ⟨next, hnext, hrest⟩ := h
      dsimp only at hnext
      split at hnext
      · obtain ⟨_, hnext, -⟩ := bind_eq_ok_iff.1 hnext
        exact absurd hnext throw_ne_ok
      rename_i hfresh
      obtain rfl := pure_eq_ok_iff.1 hnext
      obtain ⟨hnodup, hout⟩ := nodup_of_positions hrest
      have hkeys : ∀ l ∈ rest, l ≠ label ∧ l ∉ before.keys := fun l hl => by
        have := hout l hl
        rw [← OrderedMap.get?_eq_none_iff, OrderedMap.get?_insert] at this
        rw [← OrderedMap.get?_eq_none_iff]
        split at this
        · exact nomatch this
        · rename_i hne
          exact ⟨hne, this⟩
      refine ⟨List.nodup_cons.2 ⟨fun hmem => (hkeys label hmem).1 rfl, hnodup⟩, ?_⟩
      rw [List.forall_mem_cons]
      refine ⟨?_, fun l hl => (hkeys l hl).2⟩
      rw [← OrderedMap.contains_iff]
      exact hfresh

theorem nodup_of_sectorPositions {fields : FieldMap α} {found : OrderedMap (OrderedMap Nat)}
    (h : sectorPositions fields = .ok found) {f : Field α} (hf : f ∈ fields.values)
    {labels : List String} (hlabels : f.sectors = some (.labels labels)) : labels.Nodup := by
  obtain ⟨before, after, hstep⟩ := exists_ok_of_foldlM_eq_ok h f hf
  rw [hlabels] at hstep
  obtain ⟨positions, hpositions, -⟩ := bind_eq_ok_iff.1 hstep
  exact (nodup_of_positions hpositions).1

/-- A preset that passes its check sets fields of the model, and none that is algebraic. -/
theorem of_checkPresets {fields : FieldMap α} {presets : OrderedMap (Preset α)}
    (h : checkPresets fields presets = .ok ()) : ∀ entry ∈ presets.entries,
      ∀ target ∈ entry.2.values.keys, ∃ g, fields.get? target = some g ∧ g.kind ≠ .algebraic := by
  rintro ⟨name, preset⟩ hentry target htarget
  have hpreset := forM_eq_ok_iff.1 h (name, preset) hentry
  have hstep := forM_eq_ok_iff.1 hpreset target htarget
  split at hstep
  · exact absurd hstep throw_ne_ok
  rename_i g hg
  split at hstep
  · exact absurd hstep throw_ne_ok
  · rename_i hkind
    exact ⟨g, hg, hkind⟩

/-! ## The whole model -/

/-- **What each pass of loading has done**, in order. -/
structure LoadedFrom [Scalar α] (registry : Registry α) (d : Description α) (m : Model α) : Prop where
  built : ∃ declared, buildFields registry d.declarations = .ok declared ∧
    pullParameters registry (declared.insertFirst "time" (timeField registry)) = .ok m.fields
  axes : checkAxes m.fields = .ok ()
  partitioned : ∀ f ∈ m.fields.values, f.isComputed = true →
    ∃ p, partitionInputs m.fields f = .ok p
  positions : sectorPositions m.fields = .ok m.sectorIndices
  parameterOrder : resolveOrder m.fields .parameter = .ok m.parameterOrder
  order : (match d.order with
    | some explicit => verifyOrder m.fields explicit
    | none => resolveOrder m.fields .algebraic) = .ok m.order
  presets : checkPresets m.fields m.presets = .ok ()
  described : m.name = d.name ∧ m.summary = d.summary ∧ m.presets = d.presets
  auxiliary : m.auxiliary = auxiliaryFields m.fields

theorem loadedFrom_of_load [Scalar α] {registry : Registry α} {d : Description α} {m : Model α}
    (h : load registry d = .ok m) : LoadedFrom registry d m := by
  obtain ⟨declared, hdeclared, h⟩ := bind_eq_ok_iff.1 h
  obtain ⟨fields, hfields, h⟩ := bind_eq_ok_iff.1 h
  obtain ⟨⟨⟩, haxes, h⟩ := bind_eq_ok_iff.1 h
  obtain ⟨⟨⟩, hpartitioned, h⟩ := bind_eq_ok_iff.1 h
  obtain ⟨indices, hindices, h⟩ := bind_eq_ok_iff.1 h
  obtain ⟨parameterOrder, hparameterOrder, h⟩ := bind_eq_ok_iff.1 h
  extract_lets finish at h
  have horder : ∃ order, (match d.order with
      | some explicit => verifyOrder fields explicit
      | none => resolveOrder fields .algebraic) = .ok order ∧ finish order = .ok m := by
    cases hgiven : d.order with
    | some explicit =>
      rw [hgiven] at h
      exact bind_eq_ok_iff.1 h
    | none =>
      rw [hgiven] at h
      exact bind_eq_ok_iff.1 h
  obtain ⟨order, horder, h⟩ := horder
  obtain ⟨⟨⟩, hpresets, h⟩ := bind_eq_ok_iff.1 h
  obtain rfl := pure_eq_ok_iff.1 h
  exact {
    built := ⟨declared, hdeclared, hfields⟩
    axes := haxes
    partitioned := fun f hf hcomputed =>
      discard_eq_ok_iff.1 (forM_eq_ok_iff.1 hpartitioned f (List.mem_filter.2 ⟨hf, hcomputed⟩))
    positions := hindices
    parameterOrder := hparameterOrder
    order := horder
    presets := hpresets
    described := ⟨rfl, rfl, rfl⟩
    auxiliary := rfl }

namespace LoadedFrom

variable [Scalar α] {registry : Registry α} {d : Description α} {m : Model α}

/-- **Passes that all succeed** load the model. -/
theorem load_eq (h : LoadedFrom registry d m) : load registry d = .ok m := by
  obtain ⟨declared, hdeclared, hpulled⟩ := h.built
  obtain ⟨hname, hsummary, hpresets⟩ := h.described
  have hpartitioned : (m.fields.values.filter Field.isComputed).forM
      (fun f => discard (partitionInputs m.fields f)) = .ok ⟨⟩ :=
    forM_eq_ok_iff.2 fun f hf => discard_eq_ok_iff.2
      (h.partitioned f (List.mem_of_mem_filter hf) (List.mem_filter.1 hf).2)
  refine bind_eq_ok_iff.2 ⟨declared, hdeclared, bind_eq_ok_iff.2 ⟨m.fields, hpulled,
    bind_eq_ok_iff.2 ⟨⟨⟩, h.axes, bind_eq_ok_iff.2 ⟨⟨⟩, hpartitioned, bind_eq_ok_iff.2
      ⟨m.sectorIndices, h.positions, bind_eq_ok_iff.2 ⟨m.parameterOrder, h.parameterOrder, ?_⟩⟩⟩⟩⟩⟩
  extract_lets finish
  have hfinish : finish m.order = .ok m := by
    refine bind_eq_ok_iff.2 ⟨⟨⟩, hpresets ▸ h.presets, pure_eq_ok_iff.2 ?_⟩
    rw [← hname, ← hsummary, ← hpresets, ← h.auxiliary]
  have horder := h.order
  cases hgiven : d.order with
  | some explicit =>
    rw [hgiven] at horder
    exact bind_eq_ok_iff.2 ⟨m.order, horder, hfinish⟩
  | none =>
    rw [hgiven] at horder
    exact bind_eq_ok_iff.2 ⟨m.order, horder, hfinish⟩

/-- A field of a loaded model was declared, or is the time that was added, or was pulled in. -/
theorem origin (h : LoadedFrom registry d m) {name : String} {f : Field α}
    (hf : m.field? name = some f) :
    (∃ category e, (category, name, e) ∈ d.declarations ∧
        buildField registry category name e = .ok f) ∨
      (name = "time" ∧ f = timeField registry) ∨
      ∃ value metadata, f = registryParameter name value metadata := by
  obtain ⟨declared, hdeclared, hpulled⟩ := h.built
  rcases (of_pullParameters hpulled).1 name f hf with htimed | hparameter
  · rw [OrderedMap.get?_insertFirst, Option.or_eq_some_iff] at htimed
    rcases htimed with hbuilt | ⟨-, htime⟩
    · exact .inl (of_buildFields hdeclared name f hbuilt)
    · split at htime
      · rename_i heq
        exact .inr (.inl ⟨heq, (Option.some.inj htime).symm⟩)
      · exact nomatch htime
  · exact .inr (.inr hparameter)

/-- Wherever a field comes from, it has its name, is made as its kind asks, and reads itself only
where it is dynamic. -/
theorem field (h : LoadedFrom registry d m) {name : String} {f : Field α}
    (hf : m.field? name = some f) :
    f.name = name ∧ f.WellMade ∧ (itself ∈ f.inputs → f.kind = .dynamic) := by
  rcases h.origin hf with ⟨category, e, -, hbuild⟩ | ⟨rfl, rfl⟩ | ⟨value, metadata, rfl⟩
  · obtain ⟨hname, -, hmade, hself⟩ := of_buildField hbuild
    exact ⟨hname, hmade, hself⟩
  · exact ⟨rfl, ⟨rfl, rfl⟩, fun _ => rfl⟩
  · exact ⟨rfl, .inl ⟨rfl, rfl⟩, fun hmem => nomatch hmem⟩

theorem named (h : LoadedFrom registry d m) : Named m.fields := fun _ _ hf => (h.field hf).1

theorem algebraic_isComputed (h : LoadedFrom registry d m) {f : Field α} (hf : f ∈ m.fields.values)
    (hkind : f.kind = .algebraic) : f.isComputed = true := by
  have hmade := (h.field (h.named.get? hf)).2.1
  rw [Field.WellMade, hkind] at hmade
  exact hmade.1

theorem isSome_time (h : LoadedFrom registry d m) : (m.field? "time").isSome := by
  obtain ⟨declared, -, hpulled⟩ := h.built
  refine (of_pullParameters hpulled).2 "time" ?_
  rw [OrderedMap.get?_insertFirst, if_pos rfl]
  cases declared.get? "time" <;> rfl

/-- The order of evaluation, found or given. -/
theorem evaluationOrder (h : LoadedFrom registry d m) :
    m.order.Perm ((computedOf m.fields .algebraic).map Field.name) ∧
      EvaluationOrder m.fields .algebraic m.order := by
  have horder := h.order
  split at horder
  · exact evaluationOrder_of_verifyOrder h.named (fun f hf => h.algebraic_isComputed hf) horder
  · exact evaluationOrder_of_resolveOrder h.named (.inl rfl) horder

end LoadedFrom

end FieldFlow
