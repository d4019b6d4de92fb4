import FieldFlow.Proofs.Model.Canonical
import FieldFlow.Proofs.Model.Needed
import FieldFlow.Proofs.Simulation.Calls

/-!
# Proofs/Simulation/Analysis — what was found out at loading, after assignments

The orders of evaluation and the auxiliary fields are found once, when a model is loaded. An
assignment can take the function from a computed parameter, and from no other field. So the order of
the algebraic fields stays the one that is found for the fields as they are now; the order of the
parameters stays one as well, but is found anew just as long as all parameters in it are computed,
and as long as they are the auxiliary fields are those of now: `analysis_follows`. A parameter in
the order that is given a value leaves behind what only it had read (`worn_analysis_lags`).
-/

namespace FieldFlow

variable {α : Type}

/-! ## Functions that stay -/

namespace Model.Reassigned

variable {m m' : Model α} {kind : FieldKind}

/-- Fields of a kind that keep their functions read the same. -/
theorem sameReads (h : m.Reassigned m') (hkeys : m'.fields.keys = m.fields.keys)
    (hfunction : ∀ {name f g}, m.field? name = some f → m'.field? name = some g →
      f.kind = kind → f.Reassigned g → g.function = f.function) :
    SameReads kind m.fields m'.fields where
  keys := hkeys
  field := fun {name f} hf => by
    obtain ⟨g, hg, hfg⟩ := h.kept hf
    refine ⟨g, hg, hfg.name, hfg.kind, fun hkind => ?_, fun hkind input => ?_⟩
    · rw [Field.isComputed, hfunction hf hg hkind hfg, Field.isComputed]
    · rw [Field.inputs, hfunction hf hg hkind hfg, Field.inputs]

/-- Algebraic fields keep their functions. -/
theorem sameReads_algebraic (h : m.Reassigned m') (hkeys : m'.fields.keys = m.fields.keys) :
    SameReads .algebraic m.fields m'.fields :=
  h.sameReads hkeys fun _ _ hkind hfg => hfg.function.resolve_right fun hparameter =>
    nomatch hkind.symm.trans hparameter.1

end Model.Reassigned

/-- A field that is computed after an assignment has the function that it had before. -/
theorem Field.Reassigned.function_of_isComputed {f g : Field α} (h : f.Reassigned g)
    (hg : g.isComputed = true) : g.function = f.function := by
  refine h.function.resolve_right fun ⟨_, hnone⟩ => ?_
  rw [Field.isComputed, hnone] at hg
  exact Bool.false_ne_true hg

/-- **All parameters in the order of evaluation are computed**: none of them was given a value. -/
def Model.KeepsFunctions (m : Model α) : Prop :=
  ∀ name ∈ m.parameterOrder, ∃ f, m.field? name = some f ∧ f.isComputed = true

/-! ## What is needed by name -/

section Needed

variable {fields fields' : FieldMap α} {name : String}

/-- **Functions in one list of fields that are functions in another**, under the same names and of
the same inputs. -/
def KeptIn (fields fields' : FieldMap α) : Prop :=
  ∀ {name g}, fields'.get? name = some g → g.isComputed = true →
    ∃ f, fields.get? name = some f ∧ f.isComputed = true ∧ f.inputs = g.inputs

/-- A computed field that reads what a needed field of the same name reads elsewhere. -/
def NeededIn (fields fields' : FieldMap α) (f : Field α) : Prop :=
  f ∈ fields.values.filter Field.isComputed ∧
    ∃ g ∈ neededAmong (fields'.values.filter Field.isComputed), g.name = f.name ∧
      f.inputs = g.inputs

theorem exists_neededIn (hnamed : Named fields) (hnamed' : Named fields')
    (hkept : KeptIn fields fields') {g : Field α}
    (hg : g ∈ neededAmong (fields'.values.filter Field.isComputed)) :
    ∃ f, NeededIn fields fields' f ∧ f.name = g.name ∧ f.inputs = g.inputs := by
  obtain ⟨hvalue, hcomputed⟩ := List.mem_filter.1 (mem_of_mem_neededAmong hg)
  obtain ⟨f, hf, hcomputed, hinputs⟩ := hkept (hnamed'.get? hvalue) hcomputed
  have hname := hnamed g.name f hf
  have hvalue := OrderedMap.mem_values_iff.2 ⟨g.name, hf⟩
  exact ⟨f, ⟨List.mem_filter.2 ⟨hvalue, hcomputed⟩, g, hg, hname.symm, hinputs⟩, hname, hinputs⟩

/-- **What is needed with fewer functions is needed with more**, since it is read in the same
way. -/
theorem neededNames_subset (hnamed : Named fields) (hnamed' : Named fields')
    (hkept : KeptIn fields fields') (h : name ∈ neededNames fields') :
    name ∈ neededNames fields := by
  obtain ⟨g, hg, rfl⟩ := List.mem_map.1 h
  obtain ⟨f, hf, hname, -⟩ := exists_neededIn hnamed hnamed' hkept hg
  refine hname ▸ List.mem_map_of_mem
    (mem_neededAmong_of_readers (P := NeededIn fields fields') (fun _ hf => hf.1) ?_ f hf)
  rintro f ⟨-, g, hg, hname, -⟩
  obtain ⟨reader, hreader, hne, hread⟩ := exists_reader_of_mem_neededAmong hg
  obtain ⟨f', hf', hname', hinputs⟩ := exists_neededIn hnamed hnamed' hkept hreader
  exact ⟨f', hf', by rwa [hname', ← hname], by rwa [hinputs, ← hname]⟩

/-- The computed fields, as names in declaration order. -/
theorem computedNames_eq (hnamed : Named fields) : computedNames fields =
    fields.keys.filter fun name => (fields.get? name).any Field.isComputed := by
  rw [← hnamed.map_name, List.filter_map]
  refine congrArg _ (List.filter_congr fun f hf => ?_)
  rw [Function.comp_apply, hnamed.get? hf, Option.any_some]

/-- **Fields with the same functions have the same auxiliary fields.** -/
theorem auxiliaryFields_congr (hnamed : Named fields) (hnamed' : Named fields')
    (hkeys : fields'.keys = fields.keys) (hkept : KeptIn fields fields')
    (hkept' : KeptIn fields' fields) : auxiliaryFields fields' = auxiliaryFields fields := by
  have hcomputed : computedNames fields' = computedNames fields := by
    rw [computedNames_eq hnamed, computedNames_eq hnamed', hkeys]
    refine List.filter_congr fun name _ => Bool.eq_iff_iff.2 ?_
    rw [Option.any_eq_true, Option.any_eq_true]
    exact ⟨fun ⟨g, hg, hcomputed⟩ => (hkept hg hcomputed).imp fun _ h => ⟨h.1, h.2.1⟩,
      fun ⟨f, hf, hcomputed⟩ => (hkept' hf hcomputed).imp fun _ h => ⟨h.1, h.2.1⟩⟩
  change (computedNames fields').filter (fun name => !(neededNames fields').contains name) =
    (computedNames fields).filter fun name => !(neededNames fields).contains name
  rw [hcomputed]
  refine List.filter_congr fun name _ => congrArg _ (Bool.eq_iff_iff.2 ?_)
  rw [List.contains_iff_mem, List.contains_iff_mem]
  exact ⟨neededNames_subset hnamed hnamed' hkept, neededNames_subset hnamed' hnamed hkept'⟩

end Needed

theorem Model.Reassigned.keptIn {m m' : Model α} (h : m.Reassigned m') :
    KeptIn m.fields m'.fields := by
  intro name g hg hcomputed
  obtain ⟨f, hf, hfg⟩ := h.origin hg
  have hfunction := hfg.function_of_isComputed hcomputed
  refine ⟨f, hf, hfg.isComputed hcomputed, ?_⟩
  rw [Field.inputs, ← hfunction, Field.inputs]

/-! ## A loaded model with other values -/

namespace LoadedFrom

variable [Scalar α] {registry : Registry α} {d : Description α} {m m' : Model α}

theorem filed (hload : LoadedFrom registry d m) (kind : FieldKind) : Filed m.fields kind :=
  fun f hf => hload.partitioned f (mem_computedOf_iff.1 hf).1 (mem_computedOf_iff.1 hf).2.2

/-- As long as the parameters in the order are computed, all fields have the functions that they
were loaded with. -/
theorem function_of_keepsFunctions (hload : LoadedFrom registry d m) (h : m.Reassigned m')
    (hkeeps : m'.KeepsFunctions) {name : String} {f g : Field α} (hf : m.field? name = some f)
    (hg : m'.field? name = some g) (hfg : f.Reassigned g) : g.function = f.function := by
  rcases hfg.function with heq | ⟨hkind, hnone⟩
  · exact heq
  cases hfunction : f.function with
  | none => exact hnone
  | some u =>
    have hcomputed : f.isComputed = true := by rw [Field.isComputed, hfunction]; rfl
    have hlisted := hload.sound.parameterOrder.complete hf hkind hcomputed
    obtain ⟨g', hg', hstill⟩ := hkeeps name (h.parameterOrder ▸ hlisted)
    obtain rfl := Option.some.inj (hg'.symm.trans hg)
    rw [Field.isComputed, hnone] at hstill
    exact absurd hstill Bool.false_ne_true

/-- **The order of the algebraic fields is found again.** -/
theorem order_of_reassigned (hload : LoadedFrom registry d m) (horder : d.order = none)
    (h : m.Reassigned m') (hkeys : m'.fields.keys = m.fields.keys) :
    resolveOrder m'.fields .algebraic = .ok m'.order := by
  have hfound := hload.order
  rw [horder] at hfound
  rw [resolveOrder_congr (.inl rfl) (hload.filed .algebraic) (h.sameReads_algebraic hkeys), h.order]
  exact hfound

/-- **The order of the parameters is found again** exactly if all parameters in it are computed. -/
theorem parameterOrder_iff_of_reassigned (hload : LoadedFrom registry d m) (h : m.Reassigned m')
    (hkeys : m'.fields.keys = m.fields.keys) :
    resolveOrder m'.fields .parameter = .ok m'.parameterOrder ↔ m'.KeepsFunctions := by
  have hnow : m'.Evaluable := h.evaluable hload.sound.toEvaluable
  constructor
  · intro hsame name hname
    obtain ⟨hperm, -⟩ := evaluationOrder_of_resolveOrder hnow.named (.inr rfl) hsame
    obtain ⟨f, hf, rfl⟩ := List.mem_map.1 (hperm.mem_iff.1 hname)
    have hf := mem_computedOf_iff.1 hf
    exact ⟨f, hnow.named.get? hf.1, hf.2.2⟩
  · intro hkeeps
    have hsame : SameReads .parameter m.fields m'.fields := h.sameReads hkeys fun hf hg _ hfg =>
      hload.function_of_keepsFunctions h hkeeps hf hg hfg
    rw [resolveOrder_congr (.inr rfl) (hload.filed .parameter) hsame, h.parameterOrder]
    exact hload.parameterOrder

/-- An auxiliary field that is still computed is auxiliary still. -/
theorem mem_auxiliary_of_reassigned (hload : LoadedFrom registry d m) (h : m.Reassigned m')
    {name : String} (hname : name ∈ m'.auxiliary)
    (hcomputed : ∃ f, m'.field? name = some f ∧ f.isComputed = true) :
    name ∈ auxiliaryFields m'.fields := by
  have hnamed : Named m'.fields := (h.evaluable hload.sound.toEvaluable).named
  rw [h.auxiliary, hload.auxiliary, mem_auxiliaryFields_iff_name] at hname
  refine mem_auxiliaryFields_iff_name.2 ⟨(mem_computedNames_iff hnamed).2 hcomputed, ?_⟩
  exact mt (neededNames_subset hload.named hnamed h.keptIn) hname.2

theorem auxiliary_of_reassigned (hload : LoadedFrom registry d m) (h : m.Reassigned m')
    (hkeys : m'.fields.keys = m.fields.keys) (hkeeps : m'.KeepsFunctions) :
    m'.auxiliary = auxiliaryFields m'.fields := by
  have hnamed : Named m'.fields := (h.evaluable hload.sound.toEvaluable).named
  rw [h.auxiliary, hload.auxiliary]
  refine (auxiliaryFields_congr hload.named hnamed hkeys h.keptIn ?_).symm
  intro name f hf hcomputed
  obtain ⟨g, hg, hfg⟩ := h.kept hf
  have hfunction := hload.function_of_keepsFunctions h hkeeps hf hg hfg
  refine ⟨g, hg, ?_, ?_⟩
  · rwa [Field.isComputed, hfunction]
  · rw [Field.inputs, hfunction, Field.inputs]

end LoadedFrom

/-- The computed parameters of a model that can be evaluated have an order to be found. -/
theorem Model.Evaluable.exists_parameterOrder {m : Model α} (hm : m.Evaluable) :
    ∃ order, resolveOrder m.fields .parameter = .ok order := by
  have hfiled : Filed m.fields .parameter := fun f hf =>
    exists_partitionInputs_iff.2 (hm.reads (hm.named.get? (mem_computedOf_iff.1 hf).1))
  exact exists_resolveOrder_of_follows hm.named (.inr rfl) hfiled
    (hm.parameterOrder.idxOf_lt hm.named)

/-! ## Simulations in use -/

namespace Simulation

variable [Scalar α] {s s' loaded : Simulation α}

theorem Assigns.keys_eq {name : String} {v : Value α} (h : s.Assigns name v s') :
    s'.model.fields.keys = s.model.fields.keys := by
  cases h with
  | initial | value | start => exact OrderedMap.keys_modify _ _ _
  | runs | regions => rfl

theorem Reaches.keys_eq {allowed : String → Prop} (h : s.Reaches allowed s') :
    s'.model.fields.keys = s.model.fields.keys :=
  h.induct (motive := fun mid => mid.model.fields.keys = s.model.fields.keys)
    (fun _ hassigns hmid => hassigns.keys_eq.trans hmid) (fun _ _ hmid => hmid) rfl

/-- **What was found out at loading, whatever calls were made since** — the order of the algebraic
fields is the one found for the fields as they are. The order of the parameters is one for the
parameters as they are, there is one to be found for them, and it is the same exactly if all
parameters in the order are computed. Auxiliary fields that are computed are auxiliary still, and if
all parameters in the order are computed there are no others. -/
theorem analysis_follows {registry : Registry α} {d : Description α} {seed : Nat}
    (hload : Simulation.load registry d seed = .ok loaded) (horder : d.order = none)
    (h : loaded.Reaches (fun _ => True) s) :
    resolveOrder s.model.fields .algebraic = .ok s.model.order ∧
    EvaluationOrder s.model.fields .parameter s.model.parameterOrder ∧
    (∃ order, resolveOrder s.model.fields .parameter = .ok order) ∧
    (resolveOrder s.model.fields .parameter = .ok s.model.parameterOrder ↔
      s.model.KeepsFunctions) ∧
    (∀ name ∈ s.model.auxiliary, (∃ f, s.model.field? name = some f ∧ f.isComputed = true) →
      name ∈ auxiliaryFields s.model.fields) ∧
    (s.model.KeepsFunctions → s.model.auxiliary = auxiliaryFields s.model.fields) := by
  have hmodel := load_of_loadSimulation hload
  have hfrom := loadedFrom_of_load hmodel
  have hre := h.reassigned
  have hnow : s.model.Evaluable := (h.inUse (.loaded hmodel)).evaluable
  exact ⟨hfrom.order_of_reassigned horder hre h.keys_eq, hnow.parameterOrder,
    hnow.exists_parameterOrder, hfrom.parameterOrder_iff_of_reassigned hre h.keys_eq,
    fun name hname => hfrom.mem_auxiliary_of_reassigned hre hname,
    hfrom.auxiliary_of_reassigned hre h.keys_eq⟩

end Simulation

/-- Two stocks that read each other, one with a chain of parameters to be computed before, and a
preset that gives a value to the last of the chain. -/
def worn : Description Fraction where
  name := "worn"
  differential := .ofList
    [("x", ⟨[("func", .function ((Expression.input "y").toFunction ["y"])),
        ("initial", .value (.scalar (.of 1)))]⟩),
      ("y", ⟨[("func", .function ((Expression.binary .mul (.input "x")
          (.input "p")).toFunction ["x", "p"])),
        ("initial", .value (.scalar (.of 1)))]⟩)]
  parameter := .ofList
    [("p", ⟨[("func", .function ((Expression.input "q").toFunction ["q"]))]⟩),
      ("q", ⟨[("func", .function ((Expression.input "base").toFunction ["base"]))]⟩),
      ("base", ⟨[("value", .value (.scalar (.of 1)))]⟩)]
  presets := .ofList [("fixed", ⟨.ofList [("p", .scalar (.of 2))], "p given"⟩)]

/-- The simulation after the preset, what it has on its lists, and what is found for its fields. -/
theorem worn_fixed : ∃ loaded s, Simulation.load .empty worn 0 = .ok loaded ∧
    loaded.setPreset "fixed" = (s, .ok ()) ∧
    s.model.parameterOrder = ["q", "p"] ∧ resolveOrder s.model.fields .parameter = .ok ["q"] ∧
    s.model.auxiliary = ["time"] ∧ auxiliaryFields s.model.fields = ["time", "q"] := by
  have hlists : ((Simulation.load .empty worn 0).toOption.map fun loaded =>
      let (s, outcome) := loaded.setPreset "fixed"
      (outcome.toOption.isSome, s.model.parameterOrder,
        (resolveOrder s.model.fields .parameter).toOption, s.model.auxiliary,
        auxiliaryFields s.model.fields)) =
          some (true, ["q", "p"], some ["q"], ["time"], ["time", "q"]) := by
    decide +kernel
  obtain ⟨loaded, hloaded, h⟩ := Option.map_eq_some_iff.1 hlists
  simp only [Prod.mk.injEq] at h
  obtain ⟨hok, hparameters, hfound, hauxiliary, hnow⟩ := h
  obtain ⟨s, hset⟩ := exists_eq_ok_of_isSome hok
  rw [hset] at hparameters hfound hauxiliary hnow
  exact ⟨loaded, s, toOption_eq_some_iff.1 hloaded, hset, hparameters,
    toOption_eq_some_iff.1 hfound, hauxiliary, hnow⟩

/-- **The lists can lag behind**: with a value for `p`, the order of the parameters still lists it,
and `q`, which nothing else reads, is not on the list of auxiliary fields. -/
theorem worn_analysis_lags : ∃ loaded s, Simulation.load .empty worn 0 = .ok loaded ∧
    worn.order = none ∧ loaded.setPreset "fixed" = (s, .ok ()) ∧
    resolveOrder s.model.fields .parameter ≠ .ok s.model.parameterOrder ∧
    auxiliaryFields s.model.fields ≠ s.model.auxiliary := by
  obtain ⟨loaded, s, hload, hset, hparameters, hfound, hauxiliary, hnow⟩ := worn_fixed
  refine ⟨loaded, s, hload, rfl, hset, ?_, ?_⟩
  · rw [hparameters, hfound]
    exact fun heq => nomatch heq
  · rw [hauxiliary, hnow]
    exact fun heq => nomatch heq

/-- What was found out at loading, for the same simulation. -/
theorem worn_analysis : ∃ loaded s, Simulation.load .empty worn 0 = .ok loaded ∧
    worn.order = none ∧ loaded.Reaches (fun _ => True) s ∧
    resolveOrder s.model.fields .algebraic = .ok s.model.order ∧
    EvaluationOrder s.model.fields .parameter s.model.parameterOrder ∧
    ¬ s.model.KeepsFunctions := by
  obtain ⟨loaded, s, hload, hset, hparameters, hfound, -, -⟩ := worn_fixed
  have hreaches : loaded.Reaches (fun _ => True) (loaded.perform (.preset "fixed")).1 :=
    .called _ .start fun _ _ => trivial
  rw [Simulation.perform, hset] at hreaches
  obtain ⟨horder, hevaluation, -, hkeeps, -, -⟩ := Simulation.analysis_follows hload rfl hreaches
  refine ⟨loaded, s, hload, rfl, hreaches, horder, hevaluation, fun h => ?_⟩
  have hsame := hkeeps.2 h
  rw [hparameters, hfound] at hsame
  cases hsame

end FieldFlow
