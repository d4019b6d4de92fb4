import FieldFlow.Proofs.Model.Names
import FieldFlow.Proofs.Run.Plan
import FieldFlow.Proofs.Simulation.Calls

/-!
# Proofs/Simulation/Presets — what was declared and can still not be used

Loading looks at the names and kinds of what it is given and not at the values. So a loaded model
can lay out all its values exactly if all declared ones can be laid out, and a declared preset can
be applied exactly if its values can and it sets no size (`load_usable_iff`).
-/

namespace FieldFlow

variable {α : Type} [Scalar α]

/-! ## Declared values -/

/-- The value that an attribute holds, if it holds one. -/
def Attribute.value? : Attribute α → Option (Value α)
  | .value v => some v
  | _ => none

/-- The value under a key. -/
def Declaration.value? (d : Declaration α) (key : String) : Option (Value α) :=
  (d.get? key).bind Attribute.value?

/-- **The value that a declaration gives its field**: to start from, or to keep. -/
def Declaration.given? (category : Category) (d : Declaration α) : Option (Value α) :=
  match kindOf category d with
  | .dynamic => d.value? "initial"
  | .parameter => d.value? "value"
  | .algebraic | .size => none

/-- What is found is what was given, or where nothing was given at most a number. -/
def Completes (given found : Option (Value α)) : Prop :=
  found = given ∨ given = none ∧ ∃ c, found = some (.scalar c)

omit [Scalar α] in
theorem completes_of_initialOf {name : String} {d : Declaration α} {defaults : Option (Defaults α)}
    {v : Value α} (h : initialOf name d defaults = .ok v) :
    Completes (d.value? "initial") (some v) := by
  unfold initialOf at h
  split at h
  · rename_i hget
    rw [← Except.ok.inj h, Declaration.value?, hget]
    exact .inl rfl
  · rename_i hget
    have hnone : d.value? "initial" = none := by
      rw [Declaration.value?, Option.bind_eq_none_iff]
      intro held hheld
      cases held with
      | value v => exact absurd hheld (hget v)
      | function | text | names => rfl
    split at h
    · exact .inr ⟨hnone, _, congrArg some (Except.ok.inj h).symm⟩
    · exact nomatch h

omit [Scalar α] in
theorem completes_of_parameterValue {name : String} {d : Declaration α}
    {defaults : Option (Defaults α)} {v : Value α} (h : parameterValue name d defaults = .ok v) :
    Completes (d.value? "value") (some v) := by
  unfold parameterValue at h
  split at h
  · rename_i hget
    rw [← Except.ok.inj h, Declaration.value?, hget]
    exact .inl rfl
  · exact nomatch h
  · rename_i hget
    have hnone : d.value? "value" = none := by
      rw [Declaration.value?, hget, Option.bind_none]
    split at h
    · exact .inr ⟨hnone, _, congrArg some (Except.ok.inj h).symm⟩
    · exact nomatch h

theorem completes_of_completeField {category : Category} {d : Declaration α}
    {defaults : Option (Defaults α)} {field f : Field α} (hkind : field.kind = kindOf category d)
    (hvalue : field.value = none) (h : completeField d defaults field = .ok f) :
    Completes (d.given? category) f.assigned := by
  unfold Field.assigned Declaration.given?
  rw [← hkind]
  cases completion_of_completeField h with
  | dynamic hdynamic _ _ hv =>
    simp only [hdynamic]
    exact completes_of_initialOf hv
  | algebraic halgebraic =>
    simp only [halgebraic]
    exact .inl rfl
  | computed hparameter _ hnone =>
    simp only [hparameter, Declaration.value?, hnone]
    exact .inl hvalue
  | fixed hparameter _ hv =>
    simp only [hparameter]
    exact completes_of_parameterValue hv
  | size hsize =>
    simp only [hsize]
    exact .inl rfl

theorem completes_of_buildField {registry : Registry α} {category : Category} {name : String}
    {d : Declaration α} {f : Field α} (h : buildField registry category name d = .ok f) :
    Completes (d.given? category) f.assigned := by
  obtain ⟨g, axes, hg, -, rfl⟩ := exists_completed h
  have hgiven : Completes (d.given? category) g.assigned := completes_of_completeField rfl rfl hg
  exact hgiven

/-- **The values of a loaded model** are the declared ones, and numbers beside them. -/
theorem LoadedFrom.assigned_cases {registry : Registry α} {d : Description α} {m : Model α}
    (h : LoadedFrom registry d m) {name : String} {f : Field α} {v : Value α}
    (hf : m.field? name = some f) (hv : f.assigned = some v) :
    (∃ c, v = .scalar c) ∨ ∃ category e, (category, name, e) ∈ d.declarations ∧
      e.given? category = some v := by
  rcases h.origin hf with ⟨category, e, he, hbuild⟩ | ⟨-, rfl⟩ | ⟨value, metadata, rfl⟩
  · rcases completes_of_buildField hbuild with hgiven | ⟨-, c, hc⟩
    · exact .inr ⟨category, e, he, hgiven.symm.trans hv⟩
    · exact .inl ⟨c, Option.some.inj (hv.symm.trans hc)⟩
  · exact .inl ⟨_, (Option.some.inj hv).symm⟩
  · exact .inl ⟨_, (Option.some.inj hv).symm⟩

theorem LoadedFrom.assigned_of_given {registry : Registry α} {d : Description α} {m : Model α}
    (h : LoadedFrom registry d m) {category : Category} {name : String} {e : Declaration α}
    {v : Value α} (he : (category, name, e) ∈ d.declarations) (hv : e.given? category = some v) :
    ∃ f, m.field? name = some f ∧ f.assigned = some v := by
  obtain ⟨f, hbuild, hf⟩ := h.declared he
  refine ⟨f, hf, ?_⟩
  rcases completes_of_buildField hbuild with hgiven | ⟨hnone, -⟩
  · exact hgiven.trans hv
  · exact nomatch hnone.symm.trans hv

/-! ## What can be used -/

section Usable

variable {registry : Registry α} {d : Description α} {seed : Nat} {s : Simulation α}

/-- The values of a loaded model can be laid out exactly if the declared ones can — what was not
declared is one number. -/
theorem laid_iff_of_load (h : LoadedFrom registry d s.model) :
    (∀ name f v, s.model.field? name = some f → f.assigned = some v →
      ∃ t, v.toTensor name = .ok t) ↔
        ∀ category name e v, (category, name, e) ∈ d.declarations →
          e.given? category = some v → v.Regular := by
  constructor
  · intro hlaid category name e v he hv
    obtain ⟨f, hf, hassigned⟩ := h.assigned_of_given he hv
    exact Value.exists_toTensor_iff.1 (hlaid name f v hf hassigned)
  · intro hregular name f v hf hv
    refine Value.exists_toTensor_iff.2 ?_
    rcases h.assigned_cases hf hv with ⟨c, rfl⟩ | ⟨category, e, he, hgiven⟩
    · trivial
    · exact hregular category name e v he hgiven

/-- A preset of a loaded model can be applied exactly if its values can be laid out and it sets no
size — loading has seen to it that it sets nothing algebraic. -/
theorem setPreset_iff_of_load (h : LoadedFrom registry d s.model) {name : String} {p : Preset α}
    (hp : d.presets.get? name = some p) : (∃ next, s.setPreset name = (next, .ok ())) ↔
      ∀ entry ∈ p.values.entries, entry.2.Regular ∧
        ∀ f, s.model.field? entry.1 = some f → f.kind ≠ .size := by
  have hpresets : s.model.presets.get? name = some p := h.described.2.2 ▸ hp
  have happlied : s.setPreset name = s.setAll p.values.entries := by
    rw [Simulation.setPreset, hpresets]
  rw [happlied, Simulation.exists_setAll_iff]
  refine forall₂_congr fun entry hentry => ?_
  obtain ⟨f, hf, hkind⟩ := of_checkPresets h.presets _ (OrderedMap.get?_eq_some_iff.1 hpresets)
    entry.1 (List.mem_map_of_mem hentry)
  have hf : s.model.field? entry.1 = some f := hf
  rw [Simulation.accepts_iff hf, and_comm, and_congr_right_iff]
  intro _
  constructor
  · intro hassignable g hg hsize
    obtain rfl := Option.some.inj (hf.symm.trans hg)
    simp [hsize] at hassignable
  · intro hfree
    have hsize := hfree f hf
    revert hkind hsize
    cases f.kind <;> simp

/-- **What loads can be used** as far as its values go: all that is given to fields can be laid out
exactly if all that was declared for them can, and a declared preset can be applied exactly if its
values can be laid out and it sets no size. -/
theorem load_usable_iff (h : Simulation.load registry d seed = .ok s) :
    ((∀ name f v, s.model.field? name = some f → f.assigned = some v →
      ∃ t, v.toTensor name = .ok t) ↔
        ∀ category name e v, (category, name, e) ∈ d.declarations →
          e.given? category = some v → v.Regular) ∧
      ∀ name p, d.presets.get? name = some p → ((∃ next, s.setPreset name = (next, .ok ())) ↔
        ∀ entry ∈ p.values.entries, entry.2.Regular ∧
          ∀ f, s.model.field? entry.1 = some f → f.kind ≠ .size) := by
  have hloaded := loadedFrom_of_load (load_of_loadSimulation h)
  exact ⟨laid_iff_of_load hloaded, fun _ _ hp => setPreset_iff_of_load hloaded hp⟩

end Usable

/-- Growth can lay out its values, and its preset can be applied. -/
theorem growth_usable : ∃ s, Simulation.load .empty growth 0 = .ok s ∧
    (∀ name f v, s.model.field? name = some f → f.assigned = some v →
      ∃ t, v.toTensor name = .ok t) ∧ ∃ next, s.setPreset "fast" = (next, .ok ()) := by
  have hdeclared : (growth.declarations.all fun entry =>
      (entry.2.2.given? entry.1).all fun v => decide v.Regular) = true := by
    decide +kernel
  have hloads : ((Simulation.load .empty growth 0).toOption.bind fun s =>
      (growth.presets.get? "fast").map fun p => p.values.entries.all fun entry =>
        decide entry.2.Regular && (s.model.field? entry.1).all fun f => f.kind ≠ .size) =
          some true := by
    decide +kernel
  obtain ⟨s, hs, h⟩ := Option.bind_eq_some_iff.1 hloads
  obtain ⟨p, hp, hpreset⟩ := Option.map_eq_some_iff.1 h
  have hs := toOption_eq_some_iff.1 hs
  obtain ⟨hlaid, hpresets⟩ := load_usable_iff hs
  refine ⟨s, hs, hlaid.2 fun category name e v he hv => ?_, (hpresets "fast" p hp).2
    fun entry hentry => ?_⟩
  · have hgiven := List.all_eq_true.1 hdeclared _ he
    dsimp only at hgiven
    rw [hv] at hgiven
    exact of_decide_eq_true hgiven
  · obtain ⟨hregular, hkind⟩ := Bool.and_eq_true_iff.1 (List.all_eq_true.1 hpreset entry hentry)
    refine ⟨of_decide_eq_true hregular, fun f hf => ?_⟩
    rw [hf] at hkind
    exact of_decide_eq_true hkind

/-- A price that is given for no run, and a preset for the number of goods. -/
def misgiven : Description Float where
  name := "misgiven"
  parameter := .ofList [("price", ⟨[("value", .value (.runs []))]⟩)]
  size := .ofList [("goods", ⟨[("labels", .names ["corn", "iron"])]⟩)]
  presets := .ofList [("more", ⟨.ofList [("goods", .scalar 3.0)], "more goods"⟩)]

/-- **What cannot be used may load**: neither the declared value nor the declared preset can be. -/
theorem misgiven_loads : ∃ s, Simulation.load .empty misgiven 0 = .ok s ∧
    (∃ f v, s.model.field? "price" = some f ∧ f.value = some v ∧
      ¬ ∃ t, v.toTensor "price" = .ok t) ∧
    (misgiven.presets.get? "more").isSome ∧ ¬ ∃ next, s.setPreset "more" = (next, .ok ()) := by
  have hloads : ((Simulation.load .empty misgiven 0).toOption.map fun s =>
      (((s.model.field? "price").bind Field.value).any fun v => !decide v.Regular,
        (s.setPreset "more").2.toOption.isSome)) = some (true, false) := by
    decide +kernel
  obtain ⟨s, hs, h⟩ := Option.map_eq_some_iff.1 hloads
  obtain ⟨hprice, hrefused⟩ := Prod.mk.inj h
  obtain ⟨v, hv, hirregular⟩ := (Option.any_eq_true _ _).1 hprice
  obtain ⟨f, hf, hvalue⟩ := Option.bind_eq_some_iff.1 hv
  refine ⟨s, toOption_eq_some_iff.1 hs, ⟨f, v, hf, hvalue, ?_⟩, rfl, ?_⟩
  · rw [Value.exists_toTensor_iff]
    simpa using hirregular
  · rintro ⟨next, hnext⟩
    rw [hnext] at hrefused
    exact nomatch hrefused

end FieldFlow
