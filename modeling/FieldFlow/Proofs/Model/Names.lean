import FieldFlow.Proofs.Model.Rearranged
import FieldFlow.Proofs.Model.Soundness

/-!
# Proofs/Model/Names — which names a loaded model has fields for

Every declared name has the field that was built from its declaration (`LoadedFrom.declared`).
Beyond them there is `time`, and a parameter for each name that some declared function reads
(`LoadedFrom.field?_eq_none_iff`).
-/

namespace FieldFlow

variable {α : Type}

/-- A name that some declaration is for. -/
def Description.Declares (d : Description α) (name : String) : Prop :=
  name ∈ d.declarations.map fun entry => entry.2.1

instance (d : Description α) : DecidablePred d.Declares :=
  fun name => inferInstanceAs (Decidable (name ∈ d.declarations.map _))

theorem Description.declares_iff {d : Description α} {name : String} :
    d.Declares name ↔ ∃ category e, (category, name, e) ∈ d.declarations := by
  rw [Declares, List.mem_map]
  constructor
  · rintro ⟨⟨category, _, e⟩, he, rfl⟩
    exact ⟨category, e, he⟩
  · rintro ⟨category, e, he⟩
    exact ⟨_, he, rfl⟩

/-- The inputs of the function that a declaration has. -/
def Declaration.reads (d : Declaration α) : List String := (d.function?.map Function.inputs).getD []

/-- A name that some declared function reads. -/
def Description.Reads (d : Description α) (name : String) : Prop :=
  ∃ entry ∈ d.declarations, name ∈ entry.2.2.reads

instance (d : Description α) : DecidablePred d.Reads :=
  fun name => inferInstanceAs (Decidable (∃ entry ∈ d.declarations, name ∈ entry.2.2.reads))

variable [Scalar α]

theorem function_of_completeField {d : Declaration α} {defaults : Option (Defaults α)}
    {field f : Field α} (hfunction : field.function = none)
    (h : completeField d defaults field = .ok f) : f.function = d.function? := by
  cases completion_of_completeField h with
  | dynamic _ hg | algebraic _ hg | computed _ hg => exact hg.symm
  | fixed _ hg | size _ hg => exact hfunction.trans hg.symm

theorem function_of_buildField {registry : Registry α} {category : Category} {name : String}
    {d : Declaration α} {f : Field α} (h : buildField registry category name d = .ok f) :
    f.function = d.function? := by
  obtain ⟨g, axes, hg, -, rfl⟩ := exists_completed h
  have hfunction : g.function = d.function? := function_of_completeField rfl hg
  exact hfunction

/-- A built field reads what its declaration reads. -/
theorem inputs_of_buildField {registry : Registry α} {category : Category} {name : String}
    {d : Declaration α} {f : Field α} (h : buildField registry category name d = .ok f) :
    f.inputs = d.reads := by
  unfold Field.inputs Declaration.reads
  rw [← function_of_buildField h]
  cases f.function <;> rfl

/-- What is not declared is not built. -/
theorem get?_buildFields_eq_none {registry : Registry α} {d : Description α} {fields : FieldMap α}
    {name : String} (h : buildFields registry d.declarations = .ok fields)
    (hdeclares : ¬ d.Declares name) : fields.get? name = none :=
  Option.eq_none_iff_forall_ne_some.2 fun f hf => by
    obtain ⟨category, e, he, -⟩ := of_buildFields h name f hf
    exact hdeclares (Description.declares_iff.2 ⟨category, e, he⟩)

namespace LoadedFrom

variable {registry : Registry α} {d : Description α} {m : Model α}

/-- **Every declaration has its field.** -/
theorem declared (h : LoadedFrom registry d m) {category : Category} {name : String}
    {e : Declaration α} (he : (category, name, e) ∈ d.declarations) :
    ∃ f, buildField registry category name e = .ok f ∧ m.field? name = some f := by
  obtain ⟨declared, hdeclared, hpulled⟩ := h.built
  obtain ⟨f, hf, hget⟩ := exists_built hdeclared he
  have htimed : (declared.insertFirst "time" (timeField registry)).get? name = some f := by
    rw [OrderedMap.get?_insertFirst, hget, Option.some_or]
  refine ⟨f, hf, ?_⟩
  have hpull := get?_pullParameters hpulled name
  rwa [if_neg, htimed] at hpull
  rw [mem_undeclaredReads_iff, htimed]
  exact fun hwanted => nomatch hwanted.2.2

/-- A model that does not declare its time has the one that is added. -/
theorem field?_time (h : LoadedFrom registry d m) (hdeclares : ¬ d.Declares "time") :
    m.field? "time" = some (timeField registry) := by
  obtain ⟨declared, hdeclared, hpulled⟩ := h.built
  have hnone : declared.get? "time" = none := get?_buildFields_eq_none hdeclared hdeclares
  have htimed : (declared.insertFirst "time" (timeField registry)).get? "time" =
      some (timeField registry) := by
    rw [OrderedMap.get?_insertFirst, hnone, if_pos rfl, Option.none_or]
  have hpull : m.field? "time" = _ := get?_pullParameters hpulled "time"
  rw [hpull, if_neg, htimed]
  rw [mem_undeclaredReads_iff, htimed]
  exact fun hwanted => nomatch hwanted.2.2

/-- **The names without a field**: those that are not declared, are not `time`, and are read by no
declared function. -/
theorem field?_eq_none_iff (h : LoadedFrom registry d m) {name : String} (hself : name ≠ itself) :
    m.field? name = none ↔ ¬ d.Declares name ∧ name ≠ "time" ∧ ¬ d.Reads name := by
  constructor
  · intro hnone
    refine ⟨?_, ?_, ?_⟩
    · rw [Description.declares_iff]
      rintro ⟨category, e, he⟩
      obtain ⟨f, -, hf⟩ := h.declared he
      cases hnone.symm.trans hf
    · rintro rfl
      exact Option.ne_none_iff_isSome.2 h.isSome_time hnone
    · rintro ⟨⟨category, reader, e⟩, he, hreads⟩
      obtain ⟨f, hbuild, hf⟩ := h.declared he
      have hmay := h.sound.reads hf name (inputs_of_buildField hbuild ▸ hreads)
      rw [MayRead, if_neg hself] at hmay
      obtain ⟨-, read, hget, -⟩ := hmay
      cases hnone.symm.trans hget
  · rintro ⟨hdeclares, htime, hreads⟩
    obtain ⟨declared, hdeclared, hpulled⟩ := h.built
    have htimed : ∀ {name f}, (declared.insertFirst "time" (timeField registry)).get? name = some f →
        (∃ category e, (category, name, e) ∈ d.declarations ∧
          buildField registry category name e = .ok f) ∨ name = "time" ∧ timeField registry = f := by
      intro name f hf
      rw [OrderedMap.get?_insertFirst, Option.or_eq_some_iff] at hf
      exact hf.imp (of_buildFields hdeclared name f) fun hf => by simpa using hf.2
    have hpull : m.field? name = _ := get?_pullParameters hpulled name
    rw [hpull, if_neg]
    · refine Option.eq_none_iff_forall_ne_some.2 fun f hf => ?_
      rcases htimed hf with ⟨category, e, he, -⟩ | ⟨heq, -⟩
      · exact hdeclares (Description.declares_iff.2 ⟨category, e, he⟩)
      · exact htime heq
    · rw [mem_undeclaredReads_iff]
      rintro ⟨⟨f, hf, hinput⟩, -⟩
      obtain ⟨reader, hf⟩ := OrderedMap.mem_values_iff.1 hf
      rcases htimed hf with ⟨category, e, he, hbuild⟩ | ⟨-, rfl⟩
      · exact hreads ⟨_, he, inputs_of_buildField hbuild ▸ hinput⟩
      · cases hinput

end LoadedFrom

end FieldFlow
