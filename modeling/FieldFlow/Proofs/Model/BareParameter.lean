import FieldFlow.Field.Expression
import FieldFlow.Proofs.Model.Displaced
import FieldFlow.Proofs.Model.Names
import FieldFlow.Proofs.Scalar.Fraction

/-!
# Proofs/Model/BareParameter — what is read may be declared without attributes

A parameter that is read and not declared comes from the registry, and so does the value of one that
is declared without attributes. The field is the same (`buildField_bare`), only it is not put in
the same place: pulled in, it goes behind all declared fields. So a description loads if and only if
it loads with the parameter declared, and to the same model (`load_bare_iff`).
-/

namespace FieldFlow

open OrderedMap (Adds Displaced)

variable {α : Type}

/-! ## The field -/

/-- What is pulled in has no place that matters. -/
theorem plain_of_pulledParameter {registry : Registry α} {name : String} {f : Field α}
    (h : pulledParameter registry name = some f) : f.Plain := by
  obtain ⟨defaults, -, hvalue⟩ := Option.bind_eq_some_iff.1 h
  obtain ⟨value, -, rfl⟩ := Option.map_eq_some_iff.1 hvalue
  exact ⟨rfl, rfl, rfl⟩

theorem inputs_of_pulledParameter {registry : Registry α} {name : String} {f : Field α}
    (h : pulledParameter registry name = some f) : f.inputs = [] := by
  rw [Field.inputs, (plain_of_pulledParameter h).function]

/-- **A parameter without attributes** is the one that would be pulled in. -/
theorem buildField_bare [Scalar α] (registry : Registry α) (name : String) {category : Category}
    (hcategory : category = .parameter ∨ category = .unclassified) :
    buildField registry category name ⟨[]⟩ =
      match pulledParameter registry name with
      | some f => .ok f
      | none => .error (.malformedField name .neitherValueNorFunction) := by
  have hkind : kindOf category (⟨[]⟩ : Declaration α) = .parameter := by
    rcases hcategory with rfl | rfl <;> rfl
  unfold buildField pulledParameter
  rw [hkind]
  cases registry.get? name with
  | none => rfl
  | some defaults =>
    obtain ⟨value, initial, metadata⟩ := defaults
    cases value <;> rfl

/-- Entries that keep the key of what they were made from may be told apart before they are made. -/
theorem filter_filterMap_of_key {β γ : Type} {g : β → Option (String × γ)} {key : β → String}
    (hkey : ∀ b entry, g b = some entry → entry.1 = key b) (name : String) (xs : List β) :
    (xs.filterMap g).filter (fun entry => entry.1 ≠ name) =
      (xs.filter fun b => key b ≠ name).filterMap g := by
  induction xs with
  | nil => rfl
  | cons b xs ih =>
    cases hb : g b with
    | none =>
      rw [List.filterMap_cons_none hb, ih, List.filter_cons]
      split
      · rw [List.filterMap_cons_none hb]
      · rfl
    | some entry =>
      rw [List.filterMap_cons_some hb, List.filter_cons, List.filter_cons, hkey b entry hb, ih]
      split
      · rw [List.filterMap_cons_some hb]
      · rfl

/-! ## What is wanted -/

section Wanted

variable {name : String} {f : Field α} {fields fields' : FieldMap α}

/-- What a field reads, each name with the field that reads it. -/
def Field.readings (f : Field α) : List (String × String) :=
  f.inputs.map fun input => (input, f.name)

theorem undeclaredReads_eq (fields : FieldMap α) : undeclaredReads fields =
    ((fields.values.flatMap Field.readings).foldl (want fields) .empty).entries := rfl

/-- Which names are wanted depends on the names that there are and on what the fields read. -/
theorem undeclaredReads_congr (hkeys : fields.keys = fields'.keys)
    (hreads : fields.values.flatMap Field.readings = fields'.values.flatMap Field.readings) :
    undeclaredReads fields = undeclaredReads fields' := by
  have hwant : want fields = want fields' := by
    funext wanted entry
    have hsame : fields.contains entry.1 = fields'.contains entry.1 := by
      rw [Bool.eq_iff_iff, OrderedMap.contains_iff, OrderedMap.contains_iff, hkeys]
    rw [want, want, hsame]
  rw [undeclaredReads_eq, undeclaredReads_eq, hwant, hreads]

/-- The time of a model reads nothing, whenever it starts. -/
theorem undeclaredReads_insertFirst {g g' : Field α} (h : g.readings = g'.readings)
    (fields : FieldMap α) (key : String) :
    undeclaredReads (fields.insertFirst key g) = undeclaredReads (fields.insertFirst key g') := by
  unfold OrderedMap.insertFirst
  split
  · rfl
  · refine undeclaredReads_congr rfl ?_
    simp only [OrderedMap.values, List.map_cons, List.flatMap_cons, h]

theorem want_filterKeys (h : Adds name f fields fields') (wanted : OrderedMap String)
    (entry : String × String) : want fields' (wanted.filterKeys (· ≠ name)) entry =
      (want fields wanted entry).filterKeys (· ≠ name) := by
  unfold want
  by_cases hname : entry.1 = name
  · have hhas : fields'.contains entry.1 = true := h.contains_iff.2 (.inr hname)
    rw [hhas, Bool.or_true, Bool.true_or, if_pos rfl]
    split
    · rfl
    · rw [OrderedMap.filterKeys_insert, if_neg (by simpa using hname)]
  · have hsame : fields'.contains entry.1 = fields.contains entry.1 :=
      Bool.eq_iff_iff.2 (h.contains_iff.trans (or_iff_left hname))
    have hlisted : (wanted.filterKeys (· ≠ name)).contains entry.1 = wanted.contains entry.1 := by
      rw [Bool.eq_iff_iff, OrderedMap.contains_iff, OrderedMap.contains_iff,
        OrderedMap.mem_keys_filterKeys]
      exact and_iff_left (decide_eq_true hname)
    rw [hsame, hlisted]
    split
    · rfl
    · rw [OrderedMap.filterKeys_insert, if_pos (decide_eq_true hname)]

/-- **What has a field is wanted no more**; everything else is wanted as before. -/
theorem undeclaredReads_of_adds (h : Adds name f fields fields') (hinputs : f.inputs = []) :
    undeclaredReads fields' = (undeclaredReads fields).filter fun entry => entry.1 ≠ name := by
  have hfold : ∀ (reads : List (String × String)) (wanted : OrderedMap String),
      reads.foldl (want fields') (wanted.filterKeys (· ≠ name)) =
        (reads.foldl (want fields) wanted).filterKeys (· ≠ name) := by
    intro reads
    induction reads with
    | nil => exact fun _ => rfl
    | cons read reads ih =>
      intro wanted
      rw [List.foldl_cons, List.foldl_cons, want_filterKeys h, ih]
  have hreads : fields'.values.flatMap Field.readings = fields.values.flatMap Field.readings := by
    have hsilent : ∀ g, fields'.get? name = some g → g.readings = [] := fun g hg => by
      obtain rfl := Option.some.inj (h.present.symm.trans hg)
      rw [Field.readings, hinputs, List.map_nil]
    have habsent : ∀ g, fields.get? name = some g → g.readings = [] := fun g hg =>
      nomatch h.absent.symm.trans hg
    rw [← OrderedMap.flatMap_values_filterKeys hsilent, ← h.others,
      OrderedMap.flatMap_values_filterKeys habsent]
  rw [undeclaredReads_eq, hreads]
  exact congrArg OrderedMap.entries (hfold _ .empty)

/-! ## What is pulled in -/

variable {registry : Registry α} {wanted : List (String × String)}

/-- With one of the wanted parameters already there, the others are there to be pulled in or not. -/
theorem exists_pullParameters_iff (h : Adds name f fields fields')
    (hf : pulledParameter registry name = some f) :
    (∃ pulled, pullParameters registry fields = .ok pulled) ↔
      ∃ pulled, pullParameters registry fields' = .ok pulled := by
  simp only [pullParameters_eq_ok_iff, exists_and_left, exists_eq', and_true]
  rw [undeclaredReads_of_adds h (inputs_of_pulledParameter hf)]
  refine ⟨fun hall entry hentry => hall entry (List.mem_of_mem_filter hentry),
    fun hall entry hentry => ?_⟩
  by_cases hname : entry.1 = name
  · rw [hname, hf, Option.isSome_some]
  · exact hall entry (List.mem_filter.2 ⟨hentry, decide_eq_true hname⟩)

/-- **Pulling in the rest**: the fields are the same afterwards, whether one of the wanted
parameters was already there or is pulled in among the others. -/
theorem displaced_of_pullParameters {pulled pulled' : FieldMap α} (h : Adds name f fields fields')
    (hf : pulledParameter registry name = some f)
    (hwanted : name ∈ (undeclaredReads fields).map Prod.fst)
    (hpulled : pullParameters registry fields = .ok pulled)
    (hpulled' : pullParameters registry fields' = .ok pulled') : Displaced name pulled pulled' where
  value := by
    have hpresent : name ∉ (undeclaredReads fields').map Prod.fst := by
      rw [mem_undeclaredReads_iff, h.present]
      rintro ⟨-, -, hnone⟩
      cases hnone
    rw [get?_pullParameters hpulled, if_pos hwanted, get?_pullParameters hpulled', if_neg hpresent,
      h.present, hf]
  others := by
    have hkey : ∀ wanted entry, pulledPair? registry wanted = some entry → entry.1 = wanted.1 := by
      intro wanted entry hentry
      obtain ⟨parameter, -, rfl⟩ := Option.map_eq_some_iff.1 hentry
      rfl
    obtain ⟨-, rfl⟩ := pullParameters_eq_ok_iff.1 hpulled
    obtain ⟨-, rfl⟩ := pullParameters_eq_ok_iff.1 hpulled'
    rw [OrderedMap.filterKeys_extend, OrderedMap.filterKeys_extend, filter_filterMap_of_key hkey,
      filter_filterMap_of_key hkey, undeclaredReads_of_adds h (inputs_of_pulledParameter hf),
      List.filter_filter, h.others]
    simp only [Bool.and_self]

/-- Nothing else that is wanted is missing, so that the name is reached, and has no value. -/
theorem pullParameters_valueless {defaults : Defaults α}
    (hdefaults : registry.get? name = some defaults) (hvalue : defaults.value = none)
    (hwanted : name ∈ (undeclaredReads fields).map Prod.fst)
    (hothers : ∀ entry ∈ undeclaredReads fields, entry.1 ≠ name →
      (pulledParameter registry entry.1).isSome) :
    pullParameters registry fields = .error (.malformedField name .noRegistryValue) := by
  have hreached : ∀ fields reader, pullParameter registry fields (name, reader) =
      .error (.malformedField name .noRegistryValue) := by
    intro fields reader
    unfold pullParameter
    dsimp only
    rw [hdefaults]
    dsimp only
    rw [hvalue]
    rfl
  obtain ⟨reader, hentry⟩ : ∃ reader, (name, reader) ∈ undeclaredReads fields := by
    simpa using hwanted
  refine foldlM_eq_error (fun fields => hreached fields reader) hentry ?_
  rintro ⟨other, reader'⟩ hentry' fields
  by_cases hname : other = name
  · exact .inr (hname ▸ hreached fields reader')
  · obtain ⟨parameter, hparameter⟩ := Option.isSome_iff_exists.1 (hothers _ hentry' hname)
    exact .inl ⟨_, pullParameter_of_some hparameter fields reader'⟩

end Wanted

/-! ## The description -/

/-- **A name that is read and not declared**, so that its field has to come from the registry. -/
structure Description.LeavesOut (d : Description α) (name : String) : Prop where
  ne_itself : name ≠ itself
  ne_time : name ≠ "time"
  reads : d.Reads name
  undeclared : ¬ d.Declares name

/-- **One parameter declared besides**, in a category that admits it, with nothing said about it. -/
inductive Description.DeclaresBare (d : Description α) (name : String) : Description α → Prop
  | parameter : DeclaresBare d name { d with parameter := d.parameter.insert name ⟨[]⟩ }
  | unclassified : DeclaresBare d name { d with unclassified := d.unclassified.insert name ⟨[]⟩ }

namespace Description.DeclaresBare

variable {d d' : Description α} {name : String} (h : d.DeclaresBare name d')

include h

theorem named : d'.name = d.name ∧ d'.summary = d.summary := by
  cases h <;> exact ⟨rfl, rfl⟩

theorem given : d'.presets = d.presets ∧ d'.order = d.order := by
  cases h <;> exact ⟨rfl, rfl⟩

/-- The new declaration stands somewhere among the others. -/
theorem exists_declarations (hdeclares : ¬ d.Declares name) : ∃ category before after,
    (category = .parameter ∨ category = .unclassified) ∧ d.declarations = before ++ after ∧
      d'.declarations = before ++ (category, name, ⟨[]⟩) :: after := by
  have hnew : ∀ category (declared : OrderedMap (Declaration α)),
      (∀ entry ∈ declared.entries, (category, entry) ∈ d.declarations) →
        (declared.insert name ⟨[]⟩).entries = declared.entries ++ [(name, ⟨[]⟩)] := by
    intro category declared hall
    refine OrderedMap.put_of_notMem _ fun hmem => hdeclares ?_
    obtain ⟨⟨_, e⟩, hentry, rfl⟩ := List.mem_map.1 hmem
    exact Description.declares_iff.2 ⟨category, e, hall _ hentry⟩
  cases h with
  | parameter =>
    have hentries := hnew .parameter d.parameter fun entry hentry => by
      simp [declarations, hentry]
    refine ⟨.parameter, _, d.size.entries.map fun e => (.size, e), .inl rfl, rfl, ?_⟩
    simp [declarations, hentries]
  | unclassified =>
    have hentries := hnew .unclassified d.unclassified fun entry hentry => by
      simp [declarations, hentry]
    refine ⟨.unclassified, d.differential.entries.map (fun e => (.differential, e)) ++
      d.statevar.entries.map (fun e => (.statevar, e)) ++
        d.unclassified.entries.map (fun e => (.unclassified, e)),
      d.parameter.entries.map (fun e => (.parameter, e)) ++
        d.size.entries.map (fun e => (.size, e)), .inr rfl, ?_, ?_⟩
    · simp [declarations]
    · simp [declarations, hentries]

end Description.DeclaresBare

section Loading

variable [Scalar α] {registry : Registry α} {d d' : Description α} {name : String} {f : Field α}

/-- The declarations can be built with the one besides if they can be without it. -/
theorem exists_buildFields_iff (h : d.DeclaresBare name d') (hdeclares : ¬ d.Declares name)
    (hf : pulledParameter registry name = some f) :
    (∃ declared, buildFields registry d.declarations = .ok declared) ↔
      ∃ declared, buildFields registry d'.declarations = .ok declared := by
  obtain ⟨category, before, after, hcategory, hd, hd'⟩ := h.exists_declarations hdeclares
  have hnew : name ∉ (before ++ after).map fun e => e.2.1 := hd ▸ hdeclares
  have hbare : builtPair? registry (category, name, ⟨[]⟩) = some (name, f) :=
    builtPair?_eq_some_iff.2 ⟨by rw [buildField_bare registry name hcategory, hf], rfl⟩
  simp only [buildFields_eq_ok_iff_entries, exists_and_left, exists_eq', and_true, hd, hd',
    List.map_append, List.map_cons, List.nodup_middle, List.nodup_cons, List.forall_mem_append,
    List.forall_mem_cons, hbare, Option.isSome_some, true_and] at hnew ⊢
  rw [and_iff_right hnew]

/-- **The declared fields** with the one that is declared besides. -/
theorem adds_of_buildFields {declared declared' : FieldMap α} (h : d.DeclaresBare name d')
    (hdeclares : ¬ d.Declares name) (hf : pulledParameter registry name = some f)
    (hdeclared : buildFields registry d.declarations = .ok declared)
    (hdeclared' : buildFields registry d'.declarations = .ok declared') :
    Adds name f declared declared' := by
  obtain ⟨category, before, after, hcategory, hd, hd'⟩ := h.exists_declarations hdeclares
  refine ⟨get?_buildFields_eq_none hdeclared hdeclares, ?_, ?_⟩
  · refine (get?_buildFields hdeclared').2 ⟨category, ⟨[]⟩, ?_, ?_⟩
    · exact hd' ▸ List.mem_append_right _ List.mem_cons_self
    · rw [buildField_bare registry name hcategory, hf]
  · have hkey : ∀ declaration entry, builtPair? registry declaration = some entry →
        entry.1 = declaration.2.1 := fun _ _ h => (builtPair?_eq_some_iff.1 h).2.symm
    obtain ⟨-, -, rfl⟩ := buildFields_eq_ok_iff_entries.1 hdeclared
    obtain ⟨-, -, rfl⟩ := buildFields_eq_ok_iff_entries.1 hdeclared'
    rw [OrderedMap.filterKeys_ofList, OrderedMap.filterKeys_ofList, filter_filterMap_of_key hkey,
      filter_filterMap_of_key hkey, hd, hd', List.filter_append, List.filter_append,
      List.filter_cons_of_neg (by simp)]

/-- What a description leaves out is wanted. -/
theorem wanted_of_leavesOut {declared : FieldMap α} {time : Field α} (hname : d.LeavesOut name)
    (hdeclared : buildFields registry d.declarations = .ok declared) :
    name ∈ (undeclaredReads (declared.insertFirst "time" time)).map Prod.fst := by
  refine mem_undeclaredReads_iff.2 ⟨?_, hname.ne_itself, ?_⟩
  · obtain ⟨⟨category, reader, e⟩, he, hread⟩ := hname.reads
    obtain ⟨g, hbuild, hg⟩ := exists_built hdeclared he
    refine ⟨g, OrderedMap.mem_values_iff.2 ⟨reader, ?_⟩, inputs_of_buildField hbuild ▸ hread⟩
    rw [OrderedMap.get?_insertFirst, hg, Option.some_or]
  · rw [OrderedMap.get?_insertFirst, if_neg hname.ne_time, Option.or_none,
      get?_buildFields_eq_none hdeclared hname.undeclared]

/-- The fields can be had with the parameter declared if they can be with it pulled in. -/
theorem exists_comesTo_iff (h : d.DeclaresBare name d') (hname : d.LeavesOut name)
    (hf : pulledParameter registry name = some f) :
    (∃ fields, d.ComesTo registry fields) ↔ ∃ fields', d'.ComesTo registry fields' := by
  have htimed : ∀ declared declared', buildFields registry d.declarations = .ok declared →
      buildFields registry d'.declarations = .ok declared' → _ :=
    fun declared declared' hdeclared hdeclared' => exists_pullParameters_iff
      ((adds_of_buildFields h hname.undeclared hf hdeclared hdeclared').insertFirst
        hname.ne_time.symm (timeField registry)) hf
  constructor
  · rintro ⟨fields, declared, hdeclared, hpulled⟩
    obtain ⟨declared', hdeclared'⟩ :=
      (exists_buildFields_iff h hname.undeclared hf).1 ⟨declared, hdeclared⟩
    obtain ⟨fields', hpulled'⟩ := (htimed _ _ hdeclared hdeclared').1 ⟨fields, hpulled⟩
    exact ⟨fields', declared', hdeclared', hpulled'⟩
  · rintro ⟨fields', declared', hdeclared', hpulled'⟩
    obtain ⟨declared, hdeclared⟩ :=
      (exists_buildFields_iff h hname.undeclared hf).2 ⟨declared', hdeclared'⟩
    obtain ⟨fields, hpulled⟩ := (htimed _ _ hdeclared hdeclared').2 ⟨fields', hpulled'⟩
    exact ⟨fields, declared, hdeclared, hpulled⟩

/-- **The fields are the same** whether a parameter is pulled in or declared, but for its place. -/
theorem displaced_of_comesTo {fields fields' : FieldMap α} (h : d.DeclaresBare name d')
    (hname : d.LeavesOut name) (hf : pulledParameter registry name = some f)
    (hfields : d.ComesTo registry fields) (hfields' : d'.ComesTo registry fields') :
    Displaced name fields fields' := by
  obtain ⟨declared, hdeclared, hpulled⟩ := hfields
  obtain ⟨declared', hdeclared', hpulled'⟩ := hfields'
  exact displaced_of_pullParameters
    ((adds_of_buildFields h hname.undeclared hf hdeclared hdeclared').insertFirst
      hname.ne_time.symm _) hf (wanted_of_leavesOut hname hdeclared) hpulled hpulled'

/-- What a description leaves out, the registry has. -/
theorem Description.ComesTo.exists_pulled {fields : FieldMap α} (h : d.ComesTo registry fields)
    (hname : d.LeavesOut name) :
    ∃ f, pulledParameter registry name = some f ∧ fields.get? name = some f := by
  obtain ⟨declared, hdeclared, hpulled⟩ := h
  have hwanted : name ∈ (undeclaredReads (declared.insertFirst "time" (timeField registry))).map
      Prod.fst := wanted_of_leavesOut hname hdeclared
  obtain ⟨entry, hentry, rfl⟩ := List.mem_map.1 hwanted
  obtain ⟨f, hf⟩ := Option.isSome_iff_exists.1
    ((pullParameters_eq_ok_iff.1 hpulled).1 _ hentry)
  refine ⟨f, hf, ?_⟩
  rw [get?_pullParameters hpulled, if_pos hwanted, hf]

/-- A parameter that is declared without attributes is one that the registry has. -/
theorem Description.ComesTo.exists_bare {fields : FieldMap α} (h : d'.ComesTo registry fields)
    (hbare : d.DeclaresBare name d') (hname : d.LeavesOut name) :
    ∃ f, pulledParameter registry name = some f := by
  obtain ⟨declared, hdeclared, -⟩ := h
  obtain ⟨category, before, after, hcategory, -, hd'⟩ :=
    hbare.exists_declarations hname.undeclared
  have hmem : (category, name, ⟨[]⟩) ∈ d'.declarations :=
    hd' ▸ List.mem_append_right _ List.mem_cons_self
  obtain ⟨f, hbuild, -⟩ := exists_built hdeclared hmem
  rw [buildField_bare registry name hcategory] at hbuild
  cases hf : pulledParameter registry name with
  | none => exact nomatch hf ▸ hbuild
  | some g => exact ⟨g, rfl⟩

/-- **The model is the same** whether a parameter is pulled in or declared without attributes. -/
theorem LoadedFrom.of_leavesOut {m : Model α} (hm : LoadedFrom registry d m)
    (h : d.DeclaresBare name d') (hname : d.LeavesOut name) :
    ∃ fields, LoadedFrom registry d' { m with fields := fields } ∧
      Displaced name m.fields fields := by
  have hfields : d.ComesTo registry m.fields := hm.built
  obtain ⟨f, hf, hget⟩ := hfields.exists_pulled hname
  obtain ⟨fields, hfields'⟩ := (exists_comesTo_iff h hname hf).1 ⟨_, hfields⟩
  have hplace := displaced_of_comesTo h hname hf hfields hfields'
  refine ⟨fields, hm.displaced hfields' hplace (fun g hg => ?_) h.named h.given, hplace⟩
  obtain rfl := Option.some.inj (hget.symm.trans hg)
  exact plain_of_pulledParameter hf

/-- …and it loads without the declaration where it does with it. -/
theorem LoadedFrom.of_declaresBare {m : Model α} (hm : LoadedFrom registry d' m)
    (h : d.DeclaresBare name d') (hname : d.LeavesOut name) :
    ∃ fields, LoadedFrom registry d { m with fields := fields } := by
  have hfields' : d'.ComesTo registry m.fields := hm.built
  obtain ⟨f, hf⟩ := hfields'.exists_bare h hname
  obtain ⟨fields, hfields⟩ := (exists_comesTo_iff h hname hf).2 ⟨_, hfields'⟩
  have hplace := (displaced_of_comesTo h hname hf hfields hfields').symm
  obtain ⟨f', hf', hget⟩ := hfields.exists_pulled hname
  refine ⟨fields, hm.displaced hfields hplace (fun g hg => ?_)
    ⟨h.named.1.symm, h.named.2.symm⟩ ⟨h.given.1.symm, h.given.2.symm⟩⟩
  obtain rfl := Option.some.inj ((hget.symm.trans (hplace.get? name).symm).trans hg)
  exact plain_of_pulledParameter hf'

/-! ## A parameter without a value -/

/-- A field depends on the registry only under its own name. -/
theorem buildField_congr {registry registry' : Registry α}
    (h : registry.get? name = registry'.get? name) (category : Category) (e : Declaration α) :
    buildField registry category name e = buildField registry' category name e := by
  unfold buildField
  rw [h]

theorem buildFields_of_agree {registry registry' : Registry α} {declared : FieldMap α}
    (hdeclares : ¬ d.Declares name) (hagree : ∀ n, n ≠ name → registry.get? n = registry'.get? n)
    (h : buildFields registry d.declarations = .ok declared) :
    buildFields registry' d.declarations = .ok declared := by
  have hentry : ∀ e ∈ d.declarations, builtPair? registry e = builtPair? registry' e := by
    intro e he
    have hne : e.2.1 ≠ name := fun heq => hdeclares (heq ▸ List.mem_map_of_mem he)
    rw [builtPair?, builtPair?, buildField_congr (hagree _ hne)]
  obtain ⟨hnodup, hall, hfields⟩ := buildFields_eq_ok_iff_entries.1 h
  refine buildFields_eq_ok_iff_entries.2 ⟨hnodup, fun e he => hentry e he ▸ hall e he, ?_⟩
  rw [← List.filterMap_congr hentry, hfields]

/-- Up to the declaration without attributes everything is entered, and it finds no value. -/
theorem buildFields_valueless {declared : FieldMap α} (h : d.DeclaresBare name d')
    (hdeclares : ¬ d.Declares name) (hnone : pulledParameter registry name = none)
    (hdeclared : buildFields registry d.declarations = .ok declared) :
    buildFields registry d'.declarations =
      .error (.malformedField name .neitherValueNorFunction) := by
  obtain ⟨category, before, after, hcategory, hd, hd'⟩ := h.exists_declarations hdeclares
  obtain ⟨origins, hfold⟩ := buildFields_eq_ok_iff.1 hdeclared
  rw [hd, List.foldlM_append, bind_eq_ok_iff] at hfold
  obtain ⟨acc, hbefore, -⟩ := hfold
  have hnew : acc.2.get? name = none := by
    obtain ⟨-, -, rfl⟩ := foldlM_declare_eq_ok_iff.1 hbefore
    refine Option.eq_none_iff_forall_ne_some.2 fun first hfirst => hdeclares ?_
    obtain ⟨e, he, heq⟩ := List.mem_map.1 (OrderedMap.mem_of_get?_ofList hfirst)
    obtain ⟨rfl, -⟩ := Prod.mk.inj heq
    rw [Description.Declares, hd]
    exact List.mem_map_of_mem (List.mem_append_left after he)
  have hbare : declare registry acc (category, name, ⟨[]⟩) =
      .error (.malformedField name .neitherValueNorFunction) := by
    unfold declare
    dsimp only
    rw [hnew, buildField_bare registry name hcategory, hnone]
    rfl
  have hfold : d'.declarations.foldlM (declare registry) (.empty, .empty) =
      .error (.malformedField name .neitherValueNorFunction) := by
    rw [hd', List.foldlM_append]
    exact bind_eq_error_iff.2 (.inr ⟨acc, hbefore, bind_eq_error_iff.2 (.inl hbare)⟩)
  exact bind_eq_error_iff.2 (.inl hfold)

/-- **Without a value in the registry** the parameter is to blame either way, if nothing else is
missing: if the description loads with a registry that differs under its name only.  The time may
start elsewhere with that registry, but it reads nothing with either. -/
theorem load_valueless {registry' : Registry α} {m : Model α} {defaults : Defaults α}
    (h : d.DeclaresBare name d') (hname : d.LeavesOut name)
    (hdefaults : registry.get? name = some defaults) (hvalue : defaults.value = none)
    (hagree : ∀ n, n ≠ name → registry'.get? n = registry.get? n)
    (hload : load registry' d = .ok m) :
    load registry d = .error (.malformedField name .noRegistryValue) ∧
      load registry d' = .error (.malformedField name .neitherValueNorFunction) := by
  have hnone : pulledParameter registry name = none := by
    rw [pulledParameter, hdefaults, Option.bind_some, hvalue, Option.map_none]
  obtain ⟨declared, hdeclared', hpulled⟩ := (loadedFrom_of_load hload).built
  have hdeclared := buildFields_of_agree hname.undeclared hagree hdeclared'
  constructor
  · refine bind_eq_error_iff.2 (.inr ⟨declared, hdeclared, bind_eq_error_iff.2 (.inl ?_)⟩)
    refine pullParameters_valueless hdefaults hvalue (wanted_of_leavesOut hname hdeclared)
      fun entry hentry hne => ?_
    have hsilent : (timeField registry).readings = (timeField registry').readings := rfl
    rw [undeclaredReads_insertFirst hsilent] at hentry
    have hothers := (pullParameters_eq_ok_iff.1 hpulled).1 entry hentry
    rwa [pulledParameter, hagree _ hne] at hothers
  · exact bind_eq_error_iff.2 (.inl (buildFields_valueless h hname.undeclared hnone hdeclared))

/-- **A parameter that is read may be declared without attributes or not at all.** -/
theorem load_bare_iff (registry : Registry α) (h : d.DeclaresBare name d')
    (hself : name ≠ itself) (htime : name ≠ "time") (hreads : d.Reads name)
    (hdeclares : ¬ d.Declares name) :
    ((∃ m, load registry d = .ok m) ↔ ∃ m', load registry d' = .ok m') ∧
      (∀ m m', load registry d = .ok m → load registry d' = .ok m' →
        m.fields.keys.Perm m'.fields.keys ∧ (∀ n, m.field? n = m'.field? n) ∧
          m' = { m with fields := m'.fields }) ∧
      ∀ defaults v m, registry.get? name = some defaults → defaults.value = none →
        load (registry.insert name { defaults with value := some v }) d = .ok m →
          load registry d = .error (.malformedField name .noRegistryValue) ∧
            load registry d' = .error (.malformedField name .neitherValueNorFunction) := by
  have hname : d.LeavesOut name := ⟨hself, htime, hreads, hdeclares⟩
  refine ⟨⟨?_, ?_⟩, ?_, fun defaults v m hdefaults hvalue hload =>
    load_valueless h hname hdefaults hvalue
      (fun n hn => (OrderedMap.get?_insert _ _ _ n).trans (if_neg hn)) hload⟩
  · rintro ⟨m, hm⟩
    obtain ⟨fields, hm', -⟩ := (loadedFrom_of_load hm).of_leavesOut h hname
    exact ⟨_, hm'.load_eq⟩
  · rintro ⟨m', hm'⟩
    obtain ⟨fields, hm⟩ := (loadedFrom_of_load hm').of_declaresBare h hname
    exact ⟨_, hm.load_eq⟩
  · intro m m' hm hm'
    obtain ⟨fields, hloaded, hplace⟩ := (loadedFrom_of_load hm).of_leavesOut h hname
    obtain rfl : m' = { m with fields := fields } := Except.ok.inj (hm'.symm.trans hloaded.load_eq)
    exact ⟨hplace.perm_keys, hplace.get?, rfl⟩

end Loading

/-- A cost that is read off a rate, which is not declared. -/
def charge : Description Fraction where
  name := "charge"
  statevar := .ofList
    [("cost", ⟨[("func", .function ((Expression.input "rate").toFunction ["rate"]))]⟩)]
  parameter := .ofList [("base", ⟨[("value", .value (.scalar (.of 1)))]⟩)]

/-- The charge with its rate declared. -/
def ratedCharge : Description Fraction :=
  { charge with unclassified := charge.unclassified.insert "rate" ⟨[]⟩ }

/-- A registry in which the rate has a value or none. -/
def rates (value : Option Fraction) : Registry Fraction :=
  Registry.empty.insert "rate" { value := value }

/-- With a value for the rate both load, to fields in another order; without one both miss it. -/
theorem charge_rate : charge.DeclaresBare "rate" ratedCharge ∧ "rate" ≠ itself ∧ "rate" ≠ "time" ∧
    charge.Reads "rate" ∧ ¬ charge.Declares "rate" ∧
    (∃ m m', load (rates (some (.of 2))) charge = .ok m ∧
      load (rates (some (.of 2))) ratedCharge = .ok m' ∧
      m.fields.keys = ["time", "cost", "base", "rate"] ∧
      m'.fields.keys = ["time", "cost", "rate", "base"] ∧ (∀ n, m.field? n = m'.field? n) ∧
      m' = { m with fields := m'.fields }) ∧
    load (rates none) charge = .error (.malformedField "rate" .noRegistryValue) ∧
    load (rates none) ratedCharge = .error (.malformedField "rate" .neitherValueNorFunction) := by
  have hbare : charge.DeclaresBare "rate" ratedCharge := .unclassified
  have hself : "rate" ≠ itself := by decide
  have htime : "rate" ≠ "time" := by decide
  have hreads : charge.Reads "rate" := by decide +kernel
  have hdeclares : ¬ charge.Declares "rate" := by decide +kernel
  have hpulled : (load (rates (some (.of 2))) charge).toOption.map (fun m => m.fields.keys) =
      some ["time", "cost", "base", "rate"] := by decide +kernel
  have hdeclared : (load (rates (some (.of 2))) ratedCharge).toOption.map (fun m => m.fields.keys) =
      some ["time", "cost", "rate", "base"] := by decide +kernel
  have hadded : (load ((rates none).insert "rate" { value := some (.of 2) })
      charge).toOption.isSome := by decide +kernel
  obtain ⟨m, hm, hkeys⟩ := Option.map_eq_some_iff.1 hpulled
  obtain ⟨m', hm', hkeys'⟩ := Option.map_eq_some_iff.1 hdeclared
  obtain ⟨added, hadded⟩ := Option.isSome_iff_exists.1 hadded
  have hm := toOption_eq_some_iff.1 hm
  have hm' := toOption_eq_some_iff.1 hm'
  obtain ⟨-, hsame, -⟩ :=
    load_bare_iff (rates (some (.of 2))) hbare hself htime hreads hdeclares
  obtain ⟨-, -, hmissed⟩ := load_bare_iff (rates none) hbare hself htime hreads hdeclares
  obtain ⟨-, hfields, hrest⟩ := hsame m m' hm hm'
  exact ⟨hbare, hself, htime, hreads, hdeclares, ⟨m, m', hm, hm', hkeys, hkeys', hfields, hrest⟩,
    hmissed _ _ added rfl rfl (toOption_eq_some_iff.1 hadded)⟩

end FieldFlow
