import FieldFlow.Proofs.Model.Loading

/-!
# Proofs/Model/Rearranged — the fields of a model do not depend on the order of declaration

No name is declared twice, so a look-up of a loaded field says which declaration it was built from
and nothing about where that stood (`get?_buildFields`), and a parameter is pulled in because some
field reads it, whichever does so first (`get?_pullParameters`). Descriptions with the same entries
load to the same fields (`field?_of_sameEntries`).
-/

namespace FieldFlow

variable {α : Type}

/-- **The same declarations** in every category, perhaps in another order. -/
structure Description.SameEntries (d d' : Description α) : Prop where
  differential : d.differential.entries.Perm d'.differential.entries
  statevar : d.statevar.entries.Perm d'.statevar.entries
  parameter : d.parameter.entries.Perm d'.parameter.entries
  size : d.size.entries.Perm d'.size.entries
  unclassified : d.unclassified.entries.Perm d'.unclassified.entries

theorem Description.SameEntries.mem_declarations_iff {d d' : Description α} (h : d.SameEntries d')
    {entry : Category × String × Declaration α} :
    entry ∈ d.declarations ↔ entry ∈ d'.declarations := by
  unfold Description.declarations
  simp only [List.mem_append, List.mem_map, h.differential.mem_iff, h.statevar.mem_iff,
    h.parameter.mem_iff, h.size.mem_iff, h.unclassified.mem_iff]

/-! ## Declared fields -/

section Declared

variable [Scalar α] {registry : Registry α}

/-- One declaration is entered if no earlier one has its name. -/
def declare (registry : Registry α) (acc : FieldMap α × OrderedMap Category)
    (entry : Category × String × Declaration α) :
    Except (Error α) (FieldMap α × OrderedMap Category) := do
  if let some first := acc.2.get? entry.2.1 then
    throw (.malformedField entry.2.1 (.declaredTwice first entry.1))
  let field ← buildField registry entry.1 entry.2.1 entry.2.2
  return (acc.1.insert entry.2.1 field, acc.2.insert entry.2.1 entry.1)

theorem buildFields_eq_ok_iff {declarations : List (Category × String × Declaration α)}
    {fields : FieldMap α} : buildFields registry declarations = .ok fields ↔
      ∃ origins, declarations.foldlM (declare registry) (.empty, .empty) = .ok (fields, origins) := by
  constructor
  · intro h
    obtain ⟨⟨built, origins⟩, hfold, h⟩ := bind_eq_ok_iff.1 h
    obtain rfl : built = fields := pure_eq_ok_iff.1 h
    exact ⟨origins, hfold⟩
  · rintro ⟨origins, hfold⟩
    exact bind_eq_ok_iff.2 ⟨(fields, origins), hfold, rfl⟩

theorem declare_eq_ok_iff {acc next : FieldMap α × OrderedMap Category} {category : Category}
    {name : String} {d : Declaration α} :
    declare registry acc (category, name, d) = .ok next ↔ acc.2.get? name = none ∧
      ∃ field, buildField registry category name d = .ok field ∧
        (acc.1.insert name field, acc.2.insert name category) = next := by
  unfold declare
  dsimp only
  cases horigin : acc.2.get? name with
  | some first =>
    constructor
    · intro h
      obtain ⟨_, h, -⟩ := bind_eq_ok_iff.1 h
      exact absurd h throw_ne_ok
    · rintro ⟨hnew, -⟩
      exact nomatch hnew
  | none =>
    constructor
    · intro h
      obtain ⟨field, hfield, h⟩ := bind_eq_ok_iff.1 h
      exact ⟨rfl, field, hfield, pure_eq_ok_iff.1 h⟩
    · rintro ⟨-, field, hfield, rfl⟩
      exact bind_eq_ok_iff.2 ⟨field, hfield, rfl⟩

/-- What is entered stays as it was built. -/
theorem of_foldlM_declare : ∀ {declarations : List (Category × String × Declaration α)}
    {acc final : FieldMap α × OrderedMap Category},
      declarations.foldlM (declare registry) acc = .ok final →
        (∀ name, acc.2.get? name ≠ none → final.1.get? name = acc.1.get? name) ∧
          ∀ entry ∈ declarations, ∃ field,
            buildField registry entry.1 entry.2.1 entry.2.2 = .ok field ∧
              final.1.get? entry.2.1 = some field
  | [], acc, final, h => by
      rw [List.foldlM_nil, pure_eq_ok_iff] at h
      exact ⟨fun _ _ => by rw [h], fun _ hmem => absurd hmem List.not_mem_nil⟩
  | (category, name, d) :: rest, acc, final, h => by
      rw [List.foldlM_cons, bind_eq_ok_iff] at h
      obtain ⟨next, hnext, hrest⟩ := h
      obtain ⟨hnew, field, hfield, rfl⟩ := declare_eq_ok_iff.1 hnext
      obtain ⟨hkept, hentered⟩ := of_foldlM_declare hrest
      constructor
      · intro name' hname'
        have hne : name' ≠ name := fun heq => hname' (heq ▸ hnew)
        rw [hkept name' (by rwa [OrderedMap.get?_insert, if_neg hne]), OrderedMap.get?_insert,
          if_neg hne]
      · rw [List.forall_mem_cons]
        refine ⟨⟨field, hfield, ?_⟩, hentered⟩
        rw [hkept name (by simp [OrderedMap.get?_insert]), OrderedMap.get?_insert, if_pos rfl]

/-- Every declaration has been built and entered. -/
theorem exists_built {declarations : List (Category × String × Declaration α)} {fields : FieldMap α}
    (h : buildFields registry declarations = .ok fields) {category : Category} {name : String}
    {d : Declaration α} (hmem : (category, name, d) ∈ declarations) :
    ∃ field, buildField registry category name d = .ok field ∧ fields.get? name = some field := by
  obtain ⟨origins, hfold⟩ := buildFields_eq_ok_iff.1 h
  exact (of_foldlM_declare hfold).2 _ hmem

/-- **A look-up of a declared field** says which declaration it was built from. -/
theorem get?_buildFields {declarations : List (Category × String × Declaration α)}
    {fields : FieldMap α} (h : buildFields registry declarations = .ok fields) {name : String}
    {f : Field α} : fields.get? name = some f ↔ ∃ category d,
      (category, name, d) ∈ declarations ∧ buildField registry category name d = .ok f := by
  refine ⟨of_buildFields h name f, ?_⟩
  rintro ⟨category, d, hmem, hbuild⟩
  obtain ⟨field, hfield, hget⟩ := exists_built h hmem
  obtain rfl := Except.ok.inj (hbuild.symm.trans hfield)
  exact hget

/-- The entry that a declaration comes to, if it can be built. -/
def builtPair? (registry : Registry α) (declaration : Category × String × Declaration α) :
    Option (String × Field α) :=
  (buildField registry declaration.1 declaration.2.1 declaration.2.2).toOption.map fun field =>
    (declaration.2.1, field)

theorem builtPair?_eq_some_iff {declaration : Category × String × Declaration α}
    {entry : String × Field α} : builtPair? registry declaration = some entry ↔
      buildField registry declaration.1 declaration.2.1 declaration.2.2 = .ok entry.2 ∧
        declaration.2.1 = entry.1 := by
  obtain ⟨name, field⟩ := entry
  simp only [builtPair?, Option.map_eq_some_iff, toOption_eq_some_iff, Prod.mk.injEq]
  constructor
  · rintro ⟨_, hbuild, hname, rfl⟩
    exact ⟨hbuild, hname⟩
  · rintro ⟨hbuild, hname⟩
    exact ⟨field, hbuild, hname, rfl⟩

theorem foldlM_declare_eq_ok_iff : ∀ {declarations : List (Category × String × Declaration α)}
    {acc final : FieldMap α × OrderedMap Category},
      declarations.foldlM (declare registry) acc = .ok final ↔
        (acc.2.keys ++ declarations.map fun e => e.2.1).Nodup ∧
          (∀ e ∈ declarations, (builtPair? registry e).isSome) ∧
            (acc.1.extend (declarations.filterMap (builtPair? registry)),
              acc.2.extend (declarations.map fun e => (e.2.1, e.1))) = final
  | [], acc, final => by
      have hnodup : acc.2.keys.Nodup := acc.2.nodup
      rw [List.foldlM_nil, pure_eq_ok_iff, List.map_nil, List.append_nil, and_iff_right hnodup]
      exact (and_iff_right fun _ h => absurd h List.not_mem_nil).symm
  | (category, name, d) :: rest, acc, final => by
      have hnew : acc.2.get? name = none → (acc.2.insert name category).keys ++
          (rest.map fun e => e.2.1) = acc.2.keys ++ name :: rest.map fun e => e.2.1 := fun hnone => by
        rw [OrderedMap.keys_insert_of_notMem (OrderedMap.get?_eq_none_iff.1 hnone),
          List.append_assoc, List.singleton_append]
      rw [List.foldlM_cons, bind_eq_ok_iff, List.map_cons, List.forall_mem_cons]
      constructor
      · rintro ⟨next, hnext, hrest⟩
        obtain ⟨hnone, field, hfield, rfl⟩ := declare_eq_ok_iff.1 hnext
        obtain ⟨hnodup, hall, rfl⟩ := foldlM_declare_eq_ok_iff.1 hrest
        have hentry : builtPair? registry (category, name, d) = some (name, field) :=
          builtPair?_eq_some_iff.2 ⟨hfield, rfl⟩
        refine ⟨hnew hnone ▸ hnodup, ⟨Option.isSome_of_eq_some hentry, hall⟩, ?_⟩
        rw [List.filterMap_cons, hentry]
        rfl
      · rintro ⟨hnodup, ⟨hfirst, hall⟩, rfl⟩
        obtain ⟨⟨_, field⟩, hentry⟩ := Option.isSome_iff_exists.1 hfirst
        obtain ⟨hfield, rfl⟩ := builtPair?_eq_some_iff.1 hentry
        have hnone : acc.2.get? name = none := by
          rw [OrderedMap.get?_eq_none_iff]
          exact fun hmem => (List.nodup_append.1 hnodup).2.2 name hmem name List.mem_cons_self rfl
        refine ⟨_, declare_eq_ok_iff.2 ⟨hnone, field, hfield, rfl⟩,
          foldlM_declare_eq_ok_iff.2 ⟨(hnew hnone).symm ▸ hnodup, hall, ?_⟩⟩
        rw [List.filterMap_cons, hentry]
        rfl

/-- **Declarations come to fields** where their names differ and each of them can be built. -/
theorem buildFields_eq_ok_iff_entries {declarations : List (Category × String × Declaration α)}
    {fields : FieldMap α} : buildFields registry declarations = .ok fields ↔
      (declarations.map fun e => e.2.1).Nodup ∧
        (∀ e ∈ declarations, (builtPair? registry e).isSome) ∧
          OrderedMap.ofList (declarations.filterMap (builtPair? registry)) = fields := by
  rw [buildFields_eq_ok_iff]
  simp only [foldlM_declare_eq_ok_iff, Prod.mk.injEq]
  constructor
  · rintro ⟨origins, hnodup, hall, hfields, -⟩
    exact ⟨hnodup, hall, hfields⟩
  · rintro ⟨hnodup, hall, hfields⟩
    exact ⟨_, hnodup, hall, hfields, rfl⟩

end Declared

/-! ## Parameters that are pulled in -/

/-- Enters a name that is read and has no field, with its first reader. -/
def want (fields : FieldMap α) (wanted : OrderedMap String) (entry : String × String) :
    OrderedMap String :=
  if entry.1 = itself || fields.contains entry.1 || wanted.contains entry.1 then wanted
  else wanted.insert entry.1 entry.2

theorem mem_keys_want {fields : FieldMap α} {wanted : OrderedMap String}
    {name input reader : String} : name ∈ (want fields wanted (input, reader)).keys ↔
      name ∈ wanted.keys ∨ name = input ∧ name ≠ itself ∧ name ∉ fields.keys := by
  unfold want
  split
  · rename_i hskip
    simp only [Bool.or_eq_true, decide_eq_true_eq, OrderedMap.contains_iff] at hskip
    refine ⟨.inl, ?_⟩
    rintro (hold | ⟨rfl, hitself, hnew⟩)
    · exact hold
    · exact hskip.resolve_left (not_or.2 ⟨hitself, hnew⟩)
  · rename_i hskip
    simp only [Bool.or_eq_true, decide_eq_true_eq, OrderedMap.contains_iff, not_or] at hskip
    have hkeys : name ∈ (wanted.insert input reader).keys ↔ name = input ∨ name ∈ wanted.keys :=
      OrderedMap.mem_keys_put input reader name wanted.entries
    rw [hkeys, or_comm]
    exact or_congr_right ⟨fun heq => ⟨heq, heq ▸ hskip.1.1, heq ▸ hskip.1.2⟩, And.left⟩

theorem mem_keys_foldl_want {fields : FieldMap α} {name : String} :
    ∀ {reads : List (String × String)} {wanted : OrderedMap String},
      name ∈ (reads.foldl (want fields) wanted).keys ↔ name ∈ wanted.keys ∨
        name ∈ reads.map Prod.fst ∧ name ≠ itself ∧ name ∉ fields.keys
  | [], wanted => by simp
  | (input, reader) :: rest, wanted => by
      rw [List.foldl_cons, mem_keys_foldl_want, mem_keys_want, List.map_cons, List.mem_cons,
        or_and_right, or_assoc]

/-- **A name is wanted** when some field reads it and no field has it. -/
theorem mem_undeclaredReads_iff {fields : FieldMap α} {name : String} :
    name ∈ (undeclaredReads fields).map Prod.fst ↔
      (∃ f ∈ fields.values, name ∈ f.inputs) ∧ name ≠ itself ∧ fields.get? name = none := by
  have hreads : name ∈ (fields.values.flatMap fun f =>
      f.inputs.map fun input => (input, f.name)).map Prod.fst ↔
        ∃ f ∈ fields.values, name ∈ f.inputs := by
    simp
  have hwanted : name ∈ (undeclaredReads fields).map Prod.fst ↔ _ := mem_keys_foldl_want
  rw [hwanted, hreads, OrderedMap.get?_eq_none_iff]
  exact or_iff_right List.not_mem_nil

/-- The parameter that the registry has under a name. -/
def pulledParameter (registry : Registry α) (name : String) : Option (Field α) :=
  (registry.get? name).bind fun defaults =>
    defaults.value.map fun value => registryParameter name value defaults.metadata

/-- The entry that a wanted name comes to, if the registry has a parameter for it. -/
def pulledPair? (registry : Registry α) (wanted : String × String) : Option (String × Field α) :=
  (pulledParameter registry wanted.1).map fun parameter => (wanted.1, parameter)

/-- Adds the parameter of one name. -/
def pullParameter (registry : Registry α) (fields : FieldMap α) (entry : String × String) :
    Except (Error α) (FieldMap α) := do
  let some defaults := registry.get? entry.1
    | throw (.unknownField entry.1 (some entry.2))
  let some value := defaults.value
    | throw (.malformedField entry.1 .noRegistryValue)
  return fields.insert entry.1 (registryParameter entry.1 value defaults.metadata)

theorem of_pullParameter {registry : Registry α} {fields next : FieldMap α} {name reader : String}
    (h : pullParameter registry fields (name, reader) = .ok next) :
    ∃ parameter, pulledParameter registry name = some parameter ∧
      next = fields.insert name parameter := by
  unfold pullParameter at h
  unfold pulledParameter
  dsimp only at h
  split at h
  case h_2 => exact absurd h throw_ne_ok
  rename_i defaults hdefaults
  split at h
  case h_2 => exact absurd h throw_ne_ok
  rename_i value hvalue
  obtain rfl := pure_eq_ok_iff.1 h
  exact ⟨_, by rw [hdefaults, Option.bind_some, hvalue, Option.map_some], rfl⟩

theorem pullParameter_of_some {registry : Registry α} {name : String} {parameter : Field α}
    (h : pulledParameter registry name = some parameter) (fields : FieldMap α) (reader : String) :
    pullParameter registry fields (name, reader) = .ok (fields.insert name parameter) := by
  obtain ⟨defaults, hdefaults, hfound⟩ := Option.bind_eq_some_iff.1 h
  obtain ⟨value, hvalue, rfl⟩ := Option.map_eq_some_iff.1 hfound
  unfold pullParameter
  dsimp only
  rw [hdefaults]
  dsimp only
  rw [hvalue]
  rfl

/-- **Parameters are pulled in** where the registry has one for each name, and go to the end. -/
theorem foldlM_pullParameter_eq_ok_iff {registry : Registry α} :
    ∀ {wanted : List (String × String)} {fields pulled : FieldMap α},
      wanted.foldlM (pullParameter registry) fields = .ok pulled ↔
        (∀ entry ∈ wanted, (pulledParameter registry entry.1).isSome) ∧
          fields.extend (wanted.filterMap (pulledPair? registry)) = pulled
  | [], fields, pulled => by
      rw [List.foldlM_nil, pure_eq_ok_iff]
      exact (and_iff_right fun _ h => absurd h List.not_mem_nil).symm
  | (name, reader) :: rest, fields, pulled => by
      rw [List.foldlM_cons, bind_eq_ok_iff, List.forall_mem_cons]
      constructor
      · rintro ⟨next, hnext, hrest⟩
        obtain ⟨parameter, hparameter, rfl⟩ := of_pullParameter hnext
        obtain ⟨hall, rfl⟩ := foldlM_pullParameter_eq_ok_iff.1 hrest
        refine ⟨⟨Option.isSome_of_eq_some hparameter, hall⟩, ?_⟩
        rw [List.filterMap_cons, pulledPair?, hparameter]
        rfl
      · rintro ⟨⟨hfirst, hall⟩, rfl⟩
        obtain ⟨parameter, hparameter⟩ := Option.isSome_iff_exists.1 hfirst
        refine ⟨_, pullParameter_of_some hparameter fields reader,
          foldlM_pullParameter_eq_ok_iff.2 ⟨hall, ?_⟩⟩
        rw [List.filterMap_cons, pulledPair?, hparameter]
        rfl

theorem pullParameters_eq_ok_iff {registry : Registry α} {fields pulled : FieldMap α} :
    pullParameters registry fields = .ok pulled ↔
      (∀ entry ∈ undeclaredReads fields, (pulledParameter registry entry.1).isSome) ∧
        fields.extend ((undeclaredReads fields).filterMap (pulledPair? registry)) = pulled :=
  foldlM_pullParameter_eq_ok_iff

theorem get?_foldlM_pullParameter {registry : Registry α} {name : String} :
    ∀ {wanted : List (String × String)} {fields pulled : FieldMap α},
      wanted.foldlM (pullParameter registry) fields = .ok pulled → pulled.get? name =
        if name ∈ wanted.map Prod.fst then pulledParameter registry name else fields.get? name
  | [], fields, pulled, h => by
      rw [List.foldlM_nil, pure_eq_ok_iff] at h
      simp [h]
  | (wantedName, reader) :: rest, fields, pulled, h => by
      rw [List.foldlM_cons, bind_eq_ok_iff] at h
      obtain ⟨next, hnext, hrest⟩ := h
      obtain ⟨parameter, hparameter, rfl⟩ := of_pullParameter hnext
      rw [get?_foldlM_pullParameter hrest, OrderedMap.get?_insert]
      by_cases hlisted : name ∈ rest.map Prod.fst
      · rw [if_pos hlisted, if_pos (by simp [hlisted])]
      by_cases hname : name = wantedName
      · subst hname
        rw [if_neg hlisted, if_pos rfl, if_pos (by simp), hparameter]
      · rw [if_neg hlisted, if_neg hname, if_neg (by simp [hlisted, hname])]

/-- **A look-up after parameters were pulled in** finds those of the registry under the names that
were wanted. -/
theorem get?_pullParameters {registry : Registry α} {fields pulled : FieldMap α}
    (h : pullParameters registry fields = .ok pulled) (name : String) :
    pulled.get? name = if name ∈ (undeclaredReads fields).map Prod.fst then
      pulledParameter registry name else fields.get? name :=
  get?_foldlM_pullParameter h

/-! ## The whole model -/

/-- What is wanted, and what is pulled in for it, depends on the fields and not on their order. -/
theorem get?_pullParameters_congr {registry : Registry α} {fields fields' pulled pulled' : FieldMap α}
    (hsame : ∀ name, fields.get? name = fields'.get? name)
    (h : pullParameters registry fields = .ok pulled)
    (h' : pullParameters registry fields' = .ok pulled') (name : String) :
    pulled.get? name = pulled'.get? name := by
  have hreads : (∃ f ∈ fields.values, name ∈ f.inputs) ↔ ∃ f ∈ fields'.values, name ∈ f.inputs := by
    simp only [OrderedMap.mem_values_iff, hsame]
  rw [get?_pullParameters h, get?_pullParameters h']
  simp only [mem_undeclaredReads_iff, hsame name, hreads]

/-- **Descriptions with the same entries load to the same fields.** -/
theorem field?_of_sameEntries [Scalar α] {registry : Registry α} {d d' : Description α}
    {m m' : Model α} (hsame : d.SameEntries d') (h : load registry d = .ok m)
    (h' : load registry d' = .ok m') (name : String) : m.field? name = m'.field? name := by
  obtain ⟨declared, hdeclared, hpulled⟩ := (loadedFrom_of_load h).built
  obtain ⟨declared', hdeclared', hpulled'⟩ := (loadedFrom_of_load h').built
  have hget : ∀ name, declared.get? name = declared'.get? name := fun name => by
    ext f
    rw [get?_buildFields hdeclared, get?_buildFields hdeclared']
    simp only [hsame.mem_declarations_iff]
  refine get?_pullParameters_congr (fun name => ?_) hpulled hpulled' name
  rw [OrderedMap.get?_insertFirst, OrderedMap.get?_insertFirst, hget]

end FieldFlow
