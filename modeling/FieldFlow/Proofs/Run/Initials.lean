import FieldFlow.Proofs.Model.Assignment
import FieldFlow.Proofs.System.Layout

/-!
# Proofs/Run/Initials — assigning initial values

An assignment to dynamic fields changes what their state starts from (`reinitialized_of_setAll`) and
nothing that a system is bound from: a model is bound as if it had no initial values
(`bind_withoutInitials`).
-/

namespace FieldFlow

variable {α : Type}

/-! ## Models that start elsewhere -/

/-- A field without a value to start from. -/
def Field.withoutInitial (f : Field α) : Field α := { f with initial := none }

/-- **What a model is bound from**: all of it but the initial values. -/
def Model.withoutInitials (m : Model α) : Model α := m.mapFields Field.withoutInitial

section Bind

variable [Scalar α] {m m' : Model α}

theorem bindSlot_withoutInitials (m : Model α) (runs regions : Nat) (f : Field α) (own : Nat) :
    bindSlot m.withoutInitials runs regions f.withoutInitial own =
      bindSlot m runs regions f own := by
  have haxis : m.withoutInitials.axisLength = m.axisLength :=
    funext fun axis => m.axisLength_mapFields Field.withoutInitial (fun _ => rfl) axis
  have hshape : m.withoutInitials.shapeOf f.withoutInitial runs regions =
      m.shapeOf f runs regions := by
    unfold Model.shapeOf
    rw [haxis]
    rfl
  have hinput : inputSlot m.withoutInitials own f.withoutInitial = inputSlot m own f :=
    funext fun input => inputSlot_mapFields m Field.withoutInitial rfl own input
  unfold bindSlot
  rw [hshape, hinput]
  rfl

theorem lay_withoutInitials (m : Model α) (runs regions : Nat) :
    m.withoutInitials.lay runs regions = m.lay runs regions := by
  have hvalues : m.withoutInitials.fields.values = m.fields.values.map Field.withoutInitial :=
    m.values_mapFields Field.withoutInitial
  unfold Model.lay
  rw [hvalues, List.zipIdx_map, List.mapM_map]
  exact mapM_congr fun (f, own) _ => bindSlot_withoutInitials m runs regions f own

/-- **Binding looks at no initial value.** -/
theorem bind_withoutInitials (m : Model α) (runs regions : Nat) :
    m.withoutInitials.bind runs regions = m.bind runs regions := by
  have hordered : orderedSlot m.withoutInitials = orderedSlot m :=
    funext fun name => orderedSlot_mapFields m Field.withoutInitial name
  unfold Model.bind
  rw [hordered]
  exact congrArg (· >>= _) (lay_withoutInitials m runs regions)

theorem bind_congr (h : m.withoutInitials = m'.withoutInitials) (runs regions : Nat) :
    m.bind runs regions = m'.bind runs regions := by
  rw [← bind_withoutInitials m, ← bind_withoutInitials m', h]

omit [Scalar α] in
/-- The labels of sectors are no initial values either. -/
theorem sectorLabels_congr (h : m.withoutInitials = m'.withoutInitials) :
    sectorLabels m = sectorLabels m' := by
  have hlabels : ∀ m : Model α, sectorLabels m.withoutInitials = sectorLabels m := fun m => by
    have hvalues : m.withoutInitials.fields.values = m.fields.values.map Field.withoutInitial :=
      m.values_mapFields Field.withoutInitial
    unfold sectorLabels
    rw [hvalues, List.filterMap_map]
    rfl
  rw [← hlabels m, ← hlabels m', h]

end Bind

/-! ## Assigning initial values -/

theorem Model.mem_namesOf_iff {m : Model α} (hnamed : Named m.fields) {kind : FieldKind}
    {name : String} : name ∈ m.namesOf kind ↔ ∃ f, m.field? name = some f ∧ f.kind = kind := by
  rw [namesOf, List.mem_map]
  constructor
  · rintro ⟨f, hf, rfl⟩
    obtain ⟨hvalue, hkind⟩ := List.mem_filter.1 hf
    exact ⟨f, hnamed.get? hvalue, by simpa using hkind⟩
  · rintro ⟨f, hf, hkind⟩
    exact ⟨f, List.mem_filter.2 ⟨OrderedMap.mem_values_iff.2 ⟨name, hf⟩, by simpa using hkind⟩,
      hnamed name f hf⟩

theorem Model.nodup_namesOf {m : Model α} (hnamed : Named m.fields) (kind : FieldKind) :
    (m.namesOf kind).Nodup := by
  have hkeys : (m.fields.values.map Field.name).Nodup := hnamed.map_name ▸ m.fields.nodup
  exact hkeys.sublist (List.filter_sublist.map Field.name)

/-- Values for dynamic fields. -/
def Model.AreInitials (m : Model α) (values : List (String × Value α)) : Prop :=
  ∀ entry ∈ values, ∃ f, m.field? entry.1 = some f ∧ f.kind = .dynamic

/-- **What an assignment of initial values leaves**: the same simulation, with the last value given
to each field for it to start from. -/
structure Simulation.Reinitialized (s next : Simulation α) (values : List (String × Value α)) :
    Prop where
  runs : next.runs = s.runs
  regions : next.regions = s.regions
  model : next.model.withoutInitials = s.model.withoutInitials
  field : ∀ {name f}, s.model.field? name = some f → next.model.field? name =
    some { f with initial := ((OrderedMap.ofList values).get? name).or f.initial }

namespace Simulation

variable {s mid next : Simulation α} {values : List (String × Value α)}

/-- One value for one field to start from. -/
theorem reinitialized_withField (s : Simulation α) (name : String) (v : Value α) :
    s.Reinitialized (s.withField name fun field => { field with initial := some v })
      [(name, v)] where
  runs := rfl
  regions := rfl
  model := by
    have hfields := OrderedMap.map_modify Field.withoutInitial
      (u := fun field => { field with initial := some v }) (fun _ => rfl) s.model.fields name
    exact congrArg (fun fields => { s.model with fields := fields }) hfields
  field := fun {name' f} hf => by
    rw [field?_withField, OrderedMap.get?_ofList_cons]
    split
    · rename_i heq
      obtain rfl := heq
      rw [hf]
      rfl
    · exact hf

/-- No field is added. -/
theorem Reinitialized.origin (h : s.Reinitialized next values) {name : String} {g : Field α}
    (hg : next.model.field? name = some g) : ∃ f, s.model.field? name = some f ∧
      g = { f with initial := ((OrderedMap.ofList values).get? name).or f.initial } := by
  have hsame := congrArg (Model.field? · name) h.model
  unfold Model.withoutInitials at hsame
  rw [Model.field?_mapFields, Model.field?_mapFields, hg, Option.map_some, eq_comm,
    Option.map_eq_some_iff] at hsame
  obtain ⟨f, hf, -⟩ := hsame
  exact ⟨f, hf, Option.some.inj (hg.symm.trans (h.field hf))⟩

theorem Reinitialized.cons {name : String} {v : Value α}
    (h : s.Reinitialized mid [(name, v)]) (hrest : mid.Reinitialized next values) :
    s.Reinitialized next ((name, v) :: values) where
  runs := hrest.runs.trans h.runs
  regions := hrest.regions.trans h.regions
  model := hrest.model.trans h.model
  field := fun {name' f} hf => by
    have hone : (OrderedMap.ofList [(name, v)]).get? name' = if name' = name then some v else none :=
      OrderedMap.get?_ofList_cons name'
    rw [hrest.field (h.field hf), hone, OrderedMap.get?_ofList_cons, Option.or_assoc]

theorem Reinitialized.areInitials {given : List (String × Value α)}
    (h : s.Reinitialized next given) (hvalues : s.model.AreInitials values) :
    next.model.AreInitials values := fun entry hentry => by
  obtain ⟨f, hf, hkind⟩ := hvalues entry hentry
  exact ⟨_, h.field hf, hkind⟩

end Simulation

variable [Scalar α] {s next : Simulation α} {values : List (String × Value α)}

theorem setField_eq_ok_iff_of_dynamic {name : String} {f : Field α} {v : Value α}
    (hf : s.model.field? name = some f) (hkind : f.kind = .dynamic) :
    s.setField name (.value v) = (next, .ok ()) ↔ (∃ t, v.toTensor name = .ok t) ∧
      s.withField name (fun field => { field with initial := some v }) = next := by
  unfold Simulation.setField Simulation.setValue
  rw [resultOf_eq_ok_iff, bind_eq_ok_iff, hf]
  dsimp only
  rw [hkind]
  simp only [pure_eq_ok_iff, discard_eq_ok_iff, exists_and_right, exists_const]

/-- Values are assigned one field after another. -/
theorem setAll_cons_eq_ok_iff {name : String} {v : Value α} {rest : List (String × Value α)} :
    s.setAll ((name, v) :: rest) = (next, .ok ()) ↔
      ∃ mid, s.setField name (.value v) = (mid, .ok ()) ∧ mid.setAll rest = (next, .ok ()) := by
  simp only [Simulation.setField, resultOf_eq_ok_iff]
  rw [Simulation.setAll]
  cases s.setValue name v <;> simp

/-- **Assigning initial values** changes what the state starts from, and nothing else. -/
theorem reinitialized_of_setAll (hvalues : s.model.AreInitials values)
    (h : s.setAll values = (next, .ok ())) : s.Reinitialized next values := by
  induction values generalizing s with
  | nil =>
    obtain rfl := (Prod.mk.inj h).1
    exact ⟨rfl, rfl, rfl, fun hf => hf⟩
  | cons entry rest ih =>
    obtain ⟨name, v⟩ := entry
    obtain ⟨⟨f, hf, hkind⟩, hrest⟩ := List.forall_mem_cons.1 hvalues
    obtain ⟨mid, hmid, h⟩ := setAll_cons_eq_ok_iff.1 h
    obtain ⟨-, rfl⟩ := (setField_eq_ok_iff_of_dynamic hf hkind).1 hmid
    have hfirst := s.reinitialized_withField name v
    exact hfirst.cons (ih (hfirst.areInitials hrest) h)

/-- Values that can be laid out can be assigned. -/
theorem exists_setAll (hvalues : s.model.AreInitials values)
    (hlaid : ∀ entry ∈ values, ∃ t, entry.2.toTensor entry.1 = .ok t) :
    ∃ next, s.setAll values = (next, .ok ()) := by
  induction values generalizing s with
  | nil => exact ⟨s, rfl⟩
  | cons entry rest ih =>
    obtain ⟨name, v⟩ := entry
    obtain ⟨⟨f, hf, hkind⟩, hrest⟩ := List.forall_mem_cons.1 hvalues
    obtain ⟨hv, hlaid⟩ := List.forall_mem_cons.1 hlaid
    obtain ⟨next, hnext⟩ := ih ((s.reinitialized_withField name v).areInitials hrest) hlaid
    exact ⟨next, setAll_cons_eq_ok_iff.2
      ⟨_, (setField_eq_ok_iff_of_dynamic hf hkind).2 ⟨hv, rfl⟩, hnext⟩⟩

/-- The model of a simulation is loaded as a model is. -/
theorem load_of_loadSimulation {registry : Registry α} {d : Description α} {seed : Nat}
    (h : Simulation.load registry d seed = .ok s) : load registry d = .ok s.model := by
  obtain ⟨runs, -, h⟩ := bind_eq_ok_iff.1 h
  obtain ⟨regions, -, h⟩ := bind_eq_ok_iff.1 h
  obtain ⟨m, hm, h⟩ := bind_eq_ok_iff.1 h
  obtain rfl := pure_eq_ok_iff.1 h
  exact hm

/-- The model of a simulation that was loaded. -/
theorem Model.InUse.of_load {registry : Registry α} {d : Description α} {seed : Nat}
    (h : Simulation.load registry d seed = .ok s) : s.model.InUse registry d :=
  .loaded (load_of_loadSimulation h)

/-- A model stays in use when values are assigned. -/
theorem Model.InUse.setAll {registry : Registry α} {d : Description α}
    (hm : s.model.InUse registry d) (h : s.setAll values = (next, .ok ())) :
    next.model.InUse registry d := by
  induction values generalizing s with
  | nil => exact (Prod.mk.inj h).1 ▸ hm
  | cons entry rest ih =>
    obtain ⟨name, v⟩ := entry
    obtain ⟨mid, hset, h⟩ := setAll_cons_eq_ok_iff.1 h
    exact ih (.assigned hm hset) h

end FieldFlow
