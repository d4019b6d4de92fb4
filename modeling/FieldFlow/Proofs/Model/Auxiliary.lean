import FieldFlow.Proofs.Model.Assignment
import FieldFlow.Proofs.Scalar.Fraction

/-!
# Proofs/Model/Auxiliary — nothing that counts reads an auxiliary field

What is dropped as unread is read by nothing that stays: a field that some other needed field reads
is kept in every round (`mem_neededAmong_of_reads`). So the fields that are not auxiliary read none
that are (`Model.InUse.unread_auxiliary`), and make up a model without them
(`Model.Unread.evaluable_without`).
-/

namespace FieldFlow

variable {α : Type}

/-! ## What is needed -/

theorem mem_of_mem_neededAmong {candidates : List (Field α)} {f : Field α}
    (h : f ∈ neededAmong candidates) : f ∈ candidates := by
  induction candidates using neededAmong.induct with
  | case1 candidates kept hfewer ih =>
    rw [neededAmong, dif_pos hfewer] at h
    exact List.mem_of_mem_filter (ih h)
  | case2 candidates kept hall =>
    rwa [neededAmong, dif_neg hall] at h

/-- **What a needed field reads is needed.** -/
theorem mem_neededAmong_of_reads {candidates : List (Field α)} {f g : Field α}
    (hf : f ∈ neededAmong candidates) (hg : g ∈ candidates) (hread : g.name ∈ f.inputs)
    (hother : f.name ≠ g.name) : g ∈ neededAmong candidates := by
  induction candidates using neededAmong.induct with
  | case1 candidates kept hfewer ih =>
    have hreader := mem_of_mem_neededAmong hf
    rw [neededAmong, dif_pos hfewer] at hf ⊢
    refine ih hf (List.mem_filter.2 ⟨hg, List.any_eq_true.2 ⟨f, hreader, ?_⟩⟩)
    simpa using ⟨hother, hread⟩
  | case2 candidates kept hall =>
    rwa [neededAmong, dif_neg hall]

/-- Each needed field is read by another. -/
theorem exists_reader_of_mem_neededAmong {candidates : List (Field α)} {f : Field α}
    (h : f ∈ neededAmong candidates) :
    ∃ g ∈ neededAmong candidates, g.name ≠ f.name ∧ f.name ∈ g.inputs := by
  induction candidates using neededAmong.induct with
  | case1 candidates kept hfewer ih =>
    rw [neededAmong, dif_pos hfewer] at h ⊢
    exact ih h
  | case2 candidates kept hall =>
    rw [neededAmong, dif_neg hall] at h ⊢
    have hstable : stillRead candidates = candidates :=
      List.filter_sublist.eq_of_length_le (Nat.not_lt.1 hall)
    rw [← hstable] at h
    obtain ⟨g, hg, hread⟩ := List.any_eq_true.1 (List.mem_filter.1 h).2
    exact ⟨g, hg, by simpa using hread⟩

/-- **The needed fields are all that keep each other needed**: fields each of which another of them
reads are never dropped. -/
theorem mem_neededAmong_of_readers {candidates : List (Field α)} {P : Field α → Prop}
    (hmem : ∀ f, P f → f ∈ candidates)
    (hread : ∀ f, P f → ∃ g, P g ∧ g.name ≠ f.name ∧ f.name ∈ g.inputs) :
    ∀ f, P f → f ∈ neededAmong candidates := by
  induction candidates using neededAmong.induct with
  | case1 candidates kept hfewer ih =>
    rw [neededAmong, dif_pos hfewer]
    refine ih fun f hf => List.mem_filter.2 ⟨hmem f hf, ?_⟩
    obtain ⟨g, hg, hne, hinput⟩ := hread f hf
    exact List.any_eq_true.2 ⟨g, hmem g hg, by simpa using ⟨hne, hinput⟩⟩
  | case2 candidates kept hall =>
    rwa [neededAmong, dif_neg hall]

/-- A field is auxiliary when it is computed and not needed. -/
theorem mem_auxiliaryFields_iff {fields : FieldMap α} (hnamed : Named fields) {f : Field α}
    (hf : f ∈ fields.values) : f.name ∈ auxiliaryFields fields ↔
      f.isComputed = true ∧ f ∉ neededAmong (fields.values.filter Field.isComputed) := by
  have hsame : ∀ {g}, g ∈ fields.values → g.name = f.name → g = f := fun {g} hg hname =>
    Option.some.inj ((hname ▸ hnamed.get? hg).symm.trans (hnamed.get? hf))
  have hneeded : f.name ∈ (neededAmong (fields.values.filter Field.isComputed)).map Field.name ↔
      f ∈ neededAmong (fields.values.filter Field.isComputed) := by
    refine ⟨fun h => ?_, List.mem_map_of_mem⟩
    obtain ⟨g, hg, hname⟩ := List.mem_map.1 h
    have hvalue := List.mem_of_mem_filter (mem_of_mem_neededAmong hg)
    exact hsame hvalue hname ▸ hg
  have hcomputed : f.name ∈ (fields.values.filter Field.isComputed).map Field.name ↔
      f.isComputed = true := by
    rw [List.mem_map]
    constructor
    · rintro ⟨g, hg, hname⟩
      obtain ⟨hvalue, hcomputed⟩ := List.mem_filter.1 hg
      exact hsame hvalue hname ▸ hcomputed
    · exact fun h => ⟨f, List.mem_filter.2 ⟨hf, h⟩, rfl⟩
  unfold auxiliaryFields
  dsimp only
  rw [List.mem_filter, hcomputed, Bool.not_eq_true', ← Bool.not_eq_true, List.contains_iff_mem,
    hneeded]

/-! ## Fields that nothing else reads -/

/-- **Names that the other fields of a model do not read**, nor span their axes with. -/
structure Model.Unread (m : Model α) (names : List String) : Prop where
  reads : ∀ {name f}, m.field? name = some f → name ∉ names →
    ∀ input ∈ f.inputs, input ≠ itself → input ∉ names
  size : ∀ {name f}, m.field? name = some f → f.kind = .size → name ∉ names

/-- The auxiliary fields of a model that loads are read by auxiliary fields only. -/
theorem LoadedFrom.unread_auxiliary [Scalar α] {registry : Registry α} {d : Description α}
    {m : Model α} (h : LoadedFrom registry d m) : m.Unread m.auxiliary where
  reads := fun {name f} hf hneeded input hinput _ => by
    intro haux
    rw [h.auxiliary] at hneeded haux
    have hvalue : f ∈ m.fields.values := OrderedMap.mem_values_iff.2 ⟨name, hf⟩
    obtain ⟨g, hg, hname⟩ := List.mem_map.1 (List.mem_of_mem_filter haux)
    obtain ⟨hread, hcomputed⟩ := List.mem_filter.1 hg
    rw [← hname, mem_auxiliaryFields_iff h.named hread] at haux
    rw [← h.named name f hf, mem_auxiliaryFields_iff h.named hvalue, not_and, not_not] at hneeded
    have hneeded := hneeded (Field.isComputed_of_mem_inputs hinput)
    refine haux.2 (mem_neededAmong_of_reads hneeded hg (hname ▸ hinput) fun hown => ?_)
    have hsame : f = g :=
      Option.some.inj ((hown ▸ h.named.get? hvalue).symm.trans (h.named.get? hread))
    exact haux.2 (hsame ▸ hneeded)
  size := fun {name f} hf hkind haux => by
    rw [h.auxiliary, ← h.named name f hf,
      mem_auxiliaryFields_iff h.named (OrderedMap.mem_values_iff.2 ⟨name, hf⟩)] at haux
    have hnone := (h.sound.sized hf hkind).1
    rw [Field.isComputed, hnone] at haux
    exact Bool.false_ne_true haux.1

theorem Model.Unread.reassigned {m m' : Model α} {names : List String} (h : m.Unread names)
    (hm : m.Reassigned m') : m'.Unread names where
  reads := fun hg hname input hinput hitself => by
    obtain ⟨f, hf, hfg⟩ := hm.origin hg
    exact h.reads hf hname input (hfg.inputs_subset input hinput) hitself
  size := fun hg hkind => by
    obtain ⟨f, hf, hfg⟩ := hm.origin hg
    exact h.size hf (hfg.kind.symm.trans hkind)

/-- **Auxiliary fields are read by auxiliary fields only**, whatever values were assigned since the
model was loaded. -/
theorem Model.InUse.unread_auxiliary [Scalar α] {registry : Registry α} {d : Description α}
    {m : Model α} (h : m.InUse registry d) : m.Unread m.auxiliary := by
  induction h with
  | loaded hload => exact (loadedFrom_of_load hload).unread_auxiliary
  | assigned _ hset ih =>
    have hreassigned := reassigned_of_setField hset
    rw [hreassigned.auxiliary]
    exact ih.reassigned hreassigned

/-- A function of inputs, by an expression of them. -/
private def asFunction (inputs : List String) (body : Expression Fraction) :
    String × Attribute Fraction :=
  ("func", .function (body.toFunction inputs))

/-- A stock that grows by a flow, the two algebraic fields that the flow comes from, and a total of
the flow that nothing reads. -/
def cascade : Description Fraction where
  name := "cascade"
  differential := .ofList
    [("stock", ⟨[asFunction ["flow"] (.input "flow"), ("initial", .value (.scalar (.of 1)))]⟩),
      ("total", ⟨[asFunction ["flow"] (.input "flow"), ("initial", .value (.scalar (.of 0)))]⟩)]
  statevar := .ofList
    [("half", ⟨[asFunction ["stock"] (.binary .mul (.input "stock") (.number (.of (1 / 2))))]⟩),
      ("flow", ⟨[asFunction ["half", "rate"] (.binary .mul (.input "half") (.input "rate"))]⟩)]
  parameter := .ofList [("rate", ⟨[("value", .value (.scalar (.of (1 / 4))))]⟩)]

/-- A run of a cascade in half steps. -/
def cascade.runFor (span : Rat) (s : Simulation Fraction) : Simulation.Result Fraction :=
  s.run "rk4" (.of (1 / 2)) (.of span) ⟨.of 1, .of 1, .of 1, 1⟩

example : (load .empty cascade).toOption.map Model.auxiliary = some ["time", "total"] := by
  decide +kernel

/-! ## The model without them -/

/-- A model without some of its fields. -/
def Model.without (m : Model α) (names : List String) : Model α :=
  { m with
    fields := m.fields.filterKeys fun name => !names.contains name
    order := m.order.filter fun name => !names.contains name
    parameterOrder := m.parameterOrder.filter fun name => !names.contains name }

variable {m : Model α} {names : List String}

theorem Model.field?_without {name : String} {f : Field α} :
    (m.without names).field? name = some f ↔ m.field? name = some f ∧ name ∉ names := by
  have hget : (m.without names).field? name = _ := OrderedMap.get?_filterKeys _ m.fields name
  rw [hget]
  split
  · rename_i hname
    exact (and_iff_left (by simpa using hname)).symm
  · rename_i hname
    exact ⟨fun h => absurd h (by simp), fun h => absurd h.2 (by simpa using hname)⟩

/-- An item that is kept stays in front of those that it stood in front of. -/
theorem idxOf_filter_lt {p : String → Bool} {a b : String} (ha : p a = true) {items : List String}
    (h : items.idxOf a < items.idxOf b) : (items.filter p).idxOf a < (items.filter p).idxOf b := by
  induction items with
  | nil => exact absurd h (Nat.lt_irrefl _)
  | cons c rest ih =>
    have hb : c ≠ b := fun hcb => by
      rw [hcb, List.idxOf_cons_self] at h
      exact absurd h (Nat.not_lt_zero _)
    by_cases hca : c = a
    · rw [hca, List.filter_cons_of_pos ha, List.idxOf_cons_self,
        List.idxOf_cons_ne _ (hca ▸ hb)]
      exact Nat.succ_pos _
    · rw [List.idxOf_cons_ne _ hca, List.idxOf_cons_ne _ hb, Nat.succ_lt_succ_iff] at h
      by_cases hc : p c = true
      · rw [List.filter_cons_of_pos hc, List.idxOf_cons_ne _ hca, List.idxOf_cons_ne _ hb]
        exact Nat.succ_lt_succ (ih h)
      · rw [List.filter_cons_of_neg hc]
        exact ih h

/-- An order of evaluation without the fields that were dropped. -/
theorem EvaluationOrder.without {kind : FieldKind} {order : List String}
    (horder : EvaluationOrder m.fields kind order) (names : List String) :
    EvaluationOrder (m.without names).fields kind
      (order.filter fun name => !names.contains name) where
  nodup := horder.nodup.filter _
  listed := fun name hname => by
    obtain ⟨hlisted, hkept⟩ := List.mem_filter.1 hname
    obtain ⟨f, hf, hkind⟩ := horder.listed name hlisted
    exact ⟨f, Model.field?_without.2 ⟨hf, by simpa using hkept⟩, hkind⟩
  complete := fun hf hkind hcomputed => by
    obtain ⟨hf, hkept⟩ := Model.field?_without.1 hf
    exact List.mem_filter.2 ⟨horder.complete hf hkind hcomputed, by simpa using hkept⟩
  follows := fun hf hkind read hread hmem => by
    obtain ⟨hf, -⟩ := Model.field?_without.1 hf
    obtain ⟨hlisted, hkept⟩ := List.mem_filter.1 hmem
    exact idxOf_filter_lt hkept (horder.follows hf hkind read hread hlisted)

/-- **What is left of a model can be evaluated** without the fields that it does not read. -/
theorem Model.Unread.evaluable_without (h : m.Unread names) (hm : m.Evaluable) :
    (m.without names).Evaluable where
  named := fun name f hf => hm.named name f (Model.field?_without.1 hf).1
  reads := fun {name f} hf input hinput => by
    obtain ⟨hf, hname⟩ := Model.field?_without.1 hf
    have hread := hm.reads hf input hinput
    unfold MayRead at hread ⊢
    split at hread
    · rename_i hitself
      rwa [if_pos hitself]
    · rename_i hitself
      rw [if_neg hitself]
      obtain ⟨hown, read, hget, hvaries⟩ := hread
      have hkept := h.reads hf hname input hinput hitself
      exact ⟨hown, read, Model.field?_without.2 ⟨hget, hkept⟩, hvaries⟩
  dynamic := fun hf => hm.dynamic (Model.field?_without.1 hf).1
  algebraic := fun hf => hm.algebraic (Model.field?_without.1 hf).1
  sized := fun hf => hm.sized (Model.field?_without.1 hf).1
  axes := fun hf axis haxis => by
    have hspanned := hm.axes (Model.field?_without.1 hf).1 axis haxis
    exact hspanned.imp_right fun ⟨size, hsize, hkind⟩ =>
      ⟨size, Model.field?_without.2 ⟨hsize, h.size hsize hkind⟩, hkind⟩
  order := hm.order.without names
  parameterOrder := hm.parameterOrder.without names

end FieldFlow
