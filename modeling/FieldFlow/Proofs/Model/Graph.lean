import FieldFlow.Proofs.Model.EvaluationOrder
import Mathlib.Logic.Relation

/-!
# Proofs/Model/Graph — which computed fields of a kind read which

To the order of evaluation a kind is a list of readers, `graphOf`: every computed field of it with
the others that it reads, each once. Where all inputs can be filed, the order depends on nothing
else (`resolveOrder_eq`). So fields that read the same are evaluated in the same order, whatever
else there is to them and however often they list an input (`resolveOrder_congr`).
-/

namespace FieldFlow

open Relation

variable {α : Type} {fields fields' : FieldMap α} {kind : FieldKind}

/-! ## Fields by name -/

theorem named_iff : Named fields ↔ ∀ e ∈ fields.entries, e.2.name = e.1 :=
  ⟨fun h e he => h e.1 e.2 (OrderedMap.get?_eq_some_iff.2 he),
    fun h name f hf => h (name, f) (OrderedMap.get?_eq_some_iff.1 hf)⟩

instance : Decidable (Named fields) := decidable_of_iff _ named_iff.symm

/-- Fields listed under their own names. -/
def fieldsOf (fs : List (Field α)) : FieldMap α := .ofList (fs.map fun f => (f.name, f))

/-- A computed field that takes over its first input. -/
def takingOver (kind : FieldKind) (name : String) (inputs : List String) : Field α :=
  { Field.bare name kind with
    function := some ⟨inputs, fun values => values.get (inputs.headD name)⟩ }

/-- **All inputs of a kind can be filed.** -/
def Filed (fields : FieldMap α) (kind : FieldKind) : Prop :=
  ∀ f ∈ computedOf fields kind, ∃ p, partitionInputs fields f = .ok p

theorem filed_iff :
    Filed fields kind ↔ ∀ f ∈ computedOf fields kind, (partitionInputs fields f).isOk = true := by
  refine forall₂_congr fun f _ => ?_
  cases partitionInputs fields f <;> simp [Except.isOk, Except.toBool]

instance : Decidable (Filed fields kind) := decidable_of_iff _ filed_iff.symm

/-- **A read within a kind**: both fields are computed and of the kind, and may be the same. -/
def ReadsOfKind (fields : FieldMap α) (kind : FieldKind) (reader read : String) : Prop :=
  (∃ f ∈ computedOf fields kind, f.name = reader ∧ read ∈ f.inputs) ∧
    read ∈ (computedOf fields kind).map Field.name

theorem ne_dynamic_of_ordered (hkind : kind = .algebraic ∨ kind = .parameter) :
    kind ≠ .dynamic := by
  rcases hkind with rfl | rfl <;> exact fun h => nomatch h

/-! ## Readers of each other -/

/-- **Readers of each other** — each has a name of its own and reads some of them, each once. -/
structure ReadEachOther (readers : List Reader) : Prop where
  nodup : (readers.map Reader.name).Nodup
  known : ∀ r ∈ readers, ∀ read ∈ r.reads, read ∈ readers.map Reader.name
  once : ∀ r ∈ readers, r.reads.Nodup

/-- One reader reads another, by name. -/
def Links (readers : List Reader) (reader read : String) : Prop :=
  ∃ r ∈ readers, r.name = reader ∧ read ∈ r.reads

theorem ReadEachOther.eq_of_name_eq {readers : List Reader} (h : ReadEachOther readers)
    {r s : Reader} (hr : r ∈ readers) (hs : s ∈ readers) (hname : r.name = s.name) : r = s :=
  List.inj_on_of_nodup_map h.nodup hr hs hname

/-- **The computed fields of a kind** as readers of each other. -/
def graphOf (fields : FieldMap α) (kind : FieldKind) : List Reader :=
  (computedOf fields kind).map (readerOf fields kind)

theorem map_name_graphOf :
    (graphOf fields kind).map Reader.name = (computedOf fields kind).map Field.name :=
  List.map_map

theorem readEachOther_graphOf (hnamed : Named fields) : ReadEachOther (graphOf fields kind) where
  nodup := map_name_graphOf ▸ nodup_computedOf hnamed kind
  known := fun r hr read hread => by
    obtain ⟨f, -, rfl⟩ := List.mem_map.1 hr
    rw [map_name_graphOf]
    exact List.mem_of_mem_filter hread
  once := fun r hr => by
    obtain ⟨f, -, rfl⟩ := List.mem_map.1 hr
    exact (nodup_computedOf hnamed kind).filter _

/-- Where all inputs can be filed, the readers of a kind read what its fields do. -/
theorem links_graphOf (hnamed : Named fields) (hkind : kind = .algebraic ∨ kind = .parameter)
    (hfiled : Filed fields kind) : Links (graphOf fields kind) = ReadsOfKind fields kind := by
  ext reader read
  constructor
  · rintro ⟨r, hr, rfl, hread⟩
    obtain ⟨f, hf, rfl⟩ := List.mem_map.1 hr
    obtain ⟨hknown, hlisted⟩ := List.mem_filter.1 hread
    exact ⟨⟨f, hf, rfl, List.mem_of_mem_filter (List.contains_iff_mem.1 hlisted)⟩, hknown⟩
  · rintro ⟨⟨f, hf, rfl, hread⟩, hknown⟩
    obtain ⟨p, hp⟩ := hfiled f hf
    have hdynamic : f.kind ≠ .dynamic :=
      (mem_computedOf_iff.1 hf).2.1 ▸ ne_dynamic_of_ordered hkind
    have hitself := ne_itself_of_partitionInputs hp hdynamic hread
    exact ⟨readerOf fields kind f, List.mem_map_of_mem hf, rfl,
      mem_reads_readerOf hnamed hread hitself hknown⟩

/-! ## The order from the readers -/

theorem readersOf_eq_ok (hkind : kind = .algebraic ∨ kind = .parameter)
    (hfiled : Filed fields kind) : readersOf fields kind = .ok (graphOf fields kind) := by
  have hok : ∃ readers, readersOf fields kind = .ok readers := exists_mapM_eq_ok fun f hf => by
    obtain ⟨p, hp⟩ := hfiled f hf
    exact ⟨_, bind_eq_ok_iff.2 ⟨p, hp, rfl⟩⟩
  obtain ⟨readers, hreaders⟩ := hok
  rw [hreaders, readersOf_eq hkind hreaders]
  rfl

/-- **An order is resolved from the readers alone.** -/
theorem resolveOrder_eq (hkind : kind = .algebraic ∨ kind = .parameter)
    (hfiled : Filed fields kind) : resolveOrder fields kind =
      if (emitReady [] (graphOf fields kind)).2 = [] then
        .ok (emitReady [] (graphOf fields kind)).1
      else .error (.cyclicDependency ((emitReady [] (graphOf fields kind)).2.map Reader.name)) := by
  unfold resolveOrder
  rw [readersOf_eq_ok hkind hfiled]
  dsimp only [bind, Except.bind]
  split
  · rename_i order hemit
    rw [hemit, if_pos rfl]
    rfl
  · rename_i order stuck hstuck hemit
    rw [hemit, if_neg hstuck]
    rfl

/-! ## Fields that read the same -/

/-- **A field that reads the same**, perhaps with other values, and with inputs in another order or
more often. Of fields of other kinds only the kind counts. -/
structure Field.SameReads (kind : FieldKind) (f g : Field α) : Prop where
  name : g.name = f.name
  kind_eq : g.kind = f.kind
  computed : f.kind = kind → g.isComputed = f.isComputed
  inputs : f.kind = kind → ∀ input, input ∈ g.inputs ↔ input ∈ f.inputs

/-- **Fields under the same names that read the same.** -/
structure SameReads (kind : FieldKind) (fields fields' : FieldMap α) : Prop where
  keys : fields'.keys = fields.keys
  field : ∀ {name f}, fields.get? name = some f →
    ∃ g, fields'.get? name = some g ∧ f.SameReads kind g

namespace SameReads

theorem origin (h : SameReads kind fields fields') {name : String} {g : Field α}
    (hg : fields'.get? name = some g) :
    ∃ f, fields.get? name = some f ∧ f.SameReads kind g := by
  have hkey : name ∈ fields.keys := h.keys ▸ OrderedMap.mem_keys_iff.2 ⟨g, hg⟩
  obtain ⟨f, hf⟩ := OrderedMap.mem_keys_iff.1 hkey
  obtain ⟨g', hg', hsame⟩ := h.field hf
  obtain rfl := Option.some.inj (hg'.symm.trans hg)
  exact ⟨f, hf, hsame⟩

theorem namesKind_eq (h : SameReads kind fields fields') (k : FieldKind) :
    namesKind fields' k = namesKind fields k := by
  ext input
  rw [Bool.eq_iff_iff, namesKind_iff, namesKind_iff]
  refine and_congr_right fun _ => ⟨?_, ?_⟩
  · rintro ⟨g, hg, rfl⟩
    obtain ⟨f, hf, hsame⟩ := h.origin hg
    exact ⟨f, hf, hsame.kind_eq.symm⟩
  · rintro ⟨f, hf, rfl⟩
    obtain ⟨g, hg, hsame⟩ := h.field hf
    exact ⟨g, hg, hsame.kind_eq⟩

theorem mayRead (h : SameReads kind fields fields') {f g : Field α} (hsame : f.SameReads kind g)
    {input : String} (hread : MayRead fields f input) : MayRead fields' g input := by
  unfold MayRead at hread ⊢
  rw [hsame.name, hsame.kind_eq]
  split at hread
  · rwa [if_pos (by assumption)]
  · rw [if_neg (by assumption)]
    obtain ⟨hown, read, hget, hvaries⟩ := hread
    obtain ⟨read', hget', hsame'⟩ := h.field hget
    exact ⟨hown, read', hget', by rwa [hsame'.kind_eq]⟩

theorem filed (h : SameReads kind fields fields') (hfiled : Filed fields kind) :
    Filed fields' kind := by
  intro g hg
  obtain ⟨hvalue, hkind, hcomputed⟩ := mem_computedOf_iff.1 hg
  obtain ⟨name, hget⟩ := OrderedMap.mem_values_iff.1 hvalue
  obtain ⟨f, hf, hsame⟩ := h.origin hget
  have hfkind : f.kind = kind := hsame.kind_eq.symm.trans hkind
  have hmem : f ∈ computedOf fields kind := mem_computedOf_iff.2
    ⟨OrderedMap.mem_values_iff.2 ⟨name, hf⟩, hfkind, (hsame.computed hfkind).symm.trans hcomputed⟩
  have hmay := exists_partitionInputs_iff.1 (hfiled f hmem)
  exact exists_partitionInputs_iff.2 fun input hinput =>
    h.mayRead hsame (hmay input ((hsame.inputs hfkind input).1 hinput))

theorem forall₂_computedOf (h : SameReads kind fields fields') :
    List.Forall₂ (Field.SameReads kind) (computedOf fields kind) (computedOf fields' kind) := by
  refine List.rel_filter (fun f g hsame => ?_) (OrderedMap.forall₂_values h.keys h.field)
  by_cases hkind : f.kind = kind
  · simp [hsame.kind_eq, hkind, hsame.computed hkind]
  · simp [hsame.kind_eq, hkind]

theorem graphOf_eq (h : SameReads kind fields fields') :
    graphOf fields' kind = graphOf fields kind := by
  have hsame : List.Forall₂ (fun f g => f.SameReads kind g ∧ f.kind = kind)
      (computedOf fields kind) (computedOf fields' kind) := by
    refine ((List.forall₂_and_left _ _).2 ⟨fun f hf => ?_, h.forall₂_computedOf⟩).imp
      fun f g hfg => hfg.symm
    exact (mem_computedOf_iff.1 hf).2.1
  have hnames : (computedOf fields kind).map Field.name =
      (computedOf fields' kind).map Field.name := by
    rw [← List.forall₂_eq_eq_eq, List.forall₂_map_left_iff, List.forall₂_map_right_iff]
    exact hsame.imp fun f g hfg => hfg.1.name.symm
  unfold graphOf
  rw [eq_comm, ← List.forall₂_eq_eq_eq, List.forall₂_map_left_iff, List.forall₂_map_right_iff]
  refine hsame.imp fun f g ⟨hfg, hkind⟩ => ?_
  unfold readerOf
  rw [hfg.name, hnames, h.namesKind_eq]
  congr 1
  refine List.filter_congr fun name _ => ?_
  rw [Bool.eq_iff_iff, List.contains_iff_mem, List.contains_iff_mem, List.mem_filter,
    List.mem_filter, hfg.inputs hkind]

end SameReads

/-- **Fields that read the same are ordered the same**, or refused the same. -/
theorem resolveOrder_congr (hkind : kind = .algebraic ∨ kind = .parameter)
    (hfiled : Filed fields kind) (h : SameReads kind fields fields') :
    resolveOrder fields' kind = resolveOrder fields kind := by
  rw [resolveOrder_eq hkind hfiled, resolveOrder_eq hkind (h.filed hfiled), h.graphOf_eq]

end FieldFlow
