import FieldFlow.Proofs.Model.Soundness
import FieldFlow.Proofs.System.Buffers
import FieldFlow.System.Bind

/-!
# Proofs/System/Layout — where binding puts a field

Binding gives the field at a place of the model the slot at the same place (`BoundFrom`). What the
orders and the declared inputs say in names then holds of slots: `Wired` is what an evaluation needs
of a system, and `BoundFrom.wired` gets it from a model that can be evaluated.
-/

namespace FieldFlow

variable {α : Type}

/-! ## Places of fields -/

theorem idxOf?_eq_some_iff_of_nodup {name : String} {i : Nat} {names : List String}
    (h : names.Nodup) : names.idxOf? name = some i ↔ names[i]? = some name := by
  rw [List.idxOf?_eq_some_iff, List.getElem?_eq_some_iff]
  constructor
  · rintro ⟨hi, heq, -⟩
    exact ⟨hi, heq⟩
  · rintro ⟨hi, heq⟩
    refine ⟨hi, heq, fun j hj hji => ?_⟩
    exact Nat.ne_of_lt hj ((h.getElem_inj_iff).1 (hji.trans heq.symm))

/-- The place of a name among the keys is the place of its field among the values. -/
theorem Named.idxOf?_keys {fields : FieldMap α} (h : Named fields) {name : String} {i : Nat} :
    fields.keys.idxOf? name = some i ↔ ∃ f, fields.values[i]? = some f ∧ f.name = name := by
  have hkeys : fields.keys.Nodup := fields.nodup
  rw [idxOf?_eq_some_iff_of_nodup hkeys, ← h.map_name, List.getElem?_map, Option.map_eq_some_iff]

theorem Named.get?_eq_some_iff {fields : FieldMap α} (h : Named fields) {name : String}
    {f : Field α} : fields.get? name = some f ↔
      ∃ i : Nat, fields.values[i]? = some f ∧ f.name = name := by
  constructor
  · intro hf
    obtain ⟨i, hi⟩ := List.mem_iff_getElem?.1 (OrderedMap.mem_values_iff.2 ⟨name, hf⟩)
    exact ⟨i, hi, h name f hf⟩
  · rintro ⟨i, hi, rfl⟩
    exact h.get? (List.mem_of_getElem? hi)

/-! ## A function of every field -/

/-- A model with every field changed by a function. -/
def Model.mapFields (m : Model α) (u : Field α → Field α) : Model α :=
  { m with fields := m.fields.map u }

section Mapped

variable (m : Model α) (u : Field α → Field α)

theorem Model.keys_mapFields : (m.mapFields u).fields.keys = m.fields.keys :=
  OrderedMap.keys_map u m.fields

theorem Model.values_mapFields : (m.mapFields u).fields.values = m.fields.values.map u :=
  OrderedMap.values_map u m.fields

theorem Model.field?_mapFields (name : String) :
    (m.mapFields u).field? name = (m.field? name).map u :=
  OrderedMap.get?_map u m.fields name

/-- Axes are as long as before where the sectors are left. -/
theorem Model.axisLength_mapFields (hu : ∀ f, (u f).sectors = f.sectors) (axis : String) :
    (m.mapFields u).axisLength axis = m.axisLength axis := by
  unfold axisLength
  rw [field?_mapFields]
  split
  · rfl
  · cases m.field? axis with
    | none => rfl
    | some f => simp only [Option.map_some, hu]

theorem orderedSlot_mapFields [Scalar α] (name : String) :
    orderedSlot (m.mapFields u) name = orderedSlot m name := by
  unfold orderedSlot
  rw [Model.keys_mapFields]

theorem inputSlot_mapFields [Scalar α] {f f' : Field α} (hname : f'.name = f.name) (own : Nat)
    (input : String) : inputSlot (m.mapFields u) own f' input = inputSlot m own f input := by
  unfold inputSlot
  rw [Model.keys_mapFields, hname]

end Mapped

/-! ## Slots of fields -/

/-- **The slot that a field gets.** -/
structure SlotOf (m : Model α) (runs regions own : Nat) (f : Field α) (slot : Slot α) : Prop where
  name : slot.name = f.name
  kind : slot.kind = f.kind
  function : slot.function = f.function
  shape : m.shapeOf f runs regions = .ok slot.shape
  inputs : f.inputs.mapM (inputSlot m own f) = .ok slot.inputs

/-- The names under which a slot was told its inputs. -/
def Slot.inputNames (slot : Slot α) : List String :=
  match slot.function with
  | some g => g.inputs
  | none => []

theorem SlotOf.inputNames {m : Model α} {runs regions own : Nat} {f : Field α} {slot : Slot α}
    (h : SlotOf m runs regions own f slot) : slot.inputNames = f.inputs := by
  unfold Slot.inputNames Field.inputs
  have hfunction := h.function
  cases hf : f.function with
  | none => simp only [hfunction.trans hf]
  | some g => simp only [hfunction.trans hf]

/-- A field has the runs of the run. -/
theorem Model.runs_of_shapeOf {m : Model α} {f : Field α} {runs regions : Nat} {s : Shape}
    (h : m.shapeOf f runs regions = .ok s) : s.runs = runs := by
  unfold shapeOf at h
  split at h
  · obtain rfl := Except.ok.inj h
    rfl
  · obtain ⟨rows, -, h⟩ := bind_eq_ok_iff.1 h
    obtain ⟨columns, -, h⟩ := bind_eq_ok_iff.1 h
    obtain rfl := pure_eq_ok_iff.1 h
    rfl

variable {m : Model α} {runs regions : Nat} {sys : System α}

section Binding

variable [Scalar α]

theorem shape_of_boundValue {f : Field α} {s : Shape} {t : Tensor α}
    (h : boundValue f s = .ok t) : t.shape = s := by
  unfold boundValue at h
  split at h
  · obtain ⟨v, -, h⟩ := bind_eq_ok_iff.1 h
    exact Tensor.shape_of_allocate (Tensor.broadcastTo_eq_ok_iff.1 h).2
  · exact Tensor.shape_of_allocateFilled (mapError_eq_ok_iff.1 h)
  · exact Tensor.shape_of_allocateFilled (mapError_eq_ok_iff.1 h)

/-- A slot is made from its field, with a first buffer in its shape. -/
theorem of_bindSlot {f : Field α} {own : Nat} {entry : Slot α × Buffer α}
    (h : bindSlot m runs regions f own = .ok entry) : SlotOf m runs regions own f entry.1 ∧
      boundValue f entry.1.shape = .ok entry.2.value ∧
        entry.2.fresh = decide (f.kind ≠ .algebraic) := by
  obtain ⟨shape, hshape, h⟩ := bind_eq_ok_iff.1 h
  obtain ⟨inputs, hinputs, h⟩ := bind_eq_ok_iff.1 h
  obtain ⟨value, hvalue, h⟩ := bind_eq_ok_iff.1 h
  obtain rfl := pure_eq_ok_iff.1 h
  exact ⟨⟨rfl, rfl, rfl, mapError_eq_ok_iff.1 hshape, mapError_eq_ok_iff.1 hinputs⟩, hvalue, rfl⟩

/-! ## Binding -/

/-- The slots with their first buffers. -/
def Model.lay (m : Model α) (runs regions : Nat) : Except (Failure α) (List (Slot α × Buffer α)) :=
  m.fields.values.zipIdx.mapM fun (f, own) => bindSlot m runs regions f own

/-- The system before its computed parameters have values. -/
def systemOf (laid : List (Slot α × Buffer α)) (order : List Nat) : System α :=
  ⟨(laid.map Prod.fst).toArray, order, (laid.map Prod.snd).toArray⟩

/-- The slots of an order that are computed. -/
def System.computedOf (sys : System α) (slots : List Nat) : List Nat :=
  slots.filter fun i => (sys.slots[i]?.bind Slot.function).isSome

/-- **The steps of binding.** -/
theorem bind_eq_ok_iff_steps : m.bind runs regions = .ok sys ↔ ∃ laid order parameters buffers,
    m.lay runs regions = .ok laid ∧ m.order.mapM (orderedSlot m) = .ok order ∧
      m.parameterOrder.mapM (orderedSlot m) = .ok parameters ∧
        (systemOf laid order).computeAll ((systemOf laid order).computedOf parameters)
          (systemOf laid order).bound = (buffers, .ok ()) ∧
            { systemOf laid order with bound := buffers } = sys := by
  unfold Model.bind
  simp only [bind_eq_ok_iff]
  constructor
  · rintro ⟨laid, hlaid, order, horder, parameters, hparameters, h⟩
    split at h
    · rename_i buffers hcomputed
      exact ⟨laid, order, parameters, buffers, hlaid, horder, hparameters, hcomputed,
        pure_eq_ok_iff.1 h⟩
    · exact absurd h throw_ne_ok
  · rintro ⟨laid, order, parameters, buffers, hlaid, horder, hparameters, hcomputed, rfl⟩
    refine ⟨laid, hlaid, order, horder, parameters, hparameters, ?_⟩
    unfold systemOf System.computedOf at hcomputed
    rw [hcomputed]
    rfl

theorem Model.getElem?_lay {laid : List (Slot α × Buffer α)} (h : m.lay runs regions = .ok laid)
    {f : Field α} {own : Nat} (hf : m.fields.values[own]? = some f) :
    ∃ entry, laid[own]? = some entry ∧ bindSlot m runs regions f own = .ok entry := by
  have hplace : m.fields.values.zipIdx[own]? = some (f, own) := by
    rw [List.getElem?_zipIdx, hf, Option.map_some, Nat.zero_add]
  obtain ⟨entry, hentry, hbind⟩ := getElem?_of_mapM_eq_ok h hplace
  exact ⟨entry, hentry, hbind⟩

theorem Model.getElem?_of_lay {laid : List (Slot α × Buffer α)} (h : m.lay runs regions = .ok laid)
    {entry : Slot α × Buffer α} {own : Nat} (hentry : laid[own]? = some entry) :
    ∃ f, m.fields.values[own]? = some f ∧ bindSlot m runs regions f own = .ok entry := by
  have hlength : laid.length = m.fields.values.length := by
    rw [length_of_mapM_eq_ok h, List.length_zipIdx]
  have hown : own < m.fields.values.length := by
    rw [← hlength]
    exact (List.getElem?_eq_some_iff.1 hentry).1
  have hf := List.getElem?_eq_getElem hown
  obtain ⟨entry', hentry', hbind⟩ := m.getElem?_lay h hf
  obtain rfl := Option.some.inj (hentry'.symm.trans hentry)
  exact ⟨_, hf, hbind⟩

/-- The first buffers fit their slots. -/
theorem shaped_of_lay {laid : List (Slot α × Buffer α)} (h : m.lay runs regions = .ok laid)
    (order : List Nat) : System.Shaped (systemOf laid order).slots (systemOf laid order).bound := by
  have hentry : ∀ {own : Nat} {slot b}, (systemOf laid order).slots[own]? = some slot →
      (systemOf laid order).bound[own]? = some b →
        ∃ f, bindSlot m runs regions f own = .ok (slot, b) := by
    intro own slot b hslot hb
    simp only [systemOf, List.getElem?_toArray, List.getElem?_map, Option.map_eq_some_iff] at hslot hb
    obtain ⟨entry, hentry, rfl⟩ := hslot
    obtain ⟨entry', hentry', rfl⟩ := hb
    obtain rfl := Option.some.inj (hentry'.symm.trans hentry)
    obtain ⟨f, -, hbind⟩ := m.getElem?_of_lay h hentry
    exact ⟨f, hbind⟩
  refine ⟨⟨by simp [systemOf], ?_⟩, ?_⟩
  · intro own slot b hslot hb
    obtain ⟨f, hbind⟩ := hentry hslot hb
    exact shape_of_boundValue (of_bindSlot hbind).2.1
  · intro own slot b hslot hb hkind
    obtain ⟨f, hbind⟩ := hentry hslot hb
    obtain ⟨hof, -, hfresh⟩ := of_bindSlot hbind
    rw [hof.kind] at hkind
    exact hfresh.trans (decide_eq_true hkind)

/-- **A system bound from a model** has the slot of every field at the place of the field, and
buffers that fit. -/
structure BoundFrom (m : Model α) (runs regions : Nat) (sys : System α) : Prop where
  slot : ∀ {own : Nat} {f}, m.fields.values[own]? = some f →
    ∃ slot, sys.slots[own]? = some slot ∧ SlotOf m runs regions own f slot
  field : ∀ {own : Nat} {slot}, sys.slots[own]? = some slot →
    ∃ f, m.fields.values[own]? = some f ∧ SlotOf m runs regions own f slot
  order : m.order.mapM (orderedSlot m) = .ok sys.order
  shaped : System.Shaped sys.slots sys.bound

theorem boundFrom_of_lay {laid : List (Slot α × Buffer α)} (h : m.lay runs regions = .ok laid)
    {order : List Nat} (horder : m.order.mapM (orderedSlot m) = .ok order) :
    BoundFrom m runs regions (systemOf laid order) := by
  refine ⟨fun {own f} hf => ?_, fun {own slot} hslot => ?_, horder, shaped_of_lay h order⟩
  · obtain ⟨entry, hentry, hbind⟩ := m.getElem?_lay h hf
    refine ⟨entry.1, ?_, (of_bindSlot hbind).1⟩
    simp [systemOf, hentry]
  · simp only [systemOf, List.getElem?_toArray, List.getElem?_map, Option.map_eq_some_iff] at hslot
    obtain ⟨entry, hentry, rfl⟩ := hslot
    obtain ⟨f, hf, hbind⟩ := m.getElem?_of_lay h hentry
    exact ⟨f, hf, (of_bindSlot hbind).1⟩

theorem boundFrom_of_bind (h : m.bind runs regions = .ok sys) : BoundFrom m runs regions sys := by
  obtain ⟨laid, order, parameters, buffers, hlaid, horder, -, hcomputed, rfl⟩ :=
    bind_eq_ok_iff_steps.1 h
  have hfirst := boundFrom_of_lay hlaid horder
  have hshaped := hfirst.shaped.computeAll ((systemOf laid order).computedOf parameters)
  rw [hcomputed] at hshaped
  exact ⟨hfirst.slot, hfirst.field, hfirst.order, hshaped⟩

/-- **The initial values of slots** are those of the first and of the others. -/
theorem initialValues_cons_eq_ok_iff {i : Nat} {slot : Slot α}
    {rest : List (Nat × Slot α)} {state : Vector α (stateSize ((i, slot) :: rest))} :
    initialValues m ((i, slot) :: rest) = .ok state ↔ ∃ given v here others,
      (m.field? slot.name).bind Field.initial = some given ∧ given.toTensor slot.name = .ok v ∧
        v.flatTo slot.name slot.shape = .ok here ∧ initialValues m rest = .ok others ∧
          here ++ others = state := by
  rw [initialValues]
  cases (m.field? slot.name).bind Field.initial with
  | none => simp
  | some given =>
    constructor
    · intro h
      obtain ⟨v, hv, h⟩ := bind_eq_ok_iff.1 h
      obtain ⟨here, hhere, h⟩ := bind_eq_ok_iff.1 h
      obtain ⟨others, hothers, h⟩ := bind_eq_ok_iff.1 h
      exact ⟨given, v, here, others, rfl, hv, hhere, hothers, pure_eq_ok_iff.1 h⟩
    · rintro ⟨given', v, here, others, hgiven, hv, hhere, hothers, rfl⟩
      obtain rfl := Option.some.inj hgiven
      exact bind_eq_ok_iff.2 ⟨v, hv, bind_eq_ok_iff.2 ⟨here, hhere,
        bind_eq_ok_iff.2 ⟨others, hothers, rfl⟩⟩⟩

end Binding

/-! ## Wiring -/

namespace System

/-- What is read under a name in slot `own`: the slot itself, or the one that has the name. -/
def Feeds (sys : System α) (own : Nat) (input : String) (k : Nat) : Prop :=
  if input = itself then k = own else ∃ read, sys.slots[k]? = some read ∧ read.name = input

/-- **What an evaluation needs of a system**: names that tell slots apart, and an order in which
every algebraic slot comes once, after the algebraic slots that it reads. -/
structure Wired (sys : System α) : Prop where
  names : (sys.slots.toList.map Slot.name).Nodup
  inputs : ∀ {i : Nat} {slot}, sys.slots[i]? = some slot →
    List.Forall₂ (sys.Feeds i) slot.inputNames slot.inputs
  nodup : sys.order.Nodup
  mem_order_iff : ∀ {i : Nat}, i ∈ sys.order ↔
    ∃ slot, sys.slots[i]? = some slot ∧ slot.kind = .algebraic
  follows : ∀ {done rest : List Nat} {i : Nat} {slot}, sys.order = done ++ i :: rest →
    sys.slots[i]? = some slot → ∀ k ∈ slot.inputs, k ∈ sys.order → k ∈ done

end System

/-! ## Looking up by name -/

namespace System

theorem map_name_valuesIn {buffers : Buffers α} (hsize : buffers.size = sys.slots.size) :
    ((sys.valuesIn buffers).map fun e => e.1.name) = sys.slots.toList.map Slot.name := by
  have hlength : sys.slots.toList.length ≤ (buffers.toList.map Buffer.value).length := by
    rw [List.length_map, Array.length_toList, Array.length_toList, hsize]
  conv_rhs => rw [← List.map_fst_zip hlength, List.map_map]
  rfl

theorem mem_valuesIn {buffers : Buffers α} {i : Nat} {slot : Slot α} {b : Buffer α}
    (hslot : sys.slots[i]? = some slot) (hb : buffers[i]? = some b) :
    (slot, b.value) ∈ sys.valuesIn buffers := by
  refine List.mem_iff_getElem?.2 ⟨i, List.getElem?_zip_eq_some.2 ⟨?_, ?_⟩⟩
  · rw [Array.getElem?_toList, hslot]
  · rw [List.getElem?_map, Array.getElem?_toList, hb, Option.map_some]

/-- The current value of a field is what stands in the buffer of its slot. -/
theorem value?_eq_some (hw : sys.Wired) {buffers : Buffers α}
    (hsize : buffers.size = sys.slots.size) {i : Nat} {slot : Slot α} {b : Buffer α}
    (hslot : sys.slots[i]? = some slot) (hb : buffers[i]? = some b) :
    sys.value? buffers slot.name = some b.value := by
  have hnames : ((sys.valuesIn buffers).map fun e => e.1.name).Nodup :=
    map_name_valuesIn hsize ▸ hw.names
  rw [value?, (OrderedMap.find?_eq_some_iff hnames).2 ⟨mem_valuesIn hslot hb, rfl⟩,
    Option.map_some]

/-- The shape of a field is the shape of its slot. -/
theorem shape?_eq_some (hw : sys.Wired) {i : Nat} {slot : Slot α}
    (hslot : sys.slots[i]? = some slot) : sys.shape? slot.name = some slot.shape := by
  have hmem : slot ∈ sys.slots.toList :=
    List.mem_iff_getElem?.2 ⟨i, by rw [Array.getElem?_toList, hslot]⟩
  rw [shape?, slot?, ← Array.find?_toList,
    (OrderedMap.find?_eq_some_iff hw.names).2 ⟨hmem, rfl⟩, Option.map_some]

/-- The stretch of a dynamic field is the stretch of its slot. -/
theorem span?_eq_some (hw : sys.Wired) {slot : Slot α} {span : Span}
    (h : (slot, span) ∈ spansFrom 0 sys.dynamics) : sys.span? slot.name = some span := by
  have hnames : ((spansFrom 0 sys.dynamics).map fun e => e.1.name).Nodup := by
    have heq : ((spansFrom 0 sys.dynamics).map fun e => e.1.name) =
        (sys.slots.toList.filter fun slot => slot.kind = .dynamic).map Slot.name := by
      rw [← map_snd_dynamics, ← map_spansFrom 0 sys.dynamics, List.map_map]
      rfl
    exact heq ▸ hw.names.sublist (List.filter_sublist.map _)
  rw [span?, (OrderedMap.find?_eq_some_iff hnames).2 ⟨h, rfl⟩, Option.map_some]

end System

/-! ## A model that can be evaluated is wired -/

theorem mem_of_idxOf_lt {done rest : List String} {name read : String}
    (h : (done ++ name :: rest).idxOf read < (done ++ name :: rest).idxOf name) : read ∈ done := by
  by_contra hread
  have hname : (done ++ name :: rest).idxOf name ≤ done.length := by
    by_cases hmem : name ∈ done
    · rw [List.idxOf_append_of_mem hmem]
      exact List.idxOf_le_length
    · rw [List.idxOf_append_of_notMem hmem, List.idxOf_cons_self, Nat.add_zero]
  rw [List.idxOf_append_of_notMem hread] at h
  omega

theorem inputSlot_eq_ok_iff {own k : Nat} {f : Field α} {input : String} :
    inputSlot m own f input = .ok k ↔
      if input = itself then k = own else m.fields.keys.idxOf? input = some k := by
  unfold inputSlot
  split
  · simp [eq_comm]
  · split
    · rename_i i hi
      simp [hi]
    · rename_i hnone
      simp [hnone]

theorem orderedSlot_eq_ok_iff {name : String} {i : Nat} :
    orderedSlot m name = .ok i ↔ m.fields.keys.idxOf? name = some i := by
  unfold orderedSlot
  split
  · rename_i i hi
    simp [hi]
  · rename_i hnone
    simp [hnone]

theorem slots_eq_map {names : List String} {slots : List Nat}
    (h : names.mapM (orderedSlot m) = .ok slots) :
    slots = names.map (m.fields.keys.idxOf ·) := by
  refine eq_map_of_mapM_eq_ok (fun name i hi => ?_) h
  rw [orderedSlot_eq_ok_iff, List.idxOf?_eq_some_iff] at hi
  obtain ⟨hlt, rfl, -⟩ := hi
  exact List.Nodup.idxOf_getElem m.fields.nodup i hlt

namespace BoundFrom

theorem names (h : BoundFrom m runs regions sys) (hm : m.Evaluable) :
    sys.slots.toList.map Slot.name = m.fields.keys := by
  rw [← hm.named.map_name]
  refine List.ext_getElem? fun i => ?_
  rw [List.getElem?_map, List.getElem?_map, Array.getElem?_toList]
  cases hslot : sys.slots[i]? with
  | none =>
    cases hf : m.fields.values[i]? with
    | none => rfl
    | some f =>
      obtain ⟨slot, hsome, -⟩ := h.slot hf
      exact nomatch hslot.symm.trans hsome
  | some slot =>
    obtain ⟨f, hf, hof⟩ := h.field hslot
    rw [hf, Option.map_some, Option.map_some, hof.name]

/-- The slot of a field by its name. -/
theorem slot_of_field? (h : BoundFrom m runs regions sys) (hm : m.Evaluable) {name : String}
    {f : Field α} (hf : m.field? name = some f) :
    ∃ (i : Nat) (slot : Slot α), sys.slots[i]? = some slot ∧ slot.name = name ∧
      SlotOf m runs regions i f slot := by
  obtain ⟨i, hi, hname⟩ := hm.named.get?_eq_some_iff.1 hf
  obtain ⟨slot, hslot, hof⟩ := h.slot hi
  exact ⟨i, slot, hslot, hof.name.trans hname, hof⟩

/-- The field of a slot by its name. -/
theorem field?_of_slot (h : BoundFrom m runs regions sys) (hm : m.Evaluable) {i : Nat}
    {slot : Slot α} (hslot : sys.slots[i]? = some slot) :
    ∃ f, m.field? slot.name = some f ∧ m.fields.values[i]? = some f ∧
      SlotOf m runs regions i f slot := by
  obtain ⟨f, hf, hof⟩ := h.field hslot
  exact ⟨f, hm.named.get?_eq_some_iff.2 ⟨i, hf, hof.name.symm⟩, hf, hof⟩

/-- What a slot reads under a name that is not the reserved one is the slot of that name. -/
theorem feeds (h : BoundFrom m runs regions sys) (hm : m.Evaluable) {i k : Nat} {f : Field α}
    {input : String} (hinput : inputSlot m i f input = .ok k) : sys.Feeds i input k := by
  rw [inputSlot_eq_ok_iff] at hinput
  unfold System.Feeds
  split at hinput
  · rwa [if_pos (by assumption)]
  · rw [if_neg (by assumption)]
    obtain ⟨g, hg, rfl⟩ := hm.named.idxOf?_keys.1 hinput
    obtain ⟨slot, hslot, hof⟩ := h.slot hg
    exact ⟨slot, hslot, hof.name⟩

theorem inputs (h : BoundFrom m runs regions sys) (hm : m.Evaluable) {i : Nat} {slot : Slot α}
    (hslot : sys.slots[i]? = some slot) :
    List.Forall₂ (sys.Feeds i) slot.inputNames slot.inputs := by
  obtain ⟨f, -, hof⟩ := h.field hslot
  rw [hof.inputNames]
  exact (mapM_eq_ok_iff.1 hof.inputs).imp fun _ _ hinput => h.feeds hm hinput

theorem idxOf_keys (h : BoundFrom m runs regions sys) (hm : m.Evaluable) {i : Nat} {slot : Slot α}
    (hslot : sys.slots[i]? = some slot) : m.fields.keys.idxOf slot.name = i := by
  have hname : m.fields.keys[i]? = some slot.name := by
    rw [← h.names hm, List.getElem?_map, Array.getElem?_toList, hslot, Option.map_some]
  obtain ⟨hi, heq⟩ := List.getElem?_eq_some_iff.1 hname
  rw [← heq]
  exact List.Nodup.idxOf_getElem m.fields.nodup i hi

/-! ### Orders in slots -/

variable {kind : FieldKind} {names : List String} {slots : List Nat}

/-- A slot is in an order where its name is in the order of names. -/
theorem mem_slots_iff_name (h : BoundFrom m runs regions sys) (hm : m.Evaluable)
    (horder : EvaluationOrder m.fields kind names) (hslots : names.mapM (orderedSlot m) = .ok slots)
    {i : Nat} {slot : Slot α} (hslot : sys.slots[i]? = some slot) :
    i ∈ slots ↔ slot.name ∈ names := by
  rw [slots_eq_map hslots, List.mem_map]
  constructor
  · rintro ⟨name, hname, hi⟩
    obtain ⟨f, hf, -⟩ := horder.listed name hname
    obtain ⟨j, slot', hslot', rfl, -⟩ := h.slot_of_field? hm hf
    obtain rfl : j = i := (h.idxOf_keys hm hslot').symm.trans hi
    rwa [Option.some.inj (hslot.symm.trans hslot')]
  · intro hname
    exact ⟨slot.name, hname, h.idxOf_keys hm hslot⟩

/-- The slots of an order are of its kind. -/
theorem exists_slot_of_mem (h : BoundFrom m runs regions sys) (hm : m.Evaluable)
    (horder : EvaluationOrder m.fields kind names) (hslots : names.mapM (orderedSlot m) = .ok slots)
    {i : Nat} (hi : i ∈ slots) : ∃ slot, sys.slots[i]? = some slot ∧ slot.kind = kind := by
  obtain ⟨name, hname, rfl⟩ := List.mem_map.1 (slots_eq_map hslots ▸ hi)
  obtain ⟨f, hf, hkind⟩ := horder.listed name hname
  obtain ⟨j, slot, hslot, rfl, hof⟩ := h.slot_of_field? hm hf
  exact ⟨slot, by rwa [h.idxOf_keys hm hslot], hof.kind.trans hkind⟩

theorem nodup_slots (horder : EvaluationOrder m.fields kind names)
    (hslots : names.mapM (orderedSlot m) = .ok slots) : slots.Nodup := by
  rw [slots_eq_map hslots]
  refine List.Nodup.map_on (fun name hname name' hname' heq => ?_) horder.nodup
  obtain ⟨f, hf, -⟩ := horder.listed name hname
  exact (List.idxOf_inj (OrderedMap.mem_keys_iff.2 ⟨f, hf⟩)).1 heq

/-- **In front of a slot in an order** stands every slot of the order that it reads — as in the
order of names that it comes from, where only what is dynamic may read itself. -/
theorem follows (h : BoundFrom m runs regions sys) (hm : m.Evaluable) (hdynamic : kind ≠ .dynamic)
    (horder : EvaluationOrder m.fields kind names) (hslots : names.mapM (orderedSlot m) = .ok slots)
    {done rest : List Nat} {i : Nat} {slot : Slot α} (hsplit : slots = done ++ i :: rest)
    (hslot : sys.slots[i]? = some slot) : ∀ k ∈ slot.inputs, k ∈ slots → k ∈ done := by
  intro k hk hmem
  obtain ⟨f, hf, -, hof⟩ := h.field?_of_slot hm hslot
  have hin : i ∈ slots := hsplit ▸ by simp
  obtain ⟨listed, hlisted, hkind⟩ := h.exists_slot_of_mem hm horder hslots hin
  obtain rfl := Option.some.inj (hslot.symm.trans hlisted)
  have hkind : f.kind = kind := hof.kind.symm.trans hkind
  obtain ⟨input, hinput, hread⟩ := exists_mem_of_mapM_eq_ok hof.inputs hk
  have hnamed : sys.Feeds i input k := h.feeds hm hread
  have hmay := hm.reads hf input hinput
  have hitself : input ≠ itself := fun heq => hdynamic (by simpa [MayRead, heq, hkind] using hmay)
  rw [System.Feeds, if_neg hitself] at hnamed
  obtain ⟨read, hreadSlot, rfl⟩ := hnamed
  have hbefore := horder.follows hf hkind read.name hinput
    ((h.mem_slots_iff_name hm horder hslots hreadSlot).1 hmem)
  rw [slots_eq_map hslots, List.map_eq_append_iff] at hsplit
  obtain ⟨done', rest', hnames, rfl, hrest⟩ := hsplit
  obtain ⟨name, rest'', rfl, hname, -⟩ := List.map_eq_cons_iff.1 hrest
  obtain ⟨g, hg, -⟩ := horder.listed name (hnames ▸ by simp)
  obtain rfl : name = slot.name := (List.idxOf_inj (OrderedMap.mem_keys_iff.2 ⟨g, hg⟩)).1
    (hname.trans (h.idxOf_keys hm hslot).symm)
  rw [hnames] at hbefore
  exact List.mem_map.2 ⟨read.name, mem_of_idxOf_lt hbefore, h.idxOf_keys hm hreadSlot⟩

/-- The order lists the algebraic slots. -/
theorem mem_order_iff (h : BoundFrom m runs regions sys) (hm : m.Evaluable) {i : Nat} :
    i ∈ sys.order ↔ ∃ slot, sys.slots[i]? = some slot ∧ slot.kind = .algebraic := by
  constructor
  · exact fun hi => h.exists_slot_of_mem hm hm.order h.order hi
  · rintro ⟨slot, hslot, hkind⟩
    obtain ⟨f, hf, -, hof⟩ := h.field?_of_slot hm hslot
    have hkind : f.kind = .algebraic := hof.kind.symm.trans hkind
    rw [h.mem_slots_iff_name hm hm.order h.order hslot]
    exact hm.order.complete hf hkind (hm.algebraic hf hkind)

theorem wired (h : BoundFrom m runs regions sys) (hm : m.Evaluable) : sys.Wired where
  names := by
    rw [h.names hm]
    exact m.fields.nodup
  inputs := fun hslot => h.inputs hm hslot
  nodup := nodup_slots hm.order h.order
  mem_order_iff := h.mem_order_iff hm
  follows := fun hsplit hslot => h.follows hm (by decide) hm.order h.order hsplit hslot

end BoundFrom

end FieldFlow
