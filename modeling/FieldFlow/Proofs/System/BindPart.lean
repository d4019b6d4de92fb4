import FieldFlow.Proofs.System.Progress
import FieldFlow.Proofs.System.Seat

/-!
# Proofs/System/BindPart — a part of a model binds to a part of its system

A part of a model has some of its fields, unchanged, and whatever they read (`Model.PartOf`); in
what order fields are declared and evaluated is its own. It binds where the model binds, to a part
of the system that has the same values for its parameters (`bind_partOf`), and starts at its seats
in the initial state (`initialState_partOf`).
-/

namespace FieldFlow

variable {α : Type}

/-- **A part of a model**: some of its fields, which can be evaluated without the others. -/
structure Model.PartOf (part whole : Model α) : Prop where
  evaluable : part.Evaluable
  evaluable_whole : whole.Evaluable
  field : ∀ {name f}, part.field? name = some f → whole.field? name = some f

namespace Model.PartOf

variable {part whole : Model α} {runs regions : Nat}

/-- Fields of a part have the shape that they have in the whole. -/
theorem shapeOf_eq (h : part.PartOf whole) {name : String} {f : Field α}
    (hf : part.field? name = some f) :
    part.shapeOf f runs regions = whole.shapeOf f runs regions := by
  have haxis : ∀ axis ∈ [f.axes.1, f.axes.2], part.axisLength axis = whole.axisLength axis := by
    intro axis haxis
    unfold axisLength
    split
    · rfl
    · rename_i hunit
      obtain ⟨size, hsize, -⟩ := (h.evaluable.axes hf axis haxis).resolve_left hunit
      rw [hsize, h.field hsize]
  unfold shapeOf
  rw [haxis f.axes.1 (by simp), haxis f.axes.2 (by simp)]

/-- A field of the whole under the name of a field of the part is that field. -/
theorem eq_of_name_eq (h : part.PartOf whole) {i k : Nat} {f f' : Field α}
    (hf : part.fields.values[i]? = some f) (hf' : whole.fields.values[k]? = some f')
    (hname : f.name = f'.name) : f = f' := by
  have hpart : part.field? f.name = some f := h.evaluable.named.get?_eq_some_iff.2 ⟨i, hf, rfl⟩
  have hwhole : whole.field? f.name = some f' :=
    h.evaluable_whole.named.get?_eq_some_iff.2 ⟨k, hf', hname.symm⟩
  exact Option.some.inj ((h.field hpart).symm.trans hwhole)

/-- **Systems bound from a part and from the whole** are a part and a whole. -/
theorem partOf (h : part.PartOf whole) {sys sys' : System α}
    (hbound : BoundFrom part runs regions sys) (hbound' : BoundFrom whole runs regions sys') :
    sys.PartOf sys' where
  wired := hbound.wired h.evaluable
  wired_whole := hbound'.wired h.evaluable_whole
  twin := fun hslot => by
    obtain ⟨f, hf, -, hof⟩ := hbound.field?_of_slot h.evaluable hslot
    obtain ⟨k, slot', hslot', hname, hof'⟩ := hbound'.slot_of_field? h.evaluable_whole (h.field hf)
    refine ⟨k, slot', hslot', hname.symm, hof.kind.trans hof'.kind.symm, ?_,
      hof.function.trans hof'.function.symm⟩
    exact Except.ok.inj (hof.shape.symm.trans ((h.shapeOf_eq hf).trans hof'.shape))

/-! ## Binding -/

variable [Scalar α]

/-- Every field of a part can be laid out where the fields of the whole can. -/
theorem exists_lay (h : part.PartOf whole) {laid' : List (Slot α × Buffer α)}
    (hlaid' : whole.lay runs regions = .ok laid') : ∃ laid, part.lay runs regions = .ok laid := by
  refine exists_mapM_eq_ok ?_
  rintro ⟨f, own⟩ hentry
  have hf := List.mk_mem_zipIdx_iff_getElem?.1 hentry
  have hfield : part.field? f.name = some f := h.evaluable.named.get?_eq_some_iff.2 ⟨own, hf, rfl⟩
  obtain ⟨k, hk, -⟩ := h.evaluable_whole.named.get?_eq_some_iff.1 (h.field hfield)
  obtain ⟨entry', -, hbind'⟩ := whole.getElem?_lay hlaid' hk
  obtain ⟨hof', hvalue, -⟩ := of_bindSlot hbind'
  obtain ⟨inputs, hinputs⟩ := exists_mapM_eq_ok fun input hinput =>
    exists_inputSlot h.evaluable hfield hinput own
  exact ⟨_, bind_eq_ok_iff.2 ⟨_, mapError_eq_ok_iff.2 ((h.shapeOf_eq hfield).trans hof'.shape),
    bind_eq_ok_iff.2 ⟨_, mapError_eq_ok_iff.2 hinputs, bind_eq_ok_iff.2 ⟨_, hvalue, rfl⟩⟩⟩⟩

/-- A field has the same first buffer in a part and in the whole. -/
theorem agree_of_lay (h : part.PartOf whole) {laid laid' : List (Slot α × Buffer α)}
    (hlaid : part.lay runs regions = .ok laid) (hlaid' : whole.lay runs regions = .ok laid')
    (order order' : List Nat) : System.Agree (systemOf laid order) (systemOf laid' order')
      (systemOf laid order).bound (systemOf laid' order').bound := by
  rintro i k ⟨slot, slot', hslot, hslot', hsame⟩
  simp only [systemOf, List.getElem?_toArray, List.getElem?_map, Option.map_eq_some_iff]
    at hslot hslot' ⊢
  obtain ⟨⟨_, b⟩, hentry, rfl⟩ := hslot
  obtain ⟨⟨_, b'⟩, hentry', rfl⟩ := hslot'
  obtain ⟨f, hf, hbind⟩ := part.getElem?_of_lay hlaid hentry
  obtain ⟨f', hf', hbind'⟩ := whole.getElem?_of_lay hlaid' hentry'
  obtain ⟨hof, hvalue, hfresh⟩ := of_bindSlot hbind
  obtain ⟨hof', hvalue', hfresh'⟩ := of_bindSlot hbind'
  obtain rfl := h.eq_of_name_eq hf hf' (hof.name.symm.trans (hsame.name.trans hof'.name))
  rw [hsame.shape] at hvalue
  obtain ⟨v, fresh⟩ := b
  obtain ⟨v', fresh'⟩ := b'
  obtain rfl : v = v' := Except.ok.inj (hvalue.symm.trans hvalue')
  obtain rfl : fresh = fresh' := hfresh.trans hfresh'.symm
  rw [hentry, hentry']
  rfl

end Model.PartOf

section Computed

variable {m : Model α} {runs regions : Nat} {sys : System α} {parameters : List Nat}

/-- The slots that binding computes are the parameters with functions. -/
theorem BoundFrom.mem_computedOf_iff (h : BoundFrom m runs regions sys) (hm : m.Evaluable)
    (hparameters : m.parameterOrder.mapM (orderedSlot m) = .ok parameters) {i : Nat} :
    i ∈ sys.computedOf parameters ↔ ∃ slot, sys.slots[i]? = some slot ∧ slot.kind = .parameter ∧
      slot.function.isSome := by
  refine ⟨of_mem_computedOf hm h hparameters i, ?_⟩
  rintro ⟨slot, hslot, hkind, hfunction⟩
  obtain ⟨f, hf, -, hof⟩ := h.field?_of_slot hm hslot
  have hcomputed : f.isComputed = true := by rwa [Field.isComputed, ← hof.function]
  have hlisted := hm.parameterOrder.complete hf (hof.kind.symm.trans hkind) hcomputed
  refine List.mem_filter.2
    ⟨(h.mem_slots_iff_name hm hm.parameterOrder hparameters hslot).2 hlisted, ?_⟩
  rw [hslot]
  exact hfunction

theorem BoundFrom.ordered_computedOf (h : BoundFrom m runs regions sys) (hm : m.Evaluable)
    (hparameters : m.parameterOrder.mapM (orderedSlot m) = .ok parameters) :
    sys.Ordered (sys.computedOf parameters) := by
  have hordered : sys.Ordered parameters :=
    System.ordered_of_follows (BoundFrom.nodup_slots hm.parameterOrder hparameters)
      fun hsplit hslot => h.follows hm (by decide) hm.parameterOrder hparameters hsplit hslot
  exact hordered.filter

/-- What is computed in a part is computed in the whole. -/
theorem Model.PartOf.mem_computedOf_iff_of_twin {part whole : Model α} (h : part.PartOf whole)
    {sys sys' : System α} (hbound : BoundFrom part runs regions sys)
    (hbound' : BoundFrom whole runs regions sys') {parameters parameters' : List Nat}
    (hparameters : part.parameterOrder.mapM (orderedSlot part) = .ok parameters)
    (hparameters' : whole.parameterOrder.mapM (orderedSlot whole) = .ok parameters') {i k : Nat}
    (htwin : System.Twin sys sys' i k) :
    i ∈ sys.computedOf parameters ↔ k ∈ sys'.computedOf parameters' := by
  obtain ⟨slot, slot', hslot, hslot', hsame⟩ := htwin
  rw [hbound.mem_computedOf_iff h.evaluable hparameters,
    hbound'.mem_computedOf_iff h.evaluable_whole hparameters', hslot, hslot']
  simp [hsame.kind, hsame.function]

end Computed

section Bind

variable [Scalar α] {part whole : Model α} {runs regions : Nat} {sys' : System α}

/-- **A part binds where the whole binds**, to a part that holds the same values. -/
theorem bind_partOf (h : part.PartOf whole) (hbind : whole.bind runs regions = .ok sys') :
    ∃ sys, part.bind runs regions = .ok sys ∧ sys.PartOf sys' ∧
      System.Agree sys sys' sys.bound sys'.bound := by
  obtain ⟨laid', order', parameters', buffers', hlaid', horder', hparameters', hcomputed', rfl⟩ :=
    bind_eq_ok_iff_steps.1 hbind
  obtain ⟨laid, hlaid⟩ := h.exists_lay hlaid'
  obtain ⟨order, horder⟩ := exists_orderedSlots h.evaluable h.evaluable.order
  obtain ⟨parameters, hparameters⟩ := exists_orderedSlots h.evaluable h.evaluable.parameterOrder
  have hfirst := boundFrom_of_lay hlaid horder
  have hfirst' := boundFrom_of_lay hlaid' horder'
  have hpart := h.partOf hfirst hfirst'
  have htwins : ∀ {i k}, System.Twin (systemOf laid order) (systemOf laid' order') i k → _ :=
    h.mem_computedOf_iff_of_twin hfirst hfirst' hparameters hparameters'
  have hsolved := System.solved_of_computeAll
    (hfirst'.ordered_computedOf h.evaluable_whole hparameters') hfirst'.shaped hcomputed'
  obtain ⟨buffers, hcomputed, hagree⟩ := hpart.exists_computeAll
    (hfirst.ordered_computedOf h.evaluable hparameters) hfirst.shaped.size
    (fun i hi => by
      obtain ⟨slot, hslot, -⟩ := (hfirst.mem_computedOf_iff h.evaluable hparameters).1 hi
      exact (Array.getElem?_eq_some_iff.1 hslot).1)
    (fun i hi k htwin => hsolved k ((htwins htwin).1 hi))
    (fun i hi k htwin => by
      have hkept : ((systemOf laid' order').computeAll _ (systemOf laid' order').bound).1[k]? = _ :=
        System.getElem?_computeAll_of_notMem (mt (htwins htwin).2 hi)
      rw [hcomputed'] at hkept
      rw [hkept]
      exact h.agree_of_lay hlaid hlaid' order order' htwin)
  have hbind' : part.bind runs regions = .ok { systemOf laid order with bound := buffers } :=
    bind_eq_ok_iff_steps.2 ⟨laid, order, parameters, buffers, hlaid, horder, hparameters,
      hcomputed, rfl⟩
  exact ⟨_, hbind', h.partOf (boundFrom_of_bind hbind') (boundFrom_of_bind hbind), hagree⟩

/-! ## The initial state -/

/-- An initial state is gathered from the initial values of the dynamic fields. -/
theorem initialValues_eq_ok_iff {m : Model α} : ∀ {slots : List (Nat × Slot α)}
    {state : Vector α (stateSize slots)}, initialValues m slots = .ok state ↔
      Gathers (fun _ slot here => ∃ given v, (m.field? slot.name).bind Field.initial = some given ∧
        given.toTensor slot.name = .ok v ∧ v.flatTo slot.name slot.shape = .ok here) slots state
  | [], state => by
      constructor
      · intro h
        obtain rfl := Except.ok.inj h
        exact .nil
      · rintro ⟨⟩
        rfl
  | (i, slot) :: rest, state => by
      rw [initialValues_cons_eq_ok_iff]
      constructor
      · rintro ⟨given, v, here, others, hgiven, hv, hhere, hothers, rfl⟩
        exact .cons ⟨given, v, hgiven, hv, hhere⟩ (initialValues_eq_ok_iff.1 hothers)
      · rintro (_ | ⟨⟨given, v, hgiven, hv, hhere⟩, hothers⟩)
        exact ⟨given, v, _, _, hgiven, hv, hhere, initialValues_eq_ok_iff.2 hothers, rfl⟩

/-- **A part starts at its seats** in the initial state. -/
theorem initialState_partOf (h : part.PartOf whole) {sys : System α}
    (hbound : BoundFrom part runs regions sys) (hpart : sys.PartOf sys')
    {state : Vector α sys'.dimension} (hstate : sys'.initialState whole = .ok state) :
    sys.initialState part = .ok (pick hpart.seats state) := by
  refine initialValues_eq_ok_iff.2 (hpart.gathers_pick (initialValues_eq_ok_iff.1 hstate) ?_)
  rintro i k slot slot' here' hentry - hsame ⟨given, v, hgiven, hv, hhere'⟩
  obtain ⟨f, hf, -⟩ := hbound.field?_of_slot h.evaluable (System.mem_dynamics_iff.1 hentry).1
  have hfield : part.field? slot.name = whole.field? slot'.name := by
    rw [← hsame.name, hf, h.field hf]
  obtain ⟨here, hhere, heq⟩ := Tensor.exists_flatTo hsame.name hsame.shape hhere'
  exact ⟨here, ⟨given, v, hfield ▸ hgiven, hsame.name ▸ hv, hhere⟩, heq⟩

end Bind

end FieldFlow
