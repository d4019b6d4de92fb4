import FieldFlow.Proofs.Scalar.Fraction
import FieldFlow.Proofs.Simulation.Calls
import FieldFlow.Proofs.System.BindPart

/-!
# Proofs/System/Parameters — the values that binding gives to parameters stay in force

A computed parameter may lose its function to a value of its own, and the order in which parameters
are computed is still the one that loading resolved. It goes on to work: assignments only take reads
away (`Model.Reassigned.evaluable`), so what is left to compute comes in order, and every equation
holds at the end (`solved_bound`). No later call writes to a parameter or a size, so the
equations hold in whatever buffers the calls leave (`parameters_current`).
-/

namespace FieldFlow

variable {α : Type} [Scalar α]

/-! ## A value or a function -/

/-- A parameter that has a value or a function, and not both. -/
def Field.Provided (f : Field α) : Prop :=
  f.kind = .parameter → f.value.isSome ∧ f.function = none ∨ f.value = none ∧ f.function.isSome

/-- **Every parameter has a value or a function.** -/
def Model.Provided (m : Model α) : Prop := ∀ name f, m.field? name = some f → f.Provided

theorem LoadedFrom.provided {registry : Registry α} {d : Description α} {m : Model α}
    (h : LoadedFrom registry d m) : m.Provided := by
  intro name f hf hkind
  have hmade := h.sound.wellMade hf
  rwa [Field.WellMade, hkind] at hmade

namespace Simulation

variable {s next : Simulation α} {name : String}

omit [Scalar α] in
theorem provided_withField (hs : s.model.Provided) {u : Field α → Field α}
    (hu : ∀ f, s.model.field? name = some f → (u f).Provided) :
    (s.withField name u).model.Provided := by
  intro name' g hg
  rw [field?_withField] at hg
  split at hg
  · obtain ⟨f, hf, rfl⟩ := Option.map_eq_some_iff.1 hg
    exact hu f hf
  · exact hs name' g hg

/-- An assignment to a parameter replaces its function, and no other touches values or functions. -/
theorem Assigns.provided {v : Value α} (h : s.Assigns name v next) (hs : s.model.Provided) :
    next.model.Provided := by
  cases h with
  | value => exact provided_withField hs fun f _ _ => .inl ⟨rfl, rfl⟩
  | runs | regions => exact hs
  | initial | start =>
    refine provided_withField hs fun f hf => ?_
    exact hs _ f hf

theorem InUse.provided {registry : Registry α} {d : Description α} (h : s.InUse registry d) :
    s.model.Provided := by
  obtain ⟨seed, loaded, hload, hreaches⟩ := h
  refine hreaches.induct (motive := fun mid => mid.model.Provided)
    (fun _ hassigns hmid => hassigns.provided hmid) (fun _ _ hmid => hmid) ?_
  exact (loadedFrom_of_load (load_of_loadSimulation hload)).provided

end Simulation

/-! ## What binding leaves in a parameter -/

section Bound

variable {m : Model α} {runs regions : Nat} {sys : System α} {buffers : Buffers α} {i : Nat}
  {slot : Slot α} {f : Field α}

/-- A parameter without a function keeps the value that it was laid out with. -/
theorem exists_bound_of_fixed (hm : m.Evaluable) (hbind : m.bind runs regions = .ok sys)
    (hf : m.fields.values[i]? = some f) (hslot : sys.slots[i]? = some slot)
    (hnone : f.function = none) :
    ∃ b, sys.bound[i]? = some b ∧ boundValue f slot.shape = .ok b.value := by
  obtain ⟨laid, order, parameters, buffers, hlaid, horder, hparameters, hcomputed, rfl⟩ :=
    bind_eq_ok_iff_steps.1 hbind
  have hfirst := boundFrom_of_lay hlaid horder
  obtain ⟨⟨first, b⟩, hentry, hentryBind⟩ := m.getElem?_lay hlaid hf
  obtain ⟨hof, hvalue, -⟩ := of_bindSlot hentryBind
  have hfirstSlot : (systemOf laid order).slots[i]? = some first := by
    simp [systemOf, hentry]
  have hfirstBuffer : (systemOf laid order).bound[i]? = some b := by
    simp [systemOf, hentry]
  obtain rfl : first = slot := Option.some.inj (hfirstSlot.symm.trans hslot)
  have hnotMem : i ∉ (systemOf laid order).computedOf parameters := by
    rw [hfirst.mem_computedOf_iff hm hparameters, hfirstSlot]
    rintro ⟨_, heq, -, hfunction⟩
    rw [← Option.some.inj heq, hof.function, hnone] at hfunction
    exact Bool.false_ne_true hfunction
  have hkept : ((systemOf laid order).computeAll _ (systemOf laid order).bound).1[i]? = _ :=
    System.getElem?_computeAll_of_notMem hnotMem
  rw [hcomputed, hfirstBuffer] at hkept
  exact ⟨b, hkept, hvalue⟩

/-- The equation of a parameter with a function is solved. -/
theorem solved_bound (hm : m.Evaluable) (hbind : m.bind runs regions = .ok sys)
    (hslot : sys.slots[i]? = some slot) (hkind : slot.kind = .parameter)
    (hfunction : slot.function.isSome) : sys.Solved sys.bound i := by
  obtain ⟨laid, order, parameters, buffers, hlaid, horder, hparameters, hcomputed, rfl⟩ :=
    bind_eq_ok_iff_steps.1 hbind
  have hfirst := boundFrom_of_lay hlaid horder
  exact System.solved_of_computeAll (hfirst.ordered_computedOf hm hparameters) hfirst.shaped
    hcomputed i ((hfirst.mem_computedOf_iff hm hparameters).2 ⟨slot, hslot, hkind, hfunction⟩)

omit [Scalar α] in
/-- A parameter reads parameters and sizes. -/
theorem Model.Evaluable.read_of_parameter (hm : m.Evaluable) {name input : String}
    (hf : m.field? name = some f) (hkind : f.kind = .parameter) (hinput : input ∈ f.inputs) :
    input ≠ itself ∧ ∃ read, m.field? input = some read ∧ read.kind.isTimeVarying = false := by
  have hmay := hm.reads hf input hinput
  rw [MayRead, hkind] at hmay
  split at hmay
  · exact absurd hmay (by decide)
  · rename_i hne
    obtain ⟨-, read, hread, hsettled⟩ := hmay
    exact ⟨hne, read, hread, hsettled rfl⟩

omit [Scalar α] in
/-- What is read by a parameter stays as it was bound. -/
theorem getElem?_input_of_scratch (hm : m.Evaluable) (hbound : BoundFrom m runs regions sys)
    (hb : sys.Scratch buffers) (hslot : sys.slots[i]? = some slot) (hkind : slot.kind = .parameter) :
    ∀ k ∈ slot.inputs, buffers[k]? = sys.bound[k]? := by
  intro k hk
  obtain ⟨f, hf, -, hof⟩ := hbound.field?_of_slot hm hslot
  obtain ⟨input, hinput, hread⟩ := exists_mem_of_mapM_eq_ok hof.inputs hk
  obtain ⟨hne, read, hfield, hsettled⟩ :=
    hm.read_of_parameter hf (hof.kind.symm.trans hkind) hinput
  have hfeeds : sys.Feeds i input k := hbound.feeds hm hread
  rw [System.Feeds, if_neg hne] at hfeeds
  obtain ⟨readSlot, hreadSlot, rfl⟩ := hfeeds
  obtain ⟨g, hg, -, hofRead⟩ := hbound.field?_of_slot hm hreadSlot
  obtain rfl := Option.some.inj (hg.symm.trans hfield)
  exact hb.settled hreadSlot (hofRead.kind ▸ hsettled)

end Bound

/-! ## Up to date -/

/-- **Buffers in which every parameter is up to date.** -/
structure Current (m : Model α) (runs regions : Nat) (sys : System α) (buffers : Buffers α) :
    Prop where
  /-- A parameter with a value holds that value, repeated over its shape. -/
  fixed : ∀ {name f v}, m.field? name = some f → f.kind = .parameter → f.value = some v →
    ∃ t shape, v.toTensor name = .ok t ∧ m.shapeOf f runs regions = .ok shape ∧
      t.fits shape = true ∧ sys.value? buffers name = some (t.expand shape)
  /-- A parameter with a function holds what it gives for what the parameters and sizes hold that
  it reads. -/
  computed : ∀ {name f g}, m.field? name = some f → f.kind = .parameter → f.function = some g →
    ∃ values output shape,
      List.Forall₂ (fun input value => sys.value? buffers input = some value) g.inputs values ∧
        (∀ input ∈ g.inputs, ∃ read, m.field? input = some read ∧
          (read.kind = .parameter ∨ read.kind = .size)) ∧
        g.apply values = .ok output ∧ m.shapeOf f runs regions = .ok shape ∧
          output.fits shape = true ∧ sys.value? buffers name = some (output.expand shape)

section Reached

variable {m : Model α} {runs regions : Nat} {sys : System α} {buffers : Buffers α}

omit [Scalar α] in
/-- The buffer of a parameter is as it was bound. -/
theorem getElem?_parameter_of_scratch (hb : sys.Scratch buffers) {i : Nat} {slot : Slot α}
    (hslot : sys.slots[i]? = some slot) (hkind : slot.kind = .parameter) :
    buffers[i]? = sys.bound[i]? :=
  hb.settled hslot (by rw [hkind]; rfl)

/-- A parameter with a value holds it. -/
theorem fixed_of_scratch (hm : m.Evaluable) (hprovided : m.Provided)
    (hbind : m.bind runs regions = .ok sys) (hb : sys.Scratch buffers) {name : String} {f : Field α}
    {v : Value α} (hf : m.field? name = some f) (hkind : f.kind = .parameter)
    (hv : f.value = some v) :
    ∃ t shape, v.toTensor name = .ok t ∧ m.shapeOf f runs regions = .ok shape ∧
      t.fits shape = true ∧ sys.value? buffers name = some (t.expand shape) := by
  have hbound := boundFrom_of_bind hbind
  obtain ⟨i, slot, hslot, rfl, hof⟩ := hbound.slot_of_field? hm hf
  obtain ⟨f', hf', hplace, -⟩ := hbound.field?_of_slot hm hslot
  obtain rfl := Option.some.inj (hf'.symm.trans hf)
  have hnone : f'.function = none := by
    rcases hprovided _ f' hf hkind with ⟨-, hnone⟩ | ⟨hnone, -⟩
    · exact hnone
    · exact nomatch hnone.symm.trans hv
  obtain ⟨b, hbuffer, hvalue⟩ := exists_bound_of_fixed hm hbind hplace hslot hnone
  rw [boundValue, hkind, hv] at hvalue
  obtain ⟨t, ht, hvalue⟩ := bind_eq_ok_iff.1 hvalue
  obtain ⟨hfits, hvalue⟩ := Tensor.broadcastTo_eq_ok_iff.1 hvalue
  obtain ⟨-, hvalue⟩ := Tensor.allocate_eq_ok_iff.1 hvalue
  refine ⟨t, slot.shape, hof.name ▸ mapError_eq_ok_iff.1 ht, hof.shape, hfits, ?_⟩
  have hkept := getElem?_parameter_of_scratch hb hslot (hof.kind.trans hkind)
  rw [Tensor.expand, hvalue]
  exact System.value?_eq_some (hbound.wired hm) hb.size hslot (hkept.trans hbuffer)

/-- A parameter with a function holds what it gives for what its inputs hold. -/
theorem computed_of_scratch (hm : m.Evaluable) (hbind : m.bind runs regions = .ok sys)
    (hb : sys.Scratch buffers) {name : String} {f : Field α} {g : Function α}
    (hf : m.field? name = some f) (hkind : f.kind = .parameter) (hg : f.function = some g) :
    ∃ values output shape,
      List.Forall₂ (fun input value => sys.value? buffers input = some value) g.inputs values ∧
        g.apply values = .ok output ∧ m.shapeOf f runs regions = .ok shape ∧
          output.fits shape = true ∧ sys.value? buffers name = some (output.expand shape) := by
  have hbound := boundFrom_of_bind hbind
  obtain ⟨i, slot, hslot, rfl, hof⟩ := hbound.slot_of_field? hm hf
  have hparameter := hof.kind.trans hkind
  have hsolved : sys.Solved buffers i := by
    have hfirst := solved_bound hm hbind hslot hparameter (by rw [hof.function, hg]; rfl)
    refine hfirst.congr (getElem?_parameter_of_scratch hb hslot hparameter) fun slot' hslot' => ?_
    obtain rfl := Option.some.inj (hslot.symm.trans hslot')
    exact getElem?_input_of_scratch hm hbound hb hslot hparameter
  obtain ⟨g', values, output, v, hg', hvalues, houtput, hv, hvalue⟩ :=
    algebraic_of_solved hm hbound hb.toShaped hslot hof
      (fun input hinput => (hm.read_of_parameter hf hkind hinput).1) hsolved
  obtain rfl := Option.some.inj (hg'.symm.trans hg)
  obtain ⟨hfits, rfl⟩ := Tensor.assignTo_eq_ok_iff.1 hv
  exact ⟨values, output, slot.shape, hvalues, houtput, hof.shape, hfits, hvalue⟩

/-- **Bound parameters are up to date**, and stay so. -/
theorem current_of_scratch (hm : m.Evaluable) (hprovided : m.Provided)
    (hbind : m.bind runs regions = .ok sys) (hb : sys.Scratch buffers) :
    Current m runs regions sys buffers := by
  refine ⟨fun hf hkind hv => fixed_of_scratch hm hprovided hbind hb hf hkind hv,
    fun {name f g} hf hkind hg => ?_⟩
  obtain ⟨values, output, shape, hvalues, hrest⟩ := computed_of_scratch hm hbind hb hf hkind hg
  refine ⟨values, output, shape, hvalues, fun input hinput => ?_, hrest⟩
  obtain ⟨-, read, hread, hsettled⟩ :=
    hm.read_of_parameter hf hkind (Field.mem_inputs_iff.2 ⟨g, hg, hinput⟩)
  refine ⟨read, hread, ?_⟩
  revert hsettled
  cases read.kind <;> simp [FieldKind.isTimeVarying]

/-- What a buffer of a parameter or a size holds is what was bound. -/
theorem value?_of_scratch (hm : m.Evaluable) (hbind : m.bind runs regions = .ok sys)
    (hb : sys.Scratch buffers) {name : String} {f : Field α} (hf : m.field? name = some f)
    (hkind : f.kind.isTimeVarying = false) :
    ∃ t, sys.value? sys.bound name = some t ∧ sys.value? buffers name = some t := by
  have hbound := boundFrom_of_bind hbind
  have hw := hbound.wired hm
  obtain ⟨i, slot, hslot, rfl, hof⟩ := hbound.slot_of_field? hm hf
  obtain ⟨b, hbuffer⟩ := hbound.shaped.toFits.exists_buffer hslot
  have hvalue := System.value?_eq_some hw hbound.shaped.size hslot hbuffer
  refine ⟨b.value, hvalue, ?_⟩
  rw [settled_of_scratch hw hbound.shaped hb hslot (hof.kind ▸ hkind), hvalue]

end Reached

/-- **Parameters are never stale** — however a simulation was used since it was loaded, in a system
that binds from its model every parameter has a value or a function; it holds that value, or what
the function gives for what its inputs hold, from binding on and through all evaluations, whether
they succeed or fail; and what parameters and sizes hold is what was bound. -/
theorem parameters_current {registry : Registry α} {d : Description α} {s : Simulation α}
    {runs regions : Nat} {sys : System α} {buffers : Buffers α} (hs : s.InUse registry d)
    (hbind : s.model.bind runs regions = .ok sys) (hb : sys.Reached buffers) :
    s.model.Provided ∧ Current s.model runs regions sys buffers ∧
      ∀ name f, s.model.field? name = some f → f.kind = .parameter ∨ f.kind = .size →
        ∃ t, sys.value? sys.bound name = some t ∧ sys.value? buffers name = some t := by
  have hm := hs.model.evaluable
  have hbound := boundFrom_of_bind hbind
  have hscratch := hb.scratch (hbound.wired hm) hbound.shaped
  refine ⟨hs.provided, current_of_scratch hm hs.provided hbind hscratch, fun name f hf hkind => ?_⟩
  refine value?_of_scratch hm hbind hscratch hf ?_
  rcases hkind with hkind | hkind <;> rw [hkind] <;> rfl

/-- Three parameters, each twice the one before, that are declared from the last to the first. -/
def doubling : Description Fraction where
  name := "doubling"
  parameter := .ofList
    [("four", ⟨[("func", .function ((Expression.binary .mul (.input "two")
        (.number (.of 2))).toFunction ["two"]))]⟩),
      ("two", ⟨[("func", .function ((Expression.binary .mul (.input "one")
        (.number (.of 2))).toFunction ["one"]))]⟩),
      ("one", ⟨[("value", .value (.scalar (.of 1)))]⟩)]

/-- With a value for the second one, the third follows it, also after an evaluation that fails. -/
theorem doubling_current : ∃ loaded s sys, Simulation.load .empty doubling 0 = .ok loaded ∧
    loaded.setField "two" (.value (.scalar (.of 5))) = (s, .ok ()) ∧
    s.model.bind 1 1 = .ok sys ∧
    Current s.model 1 1 sys (sys.evaluate #[] sys.bound).1 ∧
    (sys.value? (sys.evaluate #[] sys.bound).1 "four").map (·.get 0 0 0 0) = some (.of 10) := by
  have hbinds : ((Simulation.load .empty doubling 0).toOption.bind fun loaded =>
      let assigned := loaded.setField "two" (.value (.scalar (.of 5)))
      (assigned.1.model.bind 1 1).toOption.map fun sys => (assigned.2.toOption.isSome,
        (sys.value? (sys.evaluate #[] sys.bound).1 "four").map (·.get 0 0 0 0))) =
          some (true, some (.of 10)) := by
    decide +kernel
  obtain ⟨loaded, hloaded, h⟩ := Option.bind_eq_some_iff.1 hbinds
  obtain ⟨sys, hsys, h⟩ := Option.map_eq_some_iff.1 h
  obtain ⟨hassigned, hfour⟩ := Prod.mk.inj h
  obtain ⟨s, hset⟩ := exists_eq_ok_of_isSome hassigned
  have hloaded := toOption_eq_some_iff.1 hloaded
  have hsys := toOption_eq_some_iff.1 hsys
  rw [hset] at hsys
  have hreaches : loaded.Reaches (fun _ => True)
      (loaded.perform (.field "two" (.value (.scalar (.of 5))))).1 :=
    .called _ .start fun _ _ => trivial
  rw [Simulation.perform, hset] at hreaches
  have hs : s.InUse .empty doubling := ⟨0, loaded, hloaded, hreaches⟩
  exact ⟨loaded, s, sys, hloaded, hset, hsys,
    (parameters_current hs hsys (.evaluated #[] .bound)).2.1, hfour⟩

end FieldFlow
