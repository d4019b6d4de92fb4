import FieldFlow.Proofs.System.Consistency

/-!
# Proofs/System/Progress — what can still fail once a model is loaded

Every name is resolved, every function and initial value is there, and every order is good before a
model is bound. What is left is what no pass of loading can know: whether values and results fit the
shapes of their fields, and what the functions do (`Model.MayFail`).
-/

namespace FieldFlow

variable {α : Type}

/-- The complaints about a value that cannot be laid out. -/
def Value.layoutDefects : List (Defect α) := [.emptyRuns, .emptySectors, .emptyMatrix, .raggedMatrix]

/-- **How binding and evaluating a loaded model can fail.** -/
inductive Model.MayFail [Inhabited α] (m : Model α) (runs regions : Nat) : Failure α → Prop
  /-- A value or a result does not fit the shape of its field. -/
  | shape {name : String} {f : Field α} {s : Shape} (found : List Nat) : m.field? name = some f →
      m.shapeOf f runs regions = .ok s →
        Model.MayFail m runs regions (.error (.shapeMismatch name s.toList found))
  /-- A given value is empty or ragged. -/
  | value {name : String} {f : Field α} {v : Value α} {defect : Defect α} :
      m.field? name = some f → f.value = some v ∨ f.initial = some v →
        v.toTensor name = .error (.malformedField name defect) → defect ∈ Value.layoutDefects →
          Model.MayFail m runs regions (.error (.malformedField name defect))
  /-- A function of the model faults on values for all its inputs. -/
  | function {name : String} {f : Field α} {g : Function α} {values : List (Tensor α)}
      {fault : Fault} : m.field? name = some f → f.function = some g →
        values.length = g.inputs.length → g.apply values = .error fault →
          Model.MayFail m runs regions (.fault fault)
  /-- The value of a field cannot be held. -/
  | oversized {name : String} {f : Field α} {s : Shape} {fault : Fault} : m.field? name = some f →
      m.shapeOf f runs regions = .ok s → s.check = .error fault →
        Model.MayFail m runs regions (.fault fault)

/-- A value that has no array is empty or ragged. -/
theorem Value.defect_of_toTensor [Inhabited α] {name : String} {v : Value α} {e : Error α}
    (h : v.toTensor name = .error e) :
    ∃ defect ∈ Value.layoutDefects, e = .malformedField name defect := by
  unfold Value.toTensor at h
  split at h
  · exact nomatch h
  · split at h
    · exact ⟨.emptyRuns, by simp [layoutDefects], (Except.error.inj h).symm⟩
    · exact nomatch h
  · split at h
    · exact ⟨.emptySectors, by simp [layoutDefects], (Except.error.inj h).symm⟩
    · exact nomatch h
  · dsimp only at h
    split at h
    · exact ⟨.emptyMatrix, by simp [layoutDefects], (Except.error.inj h).symm⟩
    · split at h
      · exact ⟨.raggedMatrix, by simp [layoutDefects], (Except.error.inj h).symm⟩
      · exact nomatch h
  · exact nomatch h

section Resolved

variable {m : Model α} {runs regions : Nat} {sys : System α}

/-! ## Names are resolved -/

theorem exists_axisLength (hm : m.Evaluable) {axis : String}
    (h : axis = unitAxis ∨ ∃ g, m.field? axis = some g ∧ g.kind = .size) :
    ∃ n, m.axisLength axis = .ok n := by
  unfold Model.axisLength
  split
  · exact ⟨1, rfl⟩
  · rename_i hunit
    obtain ⟨g, hg, hkind⟩ := h.resolve_left hunit
    obtain ⟨s, hs, -⟩ := (hm.sized hg hkind).2
    exact ⟨s.size, by rw [hg]; dsimp only; rw [hs]⟩

/-- Every field has a shape. -/
theorem exists_shapeOf (hm : m.Evaluable) (runs regions : Nat) {name : String} {f : Field α}
    (hf : m.field? name = some f) : ∃ s, m.shapeOf f runs regions = .ok s := by
  obtain ⟨a, ha⟩ := exists_axisLength hm (hm.axes hf f.axes.1 (by simp))
  obtain ⟨b, hb⟩ := exists_axisLength hm (hm.axes hf f.axes.2 (by simp))
  unfold Model.shapeOf
  split
  · exact ⟨_, rfl⟩
  · exact ⟨⟨runs, regions, a, b⟩, by rw [ha, hb]; rfl⟩

theorem exists_idxOf?_keys (hm : m.Evaluable) {name : String} {f : Field α}
    (hf : m.field? name = some f) : ∃ i, m.fields.keys.idxOf? name = some i := by
  obtain ⟨i, hi, hname⟩ := hm.named.get?_eq_some_iff.1 hf
  exact ⟨i, hm.named.idxOf?_keys.2 ⟨f, hi, hname⟩⟩

/-- Every declared input has a slot. -/
theorem exists_inputSlot (hm : m.Evaluable) {name : String} {f : Field α}
    (hf : m.field? name = some f) {input : String} (hinput : input ∈ f.inputs) (own : Nat) :
    ∃ k, inputSlot m own f input = .ok k := by
  simp only [inputSlot_eq_ok_iff]
  by_cases hitself : input = itself
  · exact ⟨own, by rw [if_pos hitself]⟩
  · have hread := hm.reads hf input hinput
    rw [MayRead, if_neg hitself] at hread
    obtain ⟨-, read, hget, -⟩ := hread
    obtain ⟨k, hk⟩ := exists_idxOf?_keys hm hget
    exact ⟨k, by rw [if_neg hitself, hk]⟩

/-- Every name of an order has a slot. -/
theorem exists_orderedSlots (hm : m.Evaluable) {kind : FieldKind} {order : List String}
    (h : EvaluationOrder m.fields kind order) : ∃ slots, order.mapM (orderedSlot m) = .ok slots := by
  refine exists_mapM_eq_ok fun name hname => ?_
  obtain ⟨f, hf, -⟩ := h.listed name hname
  obtain ⟨i, hi⟩ := exists_idxOf?_keys hm hf
  exact ⟨i, orderedSlot_eq_ok_iff.2 hi⟩

/-- Every slot that is read is there. -/
theorem BoundFrom.exists_slot_of_mem_inputs (h : BoundFrom m runs regions sys) (hm : m.Evaluable)
    {i k : Nat} {slot : Slot α} (hslot : sys.slots[i]? = some slot) (hk : k ∈ slot.inputs) :
    k = i ∨ ∃ read, sys.slots[k]? = some read := by
  obtain ⟨f, -, hof⟩ := h.field hslot
  obtain ⟨input, -, hread⟩ := exists_mem_of_mapM_eq_ok hof.inputs hk
  have hfeeds := h.feeds hm hread
  unfold System.Feeds at hfeeds
  split at hfeeds
  · exact .inl hfeeds
  · obtain ⟨read, hread, -⟩ := hfeeds
    exact .inr ⟨read, hread⟩

/-- A parameter reads no algebraic slot. -/
theorem notMem_order_of_parameter (hm : m.Evaluable) (hbound : BoundFrom m runs regions sys) {i : Nat}
    {slot : Slot α} (hslot : sys.slots[i]? = some slot) (hkind : slot.kind = .parameter) :
    ∀ k ∈ slot.inputs, k ∉ sys.order := by
  intro k hk hmem
  obtain ⟨read, hread, halgebraic⟩ := (hbound.mem_order_iff hm).1 hmem
  obtain ⟨g, hg, -, hofRead⟩ := hbound.field?_of_slot hm hread
  obtain ⟨f, hf, -, hof⟩ := hbound.field?_of_slot hm hslot
  have hparameter : f.kind = .parameter := hof.kind.symm.trans hkind
  obtain ⟨input, hinput, hinputSlot⟩ := exists_mem_of_mapM_eq_ok hof.inputs hk
  have hmay := hm.reads hf input hinput
  have hfeeds := hbound.feeds hm hinputSlot
  by_cases hitself : input = itself
  · rw [MayRead, if_pos hitself, hparameter] at hmay
    cases hmay
  · rw [MayRead, if_neg hitself] at hmay
    obtain ⟨-, found, hfound, hsettled⟩ := hmay
    rw [System.Feeds, if_neg hitself] at hfeeds
    obtain ⟨read', hread', rfl⟩ := hfeeds
    obtain rfl := Option.some.inj (hread.symm.trans hread')
    obtain rfl := Option.some.inj (hg.symm.trans hfound)
    have hvaries := hsettled hparameter
    rw [← hofRead.kind, halgebraic] at hvaries
    cases hvaries

/-- The slots that binding computes are parameters with functions. -/
theorem of_mem_computedOf (hm : m.Evaluable) (hbound : BoundFrom m runs regions sys)
    {parameters : List Nat} (h : m.parameterOrder.mapM (orderedSlot m) = .ok parameters) :
    ∀ i ∈ sys.computedOf parameters, ∃ slot, sys.slots[i]? = some slot ∧ slot.kind = .parameter ∧
      slot.function.isSome := by
  intro i hi
  obtain ⟨hmem, hcomputed⟩ := List.mem_filter.1 hi
  obtain ⟨name, hname, hplace⟩ := exists_mem_of_mapM_eq_ok h hmem
  obtain ⟨f, hf, hkind⟩ := hm.parameterOrder.listed name hname
  obtain ⟨g, hg, hgname⟩ := hm.named.idxOf?_keys.1 (orderedSlot_eq_ok_iff.1 hplace)
  obtain rfl := Option.some.inj (hf.symm.trans (hm.named.get?_eq_some_iff.2 ⟨i, hg, hgname⟩))
  obtain ⟨slot, hslot, hof⟩ := hbound.slot hg
  rw [hslot] at hcomputed
  exact ⟨slot, hslot, hof.kind.trans hkind, hcomputed⟩

end Resolved

section Failing

variable [Scalar α] {m : Model α} {runs regions : Nat} {sys : System α}

/-! ## Binding -/

/-- A first value that cannot be laid out. -/
theorem mayFail_of_boundValue {name : String} {f : Field α} {s : Shape} {e : Failure α}
    (hf : m.field? name = some f) (hname : f.name = name) (hs : m.shapeOf f runs regions = .ok s)
    (h : boundValue f s = .error e) : m.MayFail runs regions e := by
  subst hname
  unfold boundValue at h
  split at h
  · rename_i v hkind hv
    rcases bind_eq_error_iff.1 h with h | ⟨t, -, h⟩
    · obtain ⟨e, he, rfl⟩ := mapError_eq_error_iff.1 h
      obtain ⟨defect, hdefect, rfl⟩ := Value.defect_of_toTensor he
      exact .value hf (.inl hv) he hdefect
    · unfold Tensor.broadcastTo at h
      split at h
      · obtain ⟨fault, hfault, rfl⟩ := mapError_eq_error_iff.1 h
        exact .oversized hf hs (Tensor.check_of_allocate_error hfault)
      · obtain rfl := Except.error.inj h
        exact .shape _ hf hs
  · obtain ⟨fault, hfault, rfl⟩ := mapError_eq_error_iff.1 h
    exact .oversized hf hs (Tensor.check_of_allocateFilled_error hfault)
  · obtain ⟨fault, hfault, rfl⟩ := mapError_eq_error_iff.1 h
    exact .oversized hf hs (Tensor.check_of_allocateFilled_error hfault)

theorem mayFail_of_bindSlot (hm : m.Evaluable) {f : Field α} {own : Nat}
    (hf : m.fields.values[own]? = some f) {e : Failure α}
    (h : bindSlot m runs regions f own = .error e) : m.MayFail runs regions e := by
  have hfield : m.field? f.name = some f := hm.named.get?_eq_some_iff.2 ⟨own, hf, rfl⟩
  obtain ⟨s, hs⟩ := exists_shapeOf hm runs regions hfield
  unfold bindSlot at h
  rw [hs] at h
  rcases bind_eq_error_iff.1 h with h | ⟨s', hs', h⟩
  · exact nomatch h
  obtain rfl := Except.ok.inj hs'
  rcases bind_eq_error_iff.1 h with h | ⟨inputs, -, h⟩
  · obtain ⟨e, he, -⟩ := mapError_eq_error_iff.1 h
    obtain ⟨input, hinput, he⟩ := exists_of_mapM_eq_error he
    obtain ⟨k, hk⟩ := exists_inputSlot hm hfield hinput own
    exact nomatch hk.symm.trans he
  rcases bind_eq_error_iff.1 h with h | ⟨value, -, h⟩
  · exact mayFail_of_boundValue hfield rfl hs h
  · exact absurd h pure_ne_error

/-! ## Calling and computing -/

/-- The buffer of a slot, where there is one, has been set. -/
def FreshAt (buffers : Buffers α) (k : Nat) : Prop := ∀ b, buffers[k]? = some b → b.fresh = true

omit [Scalar α] in
/-- An input that is fresh, or is the reader itself, can be read. -/
theorem exists_read (hm : m.Evaluable) (hbound : BoundFrom m runs regions sys)
    {buffers : Buffers α} (hb : System.Shaped sys.slots buffers) {i k : Nat} {slot : Slot α}
    (hslot : sys.slots[i]? = some slot) (hk : k ∈ slot.inputs)
    (hfresh : k ≠ i → FreshAt buffers k) (name : String) :
    ∃ v, sys.read buffers i name k = .ok v := by
  have hin : ∃ b, buffers[k]? = some b := by
    rcases hbound.exists_slot_of_mem_inputs hm hslot hk with rfl | ⟨read, hread⟩
    · exact hb.exists_buffer hslot
    · exact hb.exists_buffer hread
  obtain ⟨b, hbuffer⟩ := hin
  refine ⟨b.value, System.read_eq_ok_iff.2 ⟨b, hbuffer, ?_, rfl⟩⟩
  by_cases heq : k = i
  · exact .inl heq
  · exact .inr (hfresh heq b hbuffer)

/-- A call with fresh inputs fails only in the function. -/
theorem mayFail_of_call (hm : m.Evaluable) (hbound : BoundFrom m runs regions sys)
    {buffers : Buffers α} (hb : System.Shaped sys.slots buffers) {i : Nat} {slot : Slot α}
    (hslot : sys.slots[i]? = some slot) (hfunction : slot.function.isSome)
    (hfresh : ∀ k ∈ slot.inputs, k ≠ i → FreshAt buffers k) {e : Failure α}
    (h : sys.call buffers i = .error e) : m.MayFail runs regions e := by
  obtain ⟨f, hf, -, hof⟩ := hbound.field?_of_slot hm hslot
  obtain ⟨g, hg⟩ := Option.isSome_iff_exists.1 hfunction
  unfold System.call at h
  rw [hslot] at h
  dsimp only at h
  rw [hg] at h
  rcases bind_eq_error_iff.1 h with h | ⟨values, hvalues, h⟩
  · obtain ⟨k, hk, hread⟩ := exists_of_mapM_eq_error h
    obtain ⟨v, hv⟩ := exists_read hm hbound hb hslot hk (hfresh k hk) slot.name
    exact nomatch hv.symm.trans hread
  · obtain ⟨fault, hfault, rfl⟩ := mapError_eq_error_iff.1 h
    have hlength : values.length = g.inputs.length := by
      have hnames : slot.inputNames = g.inputs := by rw [Slot.inputNames, hg]
      rw [length_of_mapM_eq_ok hvalues, ← hnames]
      exact (hbound.inputs hm hslot).length_eq.symm
    exact .function hf (hof.function ▸ hg) hlength hfault

/-- Computing a slot with fresh inputs fails only in the function, or where its result does not
fit. -/
theorem mayFail_of_compute (hm : m.Evaluable) (hbound : BoundFrom m runs regions sys)
    {buffers : Buffers α} (hb : System.Shaped sys.slots buffers) {i : Nat} {slot : Slot α}
    (hslot : sys.slots[i]? = some slot) (hfunction : slot.function.isSome)
    (hfresh : ∀ k ∈ slot.inputs, k ≠ i → FreshAt buffers k) {e : Failure α}
    (h : sys.compute buffers i = .error e) : m.MayFail runs regions e := by
  rcases bind_eq_error_iff.1 h with h | ⟨output, -, h⟩
  · exact mayFail_of_call hm hbound hb hslot hfunction hfresh h
  rw [hslot] at h
  dsimp only at h
  rcases bind_eq_error_iff.1 h with h | ⟨v, -, h⟩
  · obtain ⟨e, he, rfl⟩ := mapError_eq_error_iff.1 h
    obtain ⟨f, hf, -, hof⟩ := hbound.field?_of_slot hm hslot
    rw [Tensor.of_assignTo_error he]
    exact .shape _ hf hof.shape
  · exact absurd h pure_ne_error

/-! ## Evaluating -/

/-- A slot that is computed has been set. -/
theorem freshAt_of_compute {buffers next : Buffers α} {i : Nat}
    (hnext : sys.compute buffers i = .ok next) : FreshAt next i := by
  obtain ⟨output, slot, v, -, -, -, rfl⟩ := System.compute_eq_ok_iff.1 hnext
  intro b hb
  rw [Array.getElem?_setIfInBounds_self] at hb
  split at hb
  · rw [← Option.some.inj hb]
  · exact nomatch hb

/-- What has been set stays set. -/
theorem FreshAt.compute {buffers next : Buffers α} {i j : Nat} (h : FreshAt buffers j)
    (hnext : sys.compute buffers i = .ok next) : FreshAt next j := by
  by_cases heq : i = j
  · exact heq ▸ freshAt_of_compute hnext
  · obtain ⟨output, slot, v, -, -, -, rfl⟩ := System.compute_eq_ok_iff.1 hnext
    intro b hb
    rw [Array.getElem?_setIfInBounds_ne heq] at hb
    exact h b hb

omit [Scalar α] in
/-- A slot that is not algebraic has been set. -/
theorem freshAt_of_ne_algebraic {buffers : Buffers α} (hb : System.Shaped sys.slots buffers) {k : Nat}
    {slot : Slot α} (hslot : sys.slots[k]? = some slot) (hkind : slot.kind ≠ .algebraic) :
    FreshAt buffers k := fun _ hbuffer => hb.fresh hslot hbuffer hkind

omit [Scalar α] in
/-- Where the algebraic slots among its inputs have been set, a slot has fresh inputs. -/
theorem freshAt_inputs (hm : m.Evaluable) (hbound : BoundFrom m runs regions sys)
    {buffers : Buffers α} (hb : System.Shaped sys.slots buffers) {i : Nat} {slot : Slot α}
    (hslot : sys.slots[i]? = some slot)
    (hset : ∀ k ∈ slot.inputs, k ∈ sys.order → FreshAt buffers k) :
    ∀ k ∈ slot.inputs, k ≠ i → FreshAt buffers k := by
  intro k hk hne
  obtain ⟨read, hread⟩ := (hbound.exists_slot_of_mem_inputs hm hslot hk).resolve_left hne
  by_cases hkind : read.kind = .algebraic
  · exact hset k hk ((hbound.mem_order_iff hm).2 ⟨read, hread, hkind⟩)
  · exact freshAt_of_ne_algebraic hb hread hkind

/-- **No slot of the order finds an input empty**, from any place of the order on. -/
theorem mayFail_of_computeAll (hm : m.Evaluable) (hbound : BoundFrom m runs regions sys) :
    ∀ {rest done : List Nat} {buffers after : Buffers α} {e : Failure α},
      sys.order = done ++ rest → System.Shaped sys.slots buffers →
        (∀ j ∈ done, FreshAt buffers j) →
          sys.computeAll rest buffers = (after, .error e) → m.MayFail runs regions e
  | [], _, _, _, _, _, _, _, h => nomatch (Prod.mk.inj h).2
  | i :: rest, done, buffers, after, e, horder, hb, hdone, h => by
      have hmem : i ∈ sys.order := by
        rw [horder]
        simp
      obtain ⟨slot, hslot, hkind⟩ := (hbound.mem_order_iff hm).1 hmem
      rcases System.computeAll_cons_eq_error_iff.1 h with ⟨h, -⟩ | ⟨next, hnext, hrest⟩
      · obtain ⟨f, hf, -, hof⟩ := hbound.field?_of_slot hm hslot
        have hfunction : slot.function.isSome := by
          rw [hof.function]
          exact hm.algebraic hf (hof.kind.symm.trans hkind)
        refine mayFail_of_compute hm hbound hb hslot hfunction ?_ h
        refine freshAt_inputs hm hbound hb hslot fun k hk hkorder => ?_
        exact hdone k ((hbound.wired hm).follows horder hslot k hk hkorder)
      · have horder' : sys.order = (done ++ [i]) ++ rest := by
          rw [horder, List.append_assoc, List.singleton_append]
        refine mayFail_of_computeAll hm hbound horder' (hb.compute hnext) (fun j hj => ?_) hrest
        rcases List.mem_append.1 hj with hj | hj
        · exact (hdone j hj).compute hnext
        · obtain rfl := List.mem_singleton.1 hj
          exact freshAt_of_compute hnext

theorem mayFail_of_evaluate (hm : m.Evaluable) (hbound : BoundFrom m runs regions sys)
    {x : Array α} {buffers after : Buffers α} (hb : sys.Scratch buffers)
    (hx : sys.dimension ≤ x.size) {e : Failure α}
    (h : sys.evaluate x buffers = (after, .error e)) : m.MayFail runs regions e := by
  rw [System.evaluate_of_le hx] at h
  exact mayFail_of_computeAll hm hbound (List.nil_append _).symm
    (hb.toShaped.prepared (hbound.wired hm) x) (fun j hj => absurd hj List.not_mem_nil) h

/-- After a whole evaluation every buffer has been set. -/
theorem freshAt_of_evaluate (hm : m.Evaluable) (hbound : BoundFrom m runs regions sys)
    {x : Array α} {buffers after : Buffers α} (hb : sys.Scratch buffers)
    (hx : sys.dimension ≤ x.size) (h : sys.evaluate x buffers = (after, .ok ())) :
    ∀ k ∈ sys.order, FreshAt after k := by
  intro k hk b hbuffer
  obtain ⟨-, hsolved⟩ := of_evaluate (hbound.wired hm) hb hx h
  obtain ⟨slot, output, v, -, -, -, hset⟩ := hsolved k hk
  rw [← Option.some.inj (hset.symm.trans hbuffer)]

/-! ## Derivatives -/

theorem mayFail_of_derivatives (hm : m.Evaluable) (hbound : BoundFrom m runs regions sys)
    {buffers : Buffers α} (hb : System.Shaped sys.slots buffers)
    (hset : ∀ k ∈ sys.order, FreshAt buffers k) :
    ∀ {slots : List (Nat × Slot α)} {e : Failure α}, (∀ entry ∈ slots, entry ∈ sys.dynamics) →
      sys.derivatives buffers slots = .error e → m.MayFail runs regions e
  | [], _, _, h => nomatch h
  | (i, slot) :: rest, e, hmem, h => by
      rw [List.forall_mem_cons] at hmem
      obtain ⟨hslot, hkind⟩ := System.mem_dynamics_iff.1 hmem.1
      obtain ⟨f, hf, -, hof⟩ := hbound.field?_of_slot hm hslot
      rcases bind_eq_error_iff.1 h with h | ⟨output, -, h⟩
      · have hfunction : slot.function.isSome := by
          rw [hof.function]
          exact (hm.dynamic hf (hof.kind.symm.trans hkind)).1
        refine mayFail_of_call hm hbound hb hslot hfunction ?_ h
        exact freshAt_inputs hm hbound hb hslot fun k _ hk => hset k hk
      rcases bind_eq_error_iff.1 h with h | ⟨here, -, h⟩
      · obtain ⟨e, he, rfl⟩ := mapError_eq_error_iff.1 h
        rw [Tensor.of_flatTo_error he]
        exact .shape _ hf hof.shape
      rcases bind_eq_error_iff.1 h with h | ⟨others, -, h⟩
      · exact mayFail_of_derivatives hm hbound hb hset hmem.2 h
      · exact absurd h pure_ne_error

theorem mayFail_of_apply (hm : m.Evaluable) (hbound : BoundFrom m runs regions sys)
    {x : Array α} {buffers : Buffers α} (hb : sys.Scratch buffers)
    (hx : sys.dimension ≤ x.size) {e : Failure α} (h : (sys.apply x buffers).2 = .error e) :
    m.MayFail runs regions e := by
  unfold System.apply at h
  split at h
  · rename_i after hevaluate
    have hafter := hb.of_evaluate (hbound.wired hm) hevaluate
    exact mayFail_of_derivatives hm hbound hafter.toShaped
      (freshAt_of_evaluate hm hbound hb hx hevaluate) (fun entry hentry => hentry) h
  · rename_i after e' hevaluate
    obtain rfl := Except.error.inj h
    exact mayFail_of_evaluate hm hbound hb hx hevaluate

/-! ## The initial state -/

theorem mayFail_of_initialValues (hm : m.Evaluable) (hbound : BoundFrom m runs regions sys) :
    ∀ {slots : List (Nat × Slot α)} {e : Error α}, (∀ entry ∈ slots, entry ∈ sys.dynamics) →
      initialValues m slots = .error e → m.MayFail runs regions (.error e) := by
  intro slots e hmem h
  induction slots with
  | nil => cases h
  | cons entry rest ih =>
    rw [List.forall_mem_cons] at hmem
    obtain ⟨hslot, hkind⟩ := System.mem_dynamics_iff.1 hmem.1
    obtain ⟨f, hf, -, hof⟩ := hbound.field?_of_slot hm hslot
    obtain ⟨initial, hinitial⟩ :=
      Option.isSome_iff_exists.1 (hm.dynamic hf (hof.kind.symm.trans hkind)).2
    unfold initialValues at h
    rw [hf, Option.bind_some, hinitial] at h
    rcases bind_eq_error_iff.1 h with h | ⟨value, -, h⟩
    · obtain ⟨defect, hdefect, rfl⟩ := Value.defect_of_toTensor h
      exact .value hf (.inr hinitial) h hdefect
    rcases bind_eq_error_iff.1 h with h | ⟨here, -, h⟩
    · rw [Tensor.of_flatTo_error h]
      exact .shape _ hf hof.shape
    rcases bind_eq_error_iff.1 h with h | ⟨others, -, h⟩
    · exact ih hmem.2 h
    · exact absurd h pure_ne_error

/-! ## Computed parameters -/

theorem mayFail_of_computedParameters (hm : m.Evaluable) (hbound : BoundFrom m runs regions sys) :
    ∀ {slots : List Nat} {buffers after : Buffers α} {e : Failure α},
      (∀ i ∈ slots, ∃ slot, sys.slots[i]? = some slot ∧ slot.kind = .parameter ∧
        slot.function.isSome) →
        System.Shaped sys.slots buffers → sys.computeAll slots buffers = (after, .error e) →
          m.MayFail runs regions e
  | [], _, _, _, _, _, h => nomatch (Prod.mk.inj h).2
  | i :: rest, buffers, after, e, hmem, hb, h => by
      rw [List.forall_mem_cons] at hmem
      obtain ⟨slot, hslot, hkind, hfunction⟩ := hmem.1
      rcases System.computeAll_cons_eq_error_iff.1 h with ⟨h, -⟩ | ⟨next, hnext, hrest⟩
      · refine mayFail_of_compute hm hbound hb hslot hfunction ?_ h
        refine freshAt_inputs hm hbound hb hslot fun k hk hkorder => ?_
        exact absurd hkorder (notMem_order_of_parameter hm hbound hslot hkind k hk)
      · exact mayFail_of_computedParameters hm hbound hmem.2 (hb.compute hnext) hrest

theorem mayFail_of_bind (hm : m.Evaluable) {e : Failure α} (h : m.bind runs regions = .error e) :
    m.MayFail runs regions e := by
  rcases bind_eq_error_iff.1 h with h | ⟨laid, hlaid, h⟩
  · obtain ⟨⟨f, own⟩, hplace, hslot⟩ := exists_of_mapM_eq_error h
    exact mayFail_of_bindSlot hm (List.mk_mem_zipIdx_iff_getElem?.1 hplace) hslot
  obtain ⟨order, horder⟩ := exists_orderedSlots hm hm.order
  obtain ⟨parameters, hparameters⟩ := exists_orderedSlots hm hm.parameterOrder
  rw [horder] at h
  rcases bind_eq_error_iff.1 h with h | ⟨order', horder', h⟩
  · exact nomatch h
  obtain rfl := Except.ok.inj horder'
  rw [hparameters] at h
  rcases bind_eq_error_iff.1 h with h | ⟨parameters', hparameters', h⟩
  · exact nomatch h
  obtain rfl := Except.ok.inj hparameters'
  dsimp only at h
  have hbound := boundFrom_of_lay hlaid horder
  split at h
  · exact absurd h pure_ne_error
  · rename_i buffers e' hcomputed
    obtain rfl := throw_eq_error_iff.1 h
    exact mayFail_of_computedParameters hm hbound (of_mem_computedOf hm hbound hparameters)
      hbound.shaped hcomputed

/-- **A loaded model cannot go wrong except by shape**, by an empty or ragged value, by its own
functions, or by want of room — when it is bound, when its initial state is laid out, and when it is
evaluated or differentiated at a state, whatever was called before and was assigned since. -/
theorem fails_only_by_shape {registry : Registry α} {d : Description α} (hm : m.InUse registry d) :
    (∀ e, m.bind runs regions = .error e → m.MayFail runs regions e) ∧
    ∀ sys, m.bind runs regions = .ok sys →
      (∀ e, sys.initialState m = .error e → m.MayFail runs regions (.error e)) ∧
      ∀ (x : Vector α sys.dimension) (buffers : Buffers α), sys.Reached buffers →
        (∀ e, (sys.evaluate x.toArray buffers).2 = .error e → m.MayFail runs regions e) ∧
        (∀ e, (sys.apply x.toArray buffers).2 = .error e → m.MayFail runs regions e) := by
  refine ⟨fun e h => mayFail_of_bind hm.evaluable h, fun sys hbind => ?_⟩
  have hbound := boundFrom_of_bind hbind
  refine ⟨fun e h => ?_, fun x buffers hb => ?_⟩
  · exact mayFail_of_initialValues hm.evaluable hbound (fun entry hentry => hentry) h
  have hscratch := hb.scratch (hbound.wired hm.evaluable) hbound.shaped
  have hx : sys.dimension ≤ x.toArray.size := Nat.le_of_eq x.size_toArray.symm
  constructor
  · exact fun e h => mayFail_of_evaluate hm.evaluable hbound hscratch hx (Prod.ext rfl h)
  · exact fun e h => mayFail_of_apply hm.evaluable hbound hscratch hx h

end Failing

/-- Growth with a price for three goods, of which there are two, cannot be bound. -/
theorem growth_fails_by_shape : ∃ (s next : Simulation Float) (e : Failure Float),
    load .standard growth = .ok s.model ∧
    s.setField "price" (.value (.sectors [1.0, 2.0, 3.0])) = (next, .ok ()) ∧
    next.model.bind 1 1 = .error e ∧ next.model.MayFail 1 1 e := by
  have hfails : ((load .standard growth).toOption.map fun m =>
      let (next, assigned) := (⟨m, 1, 1, .ofSeed 0, none⟩ : Simulation Float).setField "price"
        (.value (.sectors [1.0, 2.0, 3.0]))
      assigned.toOption.isSome && !(next.model.bind 1 1).isOk) = some true := by decide +kernel
  obtain ⟨m, hm, h⟩ := Option.map_eq_some_iff.1 hfails
  have hm := toOption_eq_some_iff.1 hm
  rw [Bool.and_eq_true] at h
  obtain ⟨next, hset⟩ := exists_eq_ok_of_isSome h.1
  rw [hset] at h
  cases hbind : next.model.bind 1 1 with
  | ok sys => simp [hbind, Except.isOk, Except.toBool] at h
  | error e =>
    exact ⟨_, next, e, hm, hset, hbind, (fails_only_by_shape (.assigned (.loaded hm) hset)).1 e hbind⟩

end FieldFlow
