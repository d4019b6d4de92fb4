import FieldFlow.Proofs.Model.Assignment
import FieldFlow.Proofs.System.Layout

/-!
# Proofs/System/Consistency — an evaluation solves all algebraic equations at once

An algebraic buffer is written after every buffer that its function reads, and never again in the
same evaluation, so what the function was applied to is what stands there at the end
(`solved_of_computeAll`). What stood in the buffers before is gone when the first slot is computed
(`prepared_eq`): an evaluation is a function of the state and of the bound parameters.
-/

namespace FieldFlow

variable {α : Type} [Scalar α]

namespace System

variable {sys : System α}

/-! ## Buffers between two calls -/

/-- **Buffers as they may stand between two calls**: parameters and sizes hold what was bound, and
the others any values in the shapes of their slots. -/
structure Scratch (sys : System α) (buffers : Buffers α) : Prop
    extends Shaped sys.slots buffers where
  settled : ∀ {i : Nat} {slot}, sys.slots[i]? = some slot → slot.kind.isTimeVarying = false →
    buffers[i]? = sys.bound[i]?

/-- **The buffers that calls can leave**, one after another, whether they succeed or fail on the
way. -/
inductive Reached (sys : System α) : Buffers α → Prop
  | bound : Reached sys sys.bound
  | evaluated {buffers : Buffers α} (x : Array α) :
      Reached sys buffers → Reached sys (sys.evaluate x buffers).1
  | applied {buffers : Buffers α} (x : Array α) :
      Reached sys buffers → Reached sys (sys.apply x buffers).1

/-! ## What is prepared -/

section Prepared

variable {x : Array α} {buffers : Buffers α} {i : Nat} {slot : Slot α}

omit [Scalar α] in
theorem notMem_order (hw : sys.Wired) (hslot : sys.slots[i]? = some slot)
    (hkind : slot.kind ≠ .algebraic) : i ∉ sys.order := by
  intro hi
  obtain ⟨slot', hslot', hkind'⟩ := hw.mem_order_iff.1 hi
  obtain rfl := Option.some.inj (hslot.symm.trans hslot')
  exact hkind hkind'

/-- A dynamic buffer is prepared with its stretch of the state. -/
theorem getElem?_prepared_dynamic (hw : sys.Wired) (hslot : sys.slots[i]? = some slot)
    (hkind : slot.kind = .dynamic) : ∃ span, (slot, span) ∈ spansFrom 0 sys.dynamics ∧
      ∀ (x : Array α) {buffers : Buffers α}, Shaped sys.slots buffers →
        (sys.prepared x buffers)[i]? = some ⟨.ofSlice slot.shape x span.start, true⟩ := by
  obtain ⟨span, hspan, hload⟩ := getElem?_loadFrom 0 sys.nodup_dynamics
    (mem_dynamics_iff.2 ⟨hslot, hkind⟩)
  refine ⟨span, hspan, fun x buffers hb => ?_⟩
  obtain ⟨b, hbuffer⟩ := hb.exists_buffer hslot
  have hfresh : b.fresh = true := hb.fresh hslot hbuffer (by simp [hkind])
  rw [prepared, getElem?_clear, if_neg (notMem_order hw hslot (by simp [hkind])), hload, hbuffer,
    Option.map_some, hfresh]

/-- An algebraic buffer is prepared empty. -/
theorem getElem?_prepared_algebraic (hw : sys.Wired) (hb : Shaped sys.slots buffers)
    (hslot : sys.slots[i]? = some slot) (hkind : slot.kind = .algebraic) :
    (sys.prepared x buffers)[i]? = some ⟨.fill slot.shape Scalar.nan, false⟩ := by
  obtain ⟨b, hbuffer⟩ := hb.exists_buffer hslot
  have hmem : i ∈ sys.order := hw.mem_order_iff.2 ⟨slot, hslot, hkind⟩
  rw [prepared, getElem?_clear, if_pos hmem,
    getElem?_loadFrom_of_notMem (notMem_dynamics hslot (by simp [hkind])), hbuffer, Option.map_some,
    emptied, hb.shape hslot hbuffer]

/-- Other buffers are left as they are. -/
theorem getElem?_prepared_settled (hw : sys.Wired) (hslot : sys.slots[i]? = some slot)
    (hkind : slot.kind.isTimeVarying = false) : (sys.prepared x buffers)[i]? = buffers[i]? := by
  have hdynamic : slot.kind ≠ .dynamic := fun heq => by rw [heq] at hkind; exact nomatch hkind
  have halgebraic : slot.kind ≠ .algebraic := fun heq => by rw [heq] at hkind; exact nomatch hkind
  rw [prepared, getElem?_clear, if_neg (notMem_order hw hslot halgebraic),
    getElem?_loadFrom_of_notMem (notMem_dynamics hslot hdynamic)]

/-- **Nothing of an earlier call is left** when an evaluation begins to compute. -/
theorem prepared_eq (hw : sys.Wired) {before before' : Buffers α} (hb : sys.Scratch before)
    (hb' : sys.Scratch before') : sys.prepared x before = sys.prepared x before' := by
  refine Array.ext_getElem? fun i => ?_
  cases hslot : sys.slots[i]? with
  | none =>
    have hsize : sys.slots.size ≤ i := Array.getElem?_eq_none_iff.1 hslot
    rw [Array.getElem?_eq_none (by rw [size_prepared, hb.size]; exact hsize),
      Array.getElem?_eq_none (by rw [size_prepared, hb'.size]; exact hsize)]
  | some slot =>
    cases hkind : slot.kind with
    | dynamic =>
      obtain ⟨span, -, heq⟩ := getElem?_prepared_dynamic hw hslot hkind
      rw [heq x hb.toShaped, heq x hb'.toShaped]
    | algebraic =>
      rw [getElem?_prepared_algebraic hw hb.toShaped hslot hkind,
        getElem?_prepared_algebraic hw hb'.toShaped hslot hkind]
    | parameter | size =>
      have hsettled : slot.kind.isTimeVarying = false := by rw [hkind]; rfl
      rw [getElem?_prepared_settled hw hslot hsettled, getElem?_prepared_settled hw hslot hsettled,
        hb.settled hslot hsettled, hb'.settled hslot hsettled]

end Prepared

/-! ## Scratch stays scratch -/

theorem Shaped.prepared (hw : sys.Wired) {buffers : Buffers α} (h : Shaped sys.slots buffers)
    (x : Array α) : Shaped sys.slots (sys.prepared x buffers) := by
  refine ⟨h.toFits.prepared x, fun {i slot b} hslot hb hne => ?_⟩
  cases hkind : slot.kind with
  | dynamic =>
    obtain ⟨span, -, heq⟩ := getElem?_prepared_dynamic hw hslot hkind
    rw [← Option.some.inj ((heq x h).symm.trans hb)]
  | algebraic => exact absurd hkind hne
  | parameter | size =>
    rw [getElem?_prepared_settled hw hslot (by rw [hkind]; rfl)] at hb
    exact h.fresh hslot hb hne

theorem Scratch.evaluate (hw : sys.Wired) {buffers : Buffers α} (h : sys.Scratch buffers)
    (x : Array α) : sys.Scratch (sys.evaluate x buffers).1 := by
  rcases Nat.lt_or_ge x.size sys.dimension with hlt | hle
  · rw [evaluate_of_lt hlt]
    exact h
  · rw [evaluate_of_le hle]
    refine ⟨(h.toShaped.prepared hw x).computeAll sys.order, fun {i slot} hslot hkind => ?_⟩
    have hout : i ∉ sys.order := notMem_order hw hslot fun heq => by
      rw [heq] at hkind
      exact nomatch hkind
    rw [getElem?_computeAll_of_notMem hout, getElem?_prepared_settled hw hslot hkind]
    exact h.settled hslot hkind

theorem Scratch.of_evaluate (hw : sys.Wired) {x : Array α} {buffers after : Buffers α}
    {result : Except (Failure α) Unit} (h : sys.Scratch buffers)
    (hafter : sys.evaluate x buffers = (after, result)) : sys.Scratch after := by
  have hleft := h.evaluate hw x
  rwa [hafter] at hleft

/-- **Whatever calls leave is scratch.** -/
theorem Reached.scratch (hw : sys.Wired) (hbound : Shaped sys.slots sys.bound)
    {buffers : Buffers α} (h : sys.Reached buffers) : sys.Scratch buffers := by
  induction h with
  | bound => exact ⟨hbound, fun _ _ => rfl⟩
  | evaluated x _ ih => exact ih.evaluate hw x
  | applied x _ ih =>
    rw [apply_fst]
    exact ih.evaluate hw x

/-- **An evaluation is a function of the state** and of the bound values. -/
theorem evaluate_eq (hw : sys.Wired) {before before' : Buffers α} (hb : sys.Scratch before)
    (hb' : sys.Scratch before') {x : Array α} (hx : sys.dimension ≤ x.size) :
    sys.evaluate x before = sys.evaluate x before' := by
  rw [evaluate_of_le hx, evaluate_of_le hx, prepared_eq hw hb hb']

/-! ## Solving the algebraic equations -/

/-- **The equation of a slot holds** — its buffer is what its function gives for the buffers of its
inputs, brought to its shape. -/
def Solved (sys : System α) (buffers : Buffers α) (i : Nat) : Prop :=
  ∃ slot output v, sys.slots[i]? = some slot ∧ sys.call buffers i = .ok output ∧
    output.assignTo slot.name slot.shape = .ok v ∧ buffers[i]? = some ⟨v, true⟩

/-- An equation holds in all buffers that agree on its slot and on what the slot reads. -/
theorem Solved.congr {buffers next : Buffers α} {i : Nat} (h : sys.Solved buffers i)
    (hself : next[i]? = buffers[i]?)
    (hread : ∀ slot, sys.slots[i]? = some slot → ∀ k ∈ slot.inputs, next[k]? = buffers[k]?) :
    sys.Solved next i := by
  obtain ⟨slot, output, v, hslot, hcall, hv, hbuffer⟩ := h
  exact ⟨slot, output, v, hslot, (call_congr hread).trans hcall, hv, hself.trans hbuffer⟩

/-- A slot that does not read itself is solved by computing it. -/
theorem solved_of_compute {buffers next : Buffers α} {i : Nat} (hb : Shaped sys.slots buffers)
    (hread : ∀ slot, sys.slots[i]? = some slot → i ∉ slot.inputs)
    (hnext : sys.compute buffers i = .ok next) : sys.Solved next i := by
  obtain ⟨output, slot, v, hcall, hslot, hv, rfl⟩ := compute_eq_ok_iff.1 hnext
  have hi : i < buffers.size := by
    rw [hb.size]
    exact (Array.getElem?_eq_some_iff.1 hslot).1
  refine ⟨slot, output, v, hslot, ?_, hv, Array.getElem?_setIfInBounds_self_of_lt hi⟩
  rw [call_setIfInBounds hread]
  exact hcall

/-- **Slots in an order of evaluation**: none comes twice, and none reads itself or one behind
it. -/
def Ordered (sys : System α) : List Nat → Prop
  | [] => True
  | i :: rest => i ∉ rest ∧
      (∀ slot, sys.slots[i]? = some slot → ∀ k ∈ slot.inputs, k ∉ i :: rest) ∧ Ordered sys rest

omit [Scalar α] in
theorem ordered_of_follows {slots : List Nat} (hnodup : slots.Nodup)
    (hfollows : ∀ {done rest : List Nat} {i : Nat} {slot}, slots = done ++ i :: rest →
      sys.slots[i]? = some slot → ∀ k ∈ slot.inputs, k ∈ slots → k ∈ done) :
    sys.Ordered slots := by
  have hsuffix : ∀ {rest done : List Nat}, slots = done ++ rest → sys.Ordered rest := by
    intro rest
    induction rest with
    | nil => exact fun _ => trivial
    | cons i rest ih =>
      intro done hsplit
      have hsplit' : slots = (done ++ [i]) ++ rest := by
        rw [hsplit, List.append_assoc, List.singleton_append]
      have hapart := List.nodup_append.1 (hsplit ▸ hnodup)
      refine ⟨(List.nodup_cons.1 hapart.2.1).1, fun slot hslot k hk hmem => ?_, ih hsplit'⟩
      have hdone := hfollows hsplit hslot k hk (hsplit ▸ List.mem_append_right done hmem)
      exact hapart.2.2 k hdone k hmem rfl
  exact hsuffix (List.nil_append slots).symm

omit [Scalar α] in
theorem Ordered.filter {p : Nat → Bool} : ∀ {slots : List Nat}, sys.Ordered slots →
    sys.Ordered (slots.filter p)
  | [], _ => trivial
  | i :: rest, ⟨hnew, hread, hrest⟩ => by
      have hsub : ∀ {k}, k ∈ rest.filter p → k ∈ rest := fun hk => List.mem_of_mem_filter hk
      rw [List.filter_cons]
      split
      · refine ⟨fun hmem => hnew (hsub hmem), fun slot hslot k hk hmem => ?_, hrest.filter⟩
        refine hread slot hslot k hk ?_
        rcases List.mem_cons.1 hmem with rfl | hmem
        · exact List.mem_cons_self
        · exact List.mem_cons_of_mem i (hsub hmem)
      · exact hrest.filter

omit [Scalar α] in
theorem Wired.ordered (hw : sys.Wired) : sys.Ordered sys.order :=
  ordered_of_follows hw.nodup hw.follows

/-- **All equations hold when an order is done** — a slot is solved when it is computed, and nothing
that is computed behind it is read by it. -/
theorem solved_of_computeAll : ∀ {slots : List Nat} {buffers after : Buffers α}, sys.Ordered slots →
    Shaped sys.slots buffers → sys.computeAll slots buffers = (after, .ok ()) →
      ∀ i ∈ slots, sys.Solved after i
  | [], _, _, _, _, _ => fun _ hi => absurd hi List.not_mem_nil
  | i :: rest, buffers, after, ⟨hnew, hread, hordered⟩, hb, h => by
      obtain ⟨next, hnext, hrest⟩ := computeAll_cons_eq_ok_iff.1 h
      have hkept : ∀ {k}, k ∉ rest → after[k]? = next[k]? := fun hk => by
        have hframe : (sys.computeAll rest next).1[_]? = next[_]? :=
          getElem?_computeAll_of_notMem hk
        rwa [hrest] at hframe
      rw [List.forall_mem_cons]
      refine ⟨?_, solved_of_computeAll hordered (hb.compute hnext) hrest⟩
      refine (solved_of_compute hb (fun slot hslot hi => ?_) hnext).congr (hkept hnew) ?_
      · exact hread slot hslot i hi List.mem_cons_self
      · intro slot hslot k hk
        exact hkept fun hmem => hread slot hslot k hk (List.mem_cons_of_mem i hmem)

end System

/-! ## Fields of a model -/

/-- **Buffers that agree with a state and with all equations of a model.** -/
structure Consistent (m : Model α) (runs regions : Nat) (sys : System α) (x : Array α)
    (buffers : Buffers α) : Prop where
  /-- A dynamic field holds its stretch of the state. -/
  dynamic : ∀ {name f}, m.field? name = some f → f.kind = .dynamic →
    ∃ span v, sys.span? name = some span ∧ v.data = x.extract span.start span.stop ∧
      m.shapeOf f runs regions = .ok v.shape ∧ sys.value? buffers name = some v
  /-- An algebraic field holds what its function gives for what its inputs hold. -/
  algebraic : ∀ {name f}, m.field? name = some f → f.kind = .algebraic →
    ∃ g values output shape v, f.function = some g ∧
      List.Forall₂ (fun input value => sys.value? buffers input = some value) g.inputs values ∧
        g.apply values = .ok output ∧ m.shapeOf f runs regions = .ok shape ∧
          output.assignTo name shape = .ok v ∧ sys.value? buffers name = some v
  /-- A parameter or a size holds what was bound. -/
  settled : ∀ {name f}, m.field? name = some f → f.kind.isTimeVarying = false →
    sys.value? buffers name = sys.value? sys.bound name

section Fields

variable {m : Model α} {runs regions : Nat} {sys : System α} {x : Array α}
  {before after : Buffers α}

/-- After a whole evaluation every slot has the value that was prepared, or the solution of its
equation. -/
theorem of_evaluate (hw : sys.Wired) (hb : sys.Scratch before) (hx : sys.dimension ≤ x.size)
    (h : sys.evaluate x before = (after, .ok ())) :
    (∀ i ∉ sys.order, after[i]? = (sys.prepared x before)[i]?) ∧
      ∀ i ∈ sys.order, sys.Solved after i := by
  rw [System.evaluate_of_le hx] at h
  constructor
  · intro i hi
    have hkept : (sys.computeAll sys.order (sys.prepared x before)).1[i]? =
        (sys.prepared x before)[i]? := System.getElem?_computeAll_of_notMem hi
    rwa [h] at hkept
  · exact System.solved_of_computeAll hw.ordered (hb.toShaped.prepared hw x) h

/-- A solved slot, in the names of its inputs. -/
theorem algebraic_of_solved (hm : m.Evaluable) (hbound : BoundFrom m runs regions sys)
    (hafter : System.Shaped sys.slots after) {i : Nat} {slot : Slot α} {f : Field α}
    (hslot : sys.slots[i]? = some slot) (hof : SlotOf m runs regions i f slot)
    (hitself : ∀ input ∈ f.inputs, input ≠ itself) (h : sys.Solved after i) :
    ∃ g values output v, f.function = some g ∧
      List.Forall₂ (fun input value => sys.value? after input = some value) g.inputs values ∧
        g.apply values = .ok output ∧ output.assignTo slot.name slot.shape = .ok v ∧
          sys.value? after slot.name = some v := by
  have hw := hbound.wired hm
  obtain ⟨slot', output, v, hslot', hcall, hv, hbuffer⟩ := h
  obtain rfl := Option.some.inj (hslot.symm.trans hslot')
  obtain ⟨slot', g, values, hslot', hg, hvalues, houtput⟩ := System.call_eq_ok_iff.1 hcall
  obtain rfl := Option.some.inj (hslot.symm.trans hslot')
  refine ⟨g, values, output, v, hof.function ▸ hg, ?_, houtput, hv,
    System.value?_eq_some hw hafter.size hslot hbuffer⟩
  have hnames : slot.inputNames = g.inputs := by rw [Slot.inputNames, hg]
  have hfeeds : List.Forall₂ (fun input k => input ≠ itself ∧ sys.Feeds i input k) g.inputs
      slot.inputs := by
    rw [List.forall₂_and_left, ← hnames]
    exact ⟨hof.inputNames ▸ hitself, hw.inputs hslot⟩
  refine forall₂_comp (fun input k value hread hvalue => ?_) hfeeds (mapM_eq_ok_iff.1 hvalues)
  obtain ⟨hne, hfeed⟩ := hread
  rw [System.Feeds, if_neg hne] at hfeed
  obtain ⟨read, hread, rfl⟩ := hfeed
  obtain ⟨b, hb, -, rfl⟩ := System.read_eq_ok_iff.1 hvalue
  exact System.value?_eq_some hw hafter.size hread hb

/-- A slot that was loaded, and not computed, holds its stretch of the state. -/
theorem dynamic_of_kept (hw : sys.Wired) (hb : sys.Scratch before) (hx : sys.dimension ≤ x.size)
    (hafter : sys.Scratch after) (hkept : ∀ i ∉ sys.order, after[i]? = (sys.prepared x before)[i]?)
    {i : Nat} {slot : Slot α} (hslot : sys.slots[i]? = some slot) (hkind : slot.kind = .dynamic) :
    ∃ span v, sys.span? slot.name = some span ∧ v.data = x.extract span.start span.stop ∧
      v.shape = slot.shape ∧ sys.value? after slot.name = some v := by
  obtain ⟨span, hspan, hprepared⟩ := System.getElem?_prepared_dynamic hw hslot hkind
  obtain ⟨hstop, hle⟩ := System.of_mem_spansFrom hspan
  have hi : i ∉ sys.order := System.notMem_order hw hslot (by simp [hkind])
  have hbuffer := (hkept i hi).trans (hprepared x hb.toShaped)
  have hin : span.start + slot.shape.size ≤ x.size := by
    rw [System.dimension] at hx
    omega
  refine ⟨span, .ofSlice slot.shape x span.start, System.span?_eq_some hw hspan, ?_, rfl,
    System.value?_eq_some hw hafter.size hslot hbuffer⟩
  rw [hstop]
  exact Tensor.data_ofSlice hin

omit [Scalar α] in
/-- What never changes in time holds what was bound. -/
theorem settled_of_scratch (hw : sys.Wired) (hbound : System.Shaped sys.slots sys.bound)
    (hafter : sys.Scratch after) {i : Nat} {slot : Slot α} (hslot : sys.slots[i]? = some slot)
    (hkind : slot.kind.isTimeVarying = false) :
    sys.value? after slot.name = sys.value? sys.bound slot.name := by
  obtain ⟨b, hbuffer⟩ := hafter.toFits.exists_buffer hslot
  rw [System.value?_eq_some hw hafter.size hslot hbuffer]
  rw [hafter.settled hslot hkind] at hbuffer
  rw [System.value?_eq_some hw hbound.size hslot hbuffer]

/-- **A whole evaluation leaves consistent buffers.** -/
theorem consistent_of_evaluate (hm : m.Evaluable) (hbound : BoundFrom m runs regions sys)
    (hb : sys.Scratch before) (hx : sys.dimension ≤ x.size)
    (h : sys.evaluate x before = (after, .ok ())) : Consistent m runs regions sys x after := by
  have hw := hbound.wired hm
  have hafter := hb.of_evaluate hw h
  obtain ⟨hkept, hsolved⟩ := of_evaluate hw hb hx h
  refine ⟨fun {name f} hf hkind => ?_, fun {name f} hf hkind => ?_, fun {name f} hf hkind => ?_⟩
  · obtain ⟨i, slot, hslot, rfl, hof⟩ := hbound.slot_of_field? hm hf
    obtain ⟨span, v, hspan, hdata, hshape, hv⟩ :=
      dynamic_of_kept hw hb hx hafter hkept hslot (hof.kind.trans hkind)
    exact ⟨span, v, hspan, hdata, hshape ▸ hof.shape, hv⟩
  · obtain ⟨i, slot, hslot, rfl, hof⟩ := hbound.slot_of_field? hm hf
    have hi : i ∈ sys.order := hw.mem_order_iff.2 ⟨slot, hslot, hof.kind.trans hkind⟩
    have hitself : ∀ input ∈ f.inputs, input ≠ itself := fun input hinput heq => by
      have := hm.reads hf input hinput
      simp [MayRead, heq, hkind] at this
    obtain ⟨g, values, output, v, hg, hvalues, houtput, hv, hvalue⟩ :=
      algebraic_of_solved hm hbound hafter.toShaped hslot hof hitself (hsolved i hi)
    exact ⟨g, values, output, slot.shape, v, hg, hvalues, houtput, hof.shape, hv, hvalue⟩
  · obtain ⟨i, slot, hslot, rfl, hof⟩ := hbound.slot_of_field? hm hf
    exact settled_of_scratch hw hbound.shaped hafter hslot (hof.kind ▸ hkind)

end Fields

/-- **Consistency of the evaluator** — whatever calls have left in the buffers, an evaluation that
succeeds gives every dynamic field its stretch of the state and solves all algebraic equations at
once, and the derivatives are those of the state alone. -/
theorem evaluate_consistent {registry : Registry α} {d : Description α} {m : Model α}
    {runs regions : Nat} {sys : System α} {buffers : Buffers α} (hm : m.InUse registry d)
    (hbind : m.bind runs regions = .ok sys) (hb : sys.Reached buffers)
    (x : Vector α sys.dimension) :
    (∀ after, sys.evaluate x.toArray buffers = (after, .ok ()) →
      Consistent m runs regions sys x.toArray after) ∧
    (sys.apply x.toArray buffers).2 = sys.rate x := by
  have hbound := boundFrom_of_bind hbind
  have hw := hbound.wired hm.evaluable
  have hscratch := hb.scratch hw hbound.shaped
  have hx : sys.dimension ≤ x.toArray.size := Nat.le_of_eq x.size_toArray.symm
  constructor
  · exact fun after h => consistent_of_evaluate hm.evaluable hbound hscratch hx h
  · have heq := System.evaluate_eq hw hscratch (System.Reached.bound.scratch hw hbound.shaped) hx
    rw [System.rate, System.apply, System.apply, heq]

/-- An evaluation at a state that has one number everywhere. -/
def growth.evaluateAt (sys : System Float) (x : Float) (buffers : Buffers Float) :
    Buffers Float × Except (Failure Float) Unit :=
  sys.evaluate (Vector.replicate sys.dimension x).toArray buffers

/-- Which runs of what grows hold a number. -/
def growth.numbers (sys : System Float) (buffers : Buffers Float) : Option (Array Bool) :=
  (sys.value? buffers "y").map fun v => v.data.map Scalar.isFinite

/-- Growth in two runs, after an evaluation at another state has left its numbers in the buffers. -/
theorem growth_consistent : ∃ m sys earlier after, load .standard growth = .ok m ∧
    m.bind 2 1 = .ok sys ∧ growth.numbers sys sys.bound = some #[false, false] ∧
    growth.evaluateAt sys 2.5 sys.bound = (earlier, .ok ()) ∧
    growth.numbers sys earlier = some #[true, true] ∧
    growth.evaluateAt sys 1.5 earlier = (after, .ok ()) ∧
    Consistent m 2 1 sys (Vector.replicate sys.dimension 1.5).toArray after := by
  have hevaluates : ((load .standard growth).toOption.bind fun m =>
      (m.bind 2 1).toOption.map fun sys =>
        let first := growth.evaluateAt sys 2.5 sys.bound
        (growth.numbers sys sys.bound, first.2.toOption.isSome, growth.numbers sys first.1,
          (growth.evaluateAt sys 1.5 first.1).2.toOption.isSome)) =
      some (some #[false, false], true, some #[true, true], true) := by
    decide +kernel
  obtain ⟨m, hm, h⟩ := Option.bind_eq_some_iff.1 hevaluates
  obtain ⟨sys, hsys, h⟩ := Option.map_eq_some_iff.1 h
  simp only [Prod.mk.injEq] at h
  obtain ⟨hbound, hfirst, hnumbers, hsecond⟩ := h
  have hm := toOption_eq_some_iff.1 hm
  have hsys := toOption_eq_some_iff.1 hsys
  obtain ⟨earlier, hearlier⟩ := exists_eq_ok_of_isSome hfirst
  rw [hearlier] at hnumbers hsecond
  obtain ⟨after, hafter⟩ := exists_eq_ok_of_isSome hsecond
  have hleft : (growth.evaluateAt sys 2.5 sys.bound).1 = earlier := congrArg Prod.fst hearlier
  have hreached : sys.Reached earlier := hleft ▸ .evaluated _ .bound
  exact ⟨m, sys, earlier, after, hm, hsys, hbound, hearlier, hnumbers, hafter,
    (evaluate_consistent (.loaded hm) hsys hreached _).1 after hafter⟩

end FieldFlow
