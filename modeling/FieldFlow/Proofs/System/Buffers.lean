import FieldFlow.Proofs.Tensor.Broadcast
import FieldFlow.System.Evaluate
import Mathlib.Data.List.Nodup
import Mathlib.Data.List.Range

/-!
# Proofs/System/Buffers — what an evaluation writes, and what it leaves

Loading the state writes the dynamic buffers, clearing empties the algebraic ones, and computing a
slot writes that slot alone. A call reads the buffers of its inputs and nothing else (`call_congr`).
Whatever is called, every buffer keeps the shape of its slot, and only algebraic buffers are ever
empty (`Shaped`).
-/

namespace FieldFlow

theorem getElem?_of_mem_zipIdx {β : Type} {xs : Array β} {b : β} {i : Nat}
    (h : (b, i) ∈ xs.toList.zipIdx) : xs[i]? = some b := by
  rw [← Array.getElem?_toList]
  exact List.mem_zipIdx_iff_getElem?.1 h

/-- A slice that lies inside is the elements that stand there. -/
theorem Tensor.data_ofSlice {α : Type} [Inhabited α] {s : Shape} {elements : Array α} {offset : Nat}
    (h : offset + s.size ≤ elements.size) :
    (Tensor.ofSlice s elements offset).data = elements.extract offset (offset + s.size) := by
  apply Array.ext
  · simp [Tensor.ofSlice, Nat.min_eq_left h]
  · intro k hk hk'
    have hk : k < s.size := by simpa [Tensor.ofSlice] using hk
    have hin : offset + k < elements.size := by omega
    simp [Tensor.ofSlice, hin]

namespace System

variable {α : Type}

/-! ## The dynamic slots and their stretches of the state -/

theorem mem_dynamics_iff {sys : System α} {i : Nat} {slot : Slot α} :
    (i, slot) ∈ sys.dynamics ↔ sys.slots[i]? = some slot ∧ slot.kind = .dynamic := by
  simp [dynamics, List.mem_zipIdx_iff_getElem?]

theorem notMem_dynamics {sys : System α} {i : Nat} {slot : Slot α}
    (hslot : sys.slots[i]? = some slot) (hkind : slot.kind ≠ .dynamic) :
    i ∉ sys.dynamics.map Prod.fst := by
  intro hi
  obtain ⟨⟨i, slot'⟩, hmem, rfl⟩ := List.mem_map.1 hi
  obtain ⟨hslot', hkind'⟩ := mem_dynamics_iff.1 hmem
  obtain rfl := Option.some.inj (hslot.symm.trans hslot')
  exact hkind hkind'

theorem nodup_dynamics (sys : System α) : (sys.dynamics.map Prod.fst).Nodup := by
  refine List.Nodup.sublist (List.filter_sublist.map _) ?_
  rw [List.map_map]
  change (sys.slots.toList.zipIdx.map Prod.snd).Nodup
  rw [List.zipIdx_map_snd]
  exact List.nodup_range'

theorem map_snd_dynamics (sys : System α) :
    sys.dynamics.map Prod.snd = sys.slots.toList.filter fun slot => slot.kind = .dynamic := by
  have hslots : (sys.slots.toList.zipIdx.map Prod.swap).map Prod.snd = sys.slots.toList := by
    rw [List.map_map]
    exact List.zipIdx_map_fst 0 sys.slots.toList
  conv_rhs => rw [← hslots, List.filter_map]
  rfl

theorem of_mem_spansFrom {slot : Slot α} {span : Span} :
    ∀ {slots : List (Nat × Slot α)} {offset : Nat}, (slot, span) ∈ spansFrom offset slots →
      span.stop = span.start + slot.shape.size ∧ span.stop ≤ offset + stateSize slots
  | [], _, h => absurd h List.not_mem_nil
  | (i, first) :: rest, offset, h => by
      rw [stateSize]
      rcases List.mem_cons.1 h with heq | h
      · obtain ⟨rfl, rfl⟩ := Prod.mk.inj heq
        exact ⟨rfl, by dsimp only; omega⟩
      · obtain ⟨hstop, hle⟩ := of_mem_spansFrom h
        exact ⟨hstop, by omega⟩

theorem map_spansFrom : ∀ (offset : Nat) (slots : List (Nat × Slot α)),
    (spansFrom offset slots).map Prod.fst = slots.map Prod.snd
  | _, [] => rfl
  | offset, (_, slot) :: rest => by
      rw [spansFrom, List.map_cons, List.map_cons, map_spansFrom (offset + slot.shape.size) rest]

/-- The stretch of a dynamic slot. -/
theorem exists_span {sys : System α} {i : Nat} {slot : Slot α} (h : (i, slot) ∈ sys.dynamics) :
    ∃ span, (slot, span) ∈ spansFrom 0 sys.dynamics := by
  have hslot : slot ∈ (spansFrom 0 sys.dynamics).map Prod.fst := by
    rw [map_spansFrom]
    exact List.mem_map.2 ⟨_, h, rfl⟩
  obtain ⟨⟨slot, span⟩, hspan, rfl⟩ := List.mem_map.1 hslot
  exact ⟨span, hspan⟩

theorem exists_dynamic {sys : System α} {e : Slot α × Span} (h : e ∈ spansFrom 0 sys.dynamics) :
    ∃ i, (i, e.1) ∈ sys.dynamics := by
  have hslot : e.1 ∈ sys.dynamics.map Prod.snd := by
    rw [← map_spansFrom 0]
    exact List.mem_map.2 ⟨e, h, rfl⟩
  obtain ⟨⟨i, slot⟩, hmem, heq⟩ := List.mem_map.1 hslot
  exact ⟨i, heq ▸ hmem⟩

variable [Scalar α] {x : Array α}

/-! ## Loading the state -/

@[simp] theorem size_loadFrom : ∀ (slots : List (Nat × Slot α)) (offset : Nat) (buffers : Buffers α),
    (loadFrom x offset slots buffers).size = buffers.size
  | [], _, _ => rfl
  | (_, slot) :: rest, offset, buffers => by
      rw [loadFrom, size_loadFrom rest, Array.size_modify]

theorem getElem?_loadFrom_of_notMem {i : Nat} :
    ∀ {slots : List (Nat × Slot α)} {offset : Nat} {buffers : Buffers α}, i ∉ slots.map Prod.fst →
      (loadFrom x offset slots buffers)[i]? = buffers[i]?
  | [], _, _, _ => rfl
  | (j, slot) :: rest, offset, buffers, h => by
      rw [List.map_cons, List.mem_cons, not_or] at h
      rw [loadFrom, getElem?_loadFrom_of_notMem h.2, Array.getElem?_modify, if_neg (Ne.symm h.1)]

/-- **A dynamic slot is loaded with its stretch** of the state. -/
theorem getElem?_loadFrom {i : Nat} {slot : Slot α} :
    ∀ {slots : List (Nat × Slot α)} (offset : Nat), (slots.map Prod.fst).Nodup →
      (i, slot) ∈ slots → ∃ span, (slot, span) ∈ spansFrom offset slots ∧
        ∀ (x : Array α) (buffers : Buffers α), (loadFrom x offset slots buffers)[i]? =
          buffers[i]?.map fun b => { b with value := .ofSlice slot.shape x span.start }
  | [], _, _, h => absurd h List.not_mem_nil
  | (j, first) :: rest, offset, hnodup, h => by
      rw [List.map_cons, List.nodup_cons] at hnodup
      rcases List.mem_cons.1 h with heq | h
      · obtain ⟨rfl, rfl⟩ := Prod.mk.inj heq
        refine ⟨_, List.mem_cons_self, fun x buffers => ?_⟩
        rw [loadFrom, getElem?_loadFrom_of_notMem hnodup.1, Array.getElem?_modify, if_pos rfl]
      · have hne : j ≠ i := fun heq => hnodup.1 (List.mem_map.2 ⟨(i, slot), h, heq.symm⟩)
        obtain ⟨span, hspan, hload⟩ := getElem?_loadFrom (offset + first.shape.size) hnodup.2 h
        refine ⟨span, List.mem_cons_of_mem _ hspan, fun x buffers => ?_⟩
        rw [loadFrom, hload, Array.getElem?_modify, if_neg hne]

/-! ## Emptying the algebraic buffers -/

/-- A buffer without a value. -/
def emptied (b : Buffer α) : Buffer α := ⟨.fill b.value.shape Scalar.nan, false⟩

/-- The slots of an order are emptied one after another, and emptying twice is emptying. -/
theorem getElem?_foldl_emptied (i : Nat) : ∀ (order : List Nat) (buffers : Buffers α),
    (order.foldl (fun buffers i => buffers.modify i emptied) buffers)[i]? =
      if i ∈ order then buffers[i]?.map emptied else buffers[i]?
  | [], buffers => by rw [List.foldl_nil, if_neg List.not_mem_nil]
  | j :: rest, buffers => by
      rw [List.foldl_cons, getElem?_foldl_emptied i rest, Array.getElem?_modify]
      by_cases hj : j = i
      · subst hj
        have htwice : (buffers[j]?.map emptied).map emptied = buffers[j]?.map emptied := by
          rw [Option.map_map]
          rfl
        rw [if_pos rfl, if_pos List.mem_cons_self, htwice, ite_self]
      · simp only [if_neg hj, List.mem_cons, Ne.symm hj, false_or]

theorem getElem?_clear (sys : System α) (buffers : Buffers α) (i : Nat) :
    (sys.clear buffers)[i]? =
      if i ∈ sys.order then buffers[i]?.map emptied else buffers[i]? :=
  getElem?_foldl_emptied i sys.order buffers

@[simp] theorem size_clear (sys : System α) (buffers : Buffers α) :
    (sys.clear buffers).size = buffers.size := by
  unfold clear
  induction sys.order generalizing buffers with
  | nil => rfl
  | cons j rest ih => rw [List.foldl_cons, ih, Array.size_modify]

/-! ## Calling the function of a slot -/

omit [Scalar α] in
theorem read_eq_ok_iff {sys : System α} {buffers : Buffers α} {reader input : Nat} {name : String}
    {v : Tensor α} : sys.read buffers reader name input = .ok v ↔
      ∃ b, buffers[input]? = some b ∧ (input = reader ∨ b.fresh = true) ∧ b.value = v := by
  unfold read
  cases buffers[input]? with
  | none => simp
  | some b => by_cases hread : input = reader <;> cases hfresh : b.fresh <;> simp [hread, hfresh]

theorem call_eq_ok_iff {sys : System α} {buffers : Buffers α} {i : Nat} {output : Tensor α} :
    sys.call buffers i = .ok output ↔ ∃ slot g values, sys.slots[i]? = some slot ∧
      slot.function = some g ∧ slot.inputs.mapM (sys.read buffers i slot.name) = .ok values ∧
        g.apply values = .ok output := by
  unfold call
  cases sys.slots[i]? with
  | none => simp
  | some slot =>
    cases hg : slot.function with
    | none => simp [hg]
    | some g => simp [hg, bind_eq_ok_iff]

theorem compute_eq_ok_iff {sys : System α} {buffers next : Buffers α} {i : Nat} :
    sys.compute buffers i = .ok next ↔ ∃ output slot v, sys.call buffers i = .ok output ∧
      sys.slots[i]? = some slot ∧ output.assignTo slot.name slot.shape = .ok v ∧
        buffers.setIfInBounds i ⟨v, true⟩ = next := by
  unfold compute
  rw [bind_eq_ok_iff]
  cases sys.slots[i]? with
  | none => simp
  | some slot =>
    dsimp only
    simp only [bind_eq_ok_iff, mapError_eq_ok_iff, pure_eq_ok_iff, Option.some.injEq]
    constructor
    · rintro ⟨output, houtput, v, hv, hnext⟩
      exact ⟨output, slot, v, houtput, rfl, hv, hnext⟩
    · rintro ⟨output, _, v, houtput, rfl, hv, hnext⟩
      exact ⟨output, houtput, v, hv, hnext⟩

omit [Scalar α] in
/-- **A call reads its inputs only.** -/
theorem call_congr {sys : System α} {before after : Buffers α} {i : Nat}
    (h : ∀ slot, sys.slots[i]? = some slot → ∀ k ∈ slot.inputs, after[k]? = before[k]?) :
    sys.call after i = sys.call before i := by
  unfold call
  cases hslot : sys.slots[i]? with
  | none => rfl
  | some slot =>
    have hread : slot.inputs.mapM (sys.read after i slot.name) =
        slot.inputs.mapM (sys.read before i slot.name) :=
      mapM_congr fun k hk => by rw [read, read, h slot hslot k hk]
    dsimp only
    rw [hread]

omit [Scalar α] in
/-- A call does not see what is written where it does not read. -/
theorem call_setIfInBounds {sys : System α} {buffers : Buffers α} {i j : Nat} {b : Buffer α}
    (h : ∀ slot, sys.slots[j]? = some slot → i ∉ slot.inputs) :
    sys.call (buffers.setIfInBounds i b) j = sys.call buffers j := by
  refine call_congr fun slot hslot k hk => ?_
  have hne : i ≠ k := fun heq => h slot hslot (heq ▸ hk)
  exact Array.getElem?_setIfInBounds_ne hne

/-! ## Computing slots -/

@[simp] theorem size_computeAll (sys : System α) : ∀ (slots : List Nat) (buffers : Buffers α),
    (sys.computeAll slots buffers).1.size = buffers.size
  | [], _ => rfl
  | i :: rest, buffers => by
      rw [computeAll]
      split
      · rename_i next hnext
        obtain ⟨-, -, -, -, -, -, rfl⟩ := compute_eq_ok_iff.1 hnext
        rw [size_computeAll sys rest, Array.size_setIfInBounds]
      · rfl

/-- **Computing slots writes no other slot**, also when it fails on the way. -/
theorem getElem?_computeAll_of_notMem {sys : System α} {k : Nat} :
    ∀ {slots : List Nat} {buffers : Buffers α}, k ∉ slots →
      (sys.computeAll slots buffers).1[k]? = buffers[k]?
  | [], _, _ => rfl
  | i :: rest, buffers, h => by
      rw [List.mem_cons, not_or] at h
      rw [computeAll]
      split
      · rename_i next hnext
        obtain ⟨-, -, -, -, -, -, rfl⟩ := compute_eq_ok_iff.1 hnext
        rw [getElem?_computeAll_of_notMem h.2, Array.getElem?_setIfInBounds_ne (Ne.symm h.1)]
      · rfl

theorem computeAll_cons_eq_ok_iff {sys : System α} {i : Nat} {rest : List Nat}
    {buffers after : Buffers α} : sys.computeAll (i :: rest) buffers = (after, .ok ()) ↔
      ∃ next, sys.compute buffers i = .ok next ∧ sys.computeAll rest next = (after, .ok ()) := by
  rw [computeAll]
  cases sys.compute buffers i <;> simp

theorem computeAll_cons_eq_error_iff {sys : System α} {i : Nat} {rest : List Nat}
    {buffers after : Buffers α} {e : Failure α} :
    sys.computeAll (i :: rest) buffers = (after, .error e) ↔
      (sys.compute buffers i = .error e ∧ buffers = after) ∨
        ∃ next, sys.compute buffers i = .ok next ∧
          sys.computeAll rest next = (after, .error e) := by
  rw [computeAll]
  cases sys.compute buffers i <;> simp [and_comm]

/-- **What computing one of the slots keeps, computing them all keeps**, also when it fails on the
way. -/
theorem computeAll_induct {sys : System α} {motive : Buffers α → Prop} :
    ∀ {slots : List Nat} {buffers : Buffers α},
      (∀ b, ∀ i ∈ slots, ∀ next, motive b → sys.compute b i = .ok next → motive next) →
        motive buffers → motive (sys.computeAll slots buffers).1
  | [], _, _, h => h
  | i :: rest, buffers, step, h => by
      rw [computeAll]
      split
      · rename_i next hnext
        exact computeAll_induct (fun b j hj => step b j (List.mem_cons_of_mem _ hj))
          (step buffers i List.mem_cons_self next h hnext)
      · exact h

/-! ## Evaluating -/

/-- The buffers at a state, before any slot is computed. -/
def prepared (sys : System α) (x : Array α) (buffers : Buffers α) : Buffers α :=
  sys.clear (loadFrom x 0 sys.dynamics buffers)

theorem evaluate_of_le {sys : System α} {x : Array α} (h : sys.dimension ≤ x.size)
    (buffers : Buffers α) :
    sys.evaluate x buffers = sys.computeAll sys.order (sys.prepared x buffers) := by
  rw [evaluate, if_neg (Nat.not_lt.2 h), prepared]

theorem evaluate_of_lt {sys : System α} {x : Array α} (h : x.size < sys.dimension)
    (buffers : Buffers α) :
    sys.evaluate x buffers = (buffers, .error (.fault .outOfRange)) := by
  rw [evaluate, if_pos h]

theorem apply_fst (sys : System α) (x : Array α) (buffers : Buffers α) :
    (sys.apply x buffers).1 = (sys.evaluate x buffers).1 := by
  unfold apply
  split
  · rename_i after h
    rw [h]
  · rename_i after e h
    rw [h]

variable {sys : System α}

theorem snapshot_eq_ok_iff {y : Vector α sys.dimension} {after : Buffers α} :
    sys.snapshot y = .ok after ↔ sys.evaluate y.toArray sys.bound = (after, .ok ()) := by
  unfold snapshot
  split
  · rename_i before h
    rw [h]
    simp
  · rename_i e h
    rw [h]
    simp

theorem rate_eq_ok_iff {y slopes : Vector α sys.dimension} : sys.rate y = .ok slopes ↔
    ∃ after, sys.snapshot y = .ok after ∧ sys.derivatives after sys.dynamics = .ok slopes := by
  unfold rate apply
  simp only [snapshot_eq_ok_iff]
  split
  · rename_i after h
    rw [h]
    constructor
    · intro hslopes
      exact ⟨after, rfl, hslopes⟩
    · rintro ⟨after', heq, hslopes⟩
      obtain ⟨rfl, -⟩ := Prod.mk.inj heq
      exact hslopes
  · rename_i e h
    rw [h]
    simp

@[simp] theorem size_prepared (sys : System α) (x : Array α) (buffers : Buffers α) :
    (sys.prepared x buffers).size = buffers.size := by
  rw [prepared, size_clear, size_loadFrom]

/-! ## Buffers that fit their slots -/

/-- **One buffer to every slot**, in its shape. -/
structure Fits (slots : Array (Slot α)) (buffers : Buffers α) : Prop where
  size : buffers.size = slots.size
  shape : ∀ {i : Nat} {slot b}, slots[i]? = some slot → buffers[i]? = some b →
    b.value.shape = slot.shape

namespace Fits

variable {sys : System α} {buffers next : Buffers α} {i : Nat} {slot : Slot α}

omit [Scalar α] in
theorem lt_size {slots : Array (Slot α)} (h : Fits slots buffers) (hslot : slots[i]? = some slot) :
    i < buffers.size := by
  rw [h.size]
  exact (Array.getElem?_eq_some_iff.1 hslot).1

omit [Scalar α] in
theorem exists_buffer {slots : Array (Slot α)} (h : Fits slots buffers)
    (hslot : slots[i]? = some slot) : ∃ b, buffers[i]? = some b := by
  have hi := h.lt_size hslot
  exact ⟨buffers[i], Array.getElem?_eq_getElem hi⟩

theorem compute (h : Fits sys.slots buffers) (hnext : sys.compute buffers i = .ok next) :
    Fits sys.slots next := by
  obtain ⟨output, slot, v, -, hslot, hv, rfl⟩ := compute_eq_ok_iff.1 hnext
  have hi := h.lt_size hslot
  refine ⟨by rw [Array.size_setIfInBounds, h.size], fun {j slot' b} hslot' hb => ?_⟩
  rw [Array.getElem?_setIfInBounds] at hb
  split at hb
  · rename_i heq
    subst heq
    obtain rfl := Option.some.inj hb
    obtain rfl := Option.some.inj (hslot'.symm.trans hslot)
    exact Tensor.shape_of_assignTo hv
  · exact h.shape hslot' hb

theorem computeAll (h : Fits sys.slots buffers) (slots : List Nat) :
    Fits sys.slots (sys.computeAll slots buffers).1 :=
  computeAll_induct (fun _ _ _ _ hb hnext => hb.compute hnext) h

theorem loadFrom (h : Fits sys.slots buffers) (x : Array α) :
    Fits sys.slots (System.loadFrom x 0 sys.dynamics buffers) := by
  refine ⟨by rw [size_loadFrom, h.size], fun {i slot b} hslot hb => ?_⟩
  by_cases hkind : slot.kind = .dynamic
  · obtain ⟨span, -, hload⟩ := getElem?_loadFrom 0 sys.nodup_dynamics
      (mem_dynamics_iff.2 ⟨hslot, hkind⟩)
    rw [hload] at hb
    obtain ⟨before, -, rfl⟩ := Option.map_eq_some_iff.1 hb
    rfl
  · rw [getElem?_loadFrom_of_notMem (notMem_dynamics hslot hkind)] at hb
    exact h.shape hslot hb

theorem prepared (h : Fits sys.slots buffers) (x : Array α) :
    Fits sys.slots (sys.prepared x buffers) := by
  have hload := h.loadFrom x
  refine ⟨by rw [size_prepared, h.size], fun {i slot b} hslot hb => ?_⟩
  rw [System.prepared, getElem?_clear] at hb
  split at hb
  · obtain ⟨before, hbefore, rfl⟩ := Option.map_eq_some_iff.1 hb
    exact hload.shape (b := before) hslot hbefore
  · exact hload.shape hslot hb

theorem evaluate (h : Fits sys.slots buffers) (x : Array α) :
    Fits sys.slots (sys.evaluate x buffers).1 := by
  rcases Nat.lt_or_ge x.size sys.dimension with hlt | hle
  · rw [evaluate_of_lt hlt]
    exact h
  · rw [evaluate_of_le hle]
    exact (h.prepared x).computeAll sys.order

theorem snapshot (h : Fits sys.slots sys.bound) {y : Vector α sys.dimension}
    {after : Buffers α} (hafter : sys.snapshot y = .ok after) : Fits sys.slots after := by
  have hleft := h.evaluate y.toArray
  rwa [snapshot_eq_ok_iff.1 hafter] at hleft

end Fits

/-- **Buffers that are empty only where the slot is algebraic.** -/
structure Shaped (slots : Array (Slot α)) (buffers : Buffers α) : Prop
    extends Fits slots buffers where
  fresh : ∀ {i : Nat} {slot b}, slots[i]? = some slot → buffers[i]? = some b →
    slot.kind ≠ .algebraic → b.fresh = true

theorem Shaped.compute {sys : System α} {buffers next : Buffers α} {i : Nat}
    (h : Shaped sys.slots buffers) (hnext : sys.compute buffers i = .ok next) :
    Shaped sys.slots next := by
  refine ⟨h.toFits.compute hnext, fun {j slot b} hslot hb hkind => ?_⟩
  obtain ⟨output, slot', v, -, hslot', hv, rfl⟩ := compute_eq_ok_iff.1 hnext
  have hi := h.lt_size hslot'
  rw [Array.getElem?_setIfInBounds] at hb
  split at hb
  · rw [← Option.some.inj hb]
  · exact h.fresh hslot hb hkind

theorem Shaped.computeAll {sys : System α} {buffers : Buffers α} (h : Shaped sys.slots buffers)
    (slots : List Nat) : Shaped sys.slots (sys.computeAll slots buffers).1 :=
  computeAll_induct (fun _ _ _ _ hb hnext => hb.compute hnext) h

end System

end FieldFlow
