import FieldFlow.Proofs.System.Seat

/-!
# Proofs/System/Stretches — the flat state cut into stretches, and put together again

The stretches of the dynamic fields lie end to end in model order (`EndToEnd`), so that every place
of the state is in exactly one of them. A state is cut where it is loaded: each field's value is the
stretch of it (`Holds.stretch`), and the values one after another are the state again
(`Holds.flat`). Evaluating at a state leaves values that hold it, also where it fails on the way
(`holds_evaluate`).
-/

namespace FieldFlow

/-! ## Stretches end to end -/

/-- A place inside a stretch. -/
def Span.Covers (s : Span) (k : Nat) : Prop := s.start ≤ k ∧ k < s.stop

/-- **Stretches laid end to end**, from one place to another. -/
inductive EndToEnd : Nat → List Span → Nat → Prop
  | nil (a : Nat) : EndToEnd a [] a
  | cons {a b c : Nat} {rest : List Span} :
      a ≤ b → EndToEnd b rest c → EndToEnd a (⟨a, b⟩ :: rest) c

namespace EndToEnd

variable {a b k : Nat} {spans : List Span} {s : Span}

theorem le (h : EndToEnd a spans b) : a ≤ b := by
  induction h with
  | nil => exact Nat.le_refl _
  | cons hle _ ih => exact hle.trans ih

theorem bounds (h : EndToEnd a spans b) (hs : s ∈ spans) :
    a ≤ s.start ∧ s.start ≤ s.stop ∧ s.stop ≤ b := by
  induction h with
  | nil => exact absurd hs List.not_mem_nil
  | cons hle hrest ih =>
    rcases List.mem_cons.1 hs with rfl | hs
    · exact ⟨Nat.le_refl _, hle, hrest.le⟩
    · obtain ⟨hstart, hstop⟩ := ih hs
      exact ⟨hle.trans hstart, hstop⟩

/-- **No place is in two stretches.** -/
theorem disjoint (h : EndToEnd a spans b) :
    spans.Pairwise fun s t => ∀ k, ¬ (s.Covers k ∧ t.Covers k) := by
  induction h with
  | nil => exact .nil
  | cons _ hrest ih =>
    refine .cons (fun t ht k hk => ?_) ih
    obtain ⟨⟨-, hbefore⟩, hafter, -⟩ := hk
    exact absurd hbefore (Nat.not_lt.2 ((hrest.bounds ht).1.trans hafter))

/-- **Every place is in a stretch.** -/
theorem exists_covers_iff (h : EndToEnd a spans b) :
    (∃ s ∈ spans, s.Covers k) ↔ a ≤ k ∧ k < b := by
  induction h with
  | nil =>
    constructor
    · rintro ⟨s, hs, -⟩
      exact absurd hs List.not_mem_nil
    · rintro ⟨hle, hlt⟩
      exact absurd hlt (Nat.not_lt.2 hle)
  | cons hle hrest ih =>
    rw [List.exists_mem_cons_iff, ih, Span.Covers]
    have hle' := hrest.le
    dsimp only
    omega

end EndToEnd

namespace System

variable {α : Type}

/-- The stretches of the flat state, in model order. -/
def spans (sys : System α) : List Span := (spansFrom 0 sys.dynamics).map Prod.snd

theorem endToEnd_spansFrom : ∀ (o : Nat) (slots : List (Nat × Slot α)),
    EndToEnd o ((spansFrom o slots).map Prod.snd) (o + stateSize slots)
  | o, [] => .nil o
  | o, (_, slot) :: rest => by
      rw [stateSize, ← Nat.add_assoc]
      exact .cons (Nat.le_add_right _ _) (endToEnd_spansFrom _ rest)

/-- **The stretches fill the state.** -/
theorem endToEnd_spans (sys : System α) : EndToEnd 0 sys.spans sys.dimension := by
  have h := endToEnd_spansFrom 0 sys.dynamics
  rwa [Nat.zero_add] at h

/-- The stretch under a name is that of a slot with the name. -/
theorem exists_of_span? {sys : System α} {name : String} {span : Span}
    (h : sys.span? name = some span) :
    ∃ slot, (slot, span) ∈ spansFrom 0 sys.dynamics ∧ slot.name = name := by
  obtain ⟨⟨slot, span⟩, hfound, rfl⟩ := Option.map_eq_some_iff.1 h
  exact ⟨slot, List.mem_of_find?_eq_some hfound, by simpa using List.find?_some hfound⟩

/-- The stretches are those found under the names of the slots. -/
theorem map_span? {sys : System α} (hw : sys.Wired) :
    (sys.dynamics.map fun e => sys.span? e.2.name) = sys.spans.map some := by
  have hspans : ∀ e ∈ spansFrom 0 sys.dynamics, sys.span? e.1.name = some e.2 :=
    fun e he => span?_eq_some hw he
  calc sys.dynamics.map (fun e => sys.span? e.2.name)
      = (sys.dynamics.map Prod.snd).map fun slot => sys.span? slot.name := by
        rw [List.map_map]
        rfl
    _ = (spansFrom 0 sys.dynamics).map fun e => sys.span? e.1.name := by
        rw [← map_spansFrom 0, List.map_map]
        rfl
    _ = sys.spans.map some := by
        rw [spans, List.map_map]
        exact List.map_congr_left hspans

end System

/-- What is gathered for a slot is its stretch of the state. -/
theorem Gathers.exists_stretch {α : Type} {sys : System α}
    {P : (i : Nat) → (slot : Slot α) → Vector α slot.shape.size → Prop}
    {y : Vector α sys.dimension} (h : Gathers P sys.dynamics y) {i : Nat} {slot : Slot α}
    (hdynamic : (i, slot) ∈ sys.dynamics) : ∃ span here,
      (slot, span) ∈ System.spansFrom 0 sys.dynamics ∧ P i slot here ∧
        here.toArray = y.toArray.extract span.start span.stop := by
  obtain ⟨span, here, hspan, hhere, hat⟩ :=
    h.exists_span hdynamic (y := y.toArray) (o := 0) fun k _ => by rw [Nat.zero_add]
  obtain ⟨hstop, hle⟩ := System.of_mem_spansFrom hspan
  refine ⟨span, here, hspan, hhere, ?_⟩
  rw [hstop, extract_eq_of_getElem? here.size_toArray
    (by rw [Vector.size_toArray, System.dimension]; omega) hat]

/-- What every slot has at its stretch of the state is gathered. -/
theorem Gathers.of_stretches {α : Type} {sys : System α} (hw : sys.Wired)
    {P : (i : Nat) → (slot : Slot α) → Vector α slot.shape.size → Prop}
    {y : Vector α sys.dimension} (h : ∀ i slot, (i, slot) ∈ sys.dynamics → ∃ span here,
      (slot, span) ∈ System.spansFrom 0 sys.dynamics ∧ P i slot here ∧
        here.toArray = y.toArray.extract span.start span.stop) : Gathers P sys.dynamics y := by
  refine System.gathers_of_stretches hw ?_
  rintro ⟨i, slot⟩ hdynamic
  obtain ⟨span, here, hspan, hhere, hstretch⟩ := h i slot hdynamic
  obtain ⟨hstop, hle⟩ := System.of_mem_spansFrom hspan
  refine ⟨here, hhere, fun k hk => ?_⟩
  have hin : span.start + slot.shape.size ≤ y.toArray.size := by
    rw [Vector.size_toArray, System.dimension]
    omega
  rw [hstretch, hstop, Array.getElem?_extract, Nat.min_eq_left hin, Nat.add_sub_cancel_left,
    if_pos hk, System.start_eq hw hspan]

section Names

variable {α : Type} {m : Model α} {runs regions : Nat} {sys : System α}

/-- The dynamic slots have the names of the dynamic fields, in model order. -/
theorem BoundFrom.map_name_dynamics (h : BoundFrom m runs regions sys) :
    (sys.dynamics.map fun e => e.2.name) = m.namesOf .dynamic := by
  have hkinds : sys.slots.toList.map (fun slot => (slot.name, slot.kind)) =
      m.fields.values.map fun f => (f.name, f.kind) := by
    refine List.ext_getElem? fun i => ?_
    rw [List.getElem?_map, List.getElem?_map, Array.getElem?_toList]
    cases hf : m.fields.values[i]? with
    | some f =>
      obtain ⟨slot, hslot, hof⟩ := h.slot hf
      rw [hslot, Option.map_some, Option.map_some, hof.name, hof.kind]
    | none =>
      cases hslot : sys.slots[i]? with
      | none => rfl
      | some slot =>
        obtain ⟨f, hsome, -⟩ := h.field hslot
        exact nomatch hf.symm.trans hsome
  have hnames := congrArg (fun l => (l.filter fun e => e.2 = FieldKind.dynamic).map Prod.fst) hkinds
  simp only [List.filter_map, List.map_map] at hnames
  calc sys.dynamics.map (fun e => e.2.name)
      = (sys.dynamics.map Prod.snd).map Slot.name := by
        rw [List.map_map]
        rfl
    _ = (sys.slots.toList.filter fun slot => slot.kind = .dynamic).map Slot.name := by
        rw [System.map_snd_dynamics]
    _ = m.namesOf .dynamic := hnames

end Names

/-! ## A state and its values -/

namespace System

variable {α : Type}

/-- The values of slots, one after another. -/
def joined (value? : String → Option (Tensor α)) : List (Nat × Slot α) → Array α
  | [] => #[]
  | (_, slot) :: rest => ((value? slot.name).map Tensor.data).getD #[] ++ joined value? rest

/-- **The flat state read back** from the values of the dynamic fields, in model order. -/
def flatten (sys : System α) (value? : String → Option (Tensor α)) : Array α :=
  joined value? sys.dynamics

theorem joined_eq [Inhabited α] {value? : String → Option (Tensor α)} {x : Array α} :
    ∀ {slots : List (Nat × Slot α)} {o : Nat}, (∀ e ∈ spansFrom o slots,
      value? e.1.name = some (.ofSlice e.1.shape x e.2.start)) → o + stateSize slots ≤ x.size →
        joined value? slots = x.extract o (o + stateSize slots)
  | [], o, _, _ => (Array.extract_empty_of_stop_le_start (Nat.le_refl o)).symm
  | (i, slot) :: rest, o, hvalue, hle => by
      rw [spansFrom, List.forall_mem_cons] at hvalue
      obtain ⟨hhere, hrest⟩ := hvalue
      rw [stateSize, ← Nat.add_assoc] at hle ⊢
      dsimp only at hhere
      rw [joined, hhere, Option.map_some, Option.getD_some, Tensor.data_ofSlice (by omega),
        joined_eq hrest hle, Array.extract_append_extract, Nat.min_eq_left (by omega),
        Nat.max_eq_right (by omega)]

end System

section Holding

variable {α : Type} [Scalar α] {m : Model α} {runs regions : Nat} {sys : System α} {x : Array α}
  {value? : String → Option (Tensor α)}

/-- **Values that hold a flat state.** -/
structure Holds (m : Model α) (runs regions : Nat) (sys : System α) (x : Array α)
    (value? : String → Option (Tensor α)) : Prop where
  /-- The value of every dynamic field is its stretch of the state, in the shape of the field. -/
  stretch : ∀ {name f}, m.field? name = some f → f.kind = .dynamic → ∃ span v,
    sys.span? name = some span ∧ value? name = some v ∧ m.shapeOf f runs regions = .ok v.shape ∧
      v.data = x.extract span.start span.stop
  /-- The values one after another are the state. -/
  flat : sys.flatten value? = x.extract 0 sys.dimension

/-- An evaluation leaves a dynamic slot with its stretch of the state. -/
theorem getElem?_evaluate_dynamic (hw : sys.Wired) {buffers : Buffers α} (hb : sys.Scratch buffers)
    (hx : sys.dimension ≤ x.size) {i : Nat} {slot : Slot α} (hslot : sys.slots[i]? = some slot)
    (hkind : slot.kind = .dynamic) : (sys.evaluate x buffers).1[i]? =
      some ⟨.ofSlice slot.shape x (sys.start slot.name), true⟩ := by
  obtain ⟨span, hspan, hprepared⟩ := System.getElem?_prepared_dynamic hw hslot hkind
  rw [System.evaluate_of_le hx, System.getElem?_computeAll_of_notMem
    (System.notMem_order hw hslot (by simp [hkind])), hprepared x hb.toShaped,
    System.start_eq hw hspan]

theorem holds_of_slices (hm : m.Evaluable) (hbound : BoundFrom m runs regions sys)
    (hx : sys.dimension ≤ x.size) (h : ∀ {i slot}, (i, slot) ∈ sys.dynamics →
      value? slot.name = some (.ofSlice slot.shape x (sys.start slot.name))) :
    Holds m runs regions sys x value? := by
  have hw := hbound.wired hm
  constructor
  · intro name f hf hkind
    obtain ⟨i, slot, hslot, rfl, hof⟩ := hbound.slot_of_field? hm hf
    have hdynamic := System.mem_dynamics_iff.2 ⟨hslot, hof.kind.trans hkind⟩
    obtain ⟨span, hspan⟩ := System.exists_span hdynamic
    obtain ⟨hstop, -⟩ := System.of_mem_spansFrom hspan
    have hin := System.start_add_le hw hdynamic
    refine ⟨span, _, System.span?_eq_some hw hspan, h hdynamic, hof.shape, ?_⟩
    rw [hstop, ← System.start_eq hw hspan]
    exact Tensor.data_ofSlice (hin.trans hx)
  · have hslices : ∀ e ∈ System.spansFrom 0 sys.dynamics,
        value? e.1.name = some (.ofSlice e.1.shape x e.2.start) := fun e he => by
      obtain ⟨i, hdynamic⟩ := System.exists_dynamic he
      rw [h hdynamic, System.start_eq hw he]
    have hflat := System.joined_eq hslices (by rwa [Nat.zero_add])
    rwa [Nat.zero_add] at hflat

/-- **What is loaded is read back**, from whatever buffers the evaluation starts and however it
ends. -/
theorem holds_evaluate (hm : m.Evaluable) (hbound : BoundFrom m runs regions sys)
    {buffers : Buffers α} (hb : sys.Scratch buffers) (hx : sys.dimension ≤ x.size) :
    Holds m runs regions sys x (sys.value? (sys.evaluate x buffers).1) := by
  have hw := hbound.wired hm
  refine holds_of_slices hm hbound hx fun {i slot} hdynamic => ?_
  obtain ⟨hslot, hkind⟩ := System.mem_dynamics_iff.1 hdynamic
  exact System.value?_eq_some hw (hb.evaluate hw x).size hslot
    (getElem?_evaluate_dynamic hw hb hx hslot hkind)

end Holding

end FieldFlow
