import FieldFlow.Proofs.System.BindPart
import FieldFlow.Proofs.System.Stretches
import Mathlib.Data.Option.NAry

/-!
# Proofs/System/Writing — a flat state written in place

Where the stretches of a state are written one after another into an array that is there already,
every element of a stretch is written once, by the field whose stretch it is, and nothing else is
written (`Filled`). What a write does to a place is left open (`put`): it may overwrite what the
place held, or keep a record of who wrote there. Filling an array succeeds exactly where the
elements can be gathered and there is room for them (`exists_fill`, `of_fill`), and what the
elements are does not depend on the array. The initial state and the right-hand side are both
written this way.
-/

namespace FieldFlow

variable {α β : Type}

/-! ## Elements one after another -/

/-- Writes elements at the places from one on. -/
def writeFrom (put : α → β → β) : List α → Nat → Array β → Array β
  | [], _, out => out
  | a :: rest, k, out => writeFrom put rest (k + 1) (out.modify k (put a))

@[simp] theorem size_writeFrom (put : α → β → β) : ∀ (values : List α) (o : Nat) (out : Array β),
    (writeFrom put values o out).size = out.size
  | [], _, _ => rfl
  | a :: rest, o, out => by rw [writeFrom, size_writeFrom put rest, Array.size_modify]

/-- Other places are left as they are. -/
theorem getElem?_writeFrom_of_out {put : α → β → β} {k : Nat} :
    ∀ {values : List α} {o : Nat} {out : Array β}, k < o ∨ o + values.length ≤ k →
      (writeFrom put values o out)[k]? = out[k]?
  | [], _, _, _ => rfl
  | a :: rest, o, out, h => by
      rw [List.length_cons] at h
      rw [writeFrom, getElem?_writeFrom_of_out (by omega), Array.getElem?_modify,
        if_neg (by omega)]

/-- **Every element is written once.** -/
theorem getElem?_writeFrom {put : α → β → β} {k : Nat} :
    ∀ {values : List α} {o : Nat} {out : Array β}, o ≤ k → k < o + values.length →
      (writeFrom put values o out)[k]? = Option.map₂ put values[k - o]? out[k]?
  | [], o, _, hle, hlt => absurd hle (Nat.not_le.2 hlt)
  | a :: rest, o, out, hle, hlt => by
      rw [List.length_cons] at hlt
      rw [writeFrom]
      rcases Nat.eq_or_lt_of_le hle with rfl | hlater
      · rw [getElem?_writeFrom_of_out (.inl (Nat.lt_succ_self _)), Array.getElem?_modify,
          if_pos rfl, Nat.sub_self]
        cases out[o]? <;> rfl
      · rw [getElem?_writeFrom hlater (by omega), Array.getElem?_modify, if_neg (by omega),
          show k - o = k - (o + 1) + 1 by omega, List.getElem?_cons_succ]

namespace System

/-! ## Stretches one after another -/

section Fill

variable {ε : Type} {elements : Nat → (slot : Slot α) → Except ε (Vector α slot.shape.size)}
  {noRoom : ε} {put : String → α → β → β} {slots : List (Nat × Slot α)} {o : Nat}
  {out out' : Array β}

/-- Writes the elements of slots at their stretches, from an offset on. A failure leaves what was
written before. -/
def fill (elements : Nat → (slot : Slot α) → Except ε (Vector α slot.shape.size)) (noRoom : ε)
    (put : String → α → β → β) : List (Nat × Slot α) → Nat → Array β → Array β × Except ε Unit
  | [], _, out => (out, .ok ())
  | (i, slot) :: rest, o, out =>
    match elements i slot with
    | .error e => (out, .error e)
    | .ok here =>
      if out.size < o + slot.shape.size then (out, .error noRoom)
      else fill elements noRoom put rest (o + slot.shape.size)
        (writeFrom (put slot.name) here.toList o out)

/-- **An array with the elements of a state written into it**, from an offset on. -/
structure Filled (put : String → α → β → β) (slots : List (Nat × Slot α)) (o : Nat) (y : Array α)
    (out out' : Array β) : Prop where
  size : out'.size = out.size
  /-- An element in a stretch is written once, under the name of the slot. -/
  written : ∀ {slot span}, (slot, span) ∈ spansFrom o slots → ∀ k, span.Covers k →
    out'[k]? = Option.map₂ (put slot.name) y[k]? out[k]?
  /-- Outside the stretches nothing is written. -/
  kept : ∀ k, k < o ∨ o + stateSize slots ≤ k → out'[k]? = out[k]?

theorem fill_cons_eq_ok_iff {i : Nat} {slot : Slot α} {rest : List (Nat × Slot α)} :
    fill elements noRoom put ((i, slot) :: rest) o out = (out', .ok ()) ↔
      ∃ here, elements i slot = .ok here ∧ o + slot.shape.size ≤ out.size ∧
        fill elements noRoom put rest (o + slot.shape.size)
          (writeFrom (put slot.name) here.toList o out) = (out', .ok ()) := by
  rw [fill]
  cases elements i slot with
  | error e => simp
  | ok here =>
    by_cases hroom : out.size < o + slot.shape.size
    · simp [hroom]
    · simp [hroom, Nat.not_lt.1 hroom]

/-- What is written behind a stretch leaves the stretch as it was written. -/
theorem Filled.cons {i : Nat} {slot : Slot α} {rest : List (Nat × Slot α)} {y : Array α}
    {here : Vector α slot.shape.size} (h : Filled put rest (o + slot.shape.size) y
      (writeFrom (put slot.name) here.toList o out) out')
    (hhere : ∀ k < slot.shape.size, y[o + k]? = here.toArray[k]?) :
    Filled put ((i, slot) :: rest) o y out out' := by
  have hlength : here.toList.length = slot.shape.size := by simp
  refine ⟨h.size.trans (size_writeFrom _ _ _ _), fun {slot' span} hmem k hk => ?_, fun k hk => ?_⟩
  · rcases List.mem_cons.1 hmem with heq | hmem
    · obtain ⟨rfl, rfl⟩ := Prod.mk.inj heq
      obtain ⟨hle, hlt⟩ := hk
      dsimp only at hle hlt
      have hplace := hhere (k - o) (by omega)
      rw [Nat.add_sub_cancel' hle] at hplace
      rw [h.kept k (.inl hlt), getElem?_writeFrom hle (by omega), hplace,
        Vector.getElem?_toArray, Vector.getElem?_toList]
    · have hbounds := (endToEnd_spansFrom _ rest).bounds (List.mem_map.2 ⟨_, hmem, rfl⟩)
      have hle := hk.1
      dsimp only at hbounds
      rw [h.written hmem k hk, getElem?_writeFrom_of_out (.inr (by omega))]
  · rw [stateSize] at hk
    rw [h.kept k (by omega), getElem?_writeFrom_of_out (by omega)]

variable (noRoom put out) in
/-- What can be gathered can be written where there is room for it. -/
theorem exists_fill {v : Vector α (stateSize slots)} {y : Array α}
    (h : Gathers (fun i slot here => elements i slot = .ok here) slots v)
    (hroom : o + stateSize slots ≤ out.size)
    (hy : ∀ k < stateSize slots, y[o + k]? = v.toArray[k]?) :
    ∃ out', fill elements noRoom put slots o out = (out', .ok ()) ∧
      Filled put slots o y out out' := by
  induction h generalizing o out with
  | nil => exact ⟨out, rfl, rfl, fun hmem => absurd hmem List.not_mem_nil, fun _ _ => rfl⟩
  | @cons i slot rest here others hhere _ ih =>
    have hroom : o + (slot.shape.size + stateSize rest) ≤ out.size := hroom
    have hsplit : ∀ k < slot.shape.size + stateSize rest,
        y[o + k]? = (here.toArray ++ others.toArray)[k]? := fun k hk => by
      rw [← Vector.toArray_append]
      exact hy k hk
    have hrest : o + slot.shape.size + stateSize rest ≤
        (writeFrom (put slot.name) here.toList o out).size := by
      rw [size_writeFrom]
      omega
    obtain ⟨out', hfill, hfilled⟩ := ih _ hrest fun k hk => by
      rw [Nat.add_assoc, hsplit _ (Nat.add_lt_add_left hk _), Array.getElem?_append_right (by simp),
        Vector.size_toArray, Nat.add_sub_cancel_left]
    refine ⟨out', fill_cons_eq_ok_iff.2 ⟨here, hhere, by omega, hfill⟩, hfilled.cons fun k hk => ?_⟩
    rw [hsplit k (Nat.lt_add_right _ hk), Array.getElem?_append_left (by simpa using hk)]

/-- What is written was gathered, and there was room for it. -/
theorem gathers_of_fill : ∀ {slots : List (Nat × Slot α)} {o : Nat} {out : Array β},
    o ≤ out.size → fill elements noRoom put slots o out = (out', .ok ()) →
      o + stateSize slots ≤ out.size ∧
        ∃ v, Gathers (fun i slot here => elements i slot = .ok here) slots v
  | [], _, _, ho, _ => ⟨ho, _, .nil⟩
  | (i, slot) :: rest, o, out, _, h => by
      obtain ⟨here, hhere, hroom, hrest⟩ := fill_cons_eq_ok_iff.1 h
      obtain ⟨hle, others, hothers⟩ := gathers_of_fill (by rwa [size_writeFrom]) hrest
      rw [size_writeFrom] at hle
      exact ⟨by rwa [stateSize, ← Nat.add_assoc], _, .cons hhere hothers⟩

/-- **What is written** is what can be gathered, where there is room for it. -/
theorem of_fill (h : fill elements noRoom put slots 0 out = (out', .ok ())) :
    stateSize slots ≤ out.size ∧
      ∃ v, Gathers (fun i slot here => elements i slot = .ok here) slots v ∧
        Filled put slots 0 v.toArray out out' := by
  obtain ⟨hroom, v, hv⟩ := gathers_of_fill (Nat.zero_le _) h
  obtain ⟨out'', h', hfilled⟩ := exists_fill noRoom put out hv hroom
    fun k _ => by rw [Nat.zero_add]
  obtain rfl : out'' = out' := congrArg Prod.fst (h'.symm.trans h)
  exact ⟨by rwa [Nat.zero_add] at hroom, v, hv, hfilled⟩

/-- An array that is overwritten from end to end is the state. -/
theorem Filled.eq {y out out' : Array α} (h : Filled (fun _ a _ => a) slots 0 y out out')
    (hy : y.size = stateSize slots) (hout : out.size = stateSize slots) : out' = y := by
  refine Array.ext_getElem? fun k => ?_
  rcases Nat.lt_or_ge k (stateSize slots) with hk | hk
  · obtain ⟨span, hspan, hcovers⟩ := (endToEnd_spansFrom 0 slots).exists_covers_iff.2
      ⟨Nat.zero_le k, by rwa [Nat.zero_add]⟩
    obtain ⟨⟨slot, span⟩, hmem, rfl⟩ := List.mem_map.1 hspan
    rw [h.written hmem k hcovers, Array.getElem?_eq_getElem (hy ▸ hk),
      Array.getElem?_eq_getElem (hout ▸ hk)]
    rfl
  · rw [Array.getElem?_eq_none (by rw [h.size]; omega), Array.getElem?_eq_none (by omega)]

end Fill

/-! ## The initial state -/

section Initial

variable [Scalar α] {m : Model α} {sys : System α}

/-- The elements of an initial value in the shape of its slot. -/
def initialElements (m : Model α) (_ : Nat) (slot : Slot α) :
    Except (Error α) (Vector α slot.shape.size) :=
  match (m.field? slot.name).bind Field.initial with
  | none => .error (.malformedField slot.name .missingInitial)
  | some initial => do (← initial.toTensor slot.name).flatTo slot.name slot.shape

theorem initialElements_eq_ok_iff {i : Nat} {slot : Slot α} {here : Vector α slot.shape.size} :
    initialElements m i slot = .ok here ↔ ∃ given v,
      (m.field? slot.name).bind Field.initial = some given ∧ given.toTensor slot.name = .ok v ∧
        v.flatTo slot.name slot.shape = .ok here := by
  unfold initialElements
  cases (m.field? slot.name).bind Field.initial with
  | none => simp
  | some given => simp [bind_eq_ok_iff]

/-- **The initial state written in place**, over anything that is as long. -/
theorem initialState_eq_ok_iff_fill {noRoom : Error α} {zeros : Array α}
    (hzeros : zeros.size = sys.dimension) {state : Vector α sys.dimension} :
    sys.initialState m = .ok state ↔
      fill (initialElements m) noRoom (fun _ a _ => a) sys.dynamics 0 zeros =
        (state.toArray, .ok ()) := by
  have hgathers : sys.initialState m = .ok state ↔
      Gathers (fun i slot here => initialElements m i slot = .ok here) sys.dynamics state := by
    simp only [initialElements_eq_ok_iff]
    exact initialValues_eq_ok_iff
  rw [hgathers]
  constructor
  · intro h
    obtain ⟨out', hfill, hfilled⟩ := exists_fill noRoom (fun _ a _ => a) zeros h
      (by rw [Nat.zero_add]; exact hzeros.ge) fun k _ => by rw [Nat.zero_add]
    rw [hfill, hfilled.eq state.size_toArray hzeros]
  · intro h
    obtain ⟨-, v, hv, hfilled⟩ := of_fill h
    obtain rfl : v = state :=
      Vector.toArray_inj.1 (hfilled.eq v.size_toArray hzeros).symm
    exact hv

end Initial

/-! ## The right-hand side -/

section Apply

variable [Scalar α] {sys : System α} {put : String → α → β → β} {x : Array α}
  {buffers after : Buffers α} {out out' : Array β}

/-- The elements of the derivative of a slot. -/
def slopeElements (sys : System α) (buffers : Buffers α) (i : Nat) (slot : Slot α) :
    Except (Failure α) (Vector α slot.shape.size) := do
  let output ← sys.call buffers i
  (output.flatTo slot.name slot.shape).mapError Failure.error

theorem slopeElements_eq_ok_iff {i : Nat} {slot : Slot α} {here : Vector α slot.shape.size} :
    sys.slopeElements buffers i slot = .ok here ↔ ∃ output, sys.call buffers i = .ok output ∧
      output.flatTo slot.name slot.shape = .ok here := by
  rw [slopeElements, bind_eq_ok_iff]
  simp only [mapError_eq_ok_iff]

/-- **The right-hand side written in place**, slot by slot. A failure leaves what was written
before. -/
def applyInto (sys : System α) (put : String → α → β → β) (x : Array α) (buffers : Buffers α)
    (out : Array β) : Buffers α × Array β × Except (Failure α) Unit :=
  match sys.evaluate x buffers with
  | (after, .ok ()) =>
    (after, fill (sys.slopeElements after) (.fault .outOfRange) put sys.dynamics 0 out)
  | (after, .error e) => (after, out, .error e)

theorem applyInto_eq_ok_iff : sys.applyInto put x buffers out = (after, out', .ok ()) ↔
    sys.evaluate x buffers = (after, .ok ()) ∧
      fill (sys.slopeElements after) (.fault .outOfRange) put sys.dynamics 0 out =
        (out', .ok ()) := by
  unfold applyInto
  rcases sys.evaluate x buffers with ⟨left, _ | ⟨⟩⟩
  · simp
  · simp only [Prod.mk.injEq, and_true]
    exact and_congr_right fun hleft => by rw [hleft]

theorem apply_eq_ok_iff {slopes : Vector α sys.dimension} :
    sys.apply x buffers = (after, .ok slopes) ↔ sys.evaluate x buffers = (after, .ok ()) ∧
      Gathers (fun i slot here => sys.slopeElements after i slot = .ok here)
        sys.dynamics slopes := by
  have hgathers : Gathers (fun i slot here => sys.slopeElements after i slot = .ok here)
      sys.dynamics slopes ↔ sys.derivatives after sys.dynamics = .ok slopes := by
    simp only [slopeElements_eq_ok_iff]
    exact derivatives_eq_ok_iff.symm
  rw [hgathers]
  unfold apply
  rcases sys.evaluate x buffers with ⟨left, _ | ⟨⟩⟩
  · simp
  · simp only [Prod.mk.injEq, and_true]
    constructor
    · intro h
      obtain ⟨hleft, hslopes⟩ := Prod.mk.inj h
      exact ⟨hleft, hleft ▸ hslopes⟩
    · rintro ⟨rfl, hslopes⟩
      exact congrArg (Prod.mk left) hslopes

/-- **What the right-hand side writes** are the slopes, whatever the array held before. -/
theorem of_applyInto (h : sys.applyInto put x buffers out = (after, out', .ok ())) :
    sys.dimension ≤ out.size ∧ ∃ slopes, sys.apply x buffers = (after, .ok slopes) ∧
      Filled put sys.dynamics 0 slopes.toArray out out' := by
  obtain ⟨hevaluate, hfill⟩ := applyInto_eq_ok_iff.1 h
  obtain ⟨hroom, slopes, hslopes, hfilled⟩ := of_fill hfill
  exact ⟨hroom, slopes, apply_eq_ok_iff.2 ⟨hevaluate, hslopes⟩, hfilled⟩

/-- …and they are written wherever there is room for them. -/
theorem exists_applyInto {slopes : Vector α sys.dimension}
    (h : sys.apply x buffers = (after, .ok slopes)) (hroom : sys.dimension ≤ out.size) :
    ∃ out', sys.applyInto put x buffers out = (after, out', .ok ()) := by
  obtain ⟨hevaluate, hslopes⟩ := apply_eq_ok_iff.1 h
  obtain ⟨out', hfill, -⟩ := exists_fill (.fault .outOfRange) put out hslopes
    (by rwa [Nat.zero_add]) fun k _ => by rw [Nat.zero_add]
  exact ⟨out', applyInto_eq_ok_iff.2 ⟨hevaluate, hfill⟩⟩

/-- **What the right-hand side writes in place** at every place of the state, by the field that owns
the place. -/
structure Owned (sys : System α) (put : String → α → β → β) (slopes : Array α)
    (out out' : Array β) : Prop where
  size : out'.size = out.size
  /-- In the stretch of a field every element is written once, by the field. -/
  owner : ∀ {name span}, sys.span? name = some span → ∀ k, span.Covers k →
    ∃ a b, slopes[k]? = some a ∧ out[k]? = some b ∧ out'[k]? = some (put name a b)
  /-- Beyond the state nothing is written. -/
  beyond : ∀ k, sys.dimension ≤ k → out'[k]? = out[k]?

omit [Scalar α] in
theorem Filled.owned {slopes : Vector α sys.dimension}
    (h : Filled put sys.dynamics 0 slopes.toArray out out')
    (hroom : sys.dimension ≤ out.size) : Owned sys put slopes.toArray out out' where
  size := h.size
  owner := fun {name span} hspan k hk => by
    obtain ⟨slot, hmem, rfl⟩ := exists_of_span? hspan
    have hlt : k < sys.dimension := (sys.endToEnd_spans.exists_covers_iff.1
      ⟨span, List.mem_map.2 ⟨_, hmem, rfl⟩, hk⟩).2
    obtain ⟨a, hslope⟩ : ∃ a, slopes.toArray[k]? = some a :=
      ⟨_, Array.getElem?_eq_getElem (slopes.size_toArray.symm ▸ hlt)⟩
    have hplace := Array.getElem?_eq_getElem (hlt.trans_le hroom)
    refine ⟨a, _, hslope, hplace, ?_⟩
    rw [h.written hmem k hk, hslope, hplace]
    rfl
  beyond := fun k hk => h.kept k (.inr (by rwa [Nat.zero_add]))

/-- The slopes of a field are its derivative, repeated over its shape. -/
theorem exists_slopes (hw : sys.Wired) {slopes : Vector α sys.dimension}
    (h : sys.apply x buffers = (after, .ok slopes)) {i : Nat} {slot : Slot α}
    (hdynamic : (i, slot) ∈ sys.dynamics) : ∃ span output,
      sys.span? slot.name = some span ∧ sys.call after i = .ok output ∧
        output.shape.expandsTo slot.shape = true ∧
          (output.expand slot.shape).data = slopes.toArray.extract span.start span.stop := by
  obtain ⟨-, hgathers⟩ := apply_eq_ok_iff.1 h
  obtain ⟨span, here, hspan, hhere, hstretch⟩ := hgathers.exists_stretch hdynamic
  obtain ⟨output, houtput, hflat⟩ := slopeElements_eq_ok_iff.1 hhere
  obtain ⟨hexpands, hdata⟩ := Tensor.flatTo_eq_ok_iff.1 hflat
  exact ⟨span, output, span?_eq_some hw hspan, houtput, hexpands, hdata.trans hstretch⟩

end Apply

end System

end FieldFlow
