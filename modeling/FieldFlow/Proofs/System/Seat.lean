import FieldFlow.Proofs.Solver.Pick
import FieldFlow.Proofs.System.Part

/-!
# Proofs/System/Seat — where the state of a system holds the state of a part

Every dynamic field of a part has a stretch in the state of the part and one in the state of the
whole, of one length but elsewhere (`seat`). At a state that holds its own, the part is evaluated to
what the whole is evaluated to (`PartOf.snapshot`), and its slopes stand where its state stands
(`PartOf.rate`): solving the whole is solving the part along with it.
-/

namespace FieldFlow

variable {α : Type}

/-- A slice is known from the elements that stand there. -/
theorem Tensor.ofSlice_congr [Inhabited α] {s : Shape} {y y' : Array α} {o o' : Nat}
    (h : ∀ k < s.size, y'[o' + k]? = y[o + k]?) : ofSlice s y' o' = ofSlice s y o := by
  unfold ofSlice
  congr 1
  refine Array.ext (by simp) fun k hk _ => ?_
  have hk : k < s.size := by simpa using hk
  simp [h k hk]

/-- A stretch of an array is known from the elements that stand there. -/
theorem extract_eq_of_getElem? {y z : Array α} {o n : Nat} (hz : z.size = n) (hle : o + n ≤ y.size)
    (h : ∀ k < n, y[o + k]? = z[k]?) : y.extract o (o + n) = z := by
  subst hz
  refine Array.ext_getElem? fun k => ?_
  rw [Array.getElem?_extract, Nat.min_eq_left hle, Nat.add_sub_cancel_left]
  split
  · rename_i hk
    exact h k hk
  · rename_i hk
    rw [Array.getElem?_eq_none (Nat.le_of_not_lt hk)]

/-- The elements of a value in the shape of one slot are those in the shape of the same slot. -/
theorem Tensor.exists_flatTo [Inhabited α] {t : Tensor α} {name name' : String} {s s' : Shape}
    (hname : name = name') (hs : s = s') {v' : Vector α s'.size} (h : t.flatTo name' s' = .ok v') :
    ∃ v, t.flatTo name s = .ok v ∧ v.toArray = v'.toArray := by
  subst hname hs
  exact ⟨v', h, rfl⟩

/-! ## Stretches one after another -/

/-- **A state gathered slot by slot** from stretches with a property. -/
inductive Gathers (P : (i : Nat) → (slot : Slot α) → Vector α slot.shape.size → Prop) :
    (slots : List (Nat × Slot α)) → Vector α (stateSize slots) → Prop
  | nil : Gathers P [] #v[]
  | cons {i : Nat} {slot : Slot α} {rest : List (Nat × Slot α)} {here : Vector α slot.shape.size}
      {others : Vector α (stateSize rest)} :
      P i slot here → Gathers P rest others → Gathers P ((i, slot) :: rest) (here ++ others)

/-- The stretch of a slot in an array that holds a gathered state from an offset on. -/
theorem Gathers.exists_span {P : (i : Nat) → (slot : Slot α) → Vector α slot.shape.size → Prop}
    {slots : List (Nat × Slot α)} {v : Vector α (stateSize slots)} {y : Array α}
    (h : Gathers P slots v) {i : Nat} {slot : Slot α} (hmem : (i, slot) ∈ slots) :
    ∀ {o : Nat}, (∀ k < stateSize slots, y[o + k]? = v.toArray[k]?) →
      ∃ span here, (slot, span) ∈ System.spansFrom o slots ∧ P i slot here ∧
        ∀ k < slot.shape.size, y[span.start + k]? = here.toArray[k]? := by
  induction h with
  | nil => exact absurd hmem List.not_mem_nil
  | @cons j first rest here others hhere _ ih =>
    intro o hy
    have hsplit : ∀ k < first.shape.size + stateSize rest,
        y[o + k]? = (here.toArray ++ others.toArray)[k]? := fun k hk => by
      rw [← Vector.toArray_append]
      exact hy k hk
    rcases List.mem_cons.1 hmem with heq | hmem
    · obtain ⟨rfl, rfl⟩ := Prod.mk.inj heq
      refine ⟨_, here, List.mem_cons_self, hhere, fun k hk => ?_⟩
      rw [hsplit k (Nat.lt_add_right _ hk), Array.getElem?_append_left (by simpa using hk)]
    · obtain ⟨span, found, hspan, hfound, hat⟩ := ih hmem (o := o + first.shape.size) fun k hk => by
        rw [Nat.add_assoc, hsplit _ (Nat.add_lt_add_left hk _), Array.getElem?_append_right (by simp),
          Vector.size_toArray, Nat.add_sub_cancel_left]
      exact ⟨span, found, List.mem_cons_of_mem _ hspan, hfound, hat⟩

namespace System

/-- Derivatives are gathered from the calls of the slots. -/
theorem derivatives_eq_ok_iff [Scalar α] {sys : System α} {buffers : Buffers α} :
    ∀ {slots : List (Nat × Slot α)} {slopes : Vector α (stateSize slots)},
      sys.derivatives buffers slots = .ok slopes ↔
        Gathers (fun i slot here => ∃ output, sys.call buffers i = .ok output ∧
          output.flatTo slot.name slot.shape = .ok here) slots slopes
  | [], slopes => by
      constructor
      · intro h
        obtain rfl := Except.ok.inj h
        exact .nil
      · rintro ⟨⟩
        rfl
  | (i, slot) :: rest, slopes => by
      constructor
      · intro h
        obtain ⟨output, houtput, h⟩ := bind_eq_ok_iff.1 h
        obtain ⟨here, hhere, h⟩ := bind_eq_ok_iff.1 h
        obtain ⟨others, hothers, h⟩ := bind_eq_ok_iff.1 h
        obtain rfl := pure_eq_ok_iff.1 h
        exact .cons ⟨output, houtput, mapError_eq_ok_iff.1 hhere⟩ (derivatives_eq_ok_iff.1 hothers)
      · rintro (_ | ⟨⟨output, houtput, hhere⟩, hothers⟩)
        exact bind_eq_ok_iff.2 ⟨output, houtput, bind_eq_ok_iff.2 ⟨_, mapError_eq_ok_iff.2 hhere,
          bind_eq_ok_iff.2 ⟨_, derivatives_eq_ok_iff.2 hothers, rfl⟩⟩⟩

/-! ## Seats -/

/-- Where the stretch of a field begins. -/
def start (sys : System α) (name : String) : Nat := ((sys.span? name).map Span.start).getD 0

theorem start_eq {sys : System α} (hw : sys.Wired) {slot : Slot α} {span : Span}
    (h : (slot, span) ∈ spansFrom 0 sys.dynamics) : sys.start slot.name = span.start := by
  rw [start, span?_eq_some hw h]
  rfl

/-- The stretch of a dynamic slot ends in the state. -/
theorem start_add_le {sys : System α} (hw : sys.Wired) {i : Nat} {slot : Slot α}
    (h : (i, slot) ∈ sys.dynamics) : sys.start slot.name + slot.shape.size ≤ sys.dimension := by
  obtain ⟨span, hspan⟩ := exists_span h
  obtain ⟨hstop, hle⟩ := of_mem_spansFrom hspan
  rw [start_eq hw hspan, dimension]
  omega

/-- **Where the state of the whole holds** a place of the state of some of its slots. -/
def seat (whole : System α) : List (Nat × Slot α) → Nat → Nat
  | [], k => k
  | (_, slot) :: rest, k =>
    if k < slot.shape.size then whole.start slot.name + k else seat whole rest (k - slot.shape.size)

/-- **The state of some slots**, from an offset on, as the whole holds it. -/
def Seated (whole : System α) (slots : List (Nat × Slot α)) (y y' : Array α) (o : Nat) : Prop :=
  ∀ k < stateSize slots, y'[o + k]? = y[whole.seat slots k]?

variable {part whole : System α} {y y' : Array α}

theorem Seated.cons {i o : Nat} {slot : Slot α} {rest : List (Nat × Slot α)}
    (h : Seated whole ((i, slot) :: rest) y y' o) :
    (∀ k < slot.shape.size, y'[o + k]? = y[whole.start slot.name + k]?) ∧
      Seated whole rest y y' (o + slot.shape.size) := by
  constructor
  · intro k hk
    have hlt : k < stateSize ((i, slot) :: rest) := Nat.lt_add_right _ hk
    rw [h k hlt, seat, if_pos hk]
  · intro k hk
    have hlt : slot.shape.size + k < stateSize ((i, slot) :: rest) := Nat.add_lt_add_left hk _
    have hplace := h _ hlt
    rw [seat, if_neg (by omega), Nat.add_sub_cancel_left] at hplace
    rw [Nat.add_assoc, hplace]

/-- In a seated state every slot has the stretch that it has in the whole. -/
theorem Seated.of_mem_spansFrom {slot : Slot α} {span : Span} :
    ∀ {slots : List (Nat × Slot α)} {o : Nat}, Seated whole slots y y' o →
      (slot, span) ∈ spansFrom o slots →
        ∀ k < slot.shape.size, y'[span.start + k]? = y[whole.start slot.name + k]?
  | [], _, _, hmem => absurd hmem List.not_mem_nil
  | (i, first) :: rest, o, h, hmem => by
      obtain ⟨hhere, hothers⟩ := h.cons
      rcases List.mem_cons.1 hmem with heq | hmem
      · obtain ⟨rfl, rfl⟩ := Prod.mk.inj heq
        exact hhere
      · exact hothers.of_mem_spansFrom hmem

/-- What every slot has where the whole holds it can be gathered to a seated state. -/
theorem exists_seated {P : (i : Nat) → (slot : Slot α) → Vector α slot.shape.size → Prop} :
    ∀ {slots : List (Nat × Slot α)}, (∀ entry ∈ slots, ∃ here, P entry.1 entry.2 here ∧
      ∀ k < entry.2.shape.size, here.toArray[k]? = y[whole.start entry.2.name + k]?) →
        ∃ v, Gathers P slots v ∧ Seated whole slots y v.toArray 0
  | [], _ => ⟨#v[], .nil, fun _ hk => absurd hk (Nat.not_lt_zero _)⟩
  | (i, slot) :: rest, h => by
      obtain ⟨⟨here, hhere, hat⟩, hrest⟩ := List.forall_mem_cons.1 h
      obtain ⟨others, hothers, hseated⟩ := exists_seated hrest
      refine ⟨here ++ others, .cons hhere hothers, fun k hk => ?_⟩
      have hk : k < slot.shape.size + stateSize rest := hk
      rw [Nat.zero_add, Vector.toArray_append, seat]
      split
      · rename_i hin
        rw [Array.getElem?_append_left (by simpa using hin), hat k hin]
      · rename_i hout
        have hplace := hseated (k - slot.shape.size) (by omega)
        rw [Nat.zero_add] at hplace
        rw [Array.getElem?_append_right (by simpa using Nat.le_of_not_lt hout), Vector.size_toArray,
          hplace]

/-! ## A state in its own seats -/

/-- Among slots that stand where they are listed, every place is its own seat. -/
theorem seat_eq {sys : System α} : ∀ {slots : List (Nat × Slot α)} {o k : Nat},
    (∀ {slot span}, (slot, span) ∈ spansFrom o slots → sys.start slot.name = span.start) →
      k < stateSize slots → sys.seat slots k = o + k
  | [], _, _, _, hk => absurd hk (Nat.not_lt_zero _)
  | (i, slot) :: rest, o, k, hstart, hk => by
      have hk : k < slot.shape.size + stateSize rest := hk
      rw [seat]
      split
      · rw [hstart List.mem_cons_self]
      · rw [seat_eq (fun hmem => hstart (List.mem_cons_of_mem _ hmem)) (by omega)]
        omega

/-- **A state is gathered** from the stretches that its own slots have in it. -/
theorem gathers_of_stretches {sys : System α} (hw : sys.Wired)
    {P : (i : Nat) → (slot : Slot α) → Vector α slot.shape.size → Prop}
    {y : Vector α sys.dimension} (h : ∀ entry ∈ sys.dynamics, ∃ here, P entry.1 entry.2 here ∧
      ∀ k < entry.2.shape.size, here.toArray[k]? = y.toArray[sys.start entry.2.name + k]?) :
    Gathers P sys.dynamics y := by
  obtain ⟨v, hgathers, hseated⟩ := exists_seated h
  obtain rfl : v = y := by
    ext k hk
    have hin : k < sys.dimension := hk
    have hplace := hseated k hk
    rw [seat_eq (fun hmem => start_eq hw hmem) hk, Nat.zero_add, Vector.getElem?_toArray,
      Vector.getElem?_toArray, Vector.getElem?_eq_getElem hk,
      Vector.getElem?_eq_getElem hin] at hplace
    exact Option.some.inj hplace
  exact hgathers

namespace PartOf

/-- A dynamic slot of the part has a twin among those of the whole. -/
theorem exists_dynamic (h : PartOf part whole) {i : Nat} {slot : Slot α}
    (hmem : (i, slot) ∈ part.dynamics) :
    ∃ (k : Nat) (slot' : Slot α), (k, slot') ∈ whole.dynamics ∧ whole.slots[k]? = some slot' ∧
      slot.Same slot' := by
  obtain ⟨hslot, hkind⟩ := mem_dynamics_iff.1 hmem
  obtain ⟨k, slot', hslot', hsame⟩ := h.twin hslot
  exact ⟨k, slot', mem_dynamics_iff.2 ⟨hslot', hsame.kind ▸ hkind⟩, hslot', hsame⟩

theorem seat_lt (h : PartOf part whole) : ∀ {slots : List (Nat × Slot α)} {k : Nat},
    (∀ entry ∈ slots, entry ∈ part.dynamics) → k < stateSize slots →
      whole.seat slots k < whole.dimension
  | [], _, _, hk => absurd hk (Nat.not_lt_zero _)
  | (i, slot) :: rest, k, hmem, hk => by
      rw [List.forall_mem_cons] at hmem
      have hk : k < slot.shape.size + stateSize rest := hk
      rw [seat]
      split
      · rename_i hin
        obtain ⟨l, slot', hdynamic, -, hsame⟩ := h.exists_dynamic hmem.1
        have hle := start_add_le h.wired_whole hdynamic
        rw [← hsame.name, ← hsame.shape] at hle
        omega
      · exact h.seat_lt hmem.2 (by omega)

/-- The places of the state of a part in the state of the whole. -/
def seats (h : PartOf part whole) : Fin part.dimension → Fin whole.dimension := fun k =>
  ⟨whole.seat part.dynamics k, h.seat_lt (fun _ hentry => hentry) k.isLt⟩

theorem seated_iff (h : PartOf part whole) {y : Vector α whole.dimension}
    {y' : Vector α part.dimension} :
    Seated whole part.dynamics y.toArray y'.toArray 0 ↔ y' = pick h.seats y := by
  have hin : ∀ {k : Nat}, k < part.dimension → whole.seat part.dynamics k < whole.dimension :=
    fun hk => h.seat_lt (fun _ hentry => hentry) hk
  constructor
  · intro hseated
    ext k hk
    have hplace := hseated k hk
    rw [Nat.zero_add, Vector.getElem?_toArray, Vector.getElem?_toArray,
      Vector.getElem?_eq_getElem hk, Vector.getElem?_eq_getElem (hin hk)] at hplace
    rw [getElem_pick]
    exact Option.some.inj hplace
  · rintro rfl k hk
    have hk : k < part.dimension := hk
    rw [Nat.zero_add, Vector.getElem?_toArray, Vector.getElem?_toArray,
      Vector.getElem?_eq_getElem hk, Vector.getElem?_eq_getElem (hin hk), getElem_pick]
    rfl

/-- **A state that is gathered in the whole** is gathered in the part from the same stretches. -/
theorem gathers_pick (h : PartOf part whole)
    {P P' : (i : Nat) → (slot : Slot α) → Vector α slot.shape.size → Prop}
    {v : Vector α whole.dimension} (hwhole : Gathers P whole.dynamics v)
    (hstretch : ∀ {i k : Nat} {slot slot' : Slot α} {here'}, (i, slot) ∈ part.dynamics →
      whole.slots[k]? = some slot' → slot.Same slot' → P k slot' here' →
        ∃ here, P' i slot here ∧ here.toArray = here'.toArray) :
    Gathers P' part.dynamics (pick h.seats v) := by
  have hentries : ∀ entry ∈ part.dynamics, ∃ here, P' entry.1 entry.2 here ∧
      ∀ k < entry.2.shape.size, here.toArray[k]? = v.toArray[whole.start entry.2.name + k]? := by
    rintro ⟨i, slot⟩ hentry
    obtain ⟨k, slot', hdynamic, hslot', hsame⟩ := h.exists_dynamic hentry
    obtain ⟨span, here', hspan, hhere', hat⟩ :=
      hwhole.exists_span hdynamic fun j _ => congrArg (v.toArray[·]?) (Nat.zero_add j)
    obtain ⟨here, hhere, heq⟩ := hstretch hentry hslot' hsame hhere'
    refine ⟨here, hhere, fun j hj => ?_⟩
    have hstart := start_eq h.wired_whole hspan
    rw [← hsame.name] at hstart
    rw [heq, hstart, hat j (hsame.shape ▸ hj)]
  obtain ⟨v', hgathers, hseated⟩ := exists_seated hentries
  exact h.seated_iff.1 hseated ▸ hgathers

/-! ## Evaluating a part -/

section Evaluating

variable [Scalar α]

/-- Before anything is computed, a part holds what the whole holds, except in slots that are to be
computed. -/
theorem prepared (h : PartOf part whole) (hbound : Agree part whole part.bound whole.bound)
    {before before' : Buffers α} (hb : part.Scratch before) (hb' : whole.Scratch before')
    (hseated : Seated whole part.dynamics y y' 0) {i k : Nat} (hi : i ∉ part.order)
    (htwin : Twin part whole i k) :
    (part.prepared y' before)[i]? = (whole.prepared y before')[k]? := by
  obtain ⟨slot, slot', hslot, hslot', hsame⟩ := htwin
  cases hkind : slot.kind with
  | dynamic =>
    obtain ⟨span, hspan, hprepared⟩ := getElem?_prepared_dynamic h.wired hslot hkind
    obtain ⟨span', hspan', hprepared'⟩ :=
      getElem?_prepared_dynamic h.wired_whole hslot' (hsame.kind ▸ hkind)
    have hstart : whole.start slot.name = span'.start := hsame.name ▸ start_eq h.wired_whole hspan'
    rw [hprepared y' hb.toShaped, hprepared' y hb'.toShaped, ← hsame.shape]
    refine congrArg (fun v => some (Buffer.mk v true)) (Tensor.ofSlice_congr fun k hk => ?_)
    rw [← hstart]
    exact hseated.of_mem_spansFrom hspan k hk
  | algebraic => exact absurd (h.wired.mem_order_iff.2 ⟨slot, hslot, hkind⟩) hi
  | parameter | size =>
    have hsettled : slot.kind.isTimeVarying = false := by rw [hkind]; rfl
    have hsettled' : slot'.kind.isTimeVarying = false := hsame.kind ▸ hsettled
    rw [getElem?_prepared_settled h.wired hslot hsettled,
      getElem?_prepared_settled h.wired_whole hslot' hsettled', hb.settled hslot hsettled,
      hb'.settled hslot' hsettled']
    exact hbound ⟨slot, slot', hslot, hslot', hsame⟩

/-- **A part is evaluated to what the whole is evaluated to.** -/
theorem exists_evaluate (h : PartOf part whole) (hbound : Agree part whole part.bound whole.bound)
    {before before' after' : Buffers α} (hb : part.Scratch before) (hb' : whole.Scratch before')
    (hy : whole.dimension ≤ y.size) (hy' : part.dimension ≤ y'.size)
    (hseated : Seated whole part.dynamics y y' 0)
    (hevaluate : whole.evaluate y before' = (after', .ok ())) :
    ∃ after, part.evaluate y' before = (after, .ok ()) ∧ Agree part whole after after' := by
  obtain ⟨hkept, hsolved⟩ := of_evaluate h.wired_whole hb' hy hevaluate
  have horder : ∀ {i k : Nat}, Twin part whole i k → (i ∈ part.order ↔ k ∈ whole.order) := by
    rintro i k ⟨slot, slot', hslot, hslot', hsame⟩
    rw [h.wired.mem_order_iff, h.wired_whole.mem_order_iff, hslot, hslot']
    simp [hsame.kind]
  rw [evaluate_of_le hy']
  refine h.exists_computeAll h.wired.ordered ((size_prepared part y' before).trans hb.size)
    (fun i hi => ?_) (fun i hi k htwin => hsolved k ((horder htwin).1 hi)) fun i hi k htwin => ?_
  · obtain ⟨slot, hslot, -⟩ := h.wired.mem_order_iff.1 hi
    exact (Array.getElem?_eq_some_iff.1 hslot).1
  · rw [hkept k (mt (horder htwin).2 hi)]
    exact h.prepared hbound hb hb' hseated hi htwin

variable (h : PartOf part whole) (hshaped : Shaped part.slots part.bound)
  (hshaped' : Shaped whole.slots whole.bound) (hbound : Agree part whole part.bound whole.bound)

include hshaped hshaped' hbound

/-- **The values of a part** at the seats of a state are the values of the whole at the state. -/
theorem snapshot {y : Vector α whole.dimension} {after' : Buffers α}
    (hafter : whole.snapshot y = .ok after') :
    ∃ after, part.snapshot (pick h.seats y) = .ok after ∧ Agree part whole after after' := by
  have hscratch := Reached.bound.scratch h.wired hshaped
  have hscratch' := Reached.bound.scratch h.wired_whole hshaped'
  simp only [snapshot_eq_ok_iff] at hafter ⊢
  exact h.exists_evaluate hbound hscratch hscratch' (Nat.le_of_eq y.size_toArray.symm)
    (Nat.le_of_eq (Vector.size_toArray _).symm) (h.seated_iff.2 rfl) hafter

/-- **The slopes of a part** are the slopes of the whole at its seats. -/
theorem rate : Follows h.seats (fun _ y => whole.rate y) (fun _ y => part.rate y) := by
  intro _ _ y slopes hslopes
  obtain ⟨after', hafter', hslopes⟩ := rate_eq_ok_iff.1 hslopes
  obtain ⟨after, hafter, hagree⟩ := h.snapshot hshaped hshaped' hbound hafter'
  refine rate_eq_ok_iff.2 ⟨after, hafter, ?_⟩
  refine derivatives_eq_ok_iff.2 (h.gathers_pick (derivatives_eq_ok_iff.1 hslopes) ?_)
  rintro i k slot slot' here' hentry hslot' hsame ⟨output, houtput, hhere'⟩
  have hcall := h.call (mem_dynamics_iff.1 hentry).1 hslot' hsame (fun _ _ _ => hagree) houtput
  obtain ⟨here, hhere, heq⟩ := Tensor.exists_flatTo hsame.name hsame.shape hhere'
  exact ⟨here, ⟨output, hcall, hhere⟩, heq⟩

end Evaluating

end PartOf

end System

end FieldFlow
