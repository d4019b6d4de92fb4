import FieldFlow.Proofs.Run.Recorder
import FieldFlow.Proofs.Run.RunAxis
import FieldFlow.Proofs.System.Writing

/-!
# Proofs/Run/FlatState — the flat state as a layout that loses nothing

The initial state, the evaluator, the right-hand side and the recorder all cut the flat state up in
the same way: into the stretches of the dynamic fields, end to end in model order. So nothing of a
state is lost on the way through them (`layout_lossless`).
-/

namespace FieldFlow

variable {α : Type} [Scalar α] {m : Model α} {runs regions : Nat} {sys : System α}

/-! ## Initial values -/

/-- A value is brought to a shape that can be held where its axes line up with it. -/
theorem Value.inShape_eq_ok_iff {name : String} {given : Value α} {s : Shape} {v : Tensor α}
    (hcheck : s.check = .ok ()) : given.inShape name s = .ok v ↔
      ∃ t, given.toTensor name = .ok t ∧ t.shape.expandsTo s = true ∧ t.expand s = v := by
  unfold Value.inShape
  simp only [bind_eq_ok_iff, mapError_eq_ok_iff, Tensor.broadcastTo_eq_ok_iff,
    Tensor.allocate_eq_ok_iff, Tensor.fits, Shape.isAddressable_of_check hcheck, Bool.and_true,
    hcheck, true_and]
  rfl

/-- Binding has a buffer for every dynamic field, so its shape can be held. -/
theorem check_of_bind (hbind : m.bind runs regions = .ok sys) {i : Nat} {slot : Slot α}
    (hslot : sys.slots[i]? = some slot) (hkind : slot.kind = .dynamic) :
    slot.shape.check = .ok () := by
  obtain ⟨laid, order, _, _, hlaid, -, -, -, rfl⟩ := bind_eq_ok_iff_steps.1 hbind
  simp only [systemOf, List.getElem?_toArray, List.getElem?_map, Option.map_eq_some_iff] at hslot
  obtain ⟨entry, hentry, rfl⟩ := hslot
  obtain ⟨f, -, hf⟩ := m.getElem?_of_lay hlaid hentry
  obtain ⟨hof, hvalue, -⟩ := of_bindSlot hf
  have hdynamic : f.kind = .dynamic := hof.kind.symm.trans hkind
  rw [boundValue, hdynamic] at hvalue
  exact (Tensor.allocateFilled_eq_ok_iff.1 (mapError_eq_ok_iff.1 hvalue)).1

/-- **The initial state** has every field's initial value, repeated over the field's shape, as the
field's stretch, and nothing else. -/
theorem initialState_eq_ok_iff (hm : m.Evaluable) (hbind : m.bind runs regions = .ok sys)
    {state : Vector α sys.dimension} : sys.initialState m = .ok state ↔
      ∀ name f, m.field? name = some f → f.kind = .dynamic → ∃ span given v,
        sys.span? name = some span ∧ f.initial = some given ∧
          m.shapeOf f runs regions = .ok v.shape ∧ given.inShape name v.shape = .ok v ∧
            v.data = state.toArray.extract span.start span.stop := by
  have hbound := boundFrom_of_bind hbind
  have hw := hbound.wired hm
  constructor
  · intro h name f hf hkind
    obtain ⟨i, slot, hslot, rfl, hof⟩ := hbound.slot_of_field? hm hf
    have hdynamic := System.mem_dynamics_iff.2 ⟨hslot, hof.kind.trans hkind⟩
    obtain ⟨span, here, hspan, ⟨given, t, hgiven, ht, hhere⟩, hstretch⟩ :=
      (initialValues_eq_ok_iff.1 h).exists_stretch hdynamic
    obtain ⟨hexpands, hdata⟩ := Tensor.flatTo_eq_ok_iff.1 hhere
    have hcheck := check_of_bind hbind hslot (hof.kind.trans hkind)
    rw [hf, Option.bind_some] at hgiven
    refine ⟨span, given, t.expand slot.shape, System.span?_eq_some hw hspan, hgiven, hof.shape,
      (Value.inShape_eq_ok_iff hcheck).2 ⟨t, ht, hexpands, rfl⟩, ?_⟩
    rw [hdata, hstretch]
  · intro h
    refine initialValues_eq_ok_iff.2 (.of_stretches hw fun i slot hdynamic => ?_)
    obtain ⟨hslot, hkind⟩ := System.mem_dynamics_iff.1 hdynamic
    obtain ⟨f, hf, -, hof⟩ := hbound.field?_of_slot hm hslot
    obtain ⟨span, given, v, hspan, hgiven, hshape, hv, hdata⟩ :=
      h slot.name f hf (hof.kind.symm.trans hkind)
    have hvshape : v.shape = slot.shape := Except.ok.inj (hshape.symm.trans hof.shape)
    rw [hvshape] at hv
    obtain ⟨t, ht, hexpands, hexpand⟩ :=
      (Value.inShape_eq_ok_iff (check_of_bind hbind hslot hkind)).1 hv
    have hflat : t.flatTo slot.name slot.shape =
        .ok ⟨v.data, v.size_data.trans (congrArg Shape.size hvshape)⟩ :=
      Tensor.flatTo_eq_ok_iff.2 ⟨hexpands, congrArg Tensor.data hexpand⟩
    obtain ⟨span', hspan'⟩ := System.exists_span hdynamic
    obtain rfl := Option.some.inj (hspan.symm.trans (System.span?_eq_some hw hspan'))
    exact ⟨span, _, hspan', ⟨given, t, by rw [hf, Option.bind_some, hgiven], ht, hflat⟩, hdata⟩

/-! ## The layout -/

/-- **A layout that loses nothing of a state.** -/
structure LosslessLayout (m : Model α) (runs regions : Nat) (sys : System α) : Prop where
  /-- The stretches are those of the dynamic fields, in model order. -/
  fields : (m.namesOf .dynamic).map sys.span? = sys.spans.map some
  endToEnd : EndToEnd 0 sys.spans sys.dimension
  disjoint : sys.spans.Pairwise fun s t => ∀ k, ¬ (s.Covers k ∧ t.Covers k)
  covers : ∀ k, (∃ s ∈ sys.spans, s.Covers k) ↔ k < sys.dimension
  /-- Every stretch is as long as the shape of its field is large. -/
  length : ∀ name f, m.field? name = some f → f.kind = .dynamic → ∃ span s,
    sys.span? name = some span ∧ m.shapeOf f runs regions = .ok s ∧
      span.stop = span.start + s.size
  /-- The initial state is every field's initial value, broadcast to its shape, at its stretch. -/
  initial : ∀ state : Vector α sys.dimension, sys.initialState m = .ok state ↔
    ∀ name f, m.field? name = some f → f.kind = .dynamic → ∃ span given v,
      sys.span? name = some span ∧ f.initial = some given ∧
        m.shapeOf f runs regions = .ok v.shape ∧ given.inShape name v.shape = .ok v ∧
          v.data = state.toArray.extract span.start span.stop
  /-- A state that is loaded is read back, whatever calls came before. -/
  loaded : ∀ (x : Array α) (buffers : Buffers α), sys.Reached buffers → sys.dimension ≤ x.size →
    Holds m runs regions sys x (sys.value? (sys.evaluate x buffers).1)
  /-- A state that is recorded is read back, at its time point and whatever is recorded after it. -/
  recorded : ∀ steps states histories, Records sys (m.namesOf .dynamic) steps states histories →
    states.length ≤ steps → ∀ (t : Nat) (x : Array α), states[t]? = some x →
      Holds m runs regions sys x fun name => (histories.get? name).map (·.frame t)
  /-- A run leaves what a recorder holds of the states that its steps come to. -/
  run : ∀ steps method timeStep control outcome,
    integrate m ⟨steps, runs, regions⟩ method timeStep control = .ok outcome →
      ∃ (initial : Vector α sys.dimension) (states : List (Vector α sys.dimension)),
        sys.initialState m = .ok initial ∧ states.length = outcome.recording.lastValid + 1 ∧
          states.length ≤ steps ∧
          (∀ t < states.length, states[t]? = (stepsFrom (sys.step method control timeStep)
            (startOf m initial) t).map Cursor.state) ∧
          Records sys (m.namesOf .dynamic) steps (states.map Vector.toArray)
            outcome.recording.fields
  /-- The slopes of a field are its derivative, broadcast to its shape, at its stretch. -/
  slopes : ∀ (x : Array α) buffers after (slopes : Vector α sys.dimension),
    sys.apply x buffers = (after, .ok slopes) → ∀ i slot, (i, slot) ∈ sys.dynamics →
      ∃ span output, sys.span? slot.name = some span ∧ sys.call after i = .ok output ∧
        output.shape.expandsTo slot.shape = true ∧
          (output.expand slot.shape).data = slopes.toArray.extract span.start span.stop
  /-- What is written in place are the slopes, each once and by the field that owns the place,
  whatever stood there before. -/
  written : ∀ {β : Type} (put : String → α → β → β) (x : Array α) buffers after
    (out out' : Array β), sys.applyInto put x buffers out = (after, out', .ok ()) →
      ∃ slopes : Vector α sys.dimension, sys.apply x buffers = (after, .ok slopes) ∧
        System.Owned sys put slopes.toArray out out'
  /-- They are written wherever there is room for them. -/
  room : ∀ {β : Type} (put : String → α → β → β) (x : Array α) buffers after
    (slopes : Vector α sys.dimension) (out : Array β),
      sys.apply x buffers = (after, .ok slopes) → sys.dimension ≤ out.size →
        ∃ out', sys.applyInto put x buffers out = (after, out', .ok ())

/-- **The flat state is a lossless layout** of the dynamic fields, for every model in use and all
numbers of runs and regions that it can be bound to. -/
theorem layout_lossless {registry : Registry α} {d : Description α} (hm : m.InUse registry d)
    (hbind : m.bind runs regions = .ok sys) : LosslessLayout m runs regions sys := by
  have hm := hm.evaluable
  have hbound := boundFrom_of_bind hbind
  have hw := hbound.wired hm
  exact {
    fields := by rw [← System.map_span? hw, ← hbound.map_name_dynamics, List.map_map]; rfl
    endToEnd := sys.endToEnd_spans
    disjoint := sys.endToEnd_spans.disjoint
    covers := fun k => sys.endToEnd_spans.exists_covers_iff.trans (and_iff_right (Nat.zero_le k))
    length := fun name f hf hkind => by
      obtain ⟨i, slot, hslot, rfl, hof⟩ := hbound.slot_of_field? hm hf
      obtain ⟨span, hspan⟩ := System.exists_span
        (System.mem_dynamics_iff.2 ⟨hslot, hof.kind.trans hkind⟩)
      exact ⟨span, slot.shape, System.span?_eq_some hw hspan, hof.shape,
        (System.of_mem_spansFrom hspan).1⟩
    initial := fun _ => initialState_eq_ok_iff hm hbind
    loaded := fun _ _ hb hx => holds_evaluate hm hbound (hb.scratch hw hbound.shaped) hx
    recorded := fun _ _ _ h hsteps _ _ hx => h.holds hm hbound hsteps hx
    run := fun _ _ _ _ _ h => records_of_integrate hm hbind h
    slopes := fun _ _ _ _ h _ _ hdynamic => System.exists_slopes hw h hdynamic
    written := fun _ _ _ _ _ _ h => by
      obtain ⟨hroom, slopes, hslopes, hfilled⟩ := System.of_applyInto h
      exact ⟨slopes, hslopes, hfilled.owned hroom⟩
    room := fun _ _ _ _ _ _ h hroom => System.exists_applyInto h hroom }

/-! ## A small economy of stocks -/

/-- Three stocks that wear off, beside the time. -/
def stocks : Description Float where
  name := "stocks"
  differential := .ofList
    [("stock", ⟨[("func", .function
      ((Expression.binary .mul (.input "wear") (.input itself)).toFunction ["wear", itself])),
      ("initial", .value (.sectors [1.0, 2.0, 3.0])), ("size", .names ["goods"])]⟩)]
  parameter := .ofList [("wear", ⟨[("value", .value (.scalar (-0.5)))]⟩)]
  size := .ofList [("goods", ⟨[("labels", .names ["corn", "iron", "coal"])]⟩)]

/-- Who writes at which place of an array of empty names, at the initial state. -/
def owners (m : Model Float) (sys : System Float) : Option (Array String) :=
  (sys.initialState m).toOption.map fun initial =>
    (sys.applyInto (fun name _ _ => name) initial.toArray sys.bound
      (Array.replicate sys.dimension "")).2.1

/-- In two runs the time has two places, and the stocks have six. -/
theorem stocks_lossless : ∃ m sys, load .empty stocks = .ok m ∧ m.bind 2 1 = .ok sys ∧
    sys.spans = [⟨0, 2⟩, ⟨2, 8⟩] ∧ owners m sys = some #["time", "time", "stock", "stock", "stock",
      "stock", "stock", "stock"] ∧ LosslessLayout m 2 1 sys := by
  have hbinds : ((load .empty stocks).toOption.bind fun m =>
      (m.bind 2 1).toOption.map fun sys => (sys.spans, owners m sys)) =
        some ([⟨0, 2⟩, ⟨2, 8⟩], some #["time", "time", "stock", "stock", "stock", "stock", "stock",
          "stock"]) := by
    decide +kernel
  obtain ⟨m, hm, h⟩ := Option.bind_eq_some_iff.1 hbinds
  obtain ⟨sys, hsys, h⟩ := Option.map_eq_some_iff.1 h
  obtain ⟨hspans, howners⟩ := Prod.mk.inj h
  have hm := toOption_eq_some_iff.1 hm
  have hsys := toOption_eq_some_iff.1 hsys
  exact ⟨m, sys, hm, hsys, hspans, howners, layout_lossless (.loaded hm) hsys⟩

end FieldFlow
