import FieldFlow.Proofs.System.Layout
import FieldFlow.Proofs.System.Member

/-!
# Proofs/System/BindMember — a member is bound from the members of the values

A model whose values are replaced by what they are at one run (`Model.member`) binds, for one run,
to the member of the system that the model itself binds to (`bind_member`), and starts at the places
of its initial state (`initialState_member`).
-/

namespace FieldFlow

variable {α : Type} [Scalar α] {n x : Nat}

/-- A field with its values at one run. -/
def Field.member (f : Field α) (x : Nat) : Field α :=
  { f with value := f.value.map (·.member x), initial := f.initial.map (·.member x) }

namespace Model

/-- **The member of a model** at a run: every given value is replaced by what it is there. -/
def member (m : Model α) (x : Nat) : Model α := { m with fields := m.fields.map (·.member x) }

/-- A model of functions that treat every run alike. -/
def RunWise (m : Model α) : Prop :=
  ∀ f ∈ m.fields.values, ∀ g, f.function = some g → g.RunWise

theorem values_member (m : Model α) (x : Nat) :
    (m.member x).fields.values = m.fields.values.map (·.member x) :=
  m.values_mapFields (·.member x)

theorem field?_member (m : Model α) (x : Nat) (name : String) :
    (m.member x).field? name = (m.field? name).map (·.member x) :=
  m.field?_mapFields (·.member x) name

theorem axisLength_member (m : Model α) (x : Nat) (axis : String) :
    (m.member x).axisLength axis = m.axisLength axis :=
  m.axisLength_mapFields (·.member x) (fun _ => rfl) axis

theorem shapeOf_member {m : Model α} {f : Field α} {regions : Nat} {s : Shape}
    (h : m.shapeOf f n regions = .ok s) (hx : x < n) :
    (m.member x).shapeOf (f.member x) 1 regions = .ok s.member := by
  have hone : min n 1 = 1 := by omega
  unfold shapeOf at h ⊢
  split at h
  · rename_i hkind
    have hkind : (f.member x).kind = .size := hkind
    obtain rfl := Except.ok.inj h
    rw [hkind, Shape.member, hone]
  · rename_i hkind
    obtain ⟨rows, hrows, h⟩ := bind_eq_ok_iff.1 h
    obtain ⟨columns, hcolumns, h⟩ := bind_eq_ok_iff.1 h
    obtain rfl := pure_eq_ok_iff.1 h
    split
    · exact absurd (by assumption) hkind
    · rw [axisLength_member, axisLength_member, Shape.member, hone]
      refine bind_eq_ok_iff.2 ⟨rows, hrows, ?_⟩
      exact bind_eq_ok_iff.2 ⟨columns, hcolumns, rfl⟩

end Model

/-! ## Slots -/

theorem inputSlot_member (m : Model α) (x own : Nat) (f : Field α) (input : String) :
    inputSlot (m.member x) own (f.member x) input = inputSlot m own f input :=
  inputSlot_mapFields m (·.member x) rfl own input

theorem orderedSlot_member (m : Model α) (x : Nat) (name : String) :
    orderedSlot (m.member x) name = orderedSlot m name :=
  orderedSlot_mapFields m (·.member x) name

/-- A value that can be brought to the runs of an ensemble has one run or all of them. -/
theorem spans_of_axisExpands {a c : Nat} (h : axisExpands a c = true) (hc : c = n) : Spans a n := by
  rcases axisExpands_iff.1 h with heq | hone
  · exact .inr (heq.trans hc)
  · exact .inl (Nat.le_of_eq hone)

theorem spans_of_broadcastTo {name : String} {t v : Tensor α} {s : Shape}
    (h : t.broadcastTo name s = .ok v) (hs : s.runs = n) : Spans t.shape.runs n := by
  obtain ⟨hfits, -⟩ := Tensor.broadcastTo_eq_ok_iff.1 h
  exact spans_of_axisExpands (Shape.expandsTo_iff.1 (Tensor.expandsTo_of_fits hfits)).1 hs

theorem inShape_member {name : String} {given : Value α} {t : Tensor α} {s : Shape}
    (h : given.inShape name s = .ok t) (hs : s.runs = n) (hx : x < n) :
    (given.member x).inShape name s.member = .ok (t.member x) := by
  obtain ⟨v, hv, h⟩ := bind_eq_ok_iff.1 h
  have hmember :=
    Value.toTensor_member (mapError_eq_ok_iff.1 hv) (spans_of_broadcastTo h hs) hx
  exact bind_eq_ok_iff.2
    ⟨_, mapError_eq_ok_iff.2 hmember, Tensor.broadcastTo_member (.inr hs) hx h⟩

theorem boundValue_member {f : Field α} {s : Shape} {t : Tensor α} (h : boundValue f s = .ok t)
    (hs : s.runs = n) (hx : x < n) : boundValue (f.member x) s.member = .ok (t.member x) := by
  have hfilled : ∀ {c : α}, (Tensor.allocateFilled s c).mapError Failure.fault =
      (.ok t : Except (Failure α) _) →
        (Tensor.allocateFilled s.member c).mapError Failure.fault =
          (.ok (t.member x) : Except (Failure α) _) := fun hc =>
    mapError_eq_ok_iff.2 (Tensor.allocateFilled_member (mapError_eq_ok_iff.1 hc) (.inr hs) hx)
  obtain ⟨name, kind, function, value, initial, axes, sectors, metadata⟩ := f
  cases kind with
  | dynamic | algebraic => exact hfilled h
  | parameter =>
    cases value with
    | none => exact hfilled h
    | some given => exact inShape_member h hs hx
  | size =>
    cases sectors with
    | none => exact hfilled h
    | some sectors => exact hfilled h

/-- What the field of a member is laid out as. -/
def memberEntry (entry : Slot α × Buffer α) (x : Nat) : Slot α × Buffer α :=
  (entry.1.member, entry.2.member x)

theorem bindSlot_member {m : Model α} {regions own : Nat} {f : Field α}
    {entry : Slot α × Buffer α} (h : bindSlot m n regions f own = .ok entry) (hx : x < n) :
    bindSlot (m.member x) 1 regions (f.member x) own = .ok (memberEntry entry x) := by
  obtain ⟨s, hs, h⟩ := bind_eq_ok_iff.1 h
  obtain ⟨inputs, hinputs, h⟩ := bind_eq_ok_iff.1 h
  obtain ⟨value, hvalue, h⟩ := bind_eq_ok_iff.1 h
  obtain rfl := pure_eq_ok_iff.1 h
  have hs := mapError_eq_ok_iff.1 hs
  have hinputs' :
      (f.member x).inputs.mapM (inputSlot (m.member x) own (f.member x)) = .ok inputs := by
    rw [← mapError_eq_ok_iff.1 hinputs]
    exact mapM_congr fun input _ => inputSlot_member m x own f input
  exact bind_eq_ok_iff.2 ⟨_, mapError_eq_ok_iff.2 (Model.shapeOf_member hs hx),
    bind_eq_ok_iff.2 ⟨_, mapError_eq_ok_iff.2 hinputs', bind_eq_ok_iff.2
      ⟨_, boundValue_member hvalue (Model.runs_of_shapeOf hs) hx, rfl⟩⟩⟩

/-! ## Binding -/

theorem lay_member {m : Model α} {regions : Nat} {laid : List (Slot α × Buffer α)}
    (h : m.lay n regions = .ok laid) (hx : x < n) :
    (m.member x).lay 1 regions = .ok (laid.map (memberEntry · x)) := by
  unfold Model.lay at h ⊢
  rw [Model.values_member, List.zipIdx_map, mapM_eq_ok_iff, List.forall₂_map_left_iff,
    List.forall₂_map_right_iff]
  exact (mapM_eq_ok_iff.1 h).imp fun _ _ hentry => bindSlot_member hentry hx

theorem systemOf_member (laid : List (Slot α × Buffer α)) (order : List Nat) (x : Nat) :
    systemOf (laid.map (memberEntry · x)) order = (systemOf laid order).member x := by
  unfold systemOf System.member Buffers.member
  rw [List.map_toArray, List.map_toArray, List.map_map, List.map_map, List.map_map, List.map_map]
  rfl

theorem computedOf_member (sys : System α) (x : Nat) (slots : List Nat) :
    (sys.member x).computedOf slots = sys.computedOf slots := by
  unfold System.computedOf
  refine List.filter_congr fun i _ => ?_
  rw [System.getElem?_slots_member]
  cases sys.slots[i]? <;> rfl

theorem BoundFrom.runWise {m : Model α} {regions : Nat} {sys : System α}
    (h : BoundFrom m n regions sys) (hm : m.RunWise) : sys.RunWise n where
  runs := fun hslot => by
    obtain ⟨f, -, hof⟩ := h.field hslot
    exact Model.runs_of_shapeOf hof.shape
  function := fun {i slot g} hslot hg => by
    obtain ⟨f, hf, hof⟩ := h.field hslot
    exact hm f (List.mem_of_getElem? hf) g (hof.function ▸ hg)

/-- **A member is bound from the members of the values.** -/
theorem bind_member {m : Model α} {regions : Nat} {sys : System α} (hm : m.RunWise)
    (h : m.bind n regions = .ok sys) (hx : x < n) :
    (m.member x).bind 1 regions = .ok (sys.member x) := by
  obtain ⟨laid, order, parameters, buffers, hlaid, horder, hparameters, hcomputed, rfl⟩ :=
    bind_eq_ok_iff_steps.1 h
  have hfirst := boundFrom_of_lay hlaid horder
  have hcomputed' := System.computeAll_member (hfirst.runWise hm) hx hfirst.shaped.toFits hcomputed
  have hslots : ∀ names : List String, names.mapM (orderedSlot (m.member x)) =
      names.mapM (orderedSlot m) := fun names =>
    mapM_congr fun name _ => orderedSlot_member m x name
  refine bind_eq_ok_iff_steps.2 ⟨_, order, parameters, buffers.member x, lay_member hlaid hx,
    (hslots _).trans horder, (hslots _).trans hparameters, ?_, ?_⟩
  · rw [systemOf_member, computedOf_member]
    exact hcomputed'
  · rw [systemOf_member]
    rfl

/-! ## The initial state -/

theorem initialValues_members {m : Model α} (hx : x < n) :
    ∀ {slots : List (Nat × Slot α)} {state : Vector α (stateSize slots)}, HaveRuns n slots →
      initialValues m slots = .ok state →
        ∃ state', initialValues (m.member x) (members slots) = .ok state' ∧
          Placed x slots state.toArray 0 state'.toArray 0
  | [], _, _, _ => ⟨#v[], rfl, fun _ hk => absurd hk (Nat.not_lt_zero _)⟩
  | (i, slot) :: rest, state, hruns, h => by
      have ⟨hslot, hrest⟩ := List.forall_mem_cons.1 hruns
      have hslot : slot.shape.runs = n := hslot
      obtain ⟨given, v, here, others, hgiven, hv, hhere, hothers, rfl⟩ :=
        initialValues_cons_eq_ok_iff.1 h
      have hexpands := (Shape.expandsTo_iff.1 (Tensor.flatTo_eq_ok_iff.1 hhere).1).1
      have hspans := spans_of_axisExpands hexpands hslot
      have hgiven' : ((m.member x).field? slot.name).bind Field.initial = some (given.member x) := by
        obtain ⟨f, hf, hinitial⟩ := Option.bind_eq_some_iff.1 hgiven
        rw [Model.field?_member, hf]
        exact congrArg (Option.map (·.member x)) hinitial
      obtain ⟨here', hhere', hplaceHere⟩ := Tensor.flatTo_member hslot hx hhere
      obtain ⟨others', hothers', hplaceOthers⟩ := initialValues_members hx hrest hothers
      exact ⟨here' ++ others', initialValues_cons_eq_ok_iff.2 ⟨_, _, here', others', hgiven',
        Value.toTensor_member hv hspans hx, hhere', hothers', rfl⟩,
        Placed.append hslot hx hplaceHere hplaceOthers⟩

/-- **A member starts at its places** of the initial state. -/
theorem initialState_member {m : Model α} {sys : System α} (hs : sys.RunWise n) (hx : x < n)
    {state : Vector α sys.dimension} (h : sys.initialState m = .ok state) :
    (sys.member x).initialState (m.member x) = .ok (pick (System.places hs hx) state) := by
  have hmembers := initialValues_members (m := m) hx hs.dynamics h
  rw [← System.dynamics_member] at hmembers
  obtain ⟨state', hstate, hplaced⟩ := hmembers
  unfold System.initialState
  rw [hstate]
  exact congrArg Except.ok ((System.placed_iff hs hx).1 hplaced)

end FieldFlow
