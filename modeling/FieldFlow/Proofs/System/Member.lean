import FieldFlow.Proofs.System.Place

/-!
# Proofs/System/Member — evaluating a member of an ensemble

A member of a system has the same slots in the shapes of one run, and the members of all buffers
(`System.member`). Every part of an evaluation succeeds on a member where it succeeds on the
ensemble, and gives the member of what it gives there; the derivative of the member stands in the
derivative of the ensemble where its state stands in the state (`rate_member`).
-/

namespace FieldFlow

variable {α : Type} [Scalar α] {n x : Nat}

/-- The buffer of a member. -/
def Buffer.member (b : Buffer α) (x : Nat) : Buffer α := ⟨b.value.member x, b.fresh⟩

/-- The buffers of a member. -/
def Buffers.member (buffers : Buffers α) (x : Nat) : Buffers α := buffers.map (·.member x)

theorem Buffers.getElem?_member (buffers : Buffers α) (x i : Nat) :
    (buffers.member x)[i]? = buffers[i]?.map (·.member x) := Array.getElem?_map

namespace System

/-- **The member of a system** at a run. -/
def member (sys : System α) (x : Nat) : System α :=
  ⟨sys.slots.map Slot.member, sys.order, sys.bound.member x⟩

/-- **A system of `n` runs that treats every run alike.** -/
structure RunWise (sys : System α) (n : Nat) : Prop where
  runs : ∀ {i : Nat} {slot}, sys.slots[i]? = some slot → slot.shape.runs = n
  function : ∀ {i : Nat} {slot g}, sys.slots[i]? = some slot → slot.function = some g → g.RunWise

theorem getElem?_slots_member (sys : System α) (x i : Nat) :
    (sys.member x).slots[i]? = sys.slots[i]?.map Slot.member := Array.getElem?_map

theorem dynamics_member (sys : System α) (x : Nat) :
    (sys.member x).dynamics = members sys.dynamics := by
  unfold dynamics members member
  rw [Array.toList_map, List.zipIdx_map, List.map_map, List.filter_map, List.filter_map,
    List.map_map]
  rfl

variable {sys : System α} {buffers : Buffers α}

theorem RunWise.dynamics (hs : sys.RunWise n) : HaveRuns n sys.dynamics := fun _ hentry =>
  hs.runs (mem_dynamics_iff.1 hentry).1

/-- A buffer that fits has the runs of the system. -/
theorem RunWise.spans (hs : sys.RunWise n) (hfits : Fits sys.slots buffers) {i : Nat} {b : Buffer α}
    (hb : buffers[i]? = some b) : Spans b.value.shape.runs n := by
  have hi : i < sys.slots.size := by
    rw [← hfits.size]
    exact (Array.getElem?_eq_some_iff.1 hb).1
  have hslot := Array.getElem?_eq_getElem hi
  rw [hfits.shape hslot hb]
  exact .inr (hs.runs hslot)

/-! ## Calling and computing -/

theorem read_member {reader input : Nat} {name : String} {v : Tensor α}
    (h : sys.read buffers reader name input = .ok v) :
    (sys.member x).read (buffers.member x) reader name input = .ok (v.member x) := by
  obtain ⟨b, hb, hfresh, rfl⟩ := read_eq_ok_iff.1 h
  refine read_eq_ok_iff.2 ⟨b.member x, ?_, hfresh, rfl⟩
  rw [Buffers.getElem?_member, hb, Option.map_some]

theorem call_member (hs : sys.RunWise n) (hfits : Fits sys.slots buffers) (hx : x < n) {i : Nat}
    {v : Tensor α} (h : sys.call buffers i = .ok v) :
    (sys.member x).call (buffers.member x) i = .ok (v.member x) := by
  obtain ⟨slot, g, values, hslot, hg, hvalues, hv⟩ := call_eq_ok_iff.1 h
  have hspans : ∀ t ∈ values, Spans t.shape.runs n := by
    intro t ht
    obtain ⟨k, -, hk⟩ := exists_mem_of_mapM_eq_ok hvalues ht
    obtain ⟨b, hb, -, rfl⟩ := read_eq_ok_iff.1 hk
    exact hs.spans hfits hb
  have hread : slot.inputs.mapM ((sys.member x).read (buffers.member x) i slot.name) =
      .ok (values.map (·.member x)) := by
    rw [mapM_eq_ok_iff, List.forall₂_map_right_iff]
    exact (mapM_eq_ok_iff.1 hvalues).imp fun _ _ hk => read_member hk
  refine call_eq_ok_iff.2 ⟨slot.member, g, _, ?_, hg, hread, ?_⟩
  · rw [getElem?_slots_member, hslot, Option.map_some]
  · exact (hs.function hslot hg hx hspans hv).2

theorem compute_member (hs : sys.RunWise n) (hfits : Fits sys.slots buffers) (hx : x < n) {i : Nat}
    {next : Buffers α} (h : sys.compute buffers i = .ok next) :
    (sys.member x).compute (buffers.member x) i = .ok (next.member x) := by
  obtain ⟨output, slot, v, houtput, hslot, hv, rfl⟩ := compute_eq_ok_iff.1 h
  refine compute_eq_ok_iff.2 ⟨_, slot.member, v.member x, call_member hs hfits hx houtput, ?_, ?_, ?_⟩
  · rw [getElem?_slots_member, hslot, Option.map_some]
  · exact Tensor.assignTo_member (.inr (hs.runs hslot)) hx hv
  · rw [Buffers.member, Buffers.member, Array.map_setIfInBounds]
    rfl

/-- **Computing slots of a member.** -/
theorem computeAll_member (hs : sys.RunWise n) (hx : x < n) :
    ∀ {slots : List Nat} {buffers after : Buffers α}, Fits sys.slots buffers →
      sys.computeAll slots buffers = (after, .ok ()) →
        (sys.member x).computeAll slots (buffers.member x) = (after.member x, .ok ())
  | [], buffers, after, _, h => by
      obtain ⟨rfl, -⟩ := Prod.mk.inj h
      rfl
  | i :: rest, buffers, after, hfits, h => by
      obtain ⟨next, hnext, hrest⟩ := computeAll_cons_eq_ok_iff.1 h
      exact computeAll_cons_eq_ok_iff.2 ⟨next.member x, compute_member hs hfits hx hnext,
        computeAll_member hs hx (hfits.compute hnext) hrest⟩

/-! ## Preparing and evaluating -/

/-- A write of a value in a member. -/
theorem modify_member (buffers : Buffers α) (i : Nat) (v : Tensor α) :
    (buffers.member x).modify i (fun b => { b with value := v.member x }) =
      Buffers.member (buffers.modify i fun b => { b with value := v }) x := by
  refine Array.ext_getElem? fun k => ?_
  rw [Buffers.getElem?_member, Array.getElem?_modify, Array.getElem?_modify,
    Buffers.getElem?_member]
  split
  · rw [Option.map_map, Option.map_map]
    rfl
  · rfl

/-- Loading the state of a member. -/
theorem loadFrom_member (hx : x < n) {y y' : Array α} :
    ∀ {slots : List (Nat × Slot α)} {o o' : Nat} (buffers : Buffers α), HaveRuns n slots →
      Placed x slots y o y' o' →
        loadFrom y' o' (members slots) (buffers.member x) = (loadFrom y o slots buffers).member x
  | [], _, _, _, _, _ => rfl
  | (i, slot) :: rest, o, o', buffers, hruns, hplaced => by
      have ⟨hslot, hrest⟩ := List.forall_mem_cons.1 hruns
      obtain ⟨hhere, hothers⟩ := hplaced.cons
      have hwrite := modify_member (x := x) buffers i (.ofSlice slot.shape y o)
      rw [← Tensor.ofSlice_member hslot hx hhere] at hwrite
      have hmembers : members ((i, slot) :: rest) = (i, slot.member) :: members rest := rfl
      rw [hmembers, loadFrom, loadFrom, ← loadFrom_member hx _ hrest hothers, ← hwrite]
      rfl

theorem clear_member (hs : sys.RunWise n) (hx : x < n) (hfits : Fits sys.slots buffers) :
    (sys.member x).clear (buffers.member x) = (sys.clear buffers).member x := by
  refine Array.ext_getElem? fun i => ?_
  rw [Buffers.getElem?_member, getElem?_clear, getElem?_clear, Buffers.getElem?_member]
  change (if i ∈ sys.order then _ else _) = _
  split
  · cases hb : buffers[i]? with
    | none => rfl
    | some b =>
      have hfill := Tensor.fill_member (Scalar.nan : α) (hs.spans hfits hb) hx
      exact congrArg (fun v => some (Buffer.mk v false)) hfill
  · rfl

/-- **The state of a member** at run `x`: it stands in the state of the ensemble. -/
structure Holds (sys : System α) (x : Nat) (y y' : Array α) : Prop where
  size : sys.dimension ≤ y.size
  size_member : (sys.member x).dimension ≤ y'.size
  placed : Placed x sys.dynamics y 0 y' 0

theorem prepared_member (hs : sys.RunWise n) (hx : x < n) (hfits : Fits sys.slots buffers)
    {y y' : Array α} (hplaced : Placed x sys.dynamics y 0 y' 0) :
    (sys.member x).prepared y' (buffers.member x) = (sys.prepared y buffers).member x := by
  rw [prepared, dynamics_member, loadFrom_member hx buffers hs.dynamics hplaced,
    clear_member hs hx (hfits.loadFrom y), prepared]

theorem evaluate_member (hs : sys.RunWise n) (hx : x < n) (hfits : Fits sys.slots buffers)
    {y y' : Array α} (hy : sys.Holds x y y') {after : Buffers α}
    (h : sys.evaluate y buffers = (after, .ok ())) :
    (sys.member x).evaluate y' (buffers.member x) = (after.member x, .ok ()) := by
  rw [evaluate_of_le hy.size] at h
  rw [evaluate_of_le hy.size_member, prepared_member hs hx hfits hy.placed]
  exact computeAll_member hs hx (hfits.prepared y) h

/-! ## The state of a member as some places of a state -/

theorem dimension_member (sys : System α) (x : Nat) :
    (sys.member x).dimension = stateSize (members sys.dynamics) :=
  congrArg stateSize (sys.dynamics_member x)

/-- Where a state holds the state of a member. -/
def places (hs : sys.RunWise n) (hx : x < n) :
    Fin (sys.member x).dimension → Fin sys.dimension := fun k =>
  ⟨place x sys.dynamics k, place_lt hx hs.dynamics (sys.dimension_member x ▸ k.isLt)⟩

theorem placed_iff (hs : sys.RunWise n) (hx : x < n) {y : Vector α sys.dimension}
    {y' : Vector α (sys.member x).dimension} :
    Placed x sys.dynamics y.toArray 0 y'.toArray 0 ↔ y' = pick (places hs hx) y := by
  have hin : ∀ {k : Nat}, k < (sys.member x).dimension → place x sys.dynamics k < sys.dimension :=
    fun hk => place_lt hx hs.dynamics (sys.dimension_member x ▸ hk)
  constructor
  · intro h
    ext k hk
    have hplace := h k (sys.dimension_member x ▸ hk)
    rw [Nat.zero_add, Nat.zero_add, Vector.getElem?_toArray, Vector.getElem?_toArray,
      Vector.getElem?_eq_getElem hk, Vector.getElem?_eq_getElem (hin hk)] at hplace
    rw [getElem_pick]
    exact Option.some.inj hplace
  · rintro rfl k hk
    have hk : k < (sys.member x).dimension := sys.dimension_member x ▸ hk
    rw [Nat.zero_add, Nat.zero_add, Vector.getElem?_toArray, Vector.getElem?_toArray,
      Vector.getElem?_eq_getElem hk, Vector.getElem?_eq_getElem (hin hk), getElem_pick]
    rfl

theorem holds_pick (hs : sys.RunWise n) (hx : x < n) (y : Vector α sys.dimension) :
    sys.Holds x y.toArray (pick (places hs hx) y).toArray where
  size := by rw [Vector.size_toArray]
  size_member := by rw [Vector.size_toArray]
  placed := (placed_iff hs hx).2 rfl

theorem derivatives_members (hs : sys.RunWise n) (hfits : Fits sys.slots buffers) (hx : x < n) :
    ∀ {slots : List (Nat × Slot α)} {slopes : Vector α (stateSize slots)}, HaveRuns n slots →
      sys.derivatives buffers slots = .ok slopes →
        ∃ slopes', (sys.member x).derivatives (buffers.member x) (members slots) = .ok slopes' ∧
          Placed x slots slopes.toArray 0 slopes'.toArray 0
  | [], _, _, _ => ⟨#v[], rfl, fun _ hk => absurd hk (Nat.not_lt_zero _)⟩
  | (i, slot) :: rest, slopes, hruns, h => by
      have ⟨hslot, hrest⟩ := List.forall_mem_cons.1 hruns
      obtain ⟨output, houtput, h⟩ := bind_eq_ok_iff.1 h
      obtain ⟨here, hhere, h⟩ := bind_eq_ok_iff.1 h
      obtain ⟨others, hothers, h⟩ := bind_eq_ok_iff.1 h
      obtain rfl := pure_eq_ok_iff.1 h
      have houtput' := call_member hs hfits hx houtput
      obtain ⟨here', hhere', hplaceHere⟩ :=
        Tensor.flatTo_member hslot hx (mapError_eq_ok_iff.1 hhere)
      obtain ⟨others', hothers', hplaceOthers⟩ := derivatives_members hs hfits hx hrest hothers
      exact ⟨here' ++ others', bind_eq_ok_iff.2 ⟨_, houtput', bind_eq_ok_iff.2 ⟨_,
        mapError_eq_ok_iff.2 hhere', bind_eq_ok_iff.2 ⟨_, hothers', rfl⟩⟩⟩,
        Placed.append hslot hx hplaceHere hplaceOthers⟩

theorem derivatives_member (hs : sys.RunWise n) (hfits : Fits sys.slots buffers) (hx : x < n)
    {slopes : Vector α sys.dimension} (h : sys.derivatives buffers sys.dynamics = .ok slopes) :
    (sys.member x).derivatives (buffers.member x) (sys.member x).dynamics =
      .ok (pick (places hs hx) slopes) := by
  have hmembers := derivatives_members hs hfits hx hs.dynamics h
  rw [← dynamics_member] at hmembers
  obtain ⟨slopes', hslopes, hplaced⟩ := hmembers
  rw [hslopes]
  exact congrArg Except.ok ((placed_iff hs hx).1 hplaced)

/-! ## The right-hand side -/

/-- **The values of a member** at a state are the members of the values. -/
theorem snapshot_member (hs : sys.RunWise n) (hfits : Fits sys.slots sys.bound) (hx : x < n)
    {y : Vector α sys.dimension} {after : Buffers α} (h : sys.snapshot y = .ok after) :
    (sys.member x).snapshot (pick (places hs hx) y) = .ok (after.member x) :=
  snapshot_eq_ok_iff.2
    (evaluate_member hs hx hfits (holds_pick hs hx y) (snapshot_eq_ok_iff.1 h))

/-- **The slopes of a member** are the slopes of its places. -/
theorem rate_member (hs : sys.RunWise n) (hfits : Fits sys.slots sys.bound) (hx : x < n) :
    Follows (places hs hx) (fun _ y => sys.rate y) (fun _ y => (sys.member x).rate y) := by
  intro _ _ y slopes h
  obtain ⟨after, hafter, hslopes⟩ := rate_eq_ok_iff.1 h
  exact rate_eq_ok_iff.2 ⟨_, snapshot_member hs hfits hx hafter,
    derivatives_member hs (hfits.snapshot hafter) hx hslopes⟩

end System

end FieldFlow
