import FieldFlow.Proofs.Tensor.Broadcast
import FieldFlow.Proofs.Tensor.Extent
import FieldFlow.Tensor.Sectors

/-!
# Proofs/Tensor/Member — the operators work on the runs of an ensemble side by side

In an ensemble of `n` runs a tensor has `n` runs, or one run that stands for all of them. Its
**member** at a run is the tensor of that run alone; every operator applied to members gives the
member of what it gives for the whole (`zipWith_member`, `matmul_member`, …). An empty run axis
stays empty.
-/

namespace FieldFlow

/-! ## Axes -/

/-- The shape of one member. -/
def Shape.member (s : Shape) : Shape := { s with runs := min s.runs 1 }

/-- **What can stand in an ensemble** of `n` runs, by the length of its run axis. -/
def Spans (runs n : Nat) : Prop := runs ≤ 1 ∨ runs = n

@[simp] theorem axisIndex_zero (a : Nat) : axisIndex a 0 = 0 := by
  unfold axisIndex
  split <;> rfl

/-- An index on an axis is an index on every axis that expands to it. -/
theorem axisIndex_lt {a c k : Nat} (h : axisExpands a c = true) (hk : k < c) : axisIndex a k < a := by
  rw [axisExpands_iff] at h
  unfold axisIndex
  split
  · omega
  · omega

/-- Going through a longer axis reads the same place. -/
theorem axisIndex_axisIndex {a c : Nat} (h : axisExpands a c = true) (k : Nat) :
    axisIndex a (axisIndex c k) = axisIndex a k := by
  rw [axisExpands_iff] at h
  unfold axisIndex
  split
  · rfl
  · rw [if_neg (by omega)]

theorem axisExpands_min {a c : Nat} (h : axisExpands a c = true) :
    axisExpands (min a 1) (min c 1) = true := by
  rw [axisExpands_iff] at h ⊢
  omega

theorem joinAxis?_eq_some_iff {a b c : Nat} : joinAxis? a b = some c ↔
    axisExpands a c = true ∧ axisExpands b c = true ∧ (c = a ∨ c = b) := by
  simp only [joinAxis?, axisExpands_iff]
  split
  · simp only [Option.some.injEq]
    omega
  · split
    · simp only [Option.some.injEq]
      omega
    · split
      · simp only [Option.some.injEq]
        omega
      · simp only [reduceCtorEq, false_iff]
        omega

/-- Members of joined axes join. -/
theorem joinAxis?_min {a b c : Nat} (h : joinAxis? a b = some c) :
    joinAxis? (min a 1) (min b 1) = some (min c 1) := by
  rw [joinAxis?_eq_some_iff] at h ⊢
  refine ⟨axisExpands_min h.1, axisExpands_min h.2.1, ?_⟩
  omega

theorem Spans.join {a b c n : Nat} (ha : Spans a n) (hb : Spans b n) (h : joinAxis? a b = some c) :
    Spans c n := by
  rw [joinAxis?_eq_some_iff] at h
  rcases h.2.2 with rfl | rfl
  · exact ha
  · exact hb

namespace Shape

theorem expandsTo_member {s u : Shape} (h : s.expandsTo u = true) :
    s.member.expandsTo u.member = true := by
  rw [expandsTo_iff] at h ⊢
  exact ⟨axisExpands_min h.1, h.2⟩

theorem join?_eq_some_iff {s t u : Shape} : s.join? t = some u ↔
    joinAxis? s.runs t.runs = some u.runs ∧ joinAxis? s.regions t.regions = some u.regions ∧
      joinAxis? s.sectorA t.sectorA = some u.sectorA ∧
        joinAxis? s.sectorB t.sectorB = some u.sectorB := by
  obtain ⟨runs, regions, a, b⟩ := u
  simp only [join?, Option.bind_eq_bind, Option.bind_eq_some_iff, Option.pure_def, Option.some.injEq,
    mk.injEq]
  constructor
  · rintro ⟨_, h₁, _, h₂, _, h₃, _, h₄, rfl, rfl, rfl, rfl⟩
    exact ⟨h₁, h₂, h₃, h₄⟩
  · rintro ⟨h₁, h₂, h₃, h₄⟩
    exact ⟨_, h₁, _, h₂, _, h₃, _, h₄, rfl, rfl, rfl, rfl⟩

theorem join?_member {s t u : Shape} (h : s.join? t = some u) :
    s.member.join? t.member = some u.member := by
  rw [join?_eq_some_iff] at h ⊢
  exact ⟨joinAxis?_min h.1, h.2⟩

theorem expandsTo_of_join? {s t u : Shape} (h : s.join? t = some u) :
    s.expandsTo u = true ∧ t.expandsTo u = true := by
  simp only [join?_eq_some_iff, joinAxis?_eq_some_iff] at h
  simp only [expandsTo_iff]
  exact ⟨⟨h.1.1, h.2.1.1, h.2.2.1.1, h.2.2.2.1⟩, ⟨h.1.2.1, h.2.1.2.1, h.2.2.1.2.1, h.2.2.2.2.1⟩⟩

/-- An element of a member is an element of its run. -/
theorem Contains.of_member {s : Shape} {n x y r i j : Nat} (hs : Spans s.runs n) (hx : x < n)
    (h : s.member.Contains y r i j) : y = 0 ∧ s.Contains (axisIndex s.runs x) r i j := by
  obtain ⟨hy, hrest⟩ := h
  have hy : y < min s.runs 1 := hy
  refine ⟨by omega, ?_, hrest⟩
  unfold Spans at hs
  unfold axisIndex
  split
  · omega
  · omega

/-- The other way round. -/
theorem Contains.member {s : Shape} {y r i j : Nat} (h : s.Contains y r i j) :
    s.member.Contains 0 r i j := by
  obtain ⟨hy, hrest⟩ := h
  refine ⟨?_, hrest⟩
  change 0 < min s.runs 1
  omega

/-- An element of a shape is read at an element of every shape that expands to it. -/
theorem Contains.of_expandsTo {s u : Shape} {x r i j : Nat} (h : s.expandsTo u = true)
    (hc : u.Contains x r i j) : s.Contains (axisIndex s.runs x) (axisIndex s.regions r)
      (axisIndex s.sectorA i) (axisIndex s.sectorB j) := by
  rw [expandsTo_iff] at h
  exact ⟨axisIndex_lt h.1 hc.1, axisIndex_lt h.2.1 hc.2.1, axisIndex_lt h.2.2.1 hc.2.2.1,
    axisIndex_lt h.2.2.2 hc.2.2.2⟩

theorem shrinks_member (s : Shape) : List.Forall₂ Shrinks s.member.toList s.toList := by
  have hruns : Shrinks s.member.runs s.runs := by
    change min s.runs 1 ≤ s.runs ∧ (min s.runs 1 = 0 → s.runs = 0)
    omega
  exact .cons hruns (.cons (.refl _) (.cons (.refl _) (.cons (.refl _) .nil)))

theorem check_member {s : Shape} (h : s.check = .ok ()) : s.member.check = .ok () :=
  checkExtent_of_shrinks s.shrinks_member h

theorem runs_member_of_lt {s : Shape} {n x : Nat} (hs : s.runs = n) (hx : x < n) :
    s.member.runs = 1 := by
  change min s.runs 1 = 1
  omega

end Shape

/-- A cut falls within its axis. -/
theorem cut?_le {length word k : Nat} (h : cut? length word = some k) : k ≤ length := by
  unfold cut? at h
  split at h
  · split at h
    · rename_i hle
      exact Option.some.inj h ▸ hle
    · exact nomatch h
  · split at h
    · rename_i hin
      rw [Bool.and_eq_true, decide_eq_true_eq, decide_eq_true_eq] at hin
      have := Option.some.inj h
      omega
    · exact nomatch h

/-! ## Tensors -/

namespace Tensor

section Building

variable {α : Type} [Inhabited α] {s : Shape} {n x : Nat}

/-- **The member of a tensor** at a run. -/
def member (t : Tensor α) (x : Nat) : Tensor α :=
  ofFn t.shape.member fun _ r i j => t.get (axisIndex t.shape.runs x) r i j

@[simp] theorem shape_member (t : Tensor α) (x : Nat) : (t.member x).shape = t.shape.member := rfl

theorem get_member {t : Tensor α} {r i j : Nat}
    (h : t.shape.Contains (axisIndex t.shape.runs x) r i j) :
    (t.member x).get 0 r i j = t.get (axisIndex t.shape.runs x) r i j :=
  get_ofFn _ _ h.member

/-- What is built element by element is what its elements are. -/
theorem ofFn_congr {f g : Nat → Nat → Nat → Nat → α}
    (h : ∀ x r i j, s.Contains x r i j → f x r i j = g x r i j) : ofFn s f = ofFn s g := by
  refine ext_get rfl fun x r i j hc => ?_
  rw [get_ofFn s f hc, get_ofFn s g hc, h x r i j hc]

/-- What is built element by element has the member that is built from its run. -/
theorem member_ofFn {f g : Nat → Nat → Nat → Nat → α} (hs : Spans s.runs n) (hx : x < n)
    (h : ∀ r i j, s.Contains (axisIndex s.runs x) r i j →
      f (axisIndex s.runs x) r i j = g 0 r i j) : (ofFn s f).member x = ofFn s.member g := by
  refine ext_get rfl fun y r i j hc => ?_
  obtain ⟨rfl, hin⟩ := Shape.Contains.of_member hs hx hc
  have hc : s.member.Contains 0 r i j := hc
  have hmember : ((ofFn s f).member x).get 0 r i j = (ofFn s f).get (axisIndex s.runs x) r i j :=
    get_member hin
  rw [hmember, get_ofFn _ _ hin, get_ofFn _ _ hc, h r i j hin]

/-- **The same computation for a member** — where the first gives a tensor that can stand in an
ensemble of `n` runs, the second gives its member at run `x`. -/
def GivesMember (n x : Nat) (e e' : Except Fault (Tensor α)) : Prop :=
  ∀ ⦃v⦄, e = .ok v → Spans v.shape.runs n ∧ e' = .ok (v.member x)

theorem GivesMember.ok {t : Tensor α} (h : Spans t.shape.runs n) :
    GivesMember n x (.ok t) (.ok (t.member x)) := by
  intro v hv
  obtain rfl := Except.ok.inj hv
  exact ⟨h, rfl⟩

/-- One computation after another. -/
theorem GivesMember.bind {e e' : Except Fault (Tensor α)}
    {f f' : Tensor α → Except Fault (Tensor α)} (h : GivesMember n x e e')
    (hf : ∀ t, Spans t.shape.runs n → GivesMember n x (f t) (f' (t.member x))) :
    GivesMember n x (e >>= f) (e' >>= f') := by
  intro v hv
  obtain ⟨t, ht, hv⟩ := bind_eq_ok_iff.1 hv
  obtain ⟨hspans, hmember⟩ := h ht
  obtain ⟨hv, hv'⟩ := hf t hspans hv
  exact ⟨hv, bind_eq_ok_iff.2 ⟨_, hmember, hv'⟩⟩

/-- What can be held has members that can be held. -/
theorem allocate_member {f g : Nat → Nat → Nat → Nat → α} (hs : Spans s.runs n) (hx : x < n)
    (hfg : ∀ r i j, s.Contains (axisIndex s.runs x) r i j →
      f (axisIndex s.runs x) r i j = g 0 r i j) :
    GivesMember n x (allocate s f) (allocate s.member g) := by
  intro v hv
  obtain ⟨hcheck, rfl⟩ := allocate_eq_ok_iff.1 hv
  exact ⟨hs, allocate_eq_ok_iff.2 ⟨Shape.check_member hcheck, (member_ofFn hs hx hfg).symm⟩⟩

/-- A tensor of at most one run is its own member. -/
theorem member_of_runs_le {t : Tensor α} (h : t.shape.runs ≤ 1) (x : Nat) : t.member x = t := by
  have hshape : t.shape.member = t.shape := by
    rw [Shape.member, Nat.min_eq_left h]
  refine ext_get hshape fun y r i j hc => ?_
  have hc : t.shape.Contains y r i j := hshape ▸ hc
  have hy : y < t.shape.runs := hc.1
  have hindex : axisIndex t.shape.runs x = 0 := by
    unfold axisIndex
    rw [if_pos (by omega)]
  obtain rfl : y = 0 := by omega
  rw [get_member (hindex ▸ hc), hindex]

/-- Where an element of a member is read on a longer axis. -/
theorem getExpanded_member {t : Tensor α} {u : Shape} (h : t.shape.expandsTo u = true) {r i j : Nat}
    (hc : u.Contains (axisIndex u.runs x) r i j) :
    (t.member x).getExpanded 0 r i j = t.getExpanded (axisIndex u.runs x) r i j := by
  have hin := Shape.Contains.of_expandsTo h hc
  have hruns := axisIndex_axisIndex (Shape.expandsTo_iff.1 h).1 x
  rw [hruns] at hin
  unfold getExpanded
  rw [hruns, axisIndex_zero]
  exact get_member hin

/-! ## Bringing a tensor to a shape -/

theorem expand_member {t : Tensor α} {u : Shape} (hu : Spans u.runs n) (hx : x < n)
    (h : t.shape.expandsTo u = true) : (t.member x).expand u.member = (t.expand u).member x :=
  (member_ofFn hu hx fun _ _ _ hc => (getExpanded_member h hc).symm).symm

theorem fits_member {t : Tensor α} {u : Shape} (h : t.fits u = true) :
    (t.member x).fits u.member = true := by
  rw [fits, Bool.and_eq_true] at h ⊢
  exact ⟨Shape.expandsTo_member h.1, isAddressable_of_shrinks u.shrinks_member h.2⟩

theorem assignTo_member {name : String} {t v : Tensor α} {u : Shape} (hu : Spans u.runs n)
    (hx : x < n) (h : t.assignTo name u = .ok v) :
    (t.member x).assignTo name u.member = .ok (v.member x) := by
  obtain ⟨hfits, rfl⟩ := assignTo_eq_ok_iff.1 h
  exact assignTo_eq_ok_iff.2
    ⟨fits_member hfits, expand_member hu hx (expandsTo_of_fits hfits)⟩

theorem broadcastTo_member {name : String} {t v : Tensor α} {u : Shape} (hu : Spans u.runs n)
    (hx : x < n) (h : t.broadcastTo name u = .ok v) :
    (t.member x).broadcastTo name u.member = .ok (v.member x) := by
  obtain ⟨hfits, h⟩ := broadcastTo_eq_ok_iff.1 h
  obtain ⟨-, hmember⟩ := allocate_member hu hx (fun r i j hc =>
    (getExpanded_member (expandsTo_of_fits hfits) hc).symm) h
  exact broadcastTo_eq_ok_iff.2 ⟨fits_member hfits, hmember⟩

theorem get_fill (c : α) {y r i j : Nat} (h : s.Contains y r i j) : (fill s c).get y r i j = c := by
  have hk := s.position_lt h
  change (Array.replicate s.size c)[s.position y r i j]?.getD default = c
  rw [Array.getElem?_replicate, if_pos hk, Option.getD_some]

theorem fill_member (c : α) (hs : Spans s.runs n) (hx : x < n) :
    fill s.member c = (fill s c).member x := by
  refine ext_get rfl fun y r i j hc => ?_
  have hc : s.member.Contains y r i j := hc
  obtain ⟨rfl, hin⟩ := Shape.Contains.of_member hs hx hc
  have hmember : ((fill s c).member x).get 0 r i j = (fill s c).get (axisIndex s.runs x) r i j :=
    get_member hin
  rw [hmember, get_fill c hin, get_fill c hc]

theorem allocateFilled_member {c : α} {v : Tensor α} (h : allocateFilled s c = .ok v)
    (hs : Spans s.runs n) (hx : x < n) : allocateFilled s.member c = .ok (v.member x) := by
  obtain ⟨hcheck, rfl⟩ := allocateFilled_eq_ok_iff.1 h
  exact allocateFilled_eq_ok_iff.2 ⟨Shape.check_member hcheck, fill_member c hs hx⟩

end Building

theorem get_map {α β : Type} [Inhabited α] [Inhabited β] (f : α → β) (t : Tensor α)
    {x r i j : Nat} (h : t.shape.Contains x r i j) : (t.map f).get x r i j = f (t.get x r i j) := by
  have hk : t.shape.position x r i j < t.data.size := by
    rw [t.size_data]
    exact t.shape.position_lt h
  change (t.data.map f)[t.shape.position x r i j]?.getD default = f (t.get x r i j)
  rw [get, Array.getElem?_map, Array.getElem?_eq_getElem hk, Option.map_some, Option.getD_some,
    Option.getD_some]

/-! ## Operators -/

section Operators

variable {α : Type} [Scalar α] {n x : Nat} {t u v : Tensor α}

/-- The member of a tensor with runs is the run of that number. -/
theorem member_eq_run (h : 0 < t.shape.runs) : t.member x = t.run x := by
  have hshape : t.shape.member = { t.shape with runs := 1 } := by
    rw [Shape.member, Nat.min_eq_right h]
  rw [member, run, hshape]

theorem map_member (f : α → α) (hs : Spans t.shape.runs n) (hx : x < n) :
    (t.member x).map f = (t.map f).member x := by
  refine ext_get rfl fun y r i j hc => ?_
  obtain ⟨rfl, hin⟩ := Shape.Contains.of_member hs hx hc
  have hmapped : ((t.map f).member x).get 0 r i j =
      (t.map f).get (axisIndex t.shape.runs x) r i j := get_member hin
  rw [hmapped, get_map f t hin, get_map f (t.member x) hc, get_member hin]

/-- What is done to every element is done to the elements of a member. -/
theorem GivesMember.map (f : α → α) {e e' : Except Fault (Tensor α)} (h : GivesMember n x e e')
    (hx : x < n) : GivesMember n x (do return (← e).map f) (do return (← e').map f) := by
  refine h.bind fun t ht => ?_
  rw [map_member f ht hx]
  exact .ok ht

theorem zipWith_member (f : α → α → α) (ht : Spans t.shape.runs n) (hu : Spans u.shape.runs n)
    (hx : x < n) : GivesMember n x (zipWith f t u) (zipWith f (t.member x) (u.member x)) := by
  intro v hv
  unfold zipWith at hv ⊢
  split at hv
  · rename_i s hs
    obtain ⟨hts, hus⟩ := Shape.expandsTo_of_join? hs
    have hspans := ht.join hu (Shape.join?_eq_some_iff.1 hs).1
    rw [shape_member, shape_member, Shape.join?_member hs]
    refine allocate_member hspans hx (fun r i j hc => ?_) hv
    rw [getExpanded_member hts hc, getExpanded_member hus hc]
  · exact nomatch hv

theorem sumRange_congr {m : Nat} {f g : Nat → α} (h : ∀ k < m, f k = g k) :
    sumRange m f = sumRange m g := by
  unfold sumRange
  rw [List.map_congr_left fun k hk => h k (List.mem_range.1 hk)]

theorem transpose_member (ht : Spans t.shape.runs n) (hx : x < n) :
    Spans t.transpose.shape.runs n ∧ (t.member x).transpose = t.transpose.member x := by
  have hs : Spans t.transpose.shape.runs n := ht
  refine ⟨hs, (member_ofFn hs hx fun r i j hc => ?_).symm⟩
  obtain ⟨hrun, hregion, hi, hj⟩ := hc
  exact (get_member (t := t) ⟨hrun, hregion, hj, hi⟩).symm

theorem sumFirst_member (ht : Spans t.shape.runs n) (hx : x < n) :
    GivesMember n x t.sumFirst (t.member x).sumFirst := by
  refine allocate_member ht hx fun r j _ hc => ?_
  obtain ⟨hrun, hregion, hj, -⟩ := hc
  exact sumRange_congr fun i hi => (get_member ⟨hrun, hregion, hi, hj⟩).symm

theorem sumSecond_member (ht : Spans t.shape.runs n) (hx : x < n) :
    GivesMember n x t.sumSecond (t.member x).sumSecond := by
  refine allocate_member ht hx fun r i _ hc => ?_
  obtain ⟨hrun, hregion, hi, -⟩ := hc
  exact sumRange_congr fun j hj => (get_member ⟨hrun, hregion, hi, hj⟩).symm

theorem sumRegions_member (ht : Spans t.shape.runs n) (hx : x < n) :
    GivesMember n x t.sumRegions (t.member x).sumRegions := by
  refine allocate_member ht hx fun _ i j hc => ?_
  obtain ⟨hrun, -, hi, hj⟩ := hc
  exact sumRange_congr fun r hr => (get_member ⟨hrun, hr, hi, hj⟩).symm

theorem identity_member (hx : x < n) : GivesMember n x t.identity (t.member x).identity :=
  allocate_member (.inl (Nat.le_refl 1)) hx fun _ _ _ _ => rfl

theorem joinOuter_eq_ok_iff {axis : OuterAxis} {a b c : Nat} :
    joinOuter axis a b = .ok c ↔ joinAxis? a b = some c := by
  unfold joinOuter
  cases joinAxis? a b <;> simp

theorem matmul_eq_ok_iff : t.matmul u = .ok v ↔ t.shape.sectorB = u.shape.sectorA ∧
    ∃ runs regions, joinAxis? t.shape.runs u.shape.runs = some runs ∧
      joinAxis? t.shape.regions u.shape.regions = some regions ∧
      allocate ⟨runs, regions, t.shape.sectorA, u.shape.sectorB⟩ (fun x r i j =>
        sumRange t.shape.sectorB fun k =>
          t.get (axisIndex t.shape.runs x) (axisIndex t.shape.regions r) i k *
            u.get (axisIndex u.shape.runs x) (axisIndex u.shape.regions r) k j) = .ok v := by
  unfold matmul
  by_cases hinner : t.shape.sectorB = u.shape.sectorA
  · simp [hinner, bind_eq_ok_iff, joinOuter_eq_ok_iff]
  · simp [hinner, bind_eq_ok_iff]

/-- An element of a block, read on outer axes that may stand for longer ones. -/
theorem get_member_outer {runs regions r i j : Nat} (hruns : axisExpands t.shape.runs runs = true)
    (hregions : axisExpands t.shape.regions regions = true) (hx : axisIndex runs x < runs)
    (hr : r < regions) (hi : i < t.shape.sectorA) (hj : j < t.shape.sectorB) :
    (t.member x).get (axisIndex t.shape.member.runs 0) (axisIndex t.shape.regions r) i j =
      t.get (axisIndex t.shape.runs (axisIndex runs x)) (axisIndex t.shape.regions r) i j := by
  have hrun := axisIndex_lt hruns hx
  rw [axisIndex_axisIndex hruns] at hrun ⊢
  rw [axisIndex_zero]
  exact get_member ⟨hrun, axisIndex_lt hregions hr, hi, hj⟩

theorem matmul_member (ht : Spans t.shape.runs n) (hu : Spans u.shape.runs n) (hx : x < n) :
    GivesMember n x (t.matmul u) ((t.member x).matmul (u.member x)) := by
  intro v hv
  obtain ⟨hinner, runs, regions, hruns, hregions, hv⟩ := matmul_eq_ok_iff.1 hv
  obtain ⟨htRuns, huRuns, -⟩ := joinAxis?_eq_some_iff.1 hruns
  obtain ⟨htRegions, huRegions, -⟩ := joinAxis?_eq_some_iff.1 hregions
  obtain ⟨hspans, hmember⟩ := allocate_member (g := fun y r i j =>
      sumRange t.shape.sectorB fun k =>
        (t.member x).get (axisIndex t.shape.member.runs y) (axisIndex t.shape.regions r) i k *
          (u.member x).get (axisIndex u.shape.member.runs y) (axisIndex u.shape.regions r) k j)
    (ht.join hu hruns) hx (fun r i j hc => by
      obtain ⟨hrun, hregion, hi, hj⟩ := hc
      refine sumRange_congr fun k hk => ?_
      rw [get_member_outer htRuns htRegions hrun hregion hi hk,
        get_member_outer huRuns huRegions hrun hregion (hinner ▸ hk) hj]) hv
  exact ⟨hspans, matmul_eq_ok_iff.2 ⟨hinner, _, _, joinAxis?_min hruns, hregions, hmember⟩⟩

theorem sectorProduct_member (ht : Spans t.shape.runs n) (hu : Spans u.shape.runs n) (hx : x < n) :
    GivesMember n x (t.sectorProduct u) ((t.member x).sectorProduct (u.member x)) := by
  obtain ⟨hs, htranspose⟩ := transpose_member ht hx
  unfold sectorProduct
  rw [htranspose]
  exact matmul_member hs hu hx

theorem distance_member (ht : Spans t.shape.runs n) (hu : Spans u.shape.runs n) (hx : x < n) :
    GivesMember n x (t.distance u) ((t.member x).distance (u.member x)) := by
  obtain ⟨htSpans, htTranspose⟩ := transpose_member ht hx
  obtain ⟨huSpans, huTranspose⟩ := transpose_member hu hx
  unfold distance
  rw [htTranspose, huTranspose]
  refine (zipWith_member _ ht htSpans hx).bind fun across hacross => ?_
  refine (zipWith_member _ hu huSpans hx).bind fun along halong => ?_
  have hacross' : Spans (across.map Scalar.square).shape.runs n := hacross
  have halong' : Spans (along.map Scalar.square).shape.runs n := halong
  rw [map_member _ hacross hx, map_member _ halong hx]
  exact (zipWith_member _ hacross' halong' hx).map Scalar.sqrt hx

theorem region_member {k : Nat} (ht : Spans t.shape.runs n) (hx : x < n) :
    GivesMember n x (t.region k) ((t.member x).region k) := by
  intro v hv
  unfold region at hv ⊢
  split at hv
  · rename_i first last hfirst hlast
    obtain rfl := Except.ok.inj hv
    have hs : Spans ({ t.shape with regions := last - first } : Shape).runs n := ht
    refine ⟨hs, ?_⟩
    have hregions : t.shape.member.regions = t.shape.regions := rfl
    rw [shape_member, hregions, hfirst, hlast]
    refine congrArg Except.ok (member_ofFn hs hx fun r i j hc => ?_).symm
    obtain ⟨hrun, hregion, hi, hj⟩ := hc
    have hlast := cut?_le hlast
    have hregion : first + r < t.shape.regions := by
      have : r < last - first := hregion
      omega
    exact (get_member (t := t) ⟨hrun, hregion, hi, hj⟩).symm
  · exact nomatch hv

end Operators

end Tensor

end FieldFlow
