import FieldFlow.Field.Expression
import FieldFlow.Proofs.Tensor.Inverse

/-!
# Proofs/Tensor/OuterAxes — what holds of the runs holds of the regions

Runs and regions are read alike by every operator but the sum over the regions. So the two axes can
be exchanged (`Tensor.swapOuter`): each operator gives for exchanged operands the exchanged result
(`ProductOp.apply_swapOuter`, `SectorOp.apply_swapOuter`), and what is known along the one axis
follows along the other.
-/

namespace FieldFlow

/-! ## Shapes -/

/-- The product of lengths does not depend on their order. -/
theorem checkExtent_perm {as bs : List Nat} (h : as.Perm bs) : checkExtent as = checkExtent bs := by
  have hcomm (cs : List Nat) : ∀ a ∈ cs, ∀ b ∈ cs, ∀ n : Nat, n * a * b = n * b * a :=
    fun a _ b _ n => Nat.mul_right_comm n a b
  unfold checkExtent isAddressable
  rw [h.foldl_eq' (hcomm as) 1, (h.filter _).foldl_eq' (hcomm _) 1]

namespace Shape

/-- The shape with its runs and regions exchanged. -/
def swapOuter (s : Shape) : Shape := ⟨s.regions, s.runs, s.sectorA, s.sectorB⟩

theorem check_swapOuter (s : Shape) : s.swapOuter.check = s.check :=
  checkExtent_perm (.swap s.runs s.regions [s.sectorA, s.sectorB])

theorem Contains.swapOuter {s : Shape} {x r i j : Nat} (h : s.swapOuter.Contains x r i j) :
    s.Contains r x i j := ⟨h.2.1, h.1, h.2.2⟩

theorem join?_swapOuter {s t u : Shape} (h : s.join? t = some u) :
    s.swapOuter.join? t.swapOuter = some u.swapOuter := by
  rw [join?_eq_some_iff] at h ⊢
  exact ⟨h.2.1, h.1, h.2.2⟩

end Shape

/-! ## Tensors -/

namespace Tensor

section Building

variable {α : Type} [Inhabited α] {s : Shape} {t v : Tensor α}

/-- **The tensor with its runs and regions exchanged.** -/
def swapOuter (t : Tensor α) : Tensor α := ofFn t.shape.swapOuter fun x r i j => t.get r x i j

theorem get_swapOuter {x r i j : Nat} (h : t.shape.Contains r x i j) :
    t.swapOuter.get x r i j = t.get r x i j := get_ofFn _ _ ⟨h.2.1, h.1, h.2.2⟩

/-- What is built element by element is exchanged element by element. -/
theorem swapOuter_ofFn {f g : Nat → Nat → Nat → Nat → α}
    (h : ∀ x r i j, s.Contains x r i j → f x r i j = g r x i j) :
    (ofFn s f).swapOuter = ofFn s.swapOuter g := by
  refine ofFn_congr fun x r i j hc => ?_
  rw [get_ofFn s f hc.swapOuter, h r x i j hc.swapOuter]

theorem allocate_swapOuter {f g : Nat → Nat → Nat → Nat → α} (hv : allocate s f = .ok v)
    (h : ∀ x r i j, s.Contains x r i j → f x r i j = g r x i j) :
    allocate s.swapOuter g = .ok v.swapOuter := by
  obtain ⟨hcheck, rfl⟩ := allocate_eq_ok_iff.1 hv
  exact allocate_eq_ok_iff.2 ⟨s.check_swapOuter.trans hcheck, (swapOuter_ofFn h).symm⟩

/-- An element read on axes that may stand for longer ones. -/
theorem getExpanded_swapOuter {u : Shape} (h : t.shape.expandsTo u = true) {x r i j : Nat}
    (hc : u.Contains r x i j) : t.swapOuter.getExpanded x r i j = t.getExpanded r x i j :=
  get_swapOuter (Shape.Contains.of_expandsTo h hc)

end Building

/-! ## Operators -/

section Operators

variable {α : Type} [Scalar α] {t u v : Tensor α}

theorem zipWith_eq_ok_iff {f : α → α → α} : zipWith f t u = .ok v ↔
    ∃ s, t.shape.join? u.shape = some s ∧
      allocate s (fun x r i j => f (t.getExpanded x r i j) (u.getExpanded x r i j)) = .ok v := by
  unfold zipWith
  cases t.shape.join? u.shape <;> simp

theorem zipWith_swapOuter {f : α → α → α} (h : zipWith f t u = .ok v) :
    zipWith f t.swapOuter u.swapOuter = .ok v.swapOuter := by
  obtain ⟨s, hs, hv⟩ := zipWith_eq_ok_iff.1 h
  obtain ⟨ht, hu⟩ := Shape.expandsTo_of_join? hs
  refine zipWith_eq_ok_iff.2 ⟨s.swapOuter, Shape.join?_swapOuter hs, allocate_swapOuter hv ?_⟩
  intro x r i j hc
  rw [getExpanded_swapOuter ht hc, getExpanded_swapOuter hu hc]

theorem map_swapOuter (f : α → α) (t : Tensor α) : (t.map f).swapOuter = t.swapOuter.map f := by
  refine ext_get rfl fun x r i j hc => ?_
  have hc : t.shape.swapOuter.Contains x r i j := hc
  rw [get_swapOuter (t := t.map f) hc.swapOuter, get_map f t hc.swapOuter,
    get_map f t.swapOuter hc, get_swapOuter hc.swapOuter]

theorem transpose_swapOuter (t : Tensor α) : t.transpose.swapOuter = t.swapOuter.transpose := by
  refine swapOuter_ofFn fun x r i j hc => ?_
  have hin : t.shape.Contains x r j i := ⟨hc.1, hc.2.1, hc.2.2.2, hc.2.2.1⟩
  exact (get_swapOuter hin).symm

theorem sumFirst_swapOuter (h : t.sumFirst = .ok v) : t.swapOuter.sumFirst = .ok v.swapOuter :=
  allocate_swapOuter h fun _ _ _ _ hc =>
    sumRange_congr fun _ hk => (get_swapOuter ⟨hc.1, hc.2.1, hk, hc.2.2.1⟩).symm

theorem sumSecond_swapOuter (h : t.sumSecond = .ok v) : t.swapOuter.sumSecond = .ok v.swapOuter :=
  allocate_swapOuter h fun _ _ _ _ hc =>
    sumRange_congr fun _ hk => (get_swapOuter ⟨hc.1, hc.2.1, hc.2.2.1, hk⟩).symm

theorem identity_swapOuter (h : t.identity = .ok v) : t.swapOuter.identity = .ok v.swapOuter :=
  allocate_swapOuter h fun _ _ _ _ _ => rfl

theorem inverse_swapOuter (h : t.inverse = .ok v) : t.swapOuter.inverse = .ok v.swapOuter := by
  have hsquare := square_of_inverse h
  have hsquare' : t.swapOuter.shape.sectorA = t.swapOuter.shape.sectorB := hsquare
  rw [inverse_of_square hsquare] at h
  obtain rfl := Except.ok.inj h
  refine (inverse_of_square hsquare').trans (congrArg Except.ok (swapOuter_ofFn ?_).symm)
  intro x r i j hc
  have hagree : Block.Agree t.shape.sectorA (t.get x r) (t.swapOuter.get r x) :=
    fun i' hi' j' hj' => (get_swapOuter ⟨hc.1, hc.2.1, hi', hsquare ▸ hj'⟩).symm
  have hinverse := Block.inverse?_congr (Nat.zero_lt_of_lt hc.2.2.1) hagree
  have hsectorA : t.swapOuter.shape.sectorA = t.shape.sectorA := rfl
  rw [inverseAt, inverseAt, hsectorA, hinverse]

theorem matmul_swapOuter (h : t.matmul u = .ok v) :
    t.swapOuter.matmul u.swapOuter = .ok v.swapOuter := by
  obtain ⟨hinner, runs, regions, hruns, hregions, hv⟩ := matmul_eq_ok_iff.1 h
  obtain ⟨htRuns, huRuns, -⟩ := joinAxis?_eq_some_iff.1 hruns
  obtain ⟨htRegions, huRegions, -⟩ := joinAxis?_eq_some_iff.1 hregions
  refine matmul_eq_ok_iff.2 ⟨hinner, regions, runs, hregions, hruns, allocate_swapOuter hv ?_⟩
  intro x r i j hc
  refine sumRange_congr fun k hk => ?_
  have ht : t.shape.Contains (axisIndex t.shape.runs x) (axisIndex t.shape.regions r) i k :=
    ⟨axisIndex_lt htRuns hc.1, axisIndex_lt htRegions hc.2.1, hc.2.2.1, hk⟩
  have hu : u.shape.Contains (axisIndex u.shape.runs x) (axisIndex u.shape.regions r) k j :=
    ⟨axisIndex_lt huRuns hc.1, axisIndex_lt huRegions hc.2.1, hinner ▸ hk, hc.2.2.2⟩
  rw [← get_swapOuter ht, ← get_swapOuter hu]
  rfl

theorem sectorProduct_swapOuter (h : t.sectorProduct u = .ok v) :
    t.swapOuter.sectorProduct u.swapOuter = .ok v.swapOuter := by
  unfold sectorProduct
  rw [← transpose_swapOuter]
  exact matmul_swapOuter h

theorem distance_eq_ok_iff : t.distance u = .ok v ↔ ∃ across along squares,
    zipWith (· - ·) t t.transpose = .ok across ∧ zipWith (· - ·) u u.transpose = .ok along ∧
      zipWith (· + ·) (across.map Scalar.square) (along.map Scalar.square) = .ok squares ∧
        squares.map Scalar.sqrt = v := by
  unfold distance
  simp only [bind_eq_ok_iff, pure_eq_ok_iff]
  constructor
  · rintro ⟨across, hacross, along, halong, squares, hsquares, hv⟩
    exact ⟨across, along, squares, hacross, halong, hsquares, hv⟩
  · rintro ⟨across, along, squares, hacross, halong, hsquares, hv⟩
    exact ⟨across, hacross, along, halong, squares, hsquares, hv⟩

theorem distance_swapOuter (h : t.distance u = .ok v) :
    t.swapOuter.distance u.swapOuter = .ok v.swapOuter := by
  obtain ⟨across, along, squares, hacross, halong, hsquares, rfl⟩ := distance_eq_ok_iff.1 h
  have hacross' := zipWith_swapOuter hacross
  have halong' := zipWith_swapOuter halong
  have hsquares' := zipWith_swapOuter hsquares
  rw [transpose_swapOuter] at hacross' halong'
  rw [map_swapOuter, map_swapOuter] at hsquares'
  exact distance_eq_ok_iff.2 ⟨_, _, _, hacross', halong', hsquares',
    (map_swapOuter Scalar.sqrt squares).symm⟩

end Operators

end Tensor

section Operations

variable {α : Type} [Scalar α] {t u v : Tensor α}

/-- **Operators on one operand** exchange runs and regions, where they do not sum over either. -/
theorem SectorOp.apply_swapOuter {op : SectorOp} (hop : op ≠ .sumRegions) (h : op.apply t = .ok v) :
    op.apply t.swapOuter = .ok v.swapOuter := by
  cases op with
  | transpose =>
    obtain rfl := Except.ok.inj h
    exact congrArg Except.ok t.transpose_swapOuter.symm
  | sumFirst => exact Tensor.sumFirst_swapOuter h
  | sumSecond => exact Tensor.sumSecond_swapOuter h
  | sumRegions => exact absurd rfl hop
  | identity => exact Tensor.identity_swapOuter h
  | inverse => exact Tensor.inverse_swapOuter h

/-- **Operators on two operands** exchange runs and regions. -/
theorem ProductOp.apply_swapOuter {op : ProductOp} (h : op.apply t u = .ok v) :
    op.apply t.swapOuter u.swapOuter = .ok v.swapOuter := by
  cases op with
  | matmul => exact Tensor.matmul_swapOuter h
  | sectorProduct => exact Tensor.sectorProduct_swapOuter h
  | distance => exact Tensor.distance_swapOuter h

end Operations

end FieldFlow
