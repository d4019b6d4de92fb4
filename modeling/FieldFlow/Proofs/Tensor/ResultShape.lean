import FieldFlow.Proofs.Field.Member
import FieldFlow.Proofs.Tensor.OuterAxes
import Mathlib.Algebra.Order.Ring.Nat

/-!
# Proofs/Tensor/ResultShape — the shape an operator gives

Whether operands line up, and the shape of what an operator gives for them, is settled by the shapes
of the operands (`SectorOp.shape?`, `ProductOp.shape?`). Operands that line up give a tensor of that
shape, short of what is too large to be held (`ProductOp.apply_settles`).
-/

namespace FieldFlow

/-! ## Shapes -/

namespace Shape

/-- The shape with other sector axes. -/
def withSectors (s : Shape) (a b : Nat) : Shape := ⟨s.runs, s.regions, a, b⟩

/-- Room for a shape even if its empty axes had an entry each. -/
def Roomy (s : Shape) : Prop := (s.toList.map (max · 1)).prod * numberBytes < memoryEnd

theorem prod_filter_le (as : List Nat) :
    (as.filter (· ≠ 0)).prod ≤ (as.map (max · 1)).prod := by
  induction as with
  | nil => exact Nat.le_refl 1
  | cons a as ih =>
    rw [List.map_cons, List.prod_cons, List.filter_cons]
    split
    · rw [List.prod_cons]
      exact Nat.mul_le_mul (Nat.le_max_left a 1) ih
    · exact Nat.le_trans ih (Nat.le_mul_of_pos_left _ (by omega))

theorem prod_le_prod_max (as : List Nat) : as.prod ≤ (as.map (max · 1)).prod := by
  induction as with
  | nil => exact Nat.le_refl 1
  | cons a as ih =>
    rw [List.map_cons, List.prod_cons, List.prod_cons]
    exact Nat.mul_le_mul (Nat.le_max_left a 1) ih

/-- Where there is room nothing is refused. -/
theorem check_of_roomy {s : Shape} (h : s.Roomy) : s.check = .ok () := by
  have hle := prod_le_prod_max s.toList
  have hfilter := prod_filter_le s.toList
  unfold Roomy numberBytes at h
  refine checkExtent_eq_ok_iff.2 ⟨?_, ?_⟩
  · rw [FieldFlow.isAddressable, decide_eq_true_eq, ← List.prod_eq_foldl_nat]
    omega
  · rw [← List.prod_eq_foldl_nat, numberBytes]
    omega

/-- A shape that expands to one with room has room. -/
theorem Roomy.of_expandsTo {s u : Shape} (h : s.expandsTo u = true) (hu : u.Roomy) : s.Roomy := by
  have hmax {a c : Nat} (hac : axisExpands a c = true) : max a 1 ≤ max c 1 := by
    rw [axisExpands_iff] at hac
    omega
  obtain ⟨hruns, hregions, hrows, hcolumns⟩ := expandsTo_iff.1 h
  refine Nat.lt_of_le_of_lt (Nat.mul_le_mul_right numberBytes ?_) hu
  simp only [toList, List.map_cons, List.map_nil, List.prod_cons, List.prod_nil, Nat.mul_one]
  exact Nat.mul_le_mul (hmax hruns) (Nat.mul_le_mul (hmax hregions)
    (Nat.mul_le_mul (hmax hrows) (hmax hcolumns)))

end Shape

/-! ## Results of a known shape -/

deriving instance DecidableEq for Tensor

namespace Tensor

variable {α : Type} [Inhabited α]

/-- The block at a run and a region, which may stand for those of longer axes. -/
def block (t : Tensor α) (x r : Nat) : Block α :=
  t.get (axisIndex t.shape.runs x) (axisIndex t.shape.regions r)

theorem allocate_congr {s : Shape} {f g : Nat → Nat → Nat → Nat → α}
    (h : ∀ x r i j, s.Contains x r i j → f x r i j = g x r i j) : allocate s f = allocate s g := by
  rw [allocate, allocate, ofFn_congr h]

end Tensor

/-- **A computation of a known shape** — it gives a tensor of that shape, or there is no room for
one. -/
def Settles {α : Type} (e : Except Fault (Tensor α)) (s : Shape) : Prop :=
  (∃ v, e = .ok v ∧ v.shape = s) ∨ e = .error .oversized ∧ ¬ s.Roomy

namespace Settles

variable {α : Type} {s u : Shape} {e : Except Fault (Tensor α)}

theorem ok (v : Tensor α) : Settles (.ok v) v.shape := .inl ⟨v, rfl, rfl⟩

theorem allocate (s : Shape) (f : Nat → Nat → Nat → Nat → α) : Settles (Tensor.allocate s f) s := by
  cases hv : Tensor.allocate s f with
  | ok v => exact .inl ⟨v, rfl, Tensor.shape_of_allocate hv⟩
  | error fault =>
    have hcheck := Tensor.check_of_allocate_error hv
    refine .inr ⟨congrArg Except.error ?_, fun hroom => ?_⟩
    · exact eq_oversized_of_checkExtent hcheck
    · rw [Shape.check_of_roomy hroom] at hcheck
      exact nomatch hcheck

/-- One computation after another that needs no less room. -/
theorem bind {f : Tensor α → Except Fault (Tensor α)} (he : Settles e s)
    (hsu : s.expandsTo u = true) (hf : ∀ v : Tensor α, v.shape = s → Settles (f v) u) :
    Settles (e >>= f) u := by
  rcases he with ⟨v, rfl, hv⟩ | ⟨rfl, hroom⟩
  · exact hf v hv
  · exact .inr ⟨rfl, fun hu => hroom (hu.of_expandsTo hsu)⟩

end Settles

/-! ## Shapes of results -/

theorem joinAxis?_comm (a b : Nat) : joinAxis? a b = joinAxis? b a := by
  unfold joinAxis?
  grind

theorem joinAxis?_self (a : Nat) : joinAxis? a a = some a := if_pos rfl

namespace Shape

def transposed (s : Shape) : Shape := s.withSectors s.sectorB s.sectorA

theorem join?_withSectors {s u w : Shape} {a b : Nat} :
    (s.withSectors a b).join? (u.withSectors a b) = some w ↔
      joinAxis? s.runs u.runs = some w.runs ∧ joinAxis? s.regions u.regions = some w.regions ∧
        a = w.sectorA ∧ b = w.sectorB := by
  simp only [join?_eq_some_iff, withSectors, joinAxis?_self, Option.some.injEq]

/-- Joining with the exchanged sector axes makes them equal. -/
theorem join?_transposed {s w : Shape} : s.join? s.transposed = some w ↔
    ∃ n, joinAxis? s.sectorA s.sectorB = some n ∧ s.withSectors n n = w := by
  obtain ⟨runs, regions, a, b⟩ := w
  simp only [join?_eq_some_iff, transposed, withSectors, joinAxis?_self, Option.some.injEq,
    joinAxis?_comm s.sectorB s.sectorA, mk.injEq]
  exact ⟨fun ⟨hruns, hregions, ha, hb⟩ =>
      ⟨a, ha, hruns, hregions, rfl, Option.some.inj (ha.symm.trans hb)⟩,
    fun ⟨_, hn, hruns, hregions, ha, hb⟩ => ⟨hruns, hregions, ha ▸ hn, hb ▸ hn⟩⟩

end Shape

/-- **The shape an operator gives**, if it gives any. -/
def SectorOp.shape? : SectorOp → Shape → Option Shape
  | .transpose, s => some s.transposed
  | .sumFirst, s => some (s.withSectors s.sectorB 1)
  | .sumSecond, s => some (s.withSectors s.sectorA 1)
  | .sumRegions, s => some { s with regions := 1 }
  | .identity, s => some ⟨1, 1, s.sectorB, s.sectorB⟩
  | .inverse, s => if s.sectorA = s.sectorB then some s else none

/-- The sector axes of the result, which depend on no other axes. -/
def ProductOp.sectors? : ProductOp → Shape → Shape → Option (Nat × Nat)
  | .matmul, s, u => if s.sectorB = u.sectorA then some (s.sectorA, u.sectorB) else none
  | .sectorProduct, s, u => if s.sectorA = u.sectorA then some (s.sectorB, u.sectorB) else none
  | .distance, s, u => do
    let n ← joinAxis? (← joinAxis? s.sectorA s.sectorB) (← joinAxis? u.sectorA u.sectorB)
    return (n, n)

@[inherit_doc SectorOp.shape?]
def ProductOp.shape? (op : ProductOp) (s u : Shape) : Option Shape :=
  (op.sectors? s u).bind fun (a, b) => (s.withSectors a b).join? (u.withSectors a b)

theorem ProductOp.shape?_eq_some_iff {op : ProductOp} {s u w : Shape} : op.shape? s u = some w ↔
    op.sectors? s u = some (w.sectorA, w.sectorB) ∧
      joinAxis? s.runs u.runs = some w.runs ∧ joinAxis? s.regions u.regions = some w.regions := by
  simp only [shape?, Option.bind_eq_some_iff, Prod.exists, Shape.join?_withSectors]
  exact ⟨fun ⟨_, _, h, hruns, hregions, ha, hb⟩ => ⟨ha ▸ hb ▸ h, hruns, hregions⟩,
    fun ⟨h, hruns, hregions⟩ => ⟨_, _, h, hruns, hregions, rfl, rfl⟩⟩

theorem ProductOp.shape?_matmul {s u w : Shape} : ProductOp.matmul.shape? s u = some w ↔
    s.sectorB = u.sectorA ∧ w.sectorA = s.sectorA ∧ w.sectorB = u.sectorB ∧
      joinAxis? s.runs u.runs = some w.runs ∧ joinAxis? s.regions u.regions = some w.regions := by
  rw [shape?_eq_some_iff, sectors?, Option.ite_none_right_eq_some, Option.some.injEq,
    Prod.mk.injEq]
  exact ⟨fun ⟨⟨hinner, ha, hb⟩, hruns, hregions⟩ => ⟨hinner, ha.symm, hb.symm, hruns, hregions⟩,
    fun ⟨hinner, ha, hb, hruns, hregions⟩ => ⟨⟨hinner, ha.symm, hb.symm⟩, hruns, hregions⟩⟩

section Shapes

variable {α : Type} [Scalar α] {t u v : Tensor α} {s : Shape}

theorem Tensor.shape?_of_matmul (h : t.matmul u = .ok v) :
    ProductOp.matmul.shape? t.shape u.shape = some v.shape := by
  obtain ⟨hinner, runs, regions, hruns, hregions, hv⟩ := matmul_eq_ok_iff.1 h
  rw [ProductOp.shape?_matmul, shape_of_allocate hv]
  exact ⟨hinner, rfl, rfl, hruns, hregions⟩

/-- **The matrix product**, in the shape that it has. -/
theorem Tensor.matmul_eq_allocate (h : ProductOp.matmul.shape? t.shape u.shape = some s) :
    t.matmul u = allocate s fun x r i j =>
      sumRange t.shape.sectorB fun k => t.block x r i k * u.block x r k j := by
  obtain ⟨hinner, ha, hb, hruns, hregions⟩ := ProductOp.shape?_matmul.1 h
  obtain ⟨runs, regions, rows, columns⟩ := s
  obtain rfl : rows = t.shape.sectorA := ha
  obtain rfl : columns = u.shape.sectorB := hb
  unfold matmul
  rw [if_neg (not_not.2 hinner), joinOuter_eq_ok_iff.2 hruns, joinOuter_eq_ok_iff.2 hregions]
  rfl

theorem Tensor.matmul_settles (h : ProductOp.matmul.shape? t.shape u.shape = some s) :
    Settles (t.matmul u) s :=
  matmul_eq_allocate h ▸ Settles.allocate s _

theorem Tensor.join?_of_zipWith {f : α → α → α} (h : zipWith f t u = .ok v) :
    t.shape.join? u.shape = some v.shape := by
  obtain ⟨s, hs, hv⟩ := zipWith_eq_ok_iff.1 h
  rw [hs, shape_of_allocate hv]

theorem Tensor.zipWith_settles {f : α → α → α} (h : t.shape.join? u.shape = some s) :
    Settles (zipWith f t u) s := by
  unfold zipWith
  rw [h]
  exact Settles.allocate _ _

theorem ProductOp.sectors?_distance {s u : Shape} {a b : Nat} :
    ProductOp.distance.sectors? s u = some (a, b) ↔ ∃ m n, joinAxis? s.sectorA s.sectorB = some m ∧
      joinAxis? u.sectorA u.sectorB = some n ∧ joinAxis? m n = some a ∧ b = a := by
  simp only [sectors?, Option.bind_eq_bind, Option.bind_eq_some_iff, Option.pure_def,
    Option.some.injEq, Prod.mk.injEq]
  exact ⟨fun ⟨m, hm, n, hn, _, hjoin, ha, hb⟩ => ⟨m, n, hm, hn, ha ▸ hjoin, hb ▸ ha⟩,
    fun ⟨m, n, hm, hn, hjoin, hb⟩ => ⟨m, hm, n, hn, a, hjoin, rfl, hb.symm⟩⟩

theorem Tensor.shape?_of_distance (h : t.distance u = .ok v) :
    ProductOp.distance.shape? t.shape u.shape = some v.shape := by
  obtain ⟨across, along, squares, hacross, halong, hsquares, rfl⟩ := distance_eq_ok_iff.1 h
  obtain ⟨m, hm, hacross⟩ := Shape.join?_transposed.1 (join?_of_zipWith hacross)
  obtain ⟨n, hn, halong⟩ := Shape.join?_transposed.1 (join?_of_zipWith halong)
  have hsquares := join?_of_zipWith hsquares
  change across.shape.join? along.shape = some squares.shape at hsquares
  rw [← hacross, ← halong, Shape.join?_eq_some_iff] at hsquares
  obtain ⟨hruns, hregions, hrows, hcolumns⟩ := hsquares
  refine ProductOp.shape?_eq_some_iff.2 ⟨?_, hruns, hregions⟩
  exact ProductOp.sectors?_distance.2
    ⟨m, n, hm, hn, hrows, Option.some.inj (hcolumns.symm.trans hrows)⟩

theorem Tensor.distance_settles (h : ProductOp.distance.shape? t.shape u.shape = some s) :
    Settles (t.distance u) s := by
  obtain ⟨hsectors, hruns, hregions⟩ := ProductOp.shape?_eq_some_iff.1 h
  obtain ⟨m, n, hm, hn, hjoin, hsquare⟩ := ProductOp.sectors?_distance.1 hsectors
  have hjoin : (t.shape.withSectors m m).join? (u.shape.withSectors n n) = some s :=
    Shape.join?_eq_some_iff.2 ⟨hruns, hregions, hjoin, hsquare ▸ hjoin⟩
  obtain ⟨ht, hu⟩ := Shape.expandsTo_of_join? hjoin
  refine (zipWith_settles (Shape.join?_transposed.2 ⟨m, hm, rfl⟩)).bind ht fun across hacross => ?_
  refine (zipWith_settles (Shape.join?_transposed.2 ⟨n, hn, rfl⟩)).bind hu fun along halong => ?_
  have hsquares : (across.map Scalar.square).shape.join? (along.map Scalar.square).shape = some s :=
    (congrArg₂ Shape.join? hacross halong).trans hjoin
  refine (zipWith_settles hsquares).bind s.expandsTo_self fun squares hshape => ?_
  exact hshape ▸ .ok (squares.map Scalar.sqrt)

theorem SectorOp.shape?_of_apply {op : SectorOp} (h : op.apply t = .ok v) :
    op.shape? t.shape = some v.shape := by
  cases op with
  | transpose =>
    obtain rfl := Except.ok.inj h
    rfl
  | sumFirst | sumSecond | sumRegions | identity =>
    rw [Tensor.shape_of_allocate h]
    rfl
  | inverse =>
    have hsquare := Tensor.square_of_inverse h
    obtain rfl := Except.ok.inj ((Tensor.inverse_of_square hsquare).symm.trans h)
    exact if_pos hsquare

theorem SectorOp.apply_settles {op : SectorOp} (h : op.shape? t.shape = some s) :
    Settles (op.apply t) s := by
  cases op with
  | transpose =>
    obtain rfl := Option.some.inj h
    exact .ok t.transpose
  | sumFirst | sumSecond | sumRegions | identity =>
    obtain rfl := Option.some.inj h
    exact Settles.allocate _ _
  | inverse =>
    obtain ⟨hsquare, hs⟩ := Option.ite_none_right_eq_some.1 h
    obtain rfl := Option.some.inj hs
    exact .inl ⟨_, Tensor.inverse_of_square hsquare, rfl⟩

theorem ProductOp.shape?_of_apply {op : ProductOp} (h : op.apply t u = .ok v) :
    op.shape? t.shape u.shape = some v.shape := by
  cases op with
  | matmul => exact Tensor.shape?_of_matmul h
  | sectorProduct => exact Tensor.shape?_of_matmul (t := t.transpose) h
  | distance => exact Tensor.shape?_of_distance h

theorem ProductOp.apply_settles {op : ProductOp} (h : op.shape? t.shape u.shape = some s) :
    Settles (op.apply t u) s := by
  cases op with
  | matmul => exact Tensor.matmul_settles h
  | sectorProduct => exact Tensor.matmul_settles (t := t.transpose) h
  | distance => exact Tensor.distance_settles h

end Shapes

end FieldFlow
