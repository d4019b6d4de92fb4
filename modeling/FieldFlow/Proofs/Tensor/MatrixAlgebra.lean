import FieldFlow.Proofs.Scalar.Ordered
import FieldFlow.Proofs.Tensor.ResultShape
import Mathlib.Algebra.BigOperators.Group.Finset.Sigma
import Mathlib.Algebra.BigOperators.Ring.Finset

/-!
# Proofs/Tensor/MatrixAlgebra — the sector operators as operations on matrices

Over numbers that are added and multiplied exactly a matrix product is the product of every pair of
blocks (`Tensor.matmul_embed_eq_ok_iff`). So products are associative and are exchanged by
transposition, the identity stays on the right, and sums over a sector axis are products with a
column of ones (`Tensor.sector_algebra`). Operands line up on one side of each equation where they
do on the other; only an inner product or an identity may be too large to be held.
-/

namespace FieldFlow

open ExactSums

/-! ## Blocks -/

namespace Block

variable {K : Type} [CommSemiring K]

/-- The product of two blocks, `n` columns by `n` rows. -/
def mul (n : Nat) (m m' : Block K) : Block K := fun i j => ∑ k ∈ Finset.range n, m i k * m' k j

theorem mul_mul (p q : Nat) (m m' m'' : Block K) :
    mul q (mul p m m') m'' = mul p m (mul q m' m'') := by
  funext i j
  simp only [mul, Finset.sum_mul, Finset.mul_sum, mul_assoc]
  exact Finset.sum_comm

/-- The transposed blocks in the other order. -/
theorem mul_comm_flip (n : Nat) (m m' : Block K) (i j : Nat) :
    mul n m m' j i = mul n (fun k j => m' j k) (fun i k => m k i) i j :=
  Finset.sum_congr rfl fun _ _ => mul_comm _ _

theorem mul_congr {n : Nat} {m m' w w' : Block K} {i j : Nat} (h : ∀ k < n, m i k = w i k)
    (h' : ∀ k < n, m' k j = w' k j) : mul n m m' i j = mul n w w' i j :=
  Finset.sum_congr rfl fun k hk => by
    rw [h k (Finset.mem_range.1 hk), h' k (Finset.mem_range.1 hk)]

end Block

/-! ## Axes that are joined one after another -/

theorem joinAxis?_assoc {a b c d e : Nat} (h : joinAxis? a b = some d)
    (h' : joinAxis? d c = some e) :
    ∃ f, joinAxis? b c = some f ∧ joinAxis? a f = some e := by
  refine ⟨if b = 1 then c else b, ?_⟩
  simp only [joinAxis?_eq_some_iff, axisExpands_iff] at h h' ⊢
  grind

theorem joinAxis?_one (a : Nat) : joinAxis? a 1 = some a := by
  simp [joinAxis?_eq_some_iff, axisExpands_iff]

/-- Shapes that line up from the left line up from the right. -/
theorem ProductOp.shape?_matmul_assoc {s t u p w : Shape}
    (h : ProductOp.matmul.shape? s t = some p) (h' : ProductOp.matmul.shape? p u = some w) :
    ∃ q, ProductOp.matmul.shape? t u = some q ∧ ProductOp.matmul.shape? s q = some w := by
  obtain ⟨hinner, ha, hb, hruns, hregions⟩ := shape?_matmul.1 h
  obtain ⟨hinner', ha', hb', hruns', hregions'⟩ := shape?_matmul.1 h'
  obtain ⟨runs, htuRuns, hsRuns⟩ := joinAxis?_assoc hruns hruns'
  obtain ⟨regions, htuRegions, hsRegions⟩ := joinAxis?_assoc hregions hregions'
  exact ⟨⟨runs, regions, t.sectorA, u.sectorB⟩,
    shape?_matmul.2 ⟨hb ▸ hinner', rfl, rfl, htuRuns, htuRegions⟩,
    shape?_matmul.2 ⟨hinner, ha'.trans ha, hb', hsRuns, hsRegions⟩⟩

theorem ProductOp.shape?_matmul_transposed {s t w : Shape}
    (h : ProductOp.matmul.shape? s t = some w) :
    ProductOp.matmul.shape? t.transposed s.transposed = some w.transposed := by
  obtain ⟨hinner, ha, hb, hruns, hregions⟩ := shape?_matmul.1 h
  rw [joinAxis?_comm] at hruns hregions
  exact shape?_matmul.2 ⟨hinner.symm, hb, ha, hruns, hregions⟩

/-- Shapes that line up from the right line up from the left. -/
theorem ProductOp.shape?_matmul_assoc' {s t u q w : Shape}
    (h : ProductOp.matmul.shape? t u = some q) (h' : ProductOp.matmul.shape? s q = some w) :
    ∃ p, ProductOp.matmul.shape? s t = some p ∧ ProductOp.matmul.shape? p u = some w := by
  obtain ⟨p, hp, hw⟩ := shape?_matmul_assoc (shape?_matmul_transposed h)
    (shape?_matmul_transposed h')
  exact ⟨p.transposed, shape?_matmul_transposed hp, shape?_matmul_transposed hw⟩

/-- Where an element of a product reads its factors. -/
theorem ProductOp.contains_of_shape?_matmul {s t w : Shape} {x r i j k : Nat}
    (h : ProductOp.matmul.shape? s t = some w) (hc : w.Contains x r i j) (hk : k < s.sectorB) :
    s.Contains (axisIndex s.runs x) (axisIndex s.regions r) i k ∧
      t.Contains (axisIndex t.runs x) (axisIndex t.regions r) k j := by
  obtain ⟨hinner, ha, hb, hruns, hregions⟩ := shape?_matmul.1 h
  obtain ⟨hsRuns, htRuns, -⟩ := joinAxis?_eq_some_iff.1 hruns
  obtain ⟨hsRegions, htRegions, -⟩ := joinAxis?_eq_some_iff.1 hregions
  obtain ⟨hx, hr, hi, hj⟩ := hc
  exact ⟨⟨axisIndex_lt hsRuns hx, axisIndex_lt hsRegions hr, ha ▸ hi, hk⟩,
    axisIndex_lt htRuns hx, axisIndex_lt htRegions hr, hinner ▸ hk, hb ▸ hj⟩

theorem Shape.check_transposed (s : Shape) : s.transposed.check = s.check :=
  checkExtent_perm ((List.Perm.swap s.sectorA s.sectorB []).cons s.regions |>.cons s.runs)

namespace Tensor

/-! ## Tensors by blocks -/

section Blocks

variable {α β : Type} [Inhabited α] [Inhabited β] {s : Shape} {t : Tensor α} {x r i j : Nat}

theorem block_of_lt (hx : x < t.shape.runs) (hr : r < t.shape.regions) :
    t.block x r = t.get x r := by
  rw [block, axisIndex_of_lt hx, axisIndex_of_lt hr]

theorem block_of_single (hruns : t.shape.runs = 1) (hregions : t.shape.regions = 1) :
    t.block x r = t.get 0 0 := by
  rw [block, axisIndex, axisIndex, if_pos hruns, if_pos hregions]

theorem map_ofFn (g : α → β) (f : Nat → Nat → Nat → Nat → α) :
    (ofFn s f).map g = ofFn s fun x r i j => g (f x r i j) := by
  refine ext_get rfl fun x r i j hc => ?_
  have hc : s.Contains x r i j := hc
  rw [get_map g (ofFn s f) hc, get_ofFn _ _ hc, get_ofFn _ _ hc]

/-- The tensor with its sector axes exchanged, over any elements. -/
def turned (t : Tensor α) : Tensor α := ofFn t.shape.transposed fun x r i j => t.get x r j i

theorem get_turned (h : t.shape.Contains x r j i) : t.turned.get x r i j = t.get x r j i :=
  get_ofFn _ _ ⟨h.1, h.2.1, h.2.2.2, h.2.2.1⟩

theorem turned_turned (t : Tensor α) : t.turned.turned = t := by
  refine ext_get rfl fun x r i j hc => ?_
  have hc : t.shape.Contains x r i j := hc
  have hturned : t.turned.shape.Contains x r j i := ⟨hc.1, hc.2.1, hc.2.2.2, hc.2.2.1⟩
  rw [get_turned hturned, get_turned hc]

end Blocks

/-! ## Tensors of numbers -/

section Numbers

variable {K : Type} [CommSemiring K] [Inhabited K] {a b : Tensor K} {s : Shape}

/-- The matrix product of numbers, in the shape that it has. -/
def product (a b : Tensor K) (s : Shape) : Tensor K :=
  ofFn s fun x r => Block.mul a.shape.sectorB (a.block x r) (b.block x r)

theorem block_product (h : ProductOp.matmul.shape? a.shape b.shape = some s) {x r i j : Nat}
    (hc : s.Contains (axisIndex s.runs x) (axisIndex s.regions r) i j) :
    (product a b s).block x r i j = Block.mul a.shape.sectorB (a.block x r) (b.block x r) i j := by
  obtain ⟨-, -, -, hruns, hregions⟩ := ProductOp.shape?_matmul.1 h
  obtain ⟨haRuns, hbRuns, -⟩ := joinAxis?_eq_some_iff.1 hruns
  obtain ⟨haRegions, hbRegions, -⟩ := joinAxis?_eq_some_iff.1 hregions
  refine (get_ofFn s _ hc).trans ?_
  rw [block, block, axisIndex_axisIndex haRuns, axisIndex_axisIndex hbRuns,
    axisIndex_axisIndex haRegions, axisIndex_axisIndex hbRegions]
  rfl

/-- **Products are associative**, block by block. -/
theorem product_product {c : Tensor K} {p q : Shape}
    (hp : ProductOp.matmul.shape? a.shape b.shape = some p)
    (hq : ProductOp.matmul.shape? b.shape c.shape = some q)
    (hs : ProductOp.matmul.shape? p c.shape = some s)
    (hs' : ProductOp.matmul.shape? a.shape q = some s) :
    product (product a b p) c s = product a (product b c q) s := by
  have hinner : p.sectorB = b.shape.sectorB := (ProductOp.shape?_matmul.1 hp).2.2.1
  refine ofFn_congr fun x r i j hc => ?_
  calc Block.mul p.sectorB ((product a b p).block x r) (c.block x r) i j
      = Block.mul p.sectorB (Block.mul a.shape.sectorB (a.block x r) (b.block x r))
          (c.block x r) i j :=
        Block.mul_congr (fun k hk =>
          block_product hp (ProductOp.contains_of_shape?_matmul hs hc hk).1) fun _ _ => rfl
    _ = Block.mul a.shape.sectorB (a.block x r)
          (Block.mul b.shape.sectorB (b.block x r) (c.block x r)) i j := by
        rw [Block.mul_mul, hinner]
    _ = Block.mul a.shape.sectorB (a.block x r) ((product b c q).block x r) i j :=
        Block.mul_congr (fun _ _ => rfl) fun k hk =>
          (block_product hq (ProductOp.contains_of_shape?_matmul hs' hc hk).2).symm

/-- **Transposition exchanges the factors.** -/
theorem turned_product (h : ProductOp.matmul.shape? a.shape b.shape = some s) :
    (product a b s).turned = product b.turned a.turned s.transposed := by
  refine ofFn_congr fun x r i j hc => ?_
  have hc' : s.Contains x r j i := ⟨hc.1, hc.2.1, hc.2.2.2, hc.2.2.1⟩
  have hinner : a.shape.sectorB = b.turned.shape.sectorB := (ProductOp.shape?_matmul.1 h).1
  have hread {k : Nat} (hk : k < a.shape.sectorB) := ProductOp.contains_of_shape?_matmul h hc' hk
  calc (product a b s).get x r j i
      = Block.mul a.shape.sectorB (a.block x r) (b.block x r) j i := get_ofFn _ _ hc'
    _ = Block.mul a.shape.sectorB (fun i k => b.block x r k i) (fun k j => a.block x r j k) i j :=
        Block.mul_comm_flip _ _ _ _ _
    _ = Block.mul b.turned.shape.sectorB (b.turned.block x r) (a.turned.block x r) i j := by
        rw [← hinner]
        exact Block.mul_congr (fun k hk => (get_turned (hread hk).2).symm)
          fun k hk => (get_turned (hread hk).1).symm

/-- The identity block, `n` by `n`. -/
def eye (n : Nat) : Tensor K := ofFn ⟨1, 1, n, n⟩ fun _ _ i j => if i = j then 1 else 0

theorem product_eye (a : Tensor K) : product a (eye a.shape.sectorB) a.shape = a := by
  refine ext_get rfl fun x r i j hc => ?_
  have hc : a.shape.Contains x r i j := hc
  have heye : ∀ k < a.shape.sectorB,
      (eye (K := K) a.shape.sectorB).block x r k j = if k = j then 1 else 0 :=
    fun k hk => by
      rw [block_of_single rfl rfl]
      exact get_ofFn _ _ ⟨Nat.one_pos, Nat.one_pos, hk, hc.2.2.2⟩
  calc (product a (eye a.shape.sectorB) a.shape).get x r i j
      = Block.mul a.shape.sectorB (a.block x r) ((eye a.shape.sectorB).block x r) i j :=
        get_ofFn _ _ hc
    _ = Block.mul a.shape.sectorB (a.get x r) (fun k j => if k = j then 1 else 0) i j := by
        rw [block_of_lt hc.1 hc.2.1]
        exact Block.mul_congr (fun _ _ => rfl) heye
    _ = a.get x r i j := by
        simp only [Block.mul, mul_ite, mul_one, mul_zero, Finset.sum_ite_eq', Finset.mem_range]
        rw [if_pos hc.2.2.2]

end Numbers

/-! ## Tensors of scalars that stand for numbers -/

section Embedded

variable {K : Type} [CommSemiring K] (α : Type) [Scalar α] [ExactSums K α] {s : Shape}

/-- The tensor of scalars for a tensor of numbers. -/
def embed (a : Tensor K) : Tensor α := a.map of

theorem sumRange_of (n : Nat) (f : Nat → K) :
    sumRange n (fun k => (of (f k) : α)) = of (∑ k ∈ Finset.range n, f k) := by
  induction n with
  | zero => exact ExactSums.zero
  | succ n ih =>
    rw [Finset.sum_range_succ, ← add, ← ih]
    simp [sumRange, Scalar.sum, List.range_succ]

variable [Inhabited K] {α} {a b c : Tensor K} {v : Tensor α}

theorem embed_ofFn (f : Nat → Nat → Nat → Nat → K) :
    (ofFn s f).embed α = ofFn s fun x r i j => of (f x r i j) := map_ofFn of f

theorem get_embed {x r i j : Nat} (h : a.shape.Contains x r i j) :
    (a.embed α).get x r i j = of (a.get x r i j) := get_map of a h

theorem transpose_embed (a : Tensor K) : (a.embed α).transpose = a.turned.embed α := by
  refine Eq.trans (ofFn_congr fun x r i j hc => ?_) (embed_ofFn _).symm
  exact get_embed ⟨hc.1, hc.2.1, hc.2.2.2, hc.2.2.1⟩

/-- **A matrix product of numbers** is given where the operands line up and there is room for it. -/
theorem matmul_embed_eq_ok_iff : (a.embed α).matmul (b.embed α) = .ok v ↔
    ∃ s, ProductOp.matmul.shape? a.shape b.shape = some s ∧ s.check = .ok () ∧
      (product a b s).embed α = v := by
  have hproduct {s : Shape} (h : ProductOp.matmul.shape? a.shape b.shape = some s) :
      (a.embed α).matmul (b.embed α) = allocate s fun x r i j =>
        of (Block.mul a.shape.sectorB (a.block x r) (b.block x r) i j) := by
    rw [matmul_eq_allocate (t := a.embed α) (u := b.embed α) h]
    refine allocate_congr fun x r i j hc => ?_
    rw [Block.mul, ← sumRange_of]
    refine sumRange_congr fun k hk => ?_
    obtain ⟨ha, hb⟩ := ProductOp.contains_of_shape?_matmul h hc hk
    exact (congrArg₂ (· * ·) (get_embed ha) (get_embed hb)).trans (mul _ _)
  constructor
  · intro h
    have hs : ProductOp.matmul.shape? a.shape b.shape = some v.shape := shape?_of_matmul h
    rw [hproduct hs, allocate_eq_ok_iff, ← embed_ofFn] at h
    exact ⟨v.shape, hs, h⟩
  · rintro ⟨s, hs, h⟩
    rw [hproduct hs, allocate_eq_ok_iff, ← embed_ofFn]
    exact h

/-- Products from the left are products from the right. -/
theorem matmul_assoc_of_ok
    (h : ((a.embed α).matmul (b.embed α) >>= (·.matmul (c.embed α))) = .ok v) :
    ((b.embed α).matmul (c.embed α) >>= (a.embed α).matmul) = .ok v ∨
      (b.embed α).matmul (c.embed α) = .error .oversized := by
  obtain ⟨ab, hab, hv⟩ := bind_eq_ok_iff.1 h
  obtain ⟨p, hp, -, rfl⟩ := matmul_embed_eq_ok_iff.1 hab
  obtain ⟨s, hs, hcheck, rfl⟩ := matmul_embed_eq_ok_iff.1 hv
  obtain ⟨q, hq, hs'⟩ := ProductOp.shape?_matmul_assoc hp hs
  rcases matmul_settles (t := b.embed α) (u := c.embed α) hq with ⟨bc, hbc, -⟩ | ⟨hbc, -⟩
  · obtain ⟨q', hq', -, rfl⟩ := matmul_embed_eq_ok_iff.1 hbc
    obtain rfl := Option.some.inj (hq.symm.trans hq')
    refine .inl (bind_eq_ok_iff.2 ⟨_, hbc, matmul_embed_eq_ok_iff.2 ⟨s, hs', hcheck, ?_⟩⟩)
    rw [product_product hp hq hs hs']
  · exact .inr hbc

/-- Products from the right are products from the left. -/
theorem matmul_assoc_of_ok'
    (h : ((b.embed α).matmul (c.embed α) >>= (a.embed α).matmul) = .ok v) :
    ((a.embed α).matmul (b.embed α) >>= (·.matmul (c.embed α))) = .ok v ∨
      (a.embed α).matmul (b.embed α) = .error .oversized := by
  obtain ⟨bc, hbc, hv⟩ := bind_eq_ok_iff.1 h
  obtain ⟨q, hq, -, rfl⟩ := matmul_embed_eq_ok_iff.1 hbc
  obtain ⟨s, hs', hcheck, rfl⟩ := matmul_embed_eq_ok_iff.1 hv
  obtain ⟨p, hp, hs⟩ := ProductOp.shape?_matmul_assoc' hq hs'
  rcases matmul_settles (t := a.embed α) (u := b.embed α) hp with ⟨ab, hab, -⟩ | ⟨hab, -⟩
  · obtain ⟨p', hp', -, rfl⟩ := matmul_embed_eq_ok_iff.1 hab
    obtain rfl := Option.some.inj (hp.symm.trans hp')
    refine .inl (bind_eq_ok_iff.2 ⟨_, hab, matmul_embed_eq_ok_iff.2 ⟨s, hs, hcheck, ?_⟩⟩)
    rw [product_product hp hq hs hs']
  · exact .inr hab

theorem matmul_transpose_of_ok (h : (a.embed α).matmul (b.embed α) = .ok v) :
    (b.embed α).transpose.matmul (a.embed α).transpose = .ok v.transpose := by
  obtain ⟨s, hs, hcheck, rfl⟩ := matmul_embed_eq_ok_iff.1 h
  rw [transpose_embed, transpose_embed, transpose_embed, turned_product hs]
  exact matmul_embed_eq_ok_iff.2 ⟨s.transposed, ProductOp.shape?_matmul_transposed hs,
    s.check_transposed.trans hcheck, rfl⟩

theorem transpose_transpose (a : Tensor K) : (a.embed α).transpose.transpose = a.embed α := by
  rw [transpose_embed, transpose_embed, turned_turned]

/-- **A transposed product** is the product of the transposed factors in the other order. -/
theorem toOption_matmul_transpose (a b : Tensor K) :
    (((a.embed α).matmul (b.embed α)).map transpose).toOption =
      ((b.embed α).transpose.matmul (a.embed α).transpose).toOption := by
  refine Option.ext fun v => ?_
  rw [toOption_eq_some_iff, toOption_eq_some_iff]
  constructor
  · intro h
    cases hab : (a.embed α).matmul (b.embed α) with
    | ok w =>
      rw [hab] at h
      obtain rfl := Except.ok.inj h
      exact matmul_transpose_of_ok hab
    | error fault =>
      rw [hab] at h
      exact nomatch h
  · intro h
    rw [transpose_embed, transpose_embed] at h
    have hab := matmul_transpose_of_ok h
    rw [transpose_embed, transpose_embed, turned_turned, turned_turned] at hab
    obtain ⟨s, -, -, rfl⟩ := matmul_embed_eq_ok_iff.1 h
    rw [hab, Except.map, transpose_transpose]

/-- **The identity stays on the right.** -/
theorem matmul_identity (a : Tensor K) :
    ((a.embed α).identity >>= (a.embed α).matmul) = .ok (a.embed α) ∨
      (a.embed α).identity = .error .oversized ∨ a.shape.check = .error .oversized := by
  have hentry (i j : Nat) : (if i = j then Scalar.one else Scalar.zero : α) =
      of (if i = j then (1 : K) else 0) := by
    split
    · exact ExactSums.one
    · exact ExactSums.zero
  have hidentity : (a.embed α).identity = do
      Shape.check ⟨1, 1, a.shape.sectorB, a.shape.sectorB⟩
      return (eye a.shape.sectorB : Tensor K).embed α := by
    rw [eye, embed_ofFn, ← funext fun i => funext (hentry i)]
    rfl
  cases heye : Shape.check ⟨1, 1, a.shape.sectorB, a.shape.sectorB⟩ with
  | error fault =>
    rw [hidentity, heye, eq_oversized_of_checkExtent heye]
    exact .inr (.inl rfl)
  | ok =>
    rw [heye] at hidentity
    cases hcheck : a.shape.check with
    | error fault => exact .inr (.inr (congrArg Except.error (eq_oversized_of_checkExtent hcheck)))
    | ok =>
      have hs : ProductOp.matmul.shape? a.shape (eye (K := K) a.shape.sectorB).shape =
          some a.shape :=
        ProductOp.shape?_matmul.2 ⟨rfl, rfl, rfl, joinAxis?_one _, joinAxis?_one _⟩
      refine .inl (bind_eq_ok_iff.2 ⟨_, hidentity, matmul_embed_eq_ok_iff.2 ⟨_, hs, hcheck, ?_⟩⟩)
      rw [product_eye]

/-- **A sum over the second axis** is a product with ones. -/
theorem sumSecond_embed (a : Tensor K) : (a.embed α).sumSecond =
    (a.embed α).matmul (fill ⟨1, 1, a.shape.sectorB, 1⟩ Scalar.one) := by
  have hs : ProductOp.matmul.shape? a.shape ⟨1, 1, a.shape.sectorB, 1⟩ =
      some (a.shape.withSectors a.shape.sectorA 1) :=
    ProductOp.shape?_matmul.2 ⟨rfl, rfl, rfl, joinAxis?_one _, joinAxis?_one _⟩
  refine Eq.trans ?_ (matmul_eq_allocate (t := a.embed α) (u := fill _ Scalar.one) hs).symm
  refine allocate_congr fun x r i j hc => sumRange_congr fun k hk => ?_
  have hx : x < (a.embed α).shape.runs := hc.1
  have hr : r < (a.embed α).shape.regions := hc.2.1
  have hin : a.shape.Contains x r i k := ⟨hx, hr, hc.2.2.1, hk⟩
  have hj : j < 1 := hc.2.2.2
  have hcolumn : Shape.Contains ⟨1, 1, a.shape.sectorB, 1⟩ 0 0 k j :=
    ⟨Nat.one_pos, Nat.one_pos, hk, hj⟩
  have hone : (fill ⟨1, 1, a.shape.sectorB, 1⟩ (Scalar.one : α)).block x r k j = of (1 : K) := by
    rw [block_of_single rfl rfl, get_fill _ hcolumn, ExactSums.one (K := K)]
  rw [hone, block_of_lt hx hr, get_embed hin, ExactSums.mul, mul_one]

end Embedded

/-- A sum over the first axis is one over the second axis of the transposed tensor. -/
theorem sumFirst_eq_sumSecond {α : Type} [Scalar α] (t : Tensor α) :
    t.sumFirst = t.transpose.sumSecond := by
  refine allocate_congr fun x r i _ hc => sumRange_congr fun k hk => ?_
  have hin : t.shape.transposed.Contains x r i k := ⟨hc.1, hc.2.1, hc.2.2.1, hk⟩
  exact (get_ofFn t.shape.transposed (fun x r i j => t.get x r j i) hin).symm

/-- **The sector operators are operations on matrices**, as long as there is room: products are
associative unless one of the two inner products is too large, they are exchanged by transposition,
the identity stays on the right unless it is too large itself, a sum over a sector axis is a product
with a column of ones, and the product of two vectors is the transposed one in the other order. -/
theorem sector_algebra {K α : Type} [CommSemiring K] [Scalar α] [ExactSums K α]
    (a b c : Tensor K) :
    let t := a.embed α
    let u := b.embed α
    let w := c.embed α
    ((t.matmul u >>= (·.matmul w)).toOption = (u.matmul w >>= t.matmul).toOption ∨
      t.matmul u = .error .oversized ∨ u.matmul w = .error .oversized) ∧
    ((t.matmul u).map transpose).toOption = (u.transpose.matmul t.transpose).toOption ∧
    ((t.identity >>= t.matmul) = .ok t ∨ t.identity = .error .oversized ∨
      t.shape.check = .error .oversized) ∧
    t.sumSecond = t.matmul (fill ⟨1, 1, t.shape.sectorB, 1⟩ Scalar.one) ∧
    t.sumFirst = t.sectorProduct (fill ⟨1, 1, t.shape.sectorA, 1⟩ Scalar.one) ∧
    (t.sectorProduct u).toOption = ((u.sectorProduct t).map transpose).toOption := by
  intro t u w
  let _ : Inhabited K := ⟨0⟩
  refine ⟨?assoc, toOption_matmul_transpose a b, matmul_identity a, sumSecond_embed a, ?first,
    ?swap⟩
  case assoc =>
    by_cases hab : t.matmul u = .error .oversized
    · exact .inr (.inl hab)
    by_cases hbc : u.matmul w = .error .oversized
    · exact .inr (.inr hbc)
    refine .inl (Option.ext fun v => ?_)
    rw [toOption_eq_some_iff, toOption_eq_some_iff]
    exact ⟨fun h => (matmul_assoc_of_ok h).resolve_right hbc,
      fun h => (matmul_assoc_of_ok' h).resolve_right hab⟩
  case first =>
    rw [sumFirst_eq_sumSecond, sectorProduct, transpose_embed]
    exact sumSecond_embed a.turned
  case swap =>
    have h := toOption_matmul_transpose (α := α) b.turned a
    rw [← transpose_embed, transpose_transpose] at h
    exact h.symm

/-- A row, a column and a row again. -/
theorem sector_algebra_row_column_row :
    let row : Tensor Rough := (ofFn ⟨1, 1, 1, 2⟩ fun _ _ _ k => (k + 1 : Rat)).embed Rough
    let column : Tensor Rough := (ofFn ⟨2, 1, 2, 1⟩ fun x _ k _ => (x + k : Rat)).embed Rough
    (row.matmul column >>= (·.matmul row)).toOption = (column.matmul row >>= row.matmul).toOption :=
  (sector_algebra _ _ _).1.resolve_right (by decide +kernel)

/-- **An inner product may be too large where the whole product is not**, if another axis is empty;
and so may the identity. -/
theorem oversized_inner_product :
    let a : Tensor Rough := fill ⟨1, 0, 2, 1⟩ Scalar.zero
    let b : Tensor Rough := fill ⟨1, 0, 1, 2 ^ 62⟩ Scalar.zero
    let c : Tensor Rough := fill ⟨1, 0, 2 ^ 62, 1⟩ Scalar.zero
    let d : Tensor Rough := fill ⟨1, 0, 1, 2 ^ 32⟩ Scalar.zero
    (a.shape.check = .ok () ∧ b.shape.check = .ok () ∧ c.shape.check = .ok () ∧
      (a.matmul b >>= (·.matmul c)).toOption = none ∧
      (b.matmul c >>= a.matmul) = .ok a) ∧
    d.shape.check = .ok () ∧ (d.identity >>= d.matmul) ≠ .ok d := by
  decide +kernel

end Tensor

end FieldFlow
