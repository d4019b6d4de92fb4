import FieldFlow.Proofs.Tensor.Member
import FieldFlow.Tensor.Inverse

/-!
# Proofs/Tensor/Inverse — inverting block by block

Whether a block has an inverse, and which, depends on the entries of the block alone
(`Block.inverse?_congr`), so the inverses of all blocks can be read one by one (`inverse_of_square`)
and a member is inverted as its run is in the whole.
-/

namespace FieldFlow

variable {α : Type} [Scalar α]

namespace Block

variable {m m' : Block α}

omit [Scalar α] in
/-- Blocks with the same entries. -/
def Agree (n : Nat) (m m' : Block α) : Prop := ∀ i < n, ∀ j < n, m i j = m' i j

theorem minor_congr {n : Nat} (h : Agree n m m') (turned : Bool) {r₀ r₁ r₂ c₀ c₁ c₂ : Nat}
    (hr₀ : r₀ < n) (hr₁ : r₁ < n) (hr₂ : r₂ < n) (hc₀ : c₀ < n) (hc₁ : c₁ < n) (hc₂ : c₂ < n) :
    minor m turned r₀ r₁ r₂ c₀ c₁ c₂ = minor m' turned r₀ r₁ r₂ c₀ c₁ c₂ := by
  simp only [minor, h _ hr₀ _ hc₀, h _ hr₀ _ hc₁, h _ hr₀ _ hc₂, h _ hr₁ _ hc₀, h _ hr₁ _ hc₁,
    h _ hr₁ _ hc₂, h _ hr₂ _ hc₀, h _ hr₂ _ hc₁, h _ hr₂ _ hc₂]

theorem others_lt (k : Nat) : (others k).1 < 4 ∧ (others k).2.1 < 4 ∧ (others k).2.2 < 4 := by
  refine ⟨?_, ?_, ?_⟩ <;>
  · simp only [others]
    split <;> omega

theorem cofactor_congr (h : Agree 4 m m') (i j : Nat) : cofactor m i j = cofactor m' i j := by
  obtain ⟨hr₀, hr₁, hr₂⟩ := others_lt i
  obtain ⟨hc₀, hc₁, hc₂⟩ := others_lt j
  exact minor_congr h _ hr₀ hr₁ hr₂ hc₀ hc₁ hc₂

theorem inverse2?_congr (h : Agree 2 m m') : inverse2? m = inverse2? m' := by
  unfold Agree at h
  simp only [inverse2?, h 0 (by decide) 0 (by decide), h 0 (by decide) 1 (by decide),
    h 1 (by decide) 0 (by decide), h 1 (by decide) 1 (by decide)]

theorem inverse3?_congr (h : Agree 3 m m') : inverse3? m = inverse3? m' := by
  unfold Agree at h
  simp only [inverse3?, h 0 (by decide) 0 (by decide), h 0 (by decide) 1 (by decide),
    h 0 (by decide) 2 (by decide), h 1 (by decide) 0 (by decide), h 1 (by decide) 1 (by decide),
    h 1 (by decide) 2 (by decide), h 2 (by decide) 0 (by decide), h 2 (by decide) 1 (by decide),
    h 2 (by decide) 2 (by decide)]

theorem inverse4?_congr (h : Agree 4 m m') : inverse4? m = inverse4? m' := by
  simp only [inverse4?, cofactor_congr h, h 0 (by decide) 0 (by decide),
    h 1 (by decide) 0 (by decide), h 2 (by decide) 0 (by decide), h 3 (by decide) 0 (by decide)]

theorem inverseByElimination?_congr {n : Nat} (h : Agree n m m') :
    inverseByElimination? n m = inverseByElimination? n m' := by
  have hrows : ∀ i ∈ List.range n, (List.range n).map (m i) = (List.range n).map (m' i) :=
    fun i hi => List.map_congr_left fun j hj => h i (List.mem_range.1 hi) j (List.mem_range.1 hj)
  unfold inverseByElimination?
  dsimp only
  rw [List.map_congr_left fun i hi => by rw [hrows i hi]]

/-- **The inverse of a block depends on its entries.** -/
theorem inverse?_congr {n : Nat} (hn : 0 < n) (h : Agree n m m') :
    inverse? n m = inverse? n m' := by
  match n, hn, h with
  | 1, _, h =>
    have h₀ := h 0 (by decide) 0 (by decide)
    simp only [inverse?, inverse1?, h₀]
  | 2, _, h => exact inverse2?_congr h
  | 3, _, h => exact inverse3?_congr h
  | 4, _, h => exact inverse4?_congr h
  | n + 5, _, h => exact inverseByElimination?_congr h

end Block

namespace Tensor

variable {n x : Nat} {t v : Tensor α}

/-- One element of the inverse of a block. -/
def inverseAt (t : Tensor α) (x r i j : Nat) : α :=
  match Block.inverse? t.shape.sectorA (t.get x r) with
  | some inverted => inverted i j
  | none => Scalar.nan

/-- The place of a block among all blocks. -/
theorem getElem?_ofFn_block {β : Type} {runs regions x r : Nat} (f : Nat → Nat → β) (hx : x < runs)
    (hr : r < regions) :
    (Array.ofFn fun k : Fin (runs * regions) => f (k / regions) (k % regions))[x * regions + r]? =
      some (f x r) := by
  have hlt : x * regions + r < runs * regions :=
    calc x * regions + r < x * regions + regions := Nat.add_lt_add_left hr _
      _ = (x + 1) * regions := (Nat.succ_mul x regions).symm
      _ ≤ runs * regions := Nat.mul_le_mul_right regions hx
  have hdiv : (x * regions + r) / regions = x := by
    rw [Nat.mul_comm, Nat.mul_add_div (Nat.zero_lt_of_lt hr), Nat.div_eq_of_lt hr, Nat.add_zero]
  have hmod : (x * regions + r) % regions = r := by
    rw [Nat.mul_comm, Nat.mul_add_mod, Nat.mod_eq_of_lt hr]
  rw [Array.getElem?_ofFn, dif_pos hlt]
  dsimp only
  rw [hdiv, hmod]

/-- **The inverse, block by block.** -/
theorem inverse_of_square (h : t.shape.sectorA = t.shape.sectorB) :
    t.inverse = .ok (ofFn t.shape t.inverseAt) := by
  unfold inverse
  dsimp only
  rw [if_neg (not_not.2 h)]
  refine congrArg Except.ok (ofFn_congr fun x r i j hc => ?_)
  rw [getElem?_ofFn_block (fun x r => Block.inverse? t.shape.sectorA (t.get x r)) hc.1 hc.2.1]
  rfl

theorem square_of_inverse (h : t.inverse = .ok v) : t.shape.sectorA = t.shape.sectorB := by
  by_contra hsquare
  unfold inverse at h
  dsimp only at h
  rw [if_pos hsquare] at h
  exact nomatch h

theorem inverseAt_member (hsquare : t.shape.sectorA = t.shape.sectorB) {r i j : Nat}
    (h : t.shape.Contains (axisIndex t.shape.runs x) r i j) :
    (t.member x).inverseAt 0 r i j = t.inverseAt (axisIndex t.shape.runs x) r i j := by
  obtain ⟨hrun, hregion, hi, hj⟩ := h
  have hagree : Block.Agree t.shape.sectorA ((t.member x).get 0 r)
      (t.get (axisIndex t.shape.runs x) r) := by
    intro i' hi' j' hj'
    exact get_member ⟨hrun, hregion, hi', hsquare ▸ hj'⟩
  have hinverse := Block.inverse?_congr (Nat.zero_lt_of_lt hi) hagree
  have hsectorA : (t.member x).shape.sectorA = t.shape.sectorA := rfl
  rw [inverseAt, inverseAt, hsectorA, hinverse]

theorem inverse_member (ht : Spans t.shape.runs n) (hx : x < n) :
    GivesMember n x t.inverse (t.member x).inverse := by
  intro v h
  have hsquare := square_of_inverse h
  have hmember : (t.member x).shape.sectorA = (t.member x).shape.sectorB := hsquare
  rw [inverse_of_square hsquare] at h
  obtain rfl := Except.ok.inj h
  refine ⟨ht, (inverse_of_square hmember).trans (congrArg Except.ok ?_)⟩
  exact (member_ofFn ht hx fun r i j hc => (inverseAt_member hsquare hc).symm).symm

end Tensor

end FieldFlow
