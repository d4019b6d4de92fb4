import FieldFlow.Tensor.Capacity
import Mathlib.Data.List.Forall2

/-!
# Proofs/Tensor/Extent — what is smaller can be held as well

Room is checked on products of lengths, and the check for places leaves the empty axes out. So it is
kept when axes shrink, as long as none of them shrinks to nothing (`checkExtent_of_shrinks`).
-/

namespace FieldFlow

/-- A length that is not larger than another, and empty only where the other is. -/
def Shrinks (a b : Nat) : Prop := a ≤ b ∧ (a = 0 → b = 0)

theorem Shrinks.refl (a : Nat) : Shrinks a a := ⟨Nat.le_refl a, id⟩

theorem foldl_mul_le {as bs : List Nat} (h : List.Forall₂ Shrinks as bs) :
    as.foldl (· * ·) 1 ≤ bs.foldl (· * ·) 1 := by
  rw [← List.prod_eq_foldl_nat, ← List.prod_eq_foldl_nat]
  induction h with
  | nil => exact Nat.le_refl 1
  | cons hab _ ih =>
    rw [List.prod_cons, List.prod_cons]
    exact Nat.mul_le_mul hab.1 ih

/-- The axes that are not empty stay the same ones. -/
theorem filter_shrinks {as bs : List Nat} (h : List.Forall₂ Shrinks as bs) :
    List.Forall₂ Shrinks (as.filter (· ≠ 0)) (bs.filter (· ≠ 0)) := by
  refine List.rel_filter (fun {a b} hab => ?_) h
  simp only [decide_eq_true_eq]
  exact not_congr ⟨hab.2, fun hb => Nat.le_zero.1 (hb ▸ hab.1)⟩

theorem isAddressable_of_shrinks {as bs : List Nat} (h : List.Forall₂ Shrinks as bs)
    (hb : isAddressable bs = true) : isAddressable as = true := by
  rw [isAddressable, decide_eq_true_eq] at hb ⊢
  exact Nat.lt_of_le_of_lt (foldl_mul_le (filter_shrinks h)) hb

theorem checkExtent_eq_ok_iff {axes : List Nat} :
    checkExtent axes = .ok () ↔
      isAddressable axes = true ∧ axes.foldl (· * ·) 1 * numberBytes < memoryEnd := by
  unfold checkExtent checkCapacity
  split
  · rename_i h
    simp [h]
  · rename_i h
    simp [h]

/-- Axes are refused for one reason only. -/
theorem eq_oversized_of_checkExtent {axes : List Nat} {fault : Fault}
    (h : checkExtent axes = .error fault) : fault = .oversized := by
  unfold checkExtent checkCapacity at h
  split at h
  · split at h
    · exact nomatch h
    · exact (Except.error.inj h).symm
  · exact (Except.error.inj h).symm

/-- **What is smaller can be held**, where nothing has become empty. -/
theorem checkExtent_of_shrinks {as bs : List Nat} (h : List.Forall₂ Shrinks as bs)
    (hb : checkExtent bs = .ok ()) : checkExtent as = .ok () := by
  rw [checkExtent_eq_ok_iff] at hb ⊢
  refine ⟨isAddressable_of_shrinks h hb.1, ?_⟩
  have hle := Nat.mul_le_mul_right numberBytes (foldl_mul_le h)
  omega

end FieldFlow
