import FieldFlow.Proofs.Scalar.Fraction
import Mathlib.Data.Rat.Lemmas
import Mathlib.Tactic.Ring

/-!
# Proofs/Scalar/Exact — arithmetics that are exact on fractions

An exact arithmetic reads its constants as fractions and adds, multiplies and compares them as such.
Nothing is asked of roots and powers, which have no fraction for a value in general, and little of
what is not a number: adding to it leaves it as it is. `Rough` is such an arithmetic, with roots and
powers that are good enough to control a step size with.
-/

namespace FieldFlow

/-- **An arithmetic that is exact on fractions.** -/
class Exact (α : Type) [Scalar α] where
  /-- The scalar for a fraction. -/
  of : Rat → α
  ofQuot : ∀ (p : Int) (q : Nat), 0 < q → (Scalar.ofQuot p q : α) = of (p / q)
  add : ∀ p q : Rat, of p + of q = of (p + q)
  sub : ∀ p q : Rat, of p - of q = of (p - q)
  mul : ∀ p q : Rat, of p * of q = of (p * q)
  le : ∀ p q : Rat, Scalar.le (of p) (of q) = decide (p ≤ q)
  lt : ∀ p q : Rat, Scalar.lt (of p) (of q) = decide (p < q)
  isFinite_of : ∀ q : Rat, Scalar.isFinite (of q) = true
  /-- What is finite is a fraction. -/
  exists_of : ∀ a : α, Scalar.isFinite a = true → ∃ q, a = of q
  /-- What is not finite stays what it is. -/
  absorbs : ∀ a : α, Scalar.isFinite a = false → ∀ q, a + of q = a
  lt_irrefl : ∀ a : α, Scalar.lt a a = false

namespace Exact

variable {α : Type} [Scalar α] [Exact α]

theorem one_eq : (Scalar.one : α) = of 1 := by
  rw [Scalar.one, ofQuot 1 1 Nat.one_pos]
  norm_num

theorem ofNat_eq (n : Nat) : (Scalar.ofNat n : α) = of n := by
  rw [Scalar.ofNat, ofQuot n 1 Nat.one_pos]
  norm_num

end Exact

/-! ## An exact arithmetic -/

/-- The operations of fractions, with roots and powers read off the tangent at one. -/
@[reducible] def Fraction.withTangents : Scalar Fraction :=
  { (inferInstance : Scalar Fraction) with
    sqrt := .map fun p => (1 + p) / 2
    pow := .combine fun p q => some (1 + q * (p - 1)) }

/-- **Fractions with rough roots and powers.** -/
def Rough : Type := Fraction

namespace Rough

def of (q : Rat) : Rough := Fraction.of q

instance : DecidableEq Rough := inferInstanceAs (DecidableEq Fraction)

instance : Scalar Rough := Fraction.withTangents

/-- What is not a fraction is not finite, and compares with nothing. -/
theorem eq_notANumber {a : Rough} (h : Scalar.isFinite a = false) : a = Fraction.notANumber := by
  obtain ⟨_ | q⟩ := a
  · rfl
  · exact nomatch h

instance : Exact Rough where
  of := of
  ofQuot p q _ := congrArg of (Rat.mkRat_eq_div p q)
  add _ _ := rfl
  sub _ _ := rfl
  mul _ _ := rfl
  le _ _ := rfl
  lt _ _ := rfl
  isFinite_of _ := rfl
  exists_of a h := by
    obtain ⟨_ | q⟩ := a
    · exact nomatch h
    · exact ⟨q, rfl⟩
  absorbs a h q := by
    rw [eq_notANumber h]
    rfl
  lt_irrefl a := by
    obtain ⟨_ | q⟩ := a
    · rfl
    · exact decide_eq_false (lt_irrefl q)

end Rough

end FieldFlow
