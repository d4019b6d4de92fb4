import FieldFlow.Proofs.Scalar.Ordered
import Mathlib.Data.Rat.Sqrt
import Mathlib.Tactic.Linarith

/-!
# Proofs/Scalar/Partial — exact arithmetics with what is not a number

An operation that has no result, zero over zero for instance, gives what is not a number. That
compares with nothing, and what is computed with it is no number either (`ExactPartial`). Of powers
no more is asked than that those of what is above one, with a negative exponent, are at most one
(`ExactPowers`), and of roots that those of squares are exact (`ExactRoots`).
-/

namespace FieldFlow

section Classes

variable (K : Type) [Field K] [LinearOrder K] [IsStrictOrderedRing K] [FloorSemiring K] (α : Type)
  [Scalar α]

open ExactOver

/-- **An exact arithmetic with what is not a number.** -/
class ExactPartial extends ExactFloor K α where
  /-- Nothing but the number itself equals a number. -/
  eq_of_iff : ∀ (a : α) (x : K), Scalar.eq a (of x) = true ↔ a = of x
  zero_div_zero : Scalar.isNumber (of (0 : K) / of (0 : K) : α) = false
  lt_undefined : ∀ a b : α, Scalar.isNumber a = false ∨ Scalar.isNumber b = false →
    Scalar.lt a b = false
  le_undefined : ∀ a b : α, Scalar.isNumber a = false ∨ Scalar.isNumber b = false →
    Scalar.le a b = false
  add_undefined : ∀ a b : α, Scalar.isNumber a = false ∨ Scalar.isNumber b = false →
    Scalar.isNumber (a + b) = false
  mul_undefined : ∀ a b : α, Scalar.isNumber a = false ∨ Scalar.isNumber b = false →
    Scalar.isNumber (a * b) = false
  div_undefined : ∀ a b : α, Scalar.isNumber a = false ∨ Scalar.isNumber b = false →
    Scalar.isNumber (a / b) = false

/-- **An exact arithmetic with powers.** -/
class ExactPowers extends ExactPartial K α where
  neg : ∀ x : K, -(of x : α) = of (-x)
  /-- A power of what is above one, infinite for instance, or is not a number. -/
  pow_neg : ∀ (a : α) (e : K), 0 < e → Scalar.le a Scalar.one = false →
    Scalar.isNumber (Scalar.pow a (of (-e))) = false ∨
      ∃ y : K, y ≤ 1 ∧ Scalar.pow a (of (-e)) = of y

/-- **An exact arithmetic with roots.** -/
class ExactRoots extends ExactPartial K α where
  abs : ∀ x : K, Scalar.abs (of x : α) = of |x|
  sqrt_square : ∀ x : K, Scalar.sqrt (of (x * x) : α) = of |x|
  sqrt_undefined : ∀ a : α, Scalar.isNumber a = false → Scalar.isNumber (Scalar.sqrt a) = false

end Classes

namespace ExactPartial

open ExactOver

variable {K α : Type} [Field K] [LinearOrder K] [IsStrictOrderedRing K] [FloorSemiring K] [Scalar α]
  [ExactPartial K α]

theorem isNumber_of (x : K) : Scalar.isNumber (of x : α) = true :=
  (eq_of_iff (of x) x).2 rfl

theorem max_of (x y : K) : Scalar.max (of x : α) (of y) = of (max x y) := by
  rw [Scalar.max, isNumber_of, lt]
  rcases lt_or_ge y x with h | h
  · rw [if_pos (by simpa using h), max_eq_left h.le]
  · rw [if_neg (by simpa using h), max_eq_right h]

theorem min_of (x y : K) : Scalar.min (of x : α) (of y) = of (min x y) := by
  rw [Scalar.min, isNumber_of, lt]
  rcases lt_or_ge x y with h | h
  · rw [if_pos (by simpa using h), min_eq_left h.le]
  · rw [if_neg (by simpa using h), min_eq_right h]

/-- Of what is not a number and a number, the larger one is the number. -/
theorem max_undefined {a : α} (h : Scalar.isNumber a = false) (x : K) :
    Scalar.max a (of x) = of x := by
  rw [Scalar.max, isNumber_of, lt_undefined K _ _ (.inr h)]
  rfl

end ExactPartial

/-! ## Fractions with roots -/

/-- The operations of fractions, with the roots of squares; of what is no square the root is that of
squares nearby. -/
@[reducible] def Fraction.withRoots : Scalar Fraction :=
  { Fraction.withTangents with
    sqrt := fun a => ⟨a.value?.bind fun p => if p < 0 then none else some p.sqrt⟩ }

/-- **Fractions with roots** and rough powers. -/
def Rooted : Type := Fraction

namespace Rooted

def of (q : Rat) : Rooted := Fraction.of q

def notANumber : Rooted := Fraction.notANumber

instance : DecidableEq Rooted := inferInstanceAs (DecidableEq Fraction)

instance : Scalar Rooted := Fraction.withRoots

instance : Exact Rooted where
  of := of
  ofQuot := Exact.ofQuot (α := Rough)
  add := Exact.add (α := Rough)
  sub := Exact.sub (α := Rough)
  mul := Exact.mul (α := Rough)
  le := Exact.le (α := Rough)
  lt := Exact.lt (α := Rough)
  isFinite_of := Exact.isFinite_of (α := Rough)
  exists_of := Exact.exists_of (α := Rough)
  absorbs := Exact.absorbs (α := Rough)
  lt_irrefl := Exact.lt_irrefl (α := Rough)

instance : ExactFloor Rat Rooted where
  div _ _ hy := congrArg Fraction.mk (if_neg hy)
  whole _ := rfl

theorem eq_notANumber {a : Rooted} (h : Scalar.isNumber a = false) : a = notANumber := by
  obtain ⟨_ | p⟩ := a
  · rfl
  · exact absurd h (Bool.not_eq_false _ ▸ decide_eq_true rfl)

/-- Nothing comes of what is not a number. -/
theorem combine_undefined (f : Rat → Rat → Option Rat) {a b : Rooted}
    (h : Scalar.isNumber a = false ∨ Scalar.isNumber b = false) :
    Fraction.combine f a b = notANumber := by
  rcases h with h | h
  · rw [eq_notANumber h]
    rfl
  · rw [eq_notANumber h]
    obtain ⟨_ | p⟩ := a <;> rfl

theorem compare_undefined (holds : Rat → Rat → Bool) {a b : Rooted}
    (h : Scalar.isNumber a = false ∨ Scalar.isNumber b = false) :
    Fraction.compare holds a b = false := by
  rcases h with h | h
  · rw [eq_notANumber h]
    rfl
  · rw [eq_notANumber h]
    obtain ⟨_ | p⟩ := a <;> rfl

instance : ExactPartial Rat Rooted where
  eq_of_iff a x := by
    obtain ⟨_ | p⟩ := a
    · exact ⟨nofun, nofun⟩
    · refine decide_eq_true_iff.trans ⟨fun h => congrArg of h, fun h => ?_⟩
      exact Option.some.inj (congrArg Fraction.value? h)
  zero_div_zero := rfl
  lt_undefined _ _ h := compare_undefined _ h
  le_undefined _ _ h := compare_undefined _ h
  add_undefined _ _ h := congrArg (Scalar.isNumber (α := Rooted)) (combine_undefined _ h)
  mul_undefined _ _ h := congrArg (Scalar.isNumber (α := Rooted)) (combine_undefined _ h)
  div_undefined _ _ h := congrArg (Scalar.isNumber (α := Rooted)) (combine_undefined _ h)

instance : ExactPowers Rat Rooted where
  neg _ := rfl
  pow_neg a e he ha := by
    obtain ⟨_ | p⟩ := a
    · exact .inl rfl
    · rw [Exact.one_eq] at ha
      have hp : 1 < p := ExactOver.lt_of_le_eq_false (α := Rooted) ha
      refine .inr ⟨1 + -e * (p - 1), ?_, rfl⟩
      nlinarith

instance : ExactRoots Rat Rooted where
  abs x := by
    refine congrArg of ?_
    rcases lt_or_ge x 0 with h | h
    · exact (if_pos h).trans (abs_of_neg h).symm
    · exact (if_neg (not_lt.2 h)).trans (abs_of_nonneg h).symm
  sqrt_square x := by
    have hsquare : ¬ x * x < 0 := not_lt.2 (mul_self_nonneg x)
    refine congrArg Fraction.mk ((if_neg hsquare).trans ?_)
    rw [Rat.sqrt_eq]
  sqrt_undefined a h := by
    rw [eq_notANumber h]
    rfl

end Rooted

end FieldFlow
