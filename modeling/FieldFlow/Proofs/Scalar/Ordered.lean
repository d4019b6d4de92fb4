import FieldFlow.Proofs.Scalar.Exact
import Mathlib.Algebra.Order.Field.Rat
import Mathlib.Data.Rat.Floor

/-!
# Proofs/Scalar/Ordered — arithmetics that are exact over an ordered field

The finite values of such an arithmetic are the elements of a field with an order, the fractions or
the real numbers for instance, and are added, multiplied and compared as such. As in an arithmetic
that is exact on fractions, which is the one over the field of fractions, nothing is asked of roots
and powers, so that an error may be anything at all.
-/

namespace FieldFlow

/-- A field in the sense of algebra, also where `Field` means a field of a model. -/
abbrev FieldOfNumbers (K : Type) : Type := Field K

/-- **An arithmetic that is exact over an ordered field.** -/
class ExactOver (K : Type) [Field K] [LinearOrder K] [IsStrictOrderedRing K] (α : Type)
    [Scalar α] where
  /-- The scalar for an element of the field. -/
  of : K → α
  ofQuot : ∀ (p : Int) (q : Nat), 0 < q → (Scalar.ofQuot p q : α) = of (p / q)
  add : ∀ x y : K, of x + of y = of (x + y)
  sub : ∀ x y : K, of x - of y = of (x - y)
  mul : ∀ x y : K, of x * of y = of (x * y)
  le : ∀ x y : K, Scalar.le (of x) (of y) = decide (x ≤ y)
  lt : ∀ x y : K, Scalar.lt (of x) (of y) = decide (x < y)
  isFinite_of : ∀ x : K, Scalar.isFinite (of x) = true
  /-- What is finite is in the field. -/
  exists_of : ∀ a : α, Scalar.isFinite a = true → ∃ x, a = of x
  /-- What is not finite stays what it is. -/
  absorbs : ∀ a : α, Scalar.isFinite a = false → ∀ x, a + of x = a
  lt_irrefl : ∀ a : α, Scalar.lt a a = false

/-- **An exact arithmetic with quotients and whole parts.** -/
class ExactFloor (K : Type) [Field K] [LinearOrder K] [IsStrictOrderedRing K] [FloorSemiring K]
    (α : Type) [Scalar α] extends ExactOver K α where
  div : ∀ x y : K, y ≠ 0 → of x / of y = of (x / y)
  whole : ∀ x : K, Scalar.whole (of x) = ⌊x⌋₊

instance {α : Type} [Scalar α] [Exact α] : ExactOver Rat α where
  of := Exact.of
  ofQuot := Exact.ofQuot
  add := Exact.add
  sub := Exact.sub
  mul := Exact.mul
  le := Exact.le
  lt := Exact.lt
  isFinite_of := Exact.isFinite_of
  exists_of := Exact.exists_of
  absorbs := Exact.absorbs
  lt_irrefl := Exact.lt_irrefl

instance : ExactFloor Rat Rough where
  div _ _ hy := congrArg Fraction.mk (if_neg hy)
  whole _ := rfl

namespace ExactOver

variable {K α : Type} [Field K] [LinearOrder K] [IsStrictOrderedRing K] [Scalar α] [ExactOver K α]
  {x y z : K}

theorem le_of_lt_eq_false (h : Scalar.lt (of x : α) (of y) = false) : y ≤ x := by
  rw [lt, decide_eq_false_iff_not, not_lt] at h
  exact h

theorem lt_of_le_eq_false (h : Scalar.le (of x : α) (of y) = false) : y < x := by
  rw [le, decide_eq_false_iff_not, not_le] at h
  exact h

/-- A quotient by its value. -/
theorem ofQuot_eq {p : Int} {q : Nat} (hq : 0 < q) (hx : (p : K) / q = x) :
    (Scalar.ofQuot p q : α) = of x :=
  (ofQuot p q hq).trans (congrArg of hx)

theorem zero_eq : (Scalar.zero : α) = of (0 : K) := ofQuot_eq Nat.one_pos (by norm_num)

theorem one_eq : (Scalar.one : α) = of (1 : K) := ofQuot_eq Nat.one_pos (by norm_num)

theorem two_eq : (Scalar.two : α) = of (2 : K) := ofQuot_eq Nat.one_pos (by norm_num)

theorem half_eq : (Scalar.half : α) = of (1 / 2 : K) := ofQuot_eq Nat.two_pos (by norm_num)

theorem sixth_eq : (Scalar.ofQuot 1 6 : α) = of (1 / 6 : K) := ofQuot_eq (by norm_num) (by norm_num)

theorem ofNat_eq (n : Nat) : (Scalar.ofNat n : α) = of (n : K) :=
  ofQuot_eq Nat.one_pos (by norm_num)

/-- Coefficients are read as they are. -/
theorem ofQuot_num_den (q : Rat) : (Scalar.ofQuot q.num q.den : α) = of (q : K) := by
  rw [ofQuot (K := K) q.num q.den q.den_pos, Rat.cast_def]

variable (K) in
theorem exists_of_or (a : α) : (∃ x : K, a = of x) ∨ Scalar.isFinite a = false := by
  cases hfinite : Scalar.isFinite a with
  | true => exact .inl (exists_of a hfinite)
  | false => exact .inr rfl

/-- Numbers that are added one after another are added together. -/
theorem add_of_add_of (a : α) (x y : K) : a + of x + of y = a + of (x + y) := by
  rcases exists_of_or K a with ⟨z, rfl⟩ | ha
  · rw [add, add, add, add_assoc]
  · rw [absorbs a ha, absorbs a ha, absorbs a ha]

theorem isFinite_add_of (a : α) (x : K) : Scalar.isFinite (a + of x) = Scalar.isFinite a := by
  rcases exists_of_or K a with ⟨z, rfl⟩ | ha
  · rw [add, isFinite_of, isFinite_of]
  · rw [absorbs a ha]

theorem add_of_zero (a : α) : a + of (0 : K) = a := by
  rcases exists_of_or K a with ⟨z, rfl⟩ | ha
  · rw [add, add_zero]
  · exact absorbs a ha 0

/-- Numbers that are added can be taken away again. -/
theorem add_of_inj {a b : α} (x : K) : a + of x = b + of x ↔ a = b := by
  refine ⟨fun h => ?_, fun h => by rw [h]⟩
  have hback := congrArg (· + (of (-x) : α)) h
  simpa only [add_of_add_of, add_neg_cancel, add_of_zero] using hback

/-- What is added to something and brings it further is positive. -/
theorem pos_of_lt_add {a : α} (h : Scalar.lt a (a + of x) = true) : 0 < x := by
  rcases exists_of_or K a with ⟨y, rfl⟩ | ha
  · rw [add, lt, decide_eq_true_iff] at h
    exact (lt_add_iff_pos_right y).1 h
  · rw [absorbs a ha, lt_irrefl K] at h
    exact nomatch h

/-- Numbers that are different stay different. -/
theorem of_injective : Function.Injective (of : K → α) := by
  intro x y h
  have hle : Scalar.le (of x : α) (of y) = true := by rw [← h, le, decide_eq_true le_rfl]
  have hge : Scalar.le (of y : α) (of x) = true := by rw [← h, le, decide_eq_true le_rfl]
  rw [le, decide_eq_true_iff] at hle hge
  exact le_antisymm hle hge

/-- What is not below the larger one of two is not below the first. -/
theorem le_of_lt_max_eq_false (h : Scalar.lt (of x : α) (Scalar.max (of y) (of z)) = false) :
    y ≤ x := by
  unfold Scalar.max at h
  split at h
  · exact le_of_lt_eq_false h
  · rename_i hsecond
    rw [Bool.or_eq_true, not_or, Bool.not_eq_true] at hsecond
    exact (le_of_lt_eq_false hsecond.1).trans (le_of_lt_eq_false h)

end ExactOver

/-! ## Sums and products alone -/

/-- What every sum with a certain term has, sums of many terms have. -/
theorem foldl_add_of_mem {α : Type} [Add α] {P : α → Prop} (hP : ∀ a b, P a ∨ P b → P (a + b))
    {l : List α} {acc : α} (h : P acc ∨ ∃ a ∈ l, P a) : P (l.foldl (· + ·) acc) := by
  induction l generalizing acc with
  | nil => simpa using h
  | cons a l ih =>
    rw [List.exists_mem_cons_iff] at h
    rw [List.foldl_cons]
    rcases h with hacc | ha | hrest
    · exact ih (.inl (hP _ _ (.inl hacc)))
    · exact ih (.inl (hP _ _ (.inr ha)))
    · exact ih (.inr hrest)

/-- **An arithmetic in which numbers are added and multiplied exactly**, whatever numbers these
are. -/
class ExactSums (K : Type) [CommSemiring K] (α : Type) [Scalar α] where
  /-- The scalar for a number. -/
  of : K → α
  zero : (Scalar.zero : α) = of 0
  one : (Scalar.one : α) = of 1
  add : ∀ x y : K, of x + of y = of (x + y)
  mul : ∀ x y : K, of x * of y = of (x * y)

instance {K α : Type} [Field K] [LinearOrder K] [IsStrictOrderedRing K] [Scalar α]
    [ExactOver K α] : ExactSums K α where
  of := ExactOver.of
  zero := ExactOver.zero_eq
  one := ExactOver.one_eq
  add := ExactOver.add
  mul := ExactOver.mul

section Sums

variable {K α : Type} [CommSemiring K] [Scalar α] [ExactSums K α]

open ExactSums

theorem ExactSums.foldl_of : ∀ (xs : List K) (x : K),
    (xs.map (of : K → α)).foldl (· + ·) (of x) = of (x + xs.sum)
  | [], x => by simp
  | y :: xs, x => by
      rw [List.map_cons, List.foldl_cons, add, foldl_of xs, List.sum_cons, add_assoc]

/-- The sum of numbers is a number. -/
theorem ExactSums.sum_of (xs : List K) : Scalar.sum (xs.map (of : K → α)) = of xs.sum := by
  have hzero : (Scalar.zero : α) = of (0 : K) := zero
  rw [Scalar.sum, hzero, foldl_of, zero_add]

end Sums

end FieldFlow
