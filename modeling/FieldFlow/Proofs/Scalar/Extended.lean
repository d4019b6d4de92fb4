import FieldFlow.Proofs.Scalar.Comparison
import FieldFlow.Proofs.Scalar.Partial
import Mathlib.Analysis.SpecialFunctions.Pow.Real
import Mathlib.Analysis.SpecialFunctions.Trigonometric.Basic

/-!
# Proofs/Scalar/Extended — numbers with infinities and what is not a number

The numbers of an ordered field, two infinities, and one value that is no number: the arithmetic of
floating point without its rounding. What has no limit, as the difference of two infinities, is not
a number, and nothing comes of it. Over the real numbers this is exact real arithmetic; over the
fractions it can be computed in a proof, with elementary functions that are only near to what they
stand for.
-/

namespace FieldFlow

/-- **Elementary functions on numbers.** They may be near to the ones they are named for, but for
the sign of a root. -/
class Elementary (K : Type) [Field K] [LinearOrder K] where
  pi : K
  sqrt : K → K
  exp : K → K
  ln : K → K
  sin : K → K
  cos : K → K
  pow : K → K → K
  sqrt_nonneg : ∀ x : K, 0 ≤ sqrt x

/-- **A number, an infinity, or what is not a number.** -/
inductive Extended (K : Type) where
  | undefined
  | bottom
  | number (x : K)
  | top
deriving DecidableEq

namespace Extended

section Arithmetic

variable {K : Type} [Field K] [LinearOrder K]

/-- The infinity on the side of a number; zero has no side. -/
def infinite (x : K) : Extended K := if 0 < x then top else if x < 0 then bottom else undefined

/-- A number on the same side of zero; what is not a number counts as zero. -/
def side : Extended K → K
  | undefined => 0
  | bottom => -1
  | number x => x
  | top => 1

def neg : Extended K → Extended K
  | undefined => undefined
  | bottom => top
  | number x => number (-x)
  | top => bottom

def add : Extended K → Extended K → Extended K
  | number x, number y => number (x + y)
  | undefined, _ | _, undefined | top, bottom | bottom, top => undefined
  | top, _ | _, top => top
  | bottom, _ | _, bottom => bottom

/-- The product; that of zero and an infinity is not a number. -/
def mul : Extended K → Extended K → Extended K
  | number x, number y => number (x * y)
  | a, b => infinite (a.side * b.side)

/-- The quotient. Zero has no sign here, and divides like something small and positive. -/
def div : Extended K → Extended K → Extended K
  | number x, number y => if y = 0 then infinite x else number (x / y)
  | number _, top | number _, bottom => number 0
  | a, number y => infinite (a.side * if y < 0 then -1 else 1)
  | _, _ => undefined

def equal : Extended K → Extended K → Bool
  | number x, number y => x = y
  | bottom, bottom | top, top => true
  | _, _ => false

def below : Extended K → Extended K → Bool
  | number x, number y => x < y
  | bottom, number _ | bottom, top | number _, top => true
  | _, _ => false

def isNumeric : Extended K → Bool
  | undefined => false
  | _ => true

/-- A function that is known on numbers, with its limits at both infinities. -/
def extend (f : K → Extended K) (atBottom atTop : Extended K) : Extended K → Extended K
  | undefined => undefined
  | bottom => atBottom
  | number x => f x
  | top => atTop

variable [FloorRing K]

/-- The nearest whole number, halves away from zero. -/
def nearest (x : K) : K := if x < 0 then -⌊-x + 1 / 2⌋ else ⌊x + 1 / 2⌋

/-- Powers. A negative number has whole powers only, and what is not a number none but the power
zero. -/
def power [Elementary K] (a b : Extended K) : Extended K :=
  if b = number 0 || a = number 1 then number 1
  else
    match a, b with
    | number x, number y =>
      if x = 0 then if y < 0 then top else number 0
      else if x < 0 && y ≠ ⌊y⌋ then undefined
      else number (Elementary.pow x y)
    | number x, top => if |x| < 1 then number 0 else if |x| = 1 then number 1 else top
    | number x, bottom => if |x| < 1 then top else if |x| = 1 then number 1 else number 0
    | top, number y => if y < 0 then number 0 else top
    | bottom, number y =>
      if y < 0 then number 0 else if y = ⌊y⌋ && ⌊y⌋ % 2 = 1 then bottom else top
    | top, top | bottom, top => top
    | top, bottom | bottom, bottom => number 0
    | undefined, _ | _, undefined => undefined

instance [Elementary K] : Scalar (Extended K) where
  default := undefined
  add := add
  sub a b := a.add b.neg
  mul := mul
  div := div
  neg := neg
  ofQuot p q := number (p / q)
  nan := undefined
  infinity := top
  pi := number Elementary.pi
  eq := equal
  lt := below
  le a b := a.below b || a.equal b
  sortsBefore a b := !b.isNumeric || a.below b || a.equal b
  isFinite
    | number _ => true
    | undefined | bottom | top => false
  abs := extend (fun x => number |x|) top top
  sqrt := extend (fun x => if x < 0 then undefined else number (Elementary.sqrt x)) undefined top
  exp := extend (fun x => number (Elementary.exp x)) (number 0) top
  ln := extend (fun x => if 0 < x then number (Elementary.ln x) else if x = 0 then bottom
    else undefined) undefined top
  sin := extend (fun x => number (Elementary.sin x)) undefined undefined
  cos := extend (fun x => number (Elementary.cos x)) undefined undefined
  pow := power
  floor := extend (fun x => number ⌊x⌋) bottom top
  round := extend (fun x => number (nearest x)) bottom top
  toNat
    | number x => min ⌊x⌋₊ (UInt64.size - 1)
    | top => UInt64.size - 1
    | undefined | bottom => 0
  whole
    | number x => ⌊x⌋₊
    | undefined | bottom | top => 0

end Arithmetic

/-! ## Laws -/

section Laws

variable {K : Type} [Field K] [LinearOrder K] [FloorRing K] [Elementary K] {a b c : Extended K}
  {x y : K}

@[simp] theorem add_number (x y : K) : (number x + number y : Extended K) = number (x + y) := rfl

@[simp] theorem sub_number (x y : K) : (number x - number y : Extended K) = number (x - y) :=
  congrArg number (sub_eq_add_neg x y).symm

@[simp] theorem mul_number (x y : K) : (number x * number y : Extended K) = number (x * y) := rfl

@[simp] theorem neg_number (x : K) : (-number x : Extended K) = number (-x) := rfl

theorem div_number (hy : y ≠ 0) : (number x / number y : Extended K) = number (x / y) := if_neg hy

@[simp] theorem zero_div_zero : (number 0 / number 0 : Extended K) = undefined := by
  change (if (0 : K) = 0 then infinite 0 else _) = undefined
  simp [infinite]

@[simp] theorem isFinite_number (x : K) : Scalar.isFinite (number x) = true := rfl

@[simp] theorem lt_number (x y : K) :
    Scalar.lt (number x : Extended K) (number y) = decide (x < y) := rfl

theorem lt_infinity (x : K) : Scalar.lt (number x : Extended K) Scalar.infinity = true := rfl

theorem neg_infinity_lt (x : K) : Scalar.lt (-Scalar.infinity) (number x : Extended K) = true := rfl

theorem sortsBefore_number : Scalar.sortsBefore (number x) (number y) = true ↔ x ≤ y := by
  simp [Scalar.sortsBefore, isNumeric, below, equal, le_iff_lt_or_eq]

theorem isFinite_iff : Scalar.isFinite a = true ↔ ∃ x, a = number x := by
  cases a <;> simp [Scalar.isFinite]

/-- Finite values are numbers. -/
theorem exists_map_number {values : List (Extended K)} (h : ∀ v ∈ values, Scalar.isFinite v = true) :
    ∃ xs : List K, values = xs.map number := by
  have hrange : values ∈ Set.range (List.map (number : K → Extended K)) := by
    rw [Set.range_list_map]
    exact fun v hv => (isFinite_iff.1 (h v hv)).imp fun _ => Eq.symm
  exact hrange.imp fun _ => Eq.symm

omit [Field K] [LinearOrder K] [FloorRing K] [Elementary K] in
theorem number_injective : Function.Injective (number : K → Extended K) := fun _ _ => number.inj

/-- Roots are not negative. -/
theorem exists_sqrt (h : Scalar.isFinite (Scalar.sqrt a) = true) :
    ∃ x : K, 0 ≤ x ∧ Scalar.sqrt a = number x := by
  cases a with
  | number y =>
    change Scalar.isFinite (if y < 0 then undefined else number (Elementary.sqrt y)) = true at h
    split at h
    · exact nomatch h
    · rename_i hy
      exact ⟨Elementary.sqrt y, Elementary.sqrt_nonneg y, if_neg hy⟩
  | undefined | bottom | top => exact nomatch h

theorem isNumber_eq (a : Extended K) : Scalar.isNumber a = a.isNumeric := by
  cases a with
  | number x => exact decide_eq_true rfl
  | undefined | bottom | top => rfl

theorem eq_undefined (h : Scalar.isNumber a = false) : a = undefined := by
  rw [isNumber_eq] at h
  cases a with
  | undefined => rfl
  | bottom | number x | top => exact nomatch h

omit [FloorRing K] [Elementary K] in
theorem infinite_zero : infinite (0 : K) = undefined := by simp [infinite]

@[simp] theorem undefined_add (a : Extended K) : undefined + a = undefined := by cases a <;> rfl

@[simp] theorem add_undefined (a : Extended K) : a + undefined = undefined := by cases a <;> rfl

@[simp] theorem sub_undefined (a : Extended K) : a - undefined = undefined := add_undefined a

@[simp] theorem undefined_mul (a : Extended K) : undefined * a = undefined := by
  change mul undefined a = undefined
  cases a <;> simp [mul, side, infinite_zero]

@[simp] theorem mul_undefined (a : Extended K) : a * undefined = undefined := by
  change mul a undefined = undefined
  cases a <;> simp [mul, side, infinite_zero]

@[simp] theorem undefined_div (a : Extended K) : undefined / a = undefined := by
  change div undefined a = undefined
  cases a <;> simp [div, side, infinite_zero]

@[simp] theorem div_undefined (a : Extended K) : a / undefined = undefined := by
  change div a undefined = undefined
  cases a <;> rfl

/-- What is computed with what is not a number is not a number. -/
theorem undefined_op (h : Scalar.isNumber a = false ∨ Scalar.isNumber b = false) :
    a + b = undefined ∧ a * b = undefined ∧ a / b = undefined := by
  rcases h with h | h
  · obtain rfl := eq_undefined h
    simp
  · obtain rfl := eq_undefined h
    simp

/-- In a sum, what is not finite stays what it is or becomes undefined. -/
theorem add_nonfinite (ha : Scalar.isFinite a = false) :
    ∀ b c : Extended K, (b = a ∨ b = undefined) ∨ (c = a ∨ c = undefined) →
      b + c = a ∨ b + c = undefined := by
  have hadd (b : Extended K) : (add a b = a ∨ add a b = undefined) ∧
      (add b a = a ∨ add b a = undefined) := by
    cases a with
    | number x => exact nomatch ha
    | undefined | bottom | top => cases b <;> simp [add]
  rintro b c ((rfl | rfl) | (rfl | rfl))
  · exact (hadd c).1
  · exact .inr (undefined_add c)
  · exact (hadd b).2
  · exact .inr (add_undefined b)

theorem sub_nonfinite (ha : Scalar.isFinite a = false) : a - a = undefined := by
  cases a with
  | number y => exact nomatch ha
  | undefined | bottom | top => rfl

theorem undefined_compare (h : Scalar.isNumber a = false ∨ Scalar.isNumber b = false) :
    Scalar.lt a b = false ∧ Scalar.le a b = false := by
  rcases h with h | h
  · obtain rfl := eq_undefined h
    cases b <;> exact ⟨rfl, rfl⟩
  · obtain rfl := eq_undefined h
    cases a <;> exact ⟨rfl, rfl⟩

instance [IsStrictOrderedRing K] : ExactPartial K (Extended K) where
  of := number
  ofQuot _ _ _ := rfl
  add := add_number
  sub := sub_number
  mul := mul_number
  div _ _ hy := div_number hy
  le x y := by
    change (decide (x < y) || decide (x = y)) = decide (x ≤ y)
    rw [← Bool.decide_or, decide_eq_decide, le_iff_lt_or_eq]
  lt := lt_number
  isFinite_of := isFinite_number
  exists_of a := isFinite_iff.1
  absorbs a h x := by
    cases a with
    | number y => exact nomatch h
    | undefined | bottom | top => rfl
  lt_irrefl a := by
    cases a with
    | number x => exact decide_eq_false (lt_irrefl x)
    | undefined | bottom | top => rfl
  whole _ := rfl
  eq_of_iff a x := by
    cases a with
    | number y => exact decide_eq_true_iff.trans (by rw [number.injEq])
    | undefined | bottom | top => exact ⟨nofun, nofun⟩
  zero_div_zero := by
    rw [zero_div_zero]
    rfl
  lt_undefined _ _ h := (undefined_compare h).1
  le_undefined _ _ h := (undefined_compare h).2
  add_undefined _ _ h := by
    rw [(undefined_op h).1]
    rfl
  mul_undefined _ _ h := by
    rw [(undefined_op h).2.1]
    rfl
  div_undefined _ _ h := by
    rw [(undefined_op h).2.2]
    rfl

section Sums

variable [IsStrictOrderedRing K]

theorem ofNat_eq (n : Nat) : (Scalar.ofNat n : Extended K) = number (n : K) :=
  ExactOver.ofNat_eq (K := K) n

theorem half_eq : (Scalar.half : Extended K) = number (1 / 2 : K) :=
  ExactOver.half_eq (K := K)

theorem zero_eq : (Scalar.zero : Extended K) = number (0 : K) :=
  ExactOver.zero_eq (K := K)

theorem one_eq : (Scalar.one : Extended K) = number (1 : K) :=
  ExactOver.one_eq (K := K)

theorem two_eq : (Scalar.two : Extended K) = number (2 : K) :=
  ExactOver.two_eq (K := K)

/-- Beside a positive number, what is not finite stays what it is. -/
theorem mul_nonfinite (ha : Scalar.isFinite a = false) (hx : 0 < x) :
    number x * a = a ∧ a / number x = a := by
  change mul (number x) a = a ∧ div a (number x) = a
  cases a with
  | number y => exact nomatch ha
  | undefined | bottom | top => simp [mul, div, side, infinite, hx, hx.not_gt]

theorem sum_number (xs : List K) : Scalar.sum (xs.map number) = (number xs.sum : Extended K) :=
  ExactSums.sum_of xs

end Sums

/-- The place of a number in the line, if it is one. -/
def place : Extended K → Option (WithBot (WithTop K))
  | undefined => none
  | bottom => some ⊥
  | number x => some (x : WithTop K)
  | top => some (⊤ : WithTop K)

omit [Field K] [FloorRing K] [Elementary K] in
theorem number_lt_top (x : K) : ((x : WithTop K) : WithBot (WithTop K)) < ⊤ :=
  WithBot.coe_lt_coe.2 (WithTop.coe_lt_top x)

theorem lt_iff_place : Scalar.lt a b = true ↔ ∃ p ∈ a.place, ∃ q ∈ b.place, p < q := by
  cases a <;> cases b <;> simp [Scalar.lt, below, place, number_lt_top]

theorem sortsBefore_iff_place : Scalar.sortsBefore a b = true ↔
    b.place = none ∨ ∃ p ∈ a.place, ∃ q ∈ b.place, p ≤ q := by
  cases a <;> cases b <;>
    simp [Scalar.sortsBefore, isNumeric, below, equal, place, le_iff_lt_or_eq, number_lt_top]

instance : Compares (Extended K) :=
  .ofPlaces place (fun _ _ => lt_iff_place)
    (fun a => by
      rw [isNumber_eq]
      cases a <;> rfl)
    (fun a b => by
      rw [Bool.or_eq_true, sortsBefore_iff_place, sortsBefore_iff_place]
      cases a.place with
      | none => exact .inr (.inl rfl)
      | some p =>
        cases b.place with
        | none => exact .inl (.inl rfl)
        | some q => simpa using le_total p q)
    (fun a b c hab hbc => by
      rw [sortsBefore_iff_place] at hab hbc ⊢
      rcases hbc with hc | ⟨q, hq, r, hr, hqr⟩
      · exact .inl hc
      · obtain ⟨p, hp, q', hq', hpq⟩ := hab.resolve_left fun hb => nomatch hb.symm.trans hq
        obtain rfl := Option.mem_unique hq' hq
        exact .inr ⟨p, hp, r, hr, hpq.trans hqr⟩)

end Laws

end Extended

/-! ## Real numbers and fractions -/

noncomputable instance : Elementary ℝ where
  pi := Real.pi
  sqrt := Real.sqrt
  exp := Real.exp
  ln := Real.log
  sin := Real.sin
  cos := Real.cos
  pow x y := x ^ y
  sqrt_nonneg := Real.sqrt_nonneg

/-- The roots of fractions that are squares, and of others the roots of squares nearby; for all
other functions the first terms of their series. -/
instance : Elementary ℚ where
  pi := 22 / 7
  sqrt x := x.sqrt
  exp x := 1 + x
  ln x := x - 1
  sin x := x
  cos x := 1 - x * x / 2
  pow x y := 1 + y * (x - 1)
  sqrt_nonneg := Rat.sqrt_nonneg

end FieldFlow
