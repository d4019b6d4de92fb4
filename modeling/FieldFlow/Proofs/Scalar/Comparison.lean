import FieldFlow.Scalar.Double
import Mathlib.Algebra.Order.Group.Unbundled.Basic
import Mathlib.Algebra.Order.Ring.Int
import Mathlib.Data.Prod.Lex

/-!
# Proofs/Scalar/Comparison — what may be expected of comparisons

Rounding breaks the laws of addition and multiplication, and it breaks no law of the order: numbers
are in line, and what is not a number is beside it. So it is for double precision (`lt_iff_rank`),
where a number stands by its sign, then by its exponent, then by its significand.
-/

namespace FieldFlow

/-- **An arithmetic whose numbers are in line.** -/
class Compares (α : Type) [Scalar α] : Prop where
  lt_asymm : ∀ {a b : α}, Scalar.lt a b = true → Scalar.lt b a = false
  /-- What is not a number is not compared. -/
  isNumber_of_lt : ∀ {a b : α}, Scalar.lt a b = true →
    Scalar.isNumber a = true ∧ Scalar.isNumber b = true
  /-- A number is above the lower one of two others, or below the higher one. -/
  lt_or_lt : ∀ {a b c : α}, Scalar.isNumber b = true → Scalar.lt a c = true →
    Scalar.lt a b = true ∨ Scalar.lt b c = true
  sortsBefore_total : ∀ a b : α, (Scalar.sortsBefore a b || Scalar.sortsBefore b a) = true
  sortsBefore_trans : ∀ a b c : α, Scalar.sortsBefore a b = true → Scalar.sortsBefore b c = true →
    Scalar.sortsBefore a c = true

/-- **Numbers with places in a line** are in line. -/
theorem Compares.ofPlaces {α L : Type} [Scalar α] [LinearOrder L] (place : α → Option L)
    (hlt : ∀ a b, Scalar.lt a b = true ↔ ∃ p ∈ place a, ∃ q ∈ place b, p < q)
    (hnumber : ∀ a, Scalar.isNumber a = true ↔ (place a).isSome = true)
    (htotal : ∀ a b : α, (Scalar.sortsBefore a b || Scalar.sortsBefore b a) = true)
    (htrans : ∀ a b c : α, Scalar.sortsBefore a b = true → Scalar.sortsBefore b c = true →
      Scalar.sortsBefore a c = true) : Compares α where
  lt_asymm {a b} h := by
    obtain ⟨p, hp, q, hq, hpq⟩ := (hlt a b).1 h
    rw [Bool.eq_false_iff, Ne, hlt]
    rintro ⟨q', hq', p', hp', hgt⟩
    rw [Option.mem_unique hp' hp, Option.mem_unique hq' hq] at hgt
    exact hpq.not_gt hgt
  isNumber_of_lt {a b} h := by
    obtain ⟨p, hp, q, hq, -⟩ := (hlt a b).1 h
    exact ⟨(hnumber a).2 (Option.isSome_of_mem hp), (hnumber b).2 (Option.isSome_of_mem hq)⟩
  lt_or_lt {a b c} hb h := by
    obtain ⟨p, hp, r, hr, hpr⟩ := (hlt a c).1 h
    obtain ⟨q, hq⟩ := Option.isSome_iff_exists.1 ((hnumber b).1 hb)
    rw [hlt, hlt]
    exact (lt_or_ge p q).imp (fun hpq => ⟨p, hp, q, hq, hpq⟩)
      fun hqp => ⟨q, hq, r, hr, hqp.trans_lt hpr⟩
  sortsBefore_total := htotal
  sortsBefore_trans := htrans

/-! ## The line of the numbers -/

section Line

open Float.Model (UnpackedFloat)

theorem compare_toLex {α β : Type} [LinearOrder α] [LinearOrder β] (a a' : α) (b b' : β) :
    compare (toLex (a, b)) (toLex (a', b')) = (compare a a').then (compare b b') := rfl

theorem compare_neg (a b : Int) : compare (-a) (-b) = (compare a b).swap := by
  rcases lt_trichotomy a b with h | rfl | h
  · rw [compare_gt_iff_gt.2 (neg_lt_neg h), compare_lt_iff_lt.2 h]
    rfl
  · simp
  · rw [compare_lt_iff_lt.2 (neg_lt_neg h), compare_gt_iff_gt.2 h]
    rfl

theorem compare_natCast (m n : Nat) : compare (m : Int) n = compare m n := by
  rcases lt_trichotomy m n with h | rfl | h
  · rw [compare_lt_iff_lt.2 h, compare_lt_iff_lt.2 (Int.ofNat_lt.2 h)]
  · simp
  · rw [compare_gt_iff_gt.2 h, compare_gt_iff_gt.2 (Int.ofNat_lt.2 h)]

/-- **The place of a number in the line**; zeros of both signs share one. -/
def rankOf : UnpackedFloat → Option (Int ×ₗ Int ×ₗ Int)
  | .notANumber => none
  | .infinity .negative => some (toLex (-2, toLex (0, 0)))
  | .finite .negative significand exponent _ =>
      some (toLex (-1, toLex (-exponent, -significand)))
  | .zero _ => some (toLex (0, toLex (0, 0)))
  | .finite .positive significand exponent _ => some (toLex (1, toLex (exponent, significand)))
  | .infinity .positive => some (toLex (2, toLex (0, 0)))

/-- Numbers are compared by their places — only those of one sign, by more than their kinds. -/
theorem compare_eq_rankOf (a b : UnpackedFloat) :
    a.compare b = (rankOf a).bind fun p => (rankOf b).map (compare p) := by
  rcases a with (_ | _) | _ | (_ | _) | ⟨_ | _, m, e, hm⟩ <;>
    rcases b with (_ | _) | _ | (_ | _) | ⟨_ | _, n, e', hn⟩
  case finite.negative.finite.negative =>
    dsimp only [rankOf, Option.bind_some, Option.map_some]
    rw [compare_toLex, compare_toLex, compare_neg 1, compare_neg e, compare_neg m, compare_natCast,
      ← Ordering.swap_then]
    rfl
  case finite.positive.finite.positive =>
    dsimp only [rankOf, Option.bind_some, Option.map_some]
    rw [compare_toLex, compare_toLex, compare_natCast]
    rfl
  all_goals rfl

end Line

/-! ## Double precision -/

section Double

variable {x y : Float}

/-- The place of a value in double precision, if it is a number. -/
def rank (x : Float) : Option (Int ×ₗ Int ×ₗ Int) := rankOf x.toModel.unpack

theorem lt_iff_rank : Scalar.lt x y = true ↔ ∃ p ∈ rank x, ∃ q ∈ rank y, p < q := by
  have hlt : Scalar.lt x y = true ↔ x.toModel.unpack.compare y.toModel.unpack = some .lt :=
    decide_eq_true_iff.trans (decide_eq_true_iff.trans beq_iff_eq)
  rw [hlt, compare_eq_rankOf]
  simp only [Option.bind_eq_some_iff, Option.map_eq_some_iff, compare_lt_iff_lt, rank,
    Option.mem_def]

theorem le_iff_rank : Scalar.le x y = true ↔ ∃ p ∈ rank x, ∃ q ∈ rank y, p ≤ q := by
  have hle : Scalar.le x y = true ↔
      (x.toModel.unpack.compare y.toModel.unpack).any (·.isLE) = true :=
    decide_eq_true_iff.trans decide_eq_true_iff
  rw [hle, compare_eq_rankOf, rank, rank]
  cases rankOf x.toModel.unpack <;> cases rankOf y.toModel.unpack <;>
    simp [Ordering.isLE_iff_ne_gt, compare_le_iff_le]

theorem isNumber_iff_rank : Scalar.isNumber x = true ↔ (rank x).isSome = true := by
  have heq : Scalar.isNumber x = (x.toModel.unpack.compare x.toModel.unpack == some .eq) := rfl
  rw [heq, beq_iff_eq, compare_eq_rankOf, rank]
  cases rankOf x.toModel.unpack <;> simp

theorem isNaN_iff_rank : x.isNaN = true ↔ rank x = none := by
  change x.toModel.unpack.isNaN = true ↔ rankOf x.toModel.unpack = none
  rcases x.toModel.unpack with (_ | _) | _ | _ | ⟨_ | _, _, _, _⟩
  case notANumber => exact iff_of_true rfl rfl
  all_goals exact iff_of_false Bool.false_ne_true (Option.some_ne_none _)

/-- Where a value is sorted to. -/
theorem Double.sortsBefore_iff {a b : Double} : a.sortsBefore b = true ↔
    rank a.value = none ∧ a.negative = true ∨ rank b.value = none ∧ b.negative = false ∨
      ∃ p ∈ rank a.value, ∃ q ∈ rank b.value, p ≤ q := by
  rw [Double.sortsBefore, Bool.or_eq_true, Bool.or_eq_true, Bool.and_eq_true, Bool.and_eq_true,
    Bool.not_eq_true', or_assoc]
  exact or_congr (and_congr_left' isNaN_iff_rank)
    (or_congr (and_congr_left' isNaN_iff_rank) le_iff_rank)

theorem Double.sortsBefore_ofFloat :
    (ofFloat x).sortsBefore (ofFloat y) = Scalar.sortsBefore x y := by
  change (x.isNaN && false || y.isNaN && true || decide (x ≤ y)) = _
  rw [Bool.and_false, Bool.false_or, Bool.and_true]
  rfl

theorem Double.sortsBefore_total (a b : Double) : (a.sortsBefore b || b.sortsBefore a) = true := by
  rw [Bool.or_eq_true, sortsBefore_iff, sortsBefore_iff]
  cases rank a.value with
  | none => cases a.negative <;> simp
  | some p =>
    cases rank b.value with
    | none => cases b.negative <;> simp
    | some q => simpa using le_total p q

theorem Double.sortsBefore_trans {a b c : Double} (hab : a.sortsBefore b = true)
    (hbc : b.sortsBefore c = true) : a.sortsBefore c = true := by
  rw [sortsBefore_iff] at hab hbc ⊢
  rcases hab with ha | ⟨hb, hsign⟩ | ⟨p, hp, q, hq, hpq⟩
  · exact .inl ha
  · rcases hbc with ⟨-, hsign'⟩ | hc | ⟨q, hq, -⟩
    · exact nomatch hsign.symm.trans hsign'
    · exact .inr (.inl hc)
    · exact nomatch hb.symm.trans hq
  · rcases hbc with ⟨hb, -⟩ | hc | ⟨q', hq', r, hr, hqr⟩
    · exact nomatch hb.symm.trans hq
    · exact .inr (.inl hc)
    · obtain rfl := Option.mem_unique hq' hq
      exact .inr (.inr ⟨p, hp, r, hr, hpq.trans hqr⟩)

end Double

instance : Compares Float :=
  .ofPlaces rank (fun _ _ => lt_iff_rank) (fun _ => isNumber_iff_rank)
    (fun a b => by
      simp only [← Double.sortsBefore_ofFloat]
      exact Double.sortsBefore_total _ _)
    (fun a b c => by
      simp only [← Double.sortsBefore_ofFloat]
      exact Double.sortsBefore_trans)

instance : Compares Double where
  lt_asymm h := Compares.lt_asymm (α := Float) h
  isNumber_of_lt h := Compares.isNumber_of_lt (α := Float) h
  lt_or_lt hb h := Compares.lt_or_lt (α := Float) hb h
  sortsBefore_total := Double.sortsBefore_total
  sortsBefore_trans _ _ _ := Double.sortsBefore_trans

end FieldFlow
