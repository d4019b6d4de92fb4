import FieldFlow.Scalar

/-!
# Proofs/Scalar/Fraction — an arithmetic without rounding

Runs over fractions can be computed in a proof. What has no fraction for a value — an infinity, a
root, a division by zero — is no number at all.
-/

namespace FieldFlow

/-- **A fraction**, or what is not a number. -/
structure Fraction where
  value? : Option Rat
deriving DecidableEq

namespace Fraction

def of (q : Rat) : Fraction := ⟨some q⟩

def notANumber : Fraction := ⟨none⟩

def map (f : Rat → Rat) (a : Fraction) : Fraction := ⟨a.value?.map f⟩

def combine (f : Rat → Rat → Option Rat) (a b : Fraction) : Fraction :=
  ⟨do f (← a.value?) (← b.value?)⟩

/-- A comparison, which fails for what is not a number. -/
def compare (holds : Rat → Rat → Bool) (a b : Fraction) : Bool :=
  match a.value?, b.value? with
  | some p, some q => holds p q
  | _, _ => false

end Fraction

instance : Scalar Fraction where
  default := .notANumber
  add := .combine fun p q => some (p + q)
  sub := .combine fun p q => some (p - q)
  mul := .combine fun p q => some (p * q)
  div := .combine fun p q => if q = 0 then none else some (p / q)
  neg := .map fun p => -p
  ofQuot p q := .of (mkRat p q)
  nan := .notANumber
  infinity := .notANumber
  pi := .notANumber
  eq := Fraction.compare fun p q => p = q
  lt := Fraction.compare fun p q => p < q
  le := Fraction.compare fun p q => p ≤ q
  sortsBefore a b := b.value?.isNone || a.compare (fun p q => p ≤ q) b
  isFinite a := a.value?.isSome
  abs := .map fun p => if p < 0 then -p else p
  sqrt _ := .notANumber
  exp _ := .notANumber
  ln _ := .notANumber
  sin _ := .notANumber
  cos _ := .notANumber
  pow _ _ := .notANumber
  floor := .map fun p => p.floor
  round := .map fun p => if p < 0 then -(-p + 1 / 2).floor else (p + 1 / 2).floor
  toNat a := min ((a.value?.map fun p => p.floor.toNat).getD 0) (UInt64.size - 1)
  whole a := (a.value?.map fun p => p.floor.toNat).getD 0

end FieldFlow
