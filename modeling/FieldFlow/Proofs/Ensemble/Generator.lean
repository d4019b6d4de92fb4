import FieldFlow.Ensemble.Generator
import FieldFlow.Proofs.Scalar.Extended

/-!
# Proofs/Ensemble/Generator — a stream of draws in real arithmetic

Several draws of one kind are as many (`Sampler.length_replicate`), and draws that are made out of
others, one by one, are made out of as many of those (`Sampler.replicate_map`), whatever the stream.
A uniform draw of the generator is a number above zero and at most one, so its logarithm is not
positive; a normal draw, which takes the root of a multiple of that, is a number then
(`Generator.drawsReals`).
-/

open Real

namespace FieldFlow

open Extended (number)

namespace Sampler

/-! ## Several draws -/

section Replicate

variable {σ β γ : Type}

theorem length_replicate (draw : σ → β × σ) (n : Nat) (g : σ) :
    (replicate draw n g).1.length = n := by
  induction n generalizing g with
  | zero => rfl
  | succ n ih => exact congrArg Nat.succ (ih (draw g).2)

/-- Draws made out of other draws, one by one. -/
theorem replicate_map {draw : σ → β × σ} {out : σ → γ × σ} {f : β → γ}
    (h : ∀ g, out g = (f (draw g).1, (draw g).2)) (n : Nat) (g : σ) :
    replicate out n g = ((replicate draw n g).1.map f, (replicate draw n g).2) := by
  induction n generalizing g with
  | zero => rfl
  | succ n ih => simp only [replicate, h, ih, List.map_cons]

end Replicate

/-- **A stream whose normal draws are real numbers.** -/
def DrawsReals (σ : Type) [Sampler σ (Extended ℝ)] : Prop :=
  ∀ g : σ, ∃ (z : ℝ) (g' : σ), normal g = (number z, g')

end Sampler

namespace Generator

/-! ## Real draws -/

/-- A uniform draw of a real number. -/
noncomputable def realUniform (g : Generator) : ℝ × Generator :=
  (((g.next.1 >>> 11).toNat + 1 : Nat) / (1 <<< 53 : Nat), g.next.2)

/-- A normal draw of a real number. -/
noncomputable def realNormal (g : Generator) : ℝ × Generator :=
  let (u, g) := realUniform g
  let (v, g) := realUniform g
  (√(-((2 : ℕ) * log u)) * cos ((2 : ℕ) * π * v), g)

theorem realUniform_pos (g : Generator) : 0 < (realUniform g).1 :=
  div_pos (Nat.cast_pos.2 (Nat.succ_pos _)) (Nat.cast_pos.2 (by decide))

theorem realUniform_le_one (g : Generator) : (realUniform g).1 ≤ 1 := by
  have hword := g.next.1.toNat_lt
  refine div_le_one_of_le₀ (Nat.cast_le.2 ?_) (Nat.cast_nonneg _)
  rw [UInt64.toNat_shiftRight]
  change g.next.1.toNat >>> 11 + 1 ≤ 1 <<< 53
  omega

theorem uniform_eq_number (g : Generator) :
    uniform g = (number (realUniform g).1, (realUniform g).2) := by
  refine Prod.ext (congrArg number ?_) rfl
  change ((((g.next.1 >>> 11).toNat + 1 : Nat) : Int) : ℝ) / _ = _
  rw [Int.cast_natCast]
  rfl

/-- **A normal draw** is a number. -/
theorem normal_eq_number (g : Generator) :
    normal g = (number (realNormal g).1, (realNormal g).2) := by
  have htwo : (Scalar.two : Extended ℝ) = number ((2 : ℕ) : ℝ) := Extended.ofNat_eq 2
  have hln : Scalar.ln (number (realUniform g).1) = number (log (realUniform g).1) :=
    if_pos (realUniform_pos g)
  have hroot : Scalar.sqrt (number (-((2 : ℕ) * log (realUniform g).1))) =
      number √(-((2 : ℕ) * log (realUniform g).1)) := by
    have hlog := log_nonpos (realUniform_pos g).le (realUniform_le_one g)
    exact if_neg (neg_nonneg.2 (mul_nonpos_of_nonneg_of_nonpos (Nat.cast_nonneg 2) hlog)).not_gt
  rw [normal, uniform_eq_number]
  dsimp only
  rw [uniform_eq_number, htwo, hln, Extended.mul_number, Extended.neg_number, hroot]
  rfl

theorem drawsReals : Sampler.DrawsReals Generator := fun g => ⟨_, _, normal_eq_number g⟩

end Generator

end FieldFlow
