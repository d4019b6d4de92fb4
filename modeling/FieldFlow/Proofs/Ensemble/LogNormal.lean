import FieldFlow.Proofs.Ensemble.Generator
import FieldFlow.Proofs.Ensemble.Validation
import Mathlib.Probability.Distributions.Gaussian.Real

/-!
# Proofs/Ensemble/LogNormal — log-normal draws have the mean and the spread asked for

A log-normal draw is the exponential of a normal one, with the sign of the mean `m` that is asked
for. Mean and variance of its logarithm are set so that `exp (mean + variance / 2)` is `|m|`
(`exp_logMean`) and `exp variance - 1` the square of the relative spread (`exp_logVariance`). So
every variable with the moments of a log-normal one has, after the sign is put to it, the mean and
the standard deviation asked for (`LogNormalMoments.matched`), and the exponential of a normal
variable does have these moments (`logNormalMoments_gaussian`). In real arithmetic the values that
are drawn are such exponentials at the normal draws of the stream, whichever stream of real numbers
that is (`Distribution.drawn_moment_matched`).
-/

open MeasureTheory ProbabilityTheory Real

namespace FieldFlow

/-! ## The parameters -/

section Parameters

variable {m s : ℝ}

/-- The variance of the logarithm. -/
noncomputable def realLogVariance (m s : ℝ) : ℝ := log (1 + s / |m| * (s / |m|))

/-- The mean of the logarithm. -/
noncomputable def realLogMean (m s : ℝ) : ℝ := log |m| - realLogVariance m s / (2 : ℕ)

theorem realLogMean_eq (m s : ℝ) : realLogMean m s = log |m| - 1 / 2 * realLogVariance m s := by
  rw [realLogMean, Nat.cast_ofNat, div_eq_inv_mul, one_div]

theorem exp_logVariance (m s : ℝ) : exp (realLogVariance m s) - 1 = s / |m| * (s / |m|) := by
  have hsquare := mul_self_nonneg (s / |m|)
  rw [realLogVariance, exp_log (by linarith), add_sub_cancel_left]

theorem realLogVariance_nonneg (m s : ℝ) : 0 ≤ realLogVariance m s :=
  log_nonneg (le_add_of_nonneg_right (mul_self_nonneg _))

theorem realLogVariance_zero (m : ℝ) : realLogVariance m 0 = 0 := by simp [realLogVariance]

theorem exp_logMean (hm : m ≠ 0) (s : ℝ) :
    exp (realLogMean m s + realLogVariance m s / 2) = |m| := by
  have hsum : log |m| - 1 / 2 * realLogVariance m s + realLogVariance m s / 2 = log |m| := by ring
  rw [realLogMean_eq, hsum, exp_log (abs_pos.2 hm)]

/-- The variance of a log-normal law with these parameters is the square of the spread. -/
theorem logNormal_variance (hm : m ≠ 0) (s : ℝ) :
    (exp (realLogVariance m s) - 1) * exp (2 * realLogMean m s + realLogVariance m s) = s ^ 2 := by
  have hmean : exp (2 * realLogMean m s + realLogVariance m s) = |m| * |m| := by
    rw [← exp_logMean hm s, ← exp_add]
    ring_nf
  have hne : |m| ≠ 0 := abs_ne_zero.2 hm
  rw [exp_logVariance, hmean]
  field_simp

end Parameters

/-! ## The sign -/

section Signed

variable {m x : ℝ}

/-- A size with the sign of a mean. -/
noncomputable def signed (m x : ℝ) : ℝ := if m < 0 then -x else x

theorem signed_eq (hm : m ≠ 0) (x : ℝ) : signed m x = SignType.sign m * x := by
  rcases hm.lt_or_gt with hneg | hpos
  · rw [signed, if_pos hneg, sign_neg hneg, SignType.coe_neg_one, neg_one_mul]
  · rw [signed, if_neg hpos.not_gt, sign_pos hpos, SignType.coe_one, one_mul]

theorem sign_signed (hm : m ≠ 0) (hx : 0 < x) : SignType.sign (signed m x) = SignType.sign m := by
  rcases hm.lt_or_gt with hneg | hpos
  · rw [signed, if_pos hneg, sign_neg hneg, sign_neg (neg_neg_of_pos hx)]
  · rw [signed, if_neg hpos.not_gt, sign_pos hpos, sign_pos hx]

theorem signed_abs (m : ℝ) : signed m |m| = m := by
  unfold signed
  split
  · rename_i hneg
    rw [abs_of_neg hneg, neg_neg]
  · rename_i hneg
    exact abs_of_nonneg (not_lt.1 hneg)

end Signed

/-! ## The moments -/

section Moments

variable {Ω : Type} [MeasurableSpace Ω] {P : Measure Ω} {X : Ω → ℝ} {m s : ℝ}

/-- **A variable with the moments of a log-normal one**, whose logarithm has the given mean and
variance. -/
structure LogNormalMoments (P : Measure Ω) (X : Ω → ℝ) (mean variance : ℝ) : Prop where
  probability : IsProbabilityMeasure P
  square_integrable : MemLp X 2 P
  positive : ∀ᵐ ω ∂P, 0 < X ω
  integral_eq : ∫ ω, X ω ∂P = exp (mean + variance / 2)
  variance_eq : Var[X; P] = (exp variance - 1) * exp (2 * mean + variance)

/-- **A variable as it is asked for**: around the mean, with the standard deviation, on the mean's
side of zero, and always at the mean if there is no spread. -/
structure MomentMatched (P : Measure Ω) (X : Ω → ℝ) (mean deviation : ℝ) : Prop where
  integral_eq : ∫ ω, X ω ∂P = mean
  deviation_eq : √Var[X; P] = deviation
  sign_eq : ∀ᵐ ω ∂P, SignType.sign (X ω) = SignType.sign mean
  constant : deviation = 0 → ∀ᵐ ω ∂P, X ω = mean

/-- The signed draws of a log-normal variable with these parameters are as they are asked for. -/
theorem LogNormalMoments.matched (hm : m ≠ 0) (hs : 0 ≤ s)
    (h : LogNormalMoments P X (realLogMean m s) (realLogVariance m s)) :
    MomentMatched P (fun ω => signed m (X ω)) m s := by
  have := h.probability
  have hmean : ∫ ω, X ω ∂P = |m| := h.integral_eq.trans (exp_logMean hm s)
  have hvariance : Var[X; P] = s ^ 2 := h.variance_eq.trans (logNormal_variance hm s)
  have hsquare : (SignType.sign m : ℝ) ^ 2 = 1 := by
    rw [sq, ← SignType.coe_mul, ← sign_mul, sign_pos (mul_self_pos.2 hm), SignType.coe_one]
  refine ⟨?_, ?_, h.positive.mono fun ω hω => sign_signed hm hω, ?_⟩
  · simp only [signed_eq hm]
    rw [integral_const_mul, hmean, sign_mul_abs]
  · simp only [signed_eq hm]
    rw [variance_const_mul, hsquare, one_mul, hvariance, sqrt_sq hs]
  · rintro rfl
    have hconstant : X =ᵐ[P] fun _ => ∫ ω, X ω ∂P :=
      ae_eq_integral_of_variance_eq_zero h.square_integrable (by simpa using hvariance)
    refine hconstant.mono fun ω hω => ?_
    rw [hω, hmean, signed_abs]

/-- The integral of an exponential is a value of the moment generating function. -/
theorem integral_exp_gaussian (a b : ℝ) :
    ∫ z, exp (a + b * z) ∂gaussianReal 0 1 = exp (a + b ^ 2 / 2) := by
  have hmgf : ∫ z, exp (b * z) ∂gaussianReal 0 1 = exp (0 * b + (1 : NNReal) * b ^ 2 / 2) :=
    congrFun mgf_id_gaussianReal b
  simp only [exp_add a, integral_const_mul, hmgf]
  simp

theorem exp_affine_sq (a b : ℝ) :
    (fun z => exp (a + b * z)) ^ 2 = fun z => exp (2 * a + 2 * b * z) := by
  funext z
  rw [Pi.pow_apply, ← exp_nat_mul]
  push_cast
  ring_nf

theorem memLp_exp_gaussian (a b : ℝ) :
    MemLp (fun z => exp (a + b * z)) 2 (gaussianReal 0 1) := by
  have hmeasurable : Measurable fun z : ℝ => exp (a + b * z) := by fun_prop
  refine (memLp_two_iff_integrable_sq hmeasurable.aestronglyMeasurable).2 ?_
  change Integrable ((fun z => exp (a + b * z)) ^ 2) _
  simp only [exp_affine_sq, exp_add (2 * a)]
  exact (integrable_exp_mul_gaussianReal _).const_mul _

/-- **The exponential of a normal variable** has the moments of a log-normal one. -/
theorem logNormalMoments_gaussian (mean : ℝ) {variance : ℝ} (hv : 0 ≤ variance) :
    LogNormalMoments (gaussianReal 0 1) (fun z => exp (mean + √variance * z)) mean variance := by
  have hmem := memLp_exp_gaussian mean √variance
  refine ⟨inferInstance, hmem, .of_forall fun z => exp_pos _, ?_, ?_⟩
  · rw [integral_exp_gaussian, sq_sqrt hv]
  · rw [variance_eq_sub hmem, exp_affine_sq, integral_exp_gaussian, integral_exp_gaussian, mul_pow,
      sq_sqrt hv, ← exp_nat_mul, sub_one_mul, ← exp_add]
    push_cast
    ring_nf

end Moments

/-! ## The draws -/

namespace Distribution

open Extended (number)

variable {m s : ℝ} {bounds : Option (Extended ℝ × Extended ℝ)}

/-- A log-normal distribution of real numbers. -/
def realLogNormal (m s : ℝ) (bounds : Option (Extended ℝ × Extended ℝ)) :
    Distribution (Extended ℝ) :=
  ⟨number m, number s, .logNormal, bounds⟩

/-- What a log-normal draw makes of a normal one. -/
noncomputable def ofDeviate (m s z : ℝ) : ℝ :=
  signed m (exp (realLogMean m s + √(realLogVariance m s) * z))

theorem logVariance_number (hm : m ≠ 0) (s : ℝ) :
    (realLogNormal m s bounds).logVariance = number (realLogVariance m s) := by
  have hratio : (number s / Scalar.abs (number m) : Extended ℝ) = number (s / |m|) :=
    Extended.div_number (abs_ne_zero.2 hm)
  have hpos : 0 < 1 + s / |m| * (s / |m|) := by
    have hsquare := mul_self_nonneg (s / |m|)
    linarith
  rw [logVariance, realLogNormal, hratio, Extended.one_eq, Scalar.square, Extended.mul_number,
    Extended.add_number]
  exact if_pos hpos

theorem logMean_number (hm : m ≠ 0) (s : ℝ) :
    (realLogNormal m s bounds).logMean = number (realLogMean m s) := by
  have hln : Scalar.ln (Scalar.abs (number m) : Extended ℝ) = number (log |m|) :=
    if_pos (abs_pos.2 hm)
  rw [logMean, logVariance_number hm, Extended.half_eq, Extended.mul_number]
  change Scalar.ln (Scalar.abs (number m)) - _ = _
  rw [hln, Extended.sub_number, realLogMean_eq]

theorem sqrt_logVariance_number (hm : m ≠ 0) (s : ℝ) :
    Scalar.sqrt (realLogNormal m s bounds).logVariance = number √(realLogVariance m s) := by
  rw [logVariance_number hm]
  exact if_neg (realLogVariance_nonneg m s).not_gt

variable {σ : Type} [Sampler σ (Extended ℝ)]

/-- A log-normal draw, made out of a normal one. -/
theorem drawLogNormal_number (hm : m ≠ 0) (s : ℝ) {g g' : σ} {z : ℝ}
    (hz : Sampler.normal g = (number z, g')) :
    (realLogNormal m s bounds).drawLogNormal g = (number (ofDeviate m s z), g') := by
  rw [drawLogNormal, logMean_number hm, sqrt_logVariance_number hm, drawNormal, hz, ofDeviate,
    signed, apply_ite number]
  dsimp only
  rw [Extended.mul_number, Extended.add_number, Extended.zero_eq]
  change (if Scalar.lt (number m) (number 0) = true then _ else _, _) = _
  simp only [Extended.lt_number, decide_eq_true_eq]
  rfl

theorem sign_ofDeviate (hm : m ≠ 0) (s z : ℝ) :
    SignType.sign (ofDeviate m s z) = SignType.sign m :=
  sign_signed hm (exp_pos _)

/-- Without a spread every draw is the mean. -/
theorem ofDeviate_zero (hm : m ≠ 0) (z : ℝ) : ofDeviate m 0 z = m := by
  have hsize := exp_logMean hm 0
  rw [realLogVariance_zero, zero_div, add_zero] at hsize
  rw [ofDeviate, realLogVariance_zero, sqrt_zero, zero_mul, add_zero, hsize, signed_abs]

theorem validate_realLogNormal (hm : m ≠ 0) (hs : 0 ≤ s) (field : String) :
    (realLogNormal m s none).validate field = .ok () := by
  refine (validate_eq_ok_iff (K := ℝ)).2 ⟨⟨m, rfl⟩, fun _ h => hm ?_, nofun, fun _ => ⟨s, rfl, hs⟩⟩
  exact Extended.number_injective h

/-- **What is drawn** is made, one by one, out of the normal draws of the stream. -/
theorem sample_realLogNormal (hm : m ≠ 0) (s : ℝ) (hreals : Sampler.DrawsReals σ) {field : String}
    {n : Nat} (g : σ) (hvalid : (realLogNormal m s bounds).validate field = .ok ())
    (hroom : checkCapacity n numberBytes = .ok ()) :
    ∃ (zs : List ℝ) (g' : σ), zs.length = n ∧
      Sampler.replicate Sampler.normal n g = (zs.map number, g') ∧
      (realLogNormal m s bounds).sample field n g =
        .ok (zs.map fun z => number (ofDeviate m s z), g') := by
  choose deviate next hdeviate using hreals
  let draw (g : σ) : ℝ × σ := (deviate g, next g)
  have hdraws : Sampler.replicate Sampler.normal n g =
      ((Sampler.replicate draw n g).1.map number, (Sampler.replicate draw n g).2) :=
    Sampler.replicate_map hdeviate n g
  have hvalues : Sampler.replicate (realLogNormal m s bounds).drawLogNormal n g =
      ((Sampler.replicate draw n g).1.map fun z => number (ofDeviate m s z),
        (Sampler.replicate draw n g).2) :=
    Sampler.replicate_map (fun g => drawLogNormal_number hm s (hdeviate g)) n g
  refine ⟨_, _, Sampler.length_replicate _ n g, hdraws, ?_⟩
  rw [sample, hvalid, hroom, sqrt_logVariance_number hm, Extended.isFinite_number, hvalues]
  rfl

/-- **Log-normal draws have the mean and the spread that are asked for.** With the mean and the
variance of the logarithm as they are computed, the signed values of every variable with the moments
of a log-normal one have the mean `m`, the standard deviation `s` and the sign of `m`, and are `m`
where `s` is zero. A draw is a function of a normal one, and is such a variable where that is
normal; what is drawn for a field are its values at the normal draws of the stream, for every stream
of real numbers. -/
theorem drawn_moment_matched (hm : m ≠ 0) (hs : 0 ≤ s)
    (bounds : Option (Extended ℝ × Extended ℝ)) :
    (realLogNormal m s bounds).logMean = number (realLogMean m s) ∧
    (realLogNormal m s bounds).logVariance = number (realLogVariance m s) ∧
    (∀ {Ω : Type} [MeasurableSpace Ω] (P : Measure Ω) (X : Ω → ℝ),
      LogNormalMoments P X (realLogMean m s) (realLogVariance m s) →
        MomentMatched P (fun ω => signed m (X ω)) m s) ∧
    MomentMatched (gaussianReal 0 1) (ofDeviate m s) m s ∧
    (∀ z, SignType.sign (ofDeviate m s z) = SignType.sign m ∧ (s = 0 → ofDeviate m s z = m)) ∧
    ∀ field, (bounds = none → (realLogNormal m s bounds).validate field = .ok ()) ∧
      ∀ (σ : Type) [Sampler σ (Extended ℝ)], Sampler.DrawsReals σ → ∀ n (g : σ),
        (realLogNormal m s bounds).validate field = .ok () →
        checkCapacity n numberBytes = .ok () →
          ∃ (zs : List ℝ) (g' : σ), zs.length = n ∧
            Sampler.replicate Sampler.normal n g = (zs.map number, g') ∧
            (realLogNormal m s bounds).sample field n g =
              .ok (zs.map fun z => number (ofDeviate m s z), g') := by
  refine ⟨logMean_number hm s, logVariance_number hm s, fun P X h => h.matched hm hs, ?_,
    fun z => ⟨sign_ofDeviate hm s z, ?_⟩,
    fun field => ⟨?_, fun σ _ hreals n g hvalid hroom => ?_⟩⟩
  · exact (logNormalMoments_gaussian _ (realLogVariance_nonneg m s)).matched hm hs
  · rintro rfl
    exact ofDeviate_zero hm z
  · rintro rfl
    exact validate_realLogNormal hm hs field
  · exact sample_realLogNormal hm s hreals g hvalid hroom

/-- Draws around minus two, with a standard deviation of one half. -/
theorem loss_moment_matched : (-2 : ℝ) ≠ 0 ∧ (0 : ℝ) ≤ 1 / 2 ∧
    MomentMatched (gaussianReal 0 1) (ofDeviate (-2) (1 / 2)) (-2) (1 / 2) ∧
    ∃ (zs : List ℝ) (g' : Generator), zs.length = 3 ∧
      (realLogNormal (-2) (1 / 2) none).sample "loss" 3 (Generator.ofSeed 0) =
        .ok (zs.map fun z => number (ofDeviate (-2) (1 / 2) z), g') ∧
      ∀ z ∈ zs, SignType.sign (ofDeviate (-2) (1 / 2) z) = -1 := by
  have hm : (-2 : ℝ) ≠ 0 := by norm_num
  have hs : (0 : ℝ) ≤ 1 / 2 := by norm_num
  obtain ⟨-, -, -, hmatched, hdraw, hsampled⟩ := drawn_moment_matched hm hs none
  obtain ⟨zs, g', hlength, -, hdrawn⟩ :=
    (hsampled "loss").2 Generator Generator.drawsReals 3 (.ofSeed 0) ((hsampled "loss").1 rfl) rfl
  refine ⟨hm, hs, hmatched, zs, g', hlength, hdrawn, fun z _ => ?_⟩
  rw [(hdraw z).1, sign_neg (by norm_num)]

end Distribution

end FieldFlow
