import FieldFlow.Analysis.Cycle
import FieldFlow.Proofs.Scalar.Extended
import Mathlib.Data.Nat.Factorization.Basic
import Mathlib.RingTheory.RootsOfUnity.Complex

/-!
# Proofs/Analysis/Harmonics — the Fourier coefficients of a window of values

Over the real numbers the magnitude of a coefficient is the length of a mean of samples times powers
of a root of unity (`fourierMagnitude_number`), and the harmonicity is a share of the sum of their
squares, so it lies between zero and one (`harmonicity_mem`). The samples are spread over the unit
interval with both of its ends, so `n` of them go around in the powers of a root whose order is
`n - 1`, and the last one counts where the first one has been counted before. That is why the
samples of one value do not cancel: all but the last of them do, and one `n`-th of the value is left
(`sum_powers`). What is left makes up a share of the energy that is never zero (`cycle_harmonics`).
-/

open Complex (I)

namespace FieldFlow

open Extended (number)

/-! ## Magnitudes in real arithmetic -/

/-- The scale of a plane vector comes out of the root. -/
theorem mul_sqrt_scaled {m : ℝ} (hm : 0 < m) (a b : ℝ) :
    m * √(a / m * (a / m) + b / m * (b / m)) = √(a ^ 2 + b ^ 2) := by
  have hscaled : a ^ 2 + b ^ 2 = m ^ 2 * (a / m * (a / m) + b / m * (b / m)) := by
    field_simp
  rw [hscaled, Real.sqrt_mul (sq_nonneg m), Real.sqrt_sq hm.le]

theorem scaled_length_number {m : ℝ} (hm : 0 < m) (a b : ℝ) :
    number m * Scalar.sqrt
      (Scalar.square (number a / number m) + Scalar.square (number b / number m)) =
        number √(a ^ 2 + b ^ 2) := by
  have hsum : 0 ≤ a / m * (a / m) + b / m * (b / m) :=
    add_nonneg (mul_self_nonneg _) (mul_self_nonneg _)
  have hroot : Scalar.sqrt (number (a / m * (a / m) + b / m * (b / m))) =
      number √(a / m * (a / m) + b / m * (b / m)) := if_neg hsum.not_gt
  rw [Extended.div_number hm.ne', Extended.div_number hm.ne', Scalar.square, Scalar.square,
    Extended.mul_number, Extended.mul_number, Extended.add_number, hroot, Extended.mul_number,
    mul_sqrt_scaled hm]

/-- The length of a plane vector of numbers. -/
theorem hypot_number (a b : ℝ) :
    Scalar.hypot (number a) (number b) = number √(a ^ 2 + b ^ 2) := by
  have hmax : Scalar.max (Scalar.abs (number a)) (Scalar.abs (number b)) = number (max |a| |b|) :=
    ExactPartial.max_of (K := ℝ) |a| |b|
  unfold Scalar.hypot
  simp only [hmax, Extended.isFinite_number, Bool.not_true, Bool.false_eq_true, if_false]
  rw [Extended.zero_eq]
  split
  · rename_i hzero
    have hzero : max |a| |b| = 0 := of_decide_eq_true hzero
    obtain rfl : a = 0 := abs_nonpos_iff.1 (hzero ▸ le_max_left _ _)
    obtain rfl : b = 0 := abs_nonpos_iff.1 (hzero ▸ le_max_right _ _)
    exact congrArg number (by simp)
  · rename_i hzero
    have hne : max |a| |b| ≠ 0 := fun h => hzero (decide_eq_true h)
    exact scaled_length_number ((le_max_of_le_left (abs_nonneg a)).lt_of_ne' hne) a b

/-- The distance between neighbours of samples that are spread over the unit interval with its
ends. -/
noncomputable def sampleGap (n : ℕ) : ℝ := if 1 < n then 1 / (n - 1 : ℕ) else 0

theorem sampleGap_number (n : ℕ) :
    (if 1 < n then Scalar.one / Scalar.ofNat (n - 1) else Scalar.zero : Extended ℝ) =
      number (sampleGap n) := by
  rw [sampleGap]
  split
  · rename_i hn
    have hgap : ((n - 1 : ℕ) : ℝ) ≠ 0 := Nat.cast_ne_zero.2 (Nat.sub_pos_of_lt hn).ne'
    rw [Extended.one_eq, Extended.ofNat_eq, Extended.div_number hgap]
  · exact Extended.zero_eq

/-- The phase of a sample: its place in the unit interval, taken `k` times around. -/
noncomputable def phase (n k j : ℕ) : ℝ := -(2 : ℕ) * Real.pi * k * j * sampleGap n

/-- The mean of the samples times a function of their phases. -/
noncomputable def component (f : ℝ → ℝ) (xs : List ℝ) (k : ℕ) : ℝ :=
  (xs.zipIdx.map fun p => p.1 * f (phase xs.length k p.2)).sum / xs.length

/-- The `k`-th Fourier coefficient of a window, the samples spread over the unit interval with its
ends. -/
noncomputable def fourierCoefficient (xs : List ℝ) (k : ℕ) : ℂ :=
  (xs.zipIdx.map fun p => (p.1 : ℂ) * Complex.exp (phase xs.length k p.2 * I)).sum / xs.length

theorem fourierCoefficient_eq (xs : List ℝ) (k : ℕ) :
    fourierCoefficient xs k = component Real.cos xs k + component Real.sin xs k * I := by
  have hsum (l : List (ℝ × ℕ)) (θ : ℕ → ℝ) :
      (l.map fun p => (p.1 : ℂ) * Complex.exp (θ p.2 * I)).sum =
        (l.map fun p => p.1 * Real.cos (θ p.2)).sum +
          (l.map fun p => p.1 * Real.sin (θ p.2)).sum * I := by
    induction l with
    | nil => simp
    | cons p l ih =>
      simp only [List.map_cons, List.sum_cons]
      rw [ih, Complex.exp_mul_I]
      push_cast
      ring
  rw [fourierCoefficient, hsum, component, component]
  push_cast
  ring

theorem component_number {xs : List ℝ} (hxs : xs ≠ []) {f : Extended ℝ → Extended ℝ} {f' : ℝ → ℝ}
    (hf : ∀ x, f (number x) = number (f' x)) {angle : ℕ → Extended ℝ} {k : ℕ}
    (hangle : ∀ j, angle j = number (phase xs.length k j)) :
    Scalar.sum ((xs.map number).zipIdx.map fun p => p.1 * f (angle p.2)) /
      Scalar.ofNat xs.length = number (component f' xs k) := by
  have hlength : (xs.length : ℝ) ≠ 0 := Nat.cast_ne_zero.2 (List.length_pos_iff.2 hxs).ne'
  have hterms : ((xs.map number).zipIdx.map fun p => p.1 * f (angle p.2)) =
      (xs.zipIdx.map fun p => p.1 * f' (phase xs.length k p.2)).map number := by
    rw [List.zipIdx_map, List.map_map, List.map_map]
    refine List.map_congr_left fun p _ => ?_
    change number p.1 * f (angle p.2) = number (p.1 * f' (phase xs.length k p.2))
    rw [hangle, hf, Extended.mul_number]
  rw [hterms, Extended.sum_number, Extended.ofNat_eq, Extended.div_number hlength, component]

theorem fourierMagnitude_number {xs : List ℝ} (hxs : xs ≠ []) (k : ℕ) :
    fourierMagnitude (xs.map number) k = number ‖fourierCoefficient xs k‖ := by
  rw [fourierMagnitude, List.length_map]
  have hangle (j : ℕ) : (-Scalar.two * Scalar.pi * Scalar.ofNat k * Scalar.ofNat j *
      if 1 < xs.length then Scalar.one / Scalar.ofNat (xs.length - 1) else Scalar.zero :
        Extended ℝ) = number (phase xs.length k j) := by
    have htwo : (Scalar.two : Extended ℝ) = number ((2 : ℕ) : ℝ) := Extended.ofNat_eq 2
    have hpi : (Scalar.pi : Extended ℝ) = number Real.pi := rfl
    rw [sampleGap_number, htwo, hpi, Extended.ofNat_eq, Extended.ofNat_eq, phase]
    simp only [Extended.neg_number, Extended.mul_number]
  rw [fourierCoefficient_eq, Complex.norm_add_mul_I, ← hypot_number]
  exact congrArg₂ Scalar.hypot (component_number hxs (f := Scalar.cos) (fun _ => rfl) hangle)
    (component_number hxs (f := Scalar.sin) (fun _ => rfl) hangle)

/-! ## The share outside the constant term -/

/-- The share of the squares that is not in the first one. -/
noncomputable def overtoneShare (cs : List ℝ) : ℝ :=
  if 0 < (cs.map (· ^ 2)).sum then ((cs.drop 1).map (· ^ 2)).sum / (cs.map (· ^ 2)).sum else 0

theorem sum_square_number (cs : List ℝ) :
    Scalar.sum ((cs.map number).map Scalar.square) = number (cs.map (· ^ 2)).sum := by
  rw [← Extended.sum_number, List.map_map, List.map_map]
  refine congrArg Scalar.sum (List.map_congr_left fun c _ => congrArg number ?_)
  exact (sq c).symm

theorem harmonicityOf_number (cs : List ℝ) :
    harmonicityOf (cs.map number) = number (overtoneShare cs) := by
  rw [harmonicityOf, ← List.map_drop, sum_square_number, sum_square_number, Extended.zero_eq,
    Extended.lt_number, overtoneShare]
  simp only [decide_eq_true_eq]
  split
  · rename_i hpos
    exact Extended.div_number hpos.ne'
  · rfl

/-- A share is at least nothing and at most all. -/
theorem overtoneShare_mem (cs : List ℝ) : 0 ≤ overtoneShare cs ∧ overtoneShare cs ≤ 1 := by
  have hsquares (l : List ℝ) : 0 ≤ (l.map (· ^ 2)).sum :=
    List.sum_nonneg (List.forall_mem_map.2 fun c _ => sq_nonneg c)
  unfold overtoneShare
  split
  · refine ⟨div_nonneg (hsquares _) (hsquares _), div_le_one_of_le₀ ?_ (hsquares _)⟩
    cases cs with
    | nil => exact le_rfl
    | cons c rest =>
      rw [List.map_cons, List.sum_cons]
      exact le_add_of_nonneg_left (sq_nonneg c)
  · exact ⟨le_rfl, zero_le_one⟩

/-- The mean of no values is not a number, and neither is a magnitude. -/
theorem fourierMagnitude_nil (k : ℕ) :
    fourierMagnitude ([] : List (Extended ℝ)) k = .undefined := by
  have hmean : (Scalar.sum ([] : List (Extended ℝ)) / Scalar.ofNat 0) = .undefined := by
    rw [Extended.ofNat_eq, Nat.cast_zero]
    exact (congrArg (· / _) Extended.zero_eq).trans Extended.zero_div_zero
  exact congrArg₂ Scalar.hypot hmean hmean

theorem harmonicityOf_nil : harmonicityOf
    ((List.range cycleHarmonics).map (fourierMagnitude ([] : List (Extended ℝ)))) = number 0 := by
  have hmagnitudes : fourierMagnitude ([] : List (Extended ℝ)) = fun _ => .undefined :=
    funext fourierMagnitude_nil
  have hsquare : Scalar.square (.undefined : Extended ℝ) = .undefined := Extended.undefined_mul _
  have henergy : Scalar.sum (((List.range cycleHarmonics).map
      fun _ => (.undefined : Extended ℝ)).map Scalar.square) = .undefined := by
    simp only [List.map_map, Function.comp_def, hsquare]
    rfl
  have hlt : Scalar.lt Scalar.zero (.undefined : Extended ℝ) = false :=
    (Extended.undefined_compare (.inr rfl)).1
  simp only [harmonicityOf, hmagnitudes, henergy, hlt, Bool.false_eq_true, if_false]
  exact Extended.zero_eq

/-! ## A window of one value -/

theorem sum_powers_eq_zero {m k : ℕ} {ζ : ℂ} (hζ : IsPrimitiveRoot ζ m) (hdvd : ¬ m ∣ k) :
    ∑ j ∈ Finset.range m, (ζ ^ k) ^ j = 0 := by
  have hne : 1 - ζ ^ k ≠ 0 := sub_ne_zero.2 fun h => hdvd ((hζ.pow_eq_one_iff_dvd k).1 h.symm)
  refine (mul_eq_zero.1 ?_).resolve_left hne
  rw [mul_neg_geom_sum, ← pow_mul, mul_comm k m, pow_mul, hζ.pow_eq_one, one_pow, sub_self]

/-- The powers of a root of unity, from one to one again: each of them is one, or all but the last
of them cancel. -/
theorem sum_powers {m k : ℕ} {ζ : ℂ} (hζ : IsPrimitiveRoot ζ m) :
    ∑ j ∈ Finset.range (m + 1), (ζ ^ k) ^ j = if m ∣ k then (m : ℂ) + 1 else 1 := by
  split
  · rename_i hdvd
    simp [(hζ.pow_eq_one_iff_dvd k).2 hdvd]
  · rename_i hdvd
    rw [Finset.sum_range_succ, sum_powers_eq_zero hζ hdvd, ← pow_mul, mul_comm k m, pow_mul,
      hζ.pow_eq_one, one_pow, zero_add]

/-- Samples go around in the powers of a root of unity whose order is one less than their number. -/
theorem exp_phase (m k j : ℕ) (hm : 0 < m) : Complex.exp (phase (m + 1) k j * I) =
    ((Complex.exp (2 * Real.pi * I / m))⁻¹ ^ k) ^ j := by
  rw [← Complex.exp_neg, ← Complex.exp_nat_mul, ← Complex.exp_nat_mul, phase, sampleGap,
    if_pos (Nat.succ_lt_succ hm), Nat.add_sub_cancel]
  push_cast
  ring_nf

/-- The magnitude of a coefficient of a window of one value. -/
noncomputable def flatMagnitude (n : ℕ) (a : ℝ) (k : ℕ) : ℝ := if n - 1 ∣ k then |a| else |a| / n

theorem flatMagnitude_pos {n : ℕ} (hn : 2 ≤ n) {a : ℝ} (ha : a ≠ 0) (k : ℕ) :
    0 < flatMagnitude n a k := by
  have hsize : 0 < |a| := abs_pos.2 ha
  rw [flatMagnitude]
  split
  · exact hsize
  · exact div_pos hsize (Nat.cast_pos.2 (Nat.zero_lt_of_lt hn))

theorem fourierCoefficient_replicate {m : ℕ} (hm : 0 < m) (a : ℝ) (k : ℕ) :
    fourierCoefficient (List.replicate (m + 1) a) k =
      a * (if m ∣ k then (m : ℂ) + 1 else 1) / (m + 1 : ℕ) := by
  have hroot : IsPrimitiveRoot (Complex.exp (2 * Real.pi * I / m))⁻¹ m :=
    (Complex.isPrimitiveRoot_exp m hm.ne').inv
  have hsamples : (List.replicate (m + 1) a).zipIdx = (List.range (m + 1)).map (a, ·) :=
    List.ext_getElem (by simp) (by simp)
  rw [fourierCoefficient, hsamples, List.map_map, List.length_replicate, ← sum_powers hroot,
    Finset.mul_sum]
  refine congrArg (· / ((m + 1 : ℕ) : ℂ)) ?_
  simp only [← exp_phase m k _ hm]
  rfl

theorem norm_fourierCoefficient_replicate {n : ℕ} (hn : 2 ≤ n) (a : ℝ) (k : ℕ) :
    ‖fourierCoefficient (List.replicate n a) k‖ = flatMagnitude n a k := by
  obtain ⟨m, rfl⟩ := Nat.exists_eq_add_of_le' (Nat.one_le_of_lt hn)
  rw [fourierCoefficient_replicate (Nat.lt_of_succ_lt_succ hn), flatMagnitude, norm_div, norm_mul,
    Complex.norm_real, Complex.norm_natCast, Real.norm_eq_abs, Nat.add_sub_cancel]
  split
  · have hlength : ‖(m : ℂ) + 1‖ = ((m + 1 : ℕ) : ℝ) := by
      rw [← Complex.norm_natCast]
      push_cast
      rfl
    rw [hlength, mul_div_cancel_right₀ _ (Nat.cast_ne_zero.2 (Nat.succ_ne_zero m))]
  · rw [norm_one, mul_one]

/-- **The energy of the nine harmonics** of a window of one value, in units of the value's square: a
whole one for every harmonic that comes around with the samples, and for the others what the sample
too many leaves. -/
noncomputable def overtones (n : ℕ) : ℝ :=
  ∑ k ∈ Finset.range 9, if n - 1 ∣ k + 1 then 1 else 1 / (n : ℝ) ^ 2

theorem overtones_eq (n : ℕ) :
    overtones n = (9 / (n - 1) : ℕ) + (9 - 9 / (n - 1) : ℕ) / (n : ℝ) ^ 2 := by
  have hwhole := Nat.card_multiples 9 (n - 1)
  have hrest : (Finset.filter (fun k => ¬ n - 1 ∣ k + 1) (Finset.range 9)).card =
      9 - 9 / (n - 1) := by
    have htotal := Finset.card_filter_add_card_filter_not (s := Finset.range 9)
      fun k => n - 1 ∣ k + 1
    rw [hwhole, Finset.card_range] at htotal
    omega
  rw [overtones, Finset.sum_ite, Finset.sum_const, Finset.sum_const, hwhole, hrest, nsmul_one,
    nsmul_eq_mul, mul_one_div]

theorem overtones_pos {n : ℕ} (hn : 2 ≤ n) : 0 < overtones n := by
  have hpos : 0 < 1 / (n : ℝ) ^ 2 := by positivity
  refine Finset.sum_pos (fun k _ => ?_) ⟨0, by simp⟩
  split
  · exact zero_lt_one
  · exact hpos

theorem sq_flatMagnitude (n : ℕ) (a : ℝ) (k : ℕ) :
    flatMagnitude n a k ^ 2 = a ^ 2 * if n - 1 ∣ k then 1 else 1 / (n : ℝ) ^ 2 := by
  rw [flatMagnitude]
  split
  · rw [sq_abs, mul_one]
  · rw [div_pow, sq_abs, mul_one_div]

/-- The energy outside the constant term. -/
theorem sum_overtones (n : ℕ) (a : ℝ) :
    ((((List.range cycleHarmonics).map (flatMagnitude n a)).drop 1).map (· ^ 2)).sum =
      a ^ 2 * overtones n := by
  have hdrop : (List.range cycleHarmonics).drop 1 = (List.range 9).map (· + 1) := rfl
  rw [← List.map_drop, hdrop, List.map_map, List.map_map, overtones, Finset.mul_sum]
  simp only [← sq_flatMagnitude]
  rfl

theorem overtoneShare_flat {n : ℕ} (hn : 2 ≤ n) {a : ℝ} (ha : a ≠ 0) :
    overtoneShare ((List.range cycleHarmonics).map (flatMagnitude n a)) =
      overtones n / (1 + overtones n) := by
  have hconstant : flatMagnitude n a 0 ^ 2 = a ^ 2 := by
    rw [sq_flatMagnitude, if_pos (dvd_zero _), mul_one]
  have henergy : (((List.range cycleHarmonics).map (flatMagnitude n a)).map (· ^ 2)).sum =
      a ^ 2 * (1 + overtones n) := by
    rw [mul_add, mul_one, ← sum_overtones n a, ← hconstant]
    rfl
  have hsquare : 0 < a ^ 2 := sq_pos_of_ne_zero ha
  have hpos := overtones_pos hn
  rw [overtoneShare, henergy, sum_overtones, if_pos (by positivity),
    mul_div_mul_left _ _ hsquare.ne']

/-! ## The window of a cycle -/

section Window

variable {values times : Array (Extended ℝ)} {start stop n : ℕ} {xs : List ℝ} {a : ℝ}

theorem coefficients_number (times : Array (Extended ℝ))
    (hwindow : (values.extract start stop).toList = xs.map number) (hxs : xs ≠ []) :
    (describeCycle values times start stop).coefficients =
      ((List.range cycleHarmonics).map fun k => ‖fourierCoefficient xs k‖).map number := by
  rw [List.map_map]
  refine List.map_congr_left fun k _ => ?_
  rw [hwindow, fourierMagnitude_number hxs]
  rfl

theorem harmonicity_number (hwindow : (values.extract start stop).toList = xs.map number)
    (hxs : xs ≠ []) : (describeCycle values times start stop).harmonicity = number
      (overtoneShare ((List.range cycleHarmonics).map fun k => ‖fourierCoefficient xs k‖)) := by
  rw [← harmonicityOf_number]
  exact congrArg harmonicityOf (coefficients_number times hwindow hxs)

/-- The harmonicity of numbers is a share; where there are none it is zero. -/
theorem harmonicity_mem (hwindow : (values.extract start stop).toList = xs.map number) :
    ∃ h : ℝ, 0 ≤ h ∧ h ≤ 1 ∧ (describeCycle values times start stop).harmonicity = number h := by
  by_cases hxs : xs = []
  · refine ⟨0, le_rfl, zero_le_one, ?_⟩
    change harmonicityOf ((List.range cycleHarmonics).map (fourierMagnitude _)) = _
    rw [hwindow, hxs]
    exact harmonicityOf_nil
  · obtain ⟨hnonneg, hle⟩ := overtoneShare_mem
      ((List.range cycleHarmonics).map fun k => ‖fourierCoefficient xs k‖)
    exact ⟨_, hnonneg, hle, harmonicity_number hwindow hxs⟩

theorem fourierMagnitude_flat (hn : 2 ≤ n) (a : ℝ) (k : ℕ) :
    fourierMagnitude (List.replicate n (number a)) k = number (flatMagnitude n a k) := by
  have hne : List.replicate n a ≠ [] := by simpa using (Nat.zero_lt_of_lt hn).ne'
  rw [← List.map_replicate, fourierMagnitude_number hne, norm_fourierCoefficient_replicate hn]

theorem harmonicity_flat (hn : 2 ≤ n) (ha : a ≠ 0)
    (hwindow : (values.extract start stop).toList = List.replicate n (number a)) :
    (describeCycle values times start stop).harmonicity =
      number (overtones n / (1 + overtones n)) := by
  have hmagnitudes : fourierMagnitude (List.replicate n (number a)) =
      number ∘ flatMagnitude n a := funext (fourierMagnitude_flat hn a)
  change harmonicityOf ((List.range cycleHarmonics).map (fourierMagnitude _)) = _
  rw [hwindow, hmagnitudes, ← List.map_map, harmonicityOf_number, overtoneShare_flat hn ha]

/-- **The harmonics of a cycle** — the coefficients of a window of numbers are the lengths of its
Fourier coefficients on a grid with both ends of the unit interval, and its harmonicity is a share.
One value that is not zero, taken twice or more, has every harmonic: whole where the harmonic comes
around with the samples, and divided by their number elsewhere. So its harmonicity is never zero. -/
theorem cycle_harmonics (values times : Array (Extended ℝ)) {start stop : ℕ} {xs : List ℝ}
    (hwindow : (values.extract start stop).toList = xs.map number) :
    (∃ h : ℝ, 0 ≤ h ∧ h ≤ 1 ∧ (describeCycle values times start stop).harmonicity = number h) ∧
    (xs ≠ [] → (describeCycle values times start stop).coefficients =
      (List.range cycleHarmonics).map fun k => number ‖fourierCoefficient xs k‖) ∧
    ∀ (n : ℕ) (a : ℝ), 2 ≤ n → a ≠ 0 → xs = List.replicate n a →
      (∀ k, fourierMagnitude (values.extract start stop).toList k = number (flatMagnitude n a k) ∧
        0 < flatMagnitude n a k) ∧
      (describeCycle values times start stop).harmonicity =
        number (overtones n / (1 + overtones n)) ∧
      0 < overtones n / (1 + overtones n) := by
  refine ⟨harmonicity_mem hwindow, fun hxs => ?_, fun n a hn ha hflat => ?_⟩
  · rw [coefficients_number times hwindow hxs, List.map_map]
    rfl
  · rw [hflat, List.map_replicate] at hwindow
    have hpos := overtones_pos hn
    refine ⟨fun k => ⟨?_, flatMagnitude_pos hn ha k⟩, harmonicity_flat hn ha hwindow,
      by positivity⟩
    rw [hwindow, fourierMagnitude_flat hn]

end Window

/-- Eleven samples of one. -/
noncomputable def level : Array (Extended ℝ) := Array.replicate 11 (number 1)

/-- The hours the samples are taken at. -/
noncomputable def hours : Array (Extended ℝ) := (Array.range 11).map Scalar.ofNat

theorem level_window : (level.extract 0 10).toList = List.replicate 10 (number 1) := by
  simp [level]

/-- The window of a level field has a harmonicity above zero and at most one. -/
theorem level_share : (level.extract 0 10).toList = (List.replicate 10 1).map number ∧
    ∃ h : ℝ, 0 < h ∧ h ≤ 1 ∧ (describeCycle level hours 0 10).harmonicity = number h := by
  have hwindow : (level.extract 0 10).toList = (List.replicate 10 1).map number := by
    rw [level_window, List.map_replicate]
  obtain ⟨⟨h, -, hle, hshare⟩, -, hflat⟩ := cycle_harmonics level hours hwindow
  obtain ⟨-, hvalue, hpos⟩ := hflat 10 1 le_add_self one_ne_zero rfl
  obtain rfl := Extended.number_injective (hshare.symm.trans hvalue)
  exact ⟨hwindow, _, hpos, hle, hshare⟩

/-- **Harmonics of a level field** — a tenth of the value in the first harmonic, and more than half
of the energy outside the constant term. -/
theorem level_has_harmonics : (level.extract 0 10).toList = List.replicate 10 (number 1) ∧
    fourierMagnitude (level.extract 0 10).toList 1 = number (1 / 10) ∧
    (1 / 10 : ℝ) ≠ 0 ∧
    (describeCycle level hours 0 10).harmonicity = number (27 / 52) ∧ (27 / 52 : ℝ) ≠ 0 := by
  have hten : 2 ≤ 10 := le_add_self
  have hfirst : flatMagnitude 10 1 1 = 1 / 10 := by norm_num [flatMagnitude]
  have hovertones : overtones 10 = 27 / 25 := by norm_num [overtones_eq]
  refine ⟨level_window, ?_, by norm_num, ?_, by norm_num⟩
  · rw [level_window, fourierMagnitude_flat hten, hfirst]
  · rw [harmonicity_flat hten one_ne_zero level_window, hovertones]
    norm_num

end FieldFlow
