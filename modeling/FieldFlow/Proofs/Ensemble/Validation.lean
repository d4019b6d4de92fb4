import FieldFlow.Ensemble.Distribution
import FieldFlow.Ensemble.Generator
import FieldFlow.Proofs.Outcome
import FieldFlow.Proofs.Scalar.Extended

/-!
# Proofs/Ensemble/Validation — which distributions are refused

A distribution is accepted for its mean and for either its bounds or its spread, whichever kind it
has (`Distribution.validate_eq_ok_iff`). What a draw goes by is another matter: a uniform draw
follows the bounds where there are any, a normal or log-normal one follows the spread even then. So
accepted numbers are those that a draw can go by if it is uniform or if no bounds are given, and
with bounds the spread of the other kinds is not looked at (`Distribution.refused_iff`).
-/

namespace FieldFlow

namespace Distribution

variable {α : Type} [Scalar α]

/-! ## What is accepted -/

section Accepted

variable (K : Type) [FieldOfNumbers K] [LinearOrder K] [IsStrictOrderedRing K] [FloorSemiring K]
  [ExactPartial K α] {d : Distribution α} {field : String}

open ExactOver

/-- **Numbers that are accepted**: the bounds are looked at if there are any, and otherwise the
spread. -/
structure Admissible (d : Distribution α) : Prop where
  mean : ∃ m : K, d.mean = of m
  nonzero : d.kind = .logNormal → d.mean ≠ of (0 : K)
  bounds : ∀ low high, d.bounds = some (low, high) → ∃ l h : K, low = of l ∧ high = of h ∧ l ≤ h
  spread : d.bounds = none → ∃ s : K, d.spread = of s ∧ 0 ≤ s

/-- **Numbers that a draw can go by**: a spread that is not negative, and for a log-normal draw a
mean that is not zero, or the ends of an interval in order. -/
def Drawable (d : Distribution α) : Prop :=
  match d.kind with
  | .normal => ∃ s : K, d.spread = of s ∧ 0 ≤ s
  | .logNormal => (∃ s : K, d.spread = of s ∧ 0 ≤ s) ∧ d.mean ≠ of (0 : K)
  | .uniform => ∃ low high : K, d.interval = (of low, of high) ∧ low ≤ high

variable {K}

theorem bounds_check_iff {low high : α} :
    (Scalar.isFinite low = true ∧ Scalar.isFinite high = true) ∧ Scalar.lt high low = false ↔
      ∃ l h : K, low = of l ∧ high = of h ∧ l ≤ h := by
  constructor
  · rintro ⟨⟨hlow, hhigh⟩, hle⟩
    obtain ⟨l, rfl⟩ := exists_of (K := K) low hlow
    obtain ⟨h, rfl⟩ := exists_of (K := K) high hhigh
    exact ⟨l, h, rfl, rfl, le_of_lt_eq_false hle⟩
  · rintro ⟨l, h, rfl, rfl, hle⟩
    exact ⟨⟨isFinite_of l, isFinite_of h⟩, by rw [lt, decide_eq_false hle.not_gt]⟩

theorem spread_check_iff {spread : α} :
    Scalar.isFinite spread = true ∧ Scalar.le Scalar.zero spread = true ↔
      ∃ s : K, spread = of s ∧ 0 ≤ s := by
  rw [zero_eq (K := K)]
  constructor
  · rintro ⟨hfinite, hle⟩
    obtain ⟨s, rfl⟩ := exists_of (K := K) spread hfinite
    exact ⟨s, rfl, by rwa [le, decide_eq_true_iff] at hle⟩
  · rintro ⟨s, rfl, hle⟩
    exact ⟨isFinite_of s, by rw [le, decide_eq_true hle]⟩

/-- **A distribution is accepted** if its numbers are admissible. -/
theorem validate_eq_ok_iff : d.validate field = .ok () ↔ d.Admissible K := by
  have hmean : Scalar.isFinite d.mean = true ↔ ∃ m : K, d.mean = of m :=
    ⟨exists_of d.mean, fun ⟨m, hm⟩ => hm ▸ isFinite_of m⟩
  have hzero : Scalar.eq d.mean Scalar.zero = true ↔ d.mean = of (0 : K) := by
    rw [zero_eq (K := K), ExactPartial.eq_of_iff]
  have hlast : (if d.kind = .logNormal && Scalar.eq d.mean Scalar.zero then
      .error (.invalidDistribution field .zeroMean) else pure () : Except (Error α) Unit) = .ok () ↔
        (d.kind = .logNormal → d.mean ≠ of (0 : K)) := by
    rw [← not_and, ← hzero]
    split
    · rename_i hzero
      rw [Bool.and_eq_true, decide_eq_true_iff] at hzero
      exact iff_of_false nofun (not_not.2 hzero)
    · rename_i hzero
      rw [Bool.and_eq_true, decide_eq_true_iff] at hzero
      exact iff_of_true rfl hzero
  unfold validate
  rcases hbounds : d.bounds with _ | ⟨low, high⟩
  · simp only [ite_bind_eq_ok_iff, hlast]
    simp only [reduceCtorEq, imp_false, Bool.not_eq_true', Bool.not_eq_false, Bool.and_eq_true,
      hmean, spread_check_iff (K := K)]
    exact ⟨fun ⟨hm, hs, hz⟩ => ⟨hm, hz, by simp [hbounds], fun _ => hs⟩,
      fun h => ⟨h.mean, h.spread hbounds, h.nonzero⟩⟩
  · simp only [ite_bind_eq_ok_iff, hlast]
    simp only [reduceCtorEq, imp_false, Bool.not_eq_true', Bool.not_eq_false, Bool.not_eq_true,
      Bool.or_eq_true, not_or, Bool.and_eq_true, hmean, bounds_check_iff (K := K)]
    exact ⟨fun ⟨hm, hb, hz⟩ => ⟨hm, hz, by simpa [hbounds] using hb, by simp [hbounds]⟩,
      fun h => ⟨h.mean, h.bounds low high hbounds, h.nonzero⟩⟩

end Accepted

section Sampled

/-- **A draw that is refused** for the numbers of its distribution. -/
def Refused {σ : Type} [Sampler σ α] (d : Distribution α) (field : String) (n : Nat) (g : σ) :
    Prop :=
  ∃ defect, d.sample field n g = .error (.error (.invalidDistribution field defect))

variable {σ : Type} [Sampler σ α] {d : Distribution α} {field : String} {n : Nat} {g : σ}

/-- A check that refuses, or what comes after it, has failed. -/
theorem of_check_eq_error {ε β : Type} {c : Prop} [Decidable c] {e e' : ε} {rest : Except ε β}
    (h : (if c then (.error e' : Except ε PUnit) >>= fun _ => rest else rest) = .error e) :
    e = e' ∨ rest = .error e := by
  split at h
  · exact .inl (Except.error.inj h).symm
  · exact .inr h

/-- What is refused, is refused for the field. -/
theorem of_validate_eq_error {e : Error α} (h : d.validate field = .error e) :
    ∃ defect, e = .invalidDistribution field defect := by
  unfold validate at h
  rcases of_check_eq_error h with rfl | h
  · exact ⟨_, rfl⟩
  dsimp only at h
  split at h
  all_goals
    rcases of_check_eq_error h with rfl | h
    · exact ⟨_, rfl⟩
    split at h
    · exact ⟨_, (Except.error.inj h).symm⟩
    · exact nomatch h

/-- **A draw is refused** where its distribution is not accepted, and for a variation that is not
finite — what else can go wrong is a matter of room, which is no refusal. -/
theorem refused_iff : d.Refused field n g ↔ d.validate field ≠ .ok () ∨
    d.kind = .normal ∧ Scalar.isFinite d.spread = false ∨
    d.kind = .logNormal ∧ Scalar.isFinite (Scalar.sqrt d.logVariance) = false := by
  cases hvalid : d.validate field with
  | error e =>
    obtain ⟨defect, rfl⟩ := of_validate_eq_error hvalid
    refine iff_of_true ⟨defect, ?_⟩ (.inl nofun)
    rw [sample, hvalid]
    rfl
  | ok =>
    rw [or_iff_right (by simp)]
    unfold Refused sample
    rw [hvalid]
    cases hkind : d.kind with
    | normal =>
      cases hfinite : Scalar.isFinite d.spread with
      | false => simp [bind_eq_error_iff]
      | true => simp [bind_eq_error_iff, -bind_pure_comp]
    | logNormal =>
      cases hfinite : Scalar.isFinite (Scalar.sqrt d.logVariance) with
      | false => simp [bind_eq_error_iff]
      | true => simp [bind_eq_error_iff, -bind_pure_comp]
    | uniform =>
      simp only [bind_eq_error_iff, mapError_eq_error_iff, mapError_eq_ok_iff, reduceCtorEq,
        false_and, and_false, exists_false, or_false, false_or, iff_false]
      rintro ⟨defect, _, -, _, -, h⟩
      split at h
      · exact pure_ne_error h
      split at h
      · simp [bind_eq_error_iff, -bind_pure_comp] at h
      · exact pure_ne_error h

end Sampled

/-! ## What a draw goes by -/

section Drawn

variable {K : Type} [FieldOfNumbers K] [LinearOrder K] [IsStrictOrderedRing K] [FloorSemiring K]
  [ExactPartial K α] {d : Distribution α}

open ExactOver

/-- The interval of admissible numbers has its ends in order. -/
theorem Admissible.interval_ordered (h : d.Admissible K) :
    ∃ low high : K, d.interval = (of low, of high) ∧ low ≤ high := by
  rcases hbounds : d.bounds with _ | ⟨low, high⟩
  · obtain ⟨m, hm⟩ := h.mean
    obtain ⟨s, hs, hpos⟩ := h.spread hbounds
    refine ⟨m - 1 / 2 * s, m + 1 / 2 * s, ?_, by linarith⟩
    rw [interval, hbounds, hm, hs, half_eq (K := K), mul, sub, add]
    rfl
  · obtain ⟨l, r, rfl, rfl, hle⟩ := h.bounds low high hbounds
    exact ⟨l, r, by rw [interval, hbounds]; rfl, hle⟩

/-- Admissible numbers are those that a draw can go by, but for the spread where that is not looked
at. -/
theorem Admissible.drawable_iff (h : d.Admissible K) :
    d.Drawable K ↔ d.kind = .uniform ∨ ∃ s : K, d.spread = of s ∧ 0 ≤ s := by
  unfold Drawable
  cases hkind : d.kind with
  | normal => simp
  | logNormal => simp [h.nonzero hkind]
  | uniform => simpa using h.interval_ordered

/-- Beside bounds, the spread is not looked at. -/
theorem validate_of_bounds {low high : α} (h : d.bounds = some (low, high)) (field : String)
    (spread : α) : { d with spread := spread }.validate field = d.validate field := by
  unfold validate
  rw [h]

variable (K) in
/-- **Accepted numbers are those that a draw can go by**, if the draw is uniform or no bounds are
given: a negative spread that is used is refused then, and bounds that are not in order are refused
for every kind of draw. With bounds, a normal or log-normal draw is accepted whatever its spread,
and refused only where a variation is not finite. So it is for every stream that is drawn from. -/
theorem accepted_drawable (d : Distribution α) (field : String) :
    (d.validate field = .ok () ↔ d.Admissible K) ∧
    (d.validate field = .ok () → d.kind = .uniform ∨ d.bounds = none → d.Drawable K) ∧
    (d.validate field = .ok () →
      (d.Drawable K ↔ d.kind = .uniform ∨ ∃ s : K, d.spread = of s ∧ 0 ≤ s)) ∧
    (d.bounds.isSome → ∀ spread, { d with spread := spread }.validate field = d.validate field) ∧
    ∀ (σ : Type) [Sampler σ α] (n : Nat) (g : σ),
      (d.Refused field n g ↔ ¬ d.Admissible K ∨
        d.kind = .normal ∧ Scalar.isFinite d.spread = false ∨
        d.kind = .logNormal ∧ Scalar.isFinite (Scalar.sqrt d.logVariance) = false) ∧
      (∀ s : K, d.bounds = none → d.spread = of s → s < 0 → d.Refused field n g) ∧
      ∀ low high : K, d.bounds = some (of low, of high) → high < low → d.Refused field n g := by
  have hvalid : d.validate field = .ok () ↔ d.Admissible K := validate_eq_ok_iff
  have hrefused {σ : Type} [Sampler σ α] (n : Nat) (g : σ) : d.Refused field n g ↔ ¬ d.Admissible K ∨
      d.kind = .normal ∧ Scalar.isFinite d.spread = false ∨
      d.kind = .logNormal ∧ Scalar.isFinite (Scalar.sqrt d.logVariance) = false :=
    refused_iff.trans (or_congr_left (not_congr hvalid))
  refine ⟨hvalid, fun hok hused => ?_, fun hok => (hvalid.1 hok).drawable_iff,
    fun hsome spread => ?_, fun σ _ n g => ⟨hrefused n g, fun s hnone hs hneg => ?_,
      fun low high hbounds hlt => ?_⟩⟩
  · exact (hvalid.1 hok).drawable_iff.2 (hused.imp_right (hvalid.1 hok).spread)
  · obtain ⟨⟨low, high⟩, hbounds⟩ := Option.isSome_iff_exists.1 hsome
    exact validate_of_bounds hbounds field spread
  · refine (hrefused n g).2 (.inl fun h => ?_)
    obtain ⟨s', hs', hpos⟩ := h.spread hnone
    obtain rfl := of_injective (hs.symm.trans hs')
    exact hneg.not_ge hpos
  · refine (hrefused n g).2 (.inl fun h => ?_)
    obtain ⟨l, r, hl, hr, hle⟩ := h.bounds _ _ hbounds
    obtain rfl := of_injective hl
    obtain rfl := of_injective hr
    exact hlt.not_ge hle

end Drawn

/-- A negative spread, an interval whose ends are not in order and a log-normal draw around zero are
refused. -/
theorem invalid_refused :
    (normal (.number 1) (.number (-1 / 10)) : Distribution (Extended ℚ)).Refused "x" 1
      (Generator.ofSeed 0) ∧
    (uniformBetween (.number 2) (.number 1) : Distribution (Extended ℚ)).Refused "x" 1
      (Generator.ofSeed 0) ∧
    (logNormal (.number 0) (.number 1) : Distribution (Extended ℚ)).Refused "x" 1
      (Generator.ofSeed 0) := by
  have hdrawn (d : Distribution (Extended ℚ)) := (accepted_drawable ℚ d "x").2.2.2.2 Generator
  have hnormal := hdrawn (normal (.number 1) (.number (-1 / 10)))
  have huniform := hdrawn (uniformBetween (.number 2) (.number 1))
  have hlogNormal := hdrawn (logNormal (.number 0) (.number 1))
  exact ⟨(hnormal 1 (.ofSeed 0)).2.1 (-1 / 10) rfl rfl (by norm_num),
    (huniform 1 (.ofSeed 0)).2.2 2 1 rfl (by norm_num),
    (hlogNormal 1 (.ofSeed 0)).1.2 (.inl fun h => h.nonzero rfl rfl)⟩

/-- A normal distribution with a negative spread and with bounds, which it has no use for. -/
def turned : Distribution Float where
  mean := 1
  spread := -0.5
  kind := .normal
  bounds := some (0, 1)

/-- **A negative spread that is not looked at** is drawn with. -/
theorem turned_drawn : turned.validate "x" = .ok () ∧ turned.kind = .normal ∧
    Scalar.lt turned.spread Scalar.zero = true ∧
    ∃ values g, turned.sample "x" 2 (Generator.ofSeed 0) = .ok (values, g) ∧ values.length = 2 :=
  ⟨by decide, rfl, by decide, _, _, rfl, rfl⟩

end Distribution

end FieldFlow
