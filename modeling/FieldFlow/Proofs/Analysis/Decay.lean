import FieldFlow.Proofs.Analysis.Rates

/-!
# Proofs/Analysis/Decay — the rate of distances that decay

The fit is made to the logarithms of the distances, with the distances for weights. Logarithms of
distances that decay at some rate are on a line, and the slope of this line is the rate with the
other sign. A best line through points on a line is this line, so the rate that is fitted is exactly
the one of the decay, whatever the weights (`decayConstant_eq_rate`).
-/

namespace FieldFlow

open Extended

/-! ## Distances that decay -/

section Decay

variable {rate scale : ℝ} {times distances : Nat → ℝ} {time distance : Nat → Extended ℝ} {n : Nat}

/-- The point for a positive distance. -/
noncomputable def decayPoint (times distances : Nat → ℝ) (t : Nat) : FitPoint ℝ :=
  ⟨times t, Real.log (distances t), distances t⟩

theorem fitPoint_numbers {t : Nat} (htime : time t = number (times t))
    (hdistance : distance t = number (distances t)) (hpos : 0 < distances t) :
    fitPoint time distance t = (decayPoint times distances t).numbers := by
  rw [fitPoint, htime, hdistance]
  exact congrArg (FitPoint.mk _ · _) (if_pos hpos)

/-- The logarithms of distances that decay are on a line, the slope of which is the negative
rate. -/
theorem decayPoint_on_line {t : Nat} (hpos : 0 < distances t)
    (hdecay : distances t = scale * Real.exp (-rate * times t)) :
    (decayPoint times distances t).y =
      Real.log scale + -rate * (decayPoint times distances t).x := by
  have hscale : scale ≠ 0 := by
    rintro rfl
    rw [hdecay, zero_mul] at hpos
    exact hpos.false
  change Real.log (distances t) = Real.log scale + -rate * times t
  rw [hdecay, Real.log_mul hscale (Real.exp_ne_zero _), Real.log_exp]

/-- **A decay constant** of distances that decay is the rate of their decay. -/
theorem decayConstant_eq_rate (htime : ∀ t < n, time t = number (times t))
    (hdistance : ∀ t < n, distance t = number (distances t))
    (hdecay : ∀ t < n, 0 < distances t → distances t = scale * Real.exp (-rate * times t))
    (htwo : ∃ s < n, ∃ t < n, 0 < distances s ∧ 0 < distances t ∧ times s ≠ times t) :
    decayConstant ((List.range n).map time) ((List.range n).map distance) = number rate := by
  have hfinite : ∀ t < n, Scalar.isFinite (distance t) = true := by
    intro t ht
    rw [hdistance t ht, isFinite_number]
  have hoff {t : Nat} : t ∈ offTarget distance n ↔ t < n ∧ 0 < distances t := by
    rw [mem_offTarget]
    refine and_congr_right fun ht => ?_
    rw [hdistance t ht, zero_eq, lt_number, decide_eq_true_iff]
  have hpoints : (offTarget distance n).map (fitPoint time distance) =
      ((offTarget distance n).map (decayPoint times distances)).map FitPoint.numbers := by
    rw [List.map_map]
    refine List.map_congr_left fun t ht => ?_
    obtain ⟨ht, hpos⟩ := hoff.1 ht
    exact fitPoint_numbers (htime t ht) (hdistance t ht) hpos
  have hweight : ∀ p ∈ (offTarget distance n).map (decayPoint times distances), 0 < p.weight := by
    intro p hp
    obtain ⟨t, ht, rfl⟩ := List.mem_map.1 hp
    exact (hoff.1 ht).2
  have hline : ∀ p ∈ (offTarget distance n).map (decayPoint times distances),
      p.y = Real.log scale + -rate * p.x := by
    intro p hp
    obtain ⟨t, ht, rfl⟩ := List.mem_map.1 hp
    obtain ⟨ht, hpos⟩ := hoff.1 ht
    exact decayPoint_on_line hpos (hdecay t ht hpos)
  obtain ⟨s, hs, t, ht, hspos, htpos, hne⟩ := htwo
  have hs : s ∈ offTarget distance n := hoff.2 ⟨hs, hspos⟩
  have ht : t ∈ offTarget distance n := hoff.2 ⟨ht, htpos⟩
  have hseveral : ¬ (offTarget distance n).length < 2 := by
    rw [length_offTarget_lt_two]
    exact fun hsub => hne (congrArg times (hsub (mem_offTarget.1 hs) (mem_offTarget.1 ht)))
  have hspread : ∃ p ∈ (offTarget distance n).map (decayPoint times distances),
      ∃ q ∈ (offTarget distance n).map (decayPoint times distances), p.x ≠ q.x :=
    ⟨_, List.mem_map_of_mem hs, _, List.mem_map_of_mem ht, hne⟩
  rw [decayConstant_of_finite hfinite, if_neg hseveral, hpoints,
    weightedSlope_numbers (weight_pos hweight hspread).ne' (spread_pos hweight hspread).ne',
    bestSlope_eq hweight hspread hline, neg_number, neg_neg]

end Decay

/-- **A rate of convergence is fitted by least squares** — for points with positive weights and two
different times, nothing is divided by zero, no line is better than the one with the slope that is
computed and through the means, and a line that is as good has this slope. So distances that decay
have the rate of their decay. -/
theorem convergence_leastSquares :
    (∀ points : List (FitPoint ℝ), (∀ p ∈ points, 0 < p.weight) →
      (∃ p ∈ points, ∃ q ∈ points, p.x ≠ q.x) → ∃ slope xMean yMean weight variance : ℝ,
        weightedSlope (points.map .numbers) = number slope ∧
        fitMean (points.map .numbers) FitPoint.x = number xMean ∧
        fitMean (points.map .numbers) FitPoint.y = number yMean ∧
        fitWeight (points.map .numbers) = number weight ∧ weight ≠ 0 ∧
        fitVariance (points.map .numbers) = number variance ∧ variance ≠ 0 ∧
        ∀ a b, loss points (yMean - slope * xMean) slope ≤ loss points a b ∧
          (loss points a b ≤ loss points (yMean - slope * xMean) slope → b = slope)) ∧
    ∀ (rec : Recording (Extended ℝ)) (target : OrderedMap (Extended ℝ)) (region : Nat),
      rec.Measures target region → ∀ x < rec.axes.runs, ∀ (times distances : Nat → ℝ)
        (scale rate : ℝ), (∀ t < rec.validPoints, rec.timeAt t = number (times t)) →
        (∀ t < rec.validPoints, rec.distance target region x t = number (distances t)) →
        (∀ t < rec.validPoints, 0 < distances t →
          distances t = scale * Real.exp (-rate * times t)) →
        (∃ s < rec.validPoints, ∃ t < rec.validPoints,
          0 < distances s ∧ 0 < distances t ∧ times s ≠ times t) →
        ∃ rates, convergenceRates rec target region = .ok rates ∧
          rates[x]? = some (number rate) := by
  constructor
  · intro points hw hx
    have hmass := (weight_pos hw hx).ne'
    have hspread := (spread_pos hw hx).ne'
    refine ⟨bestSlope points, FitPoint.mean points FitPoint.x, FitPoint.mean points FitPoint.y, _, _,
      weightedSlope_numbers hmass hspread, fitMean_numbers hmass fun _ => rfl,
      fitMean_numbers hmass fun _ => rfl, fitWeight_numbers, hmass, fitVariance_numbers hmass,
      hspread, fun a b => ⟨loss_le hw hx a b, fun hle => ?_⟩⟩
    by_contra hne
    exact (loss_lt hw hx hne a).not_ge hle
  · intro rec target region hmeasures x hx times distances scale rate htime hdistance hdecay htwo
    refine ⟨_, Recording.convergenceRates_eq hmeasures, ?_⟩
    rw [List.getElem?_map, List.getElem?_range hx]
    exact congrArg some (decayConstant_eq_rate htime hdistance hdecay htwo)

/-- Values over three times in one run. -/
def threeTimes (values : Nat → ℝ) : History (Extended ℝ) :=
  .ofFn 3 ⟨1, 1, 1, 1⟩ fun t _ _ _ _ => number (values t)

/-- A height that is multiplied by a ratio in each unit of time. -/
noncomputable def geometric (ratio : ℝ) : Recording (Extended ℝ) where
  timeStep := number 1
  axes := ⟨3, 1, 1⟩
  sectorLabels := .empty
  method := "by hand"
  lastValid := 2
  fields := .ofList [("time", threeTimes fun t => t), ("height", threeTimes (ratio ^ ·))]

/-- No height at all. -/
def geometric.ground : OrderedMap (Extended ℝ) := .ofList [("height", number 0)]

namespace geometric

variable (ratio : ℝ)

theorem field?_time : (geometric ratio).field? "time" = some (threeTimes fun t => t) := rfl

theorem field?_height :
    (geometric ratio).field? "height" = some (threeTimes (ratio ^ ·)) := rfl

theorem get_threeTimes (values : Nat → ℝ) {t : Nat} (ht : t < 3) :
    (threeTimes values).get t 0 0 0 0 = number (values t) :=
  History.get_ofFn _ _ _ ht ⟨Nat.one_pos, Nat.one_pos, Nat.one_pos, Nat.one_pos⟩

theorem readable_threeTimes (values : Nat → ℝ) : (threeTimes values).Readable 3 0 where
  points_le := Nat.le_refl 3
  steps_lt := (by decide : 3 < memoryEnd)
  region_lt := Nat.one_pos
  regions_lt := (by decide : 1 < memoryEnd)
  rows := Nat.one_pos
  columns := Nat.one_pos

theorem measures : (geometric ratio).Measures ground 0 where
  region_lt := Nat.one_pos
  room := (by decide : checkExtent [3, 1] = .ok ())
  time := ⟨_, field?_time ratio, readable_threeTimes _, Nat.one_pos⟩
  goals name hname := by
    obtain rfl : name = "height" := List.mem_singleton.1 hname
    exact ⟨_, field?_height ratio, readable_threeTimes _, .inl rfl⟩

theorem timeAt_eq {t : Nat} (ht : t < 3) : (geometric ratio).timeAt t = number (t : ℝ) := by
  rw [Recording.timeAt, Recording.reading, field?_time]
  exact get_threeTimes _ ht

variable {ratio}

theorem distance_eq (hratio : 0 ≤ ratio) {t : Nat} (ht : t < 3) :
    (geometric ratio).distance ground 0 0 t = number (ratio ^ t) := by
  have hread : (geometric ratio).reading "height" 0 0 t = number (ratio ^ t) := by
    rw [Recording.reading, field?_height]
    exact get_threeTimes _ ht
  have hsquare : Scalar.sum [Scalar.square ((geometric ratio).reading "height" 0 0 t - number 0)] =
      (number (ratio ^ t * ratio ^ t) : Extended ℝ) := by
    rw [hread, sub_number, sub_zero]
    exact (sum_number [ratio ^ t * ratio ^ t]).trans (by rw [List.sum_singleton])
  have hnonneg : ¬ ratio ^ t * ratio ^ t < 0 := (mul_self_nonneg _).not_gt
  change Scalar.sqrt (Scalar.sum
    [Scalar.square ((geometric ratio).reading "height" 0 0 t - number 0)]) = _
  rw [hsquare]
  exact (if_neg hnonneg).trans (congrArg number (Real.sqrt_mul_self (pow_nonneg hratio t)))

end geometric

open geometric in
/-- The rate of a height that halves is the logarithm of two, and two points have a best line. -/
theorem halving_rate : (∃ rates, convergenceRates (geometric (1 / 2)) ground 0 = .ok rates ∧
      rates[0]? = some (number (Real.log 2))) ∧
    ∃ height slope : ℝ, weightedSlope ([⟨0, 1, 1⟩, ⟨1, 3, 2⟩].map .numbers) = number slope ∧
      ∀ a b, loss [⟨0, 1, 1⟩, ⟨1, 3, 2⟩] height slope ≤ loss [⟨0, 1, 1⟩, ⟨1, 3, 2⟩] a b := by
  have hhalf : (0 : ℝ) ≤ 1 / 2 := by norm_num
  have hdecay (t : Nat) : ((1 / 2 : ℝ)) ^ t = 1 * Real.exp (-Real.log 2 * t) := by
    rw [one_mul, neg_mul, mul_comm, Real.exp_neg, Real.exp_nat_mul, Real.exp_log two_pos, one_div,
      inv_pow]
  have hspread : ∃ p ∈ ([⟨0, 1, 1⟩, ⟨1, 3, 2⟩] : List (FitPoint ℝ)),
      ∃ q ∈ ([⟨0, 1, 1⟩, ⟨1, 3, 2⟩] : List (FitPoint ℝ)), p.x ≠ q.x :=
    ⟨⟨0, 1, 1⟩, by simp, ⟨1, 3, 2⟩, by simp⟩
  constructor
  · refine convergence_leastSquares.2 (geometric (1 / 2)) ground 0 (measures _) 0 Nat.one_pos
      (fun t => t) (fun t => (1 / 2) ^ t) 1 (Real.log 2) (fun t ht => timeAt_eq _ ht)
      (fun t ht => distance_eq hhalf ht) (fun t _ _ => hdecay t) ⟨0, by decide, 1, by decide, ?_⟩
    norm_num
  · obtain ⟨slope, xMean, yMean, _, _, hslope, -, -, -, -, -, -, hbest⟩ :=
      convergence_leastSquares.1 [⟨0, 1, 1⟩, ⟨1, 3, 2⟩] (by simp) hspread
    exact ⟨yMean - slope * xMean, slope, hslope, fun a b => (hbest a b).1⟩

end FieldFlow
