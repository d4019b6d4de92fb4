import FieldFlow.Proofs.Analysis.Distances
import FieldFlow.Proofs.Analysis.LeastSquares

/-!
# Proofs/Analysis/Rates — what a rate of convergence means

A line is fitted to the distances that are positive. Its slope is never infinite
(`weightedSlope_ne`): where the computation leaves the numbers it ends at what is not a number. So
an infinite rate is one of the two that are given without a fit. One of them says that a distance is
not finite, the other that at most one distance is positive, and a run that has stopped at its first
point has no more than one (`convergenceRates_infinite`).
-/

namespace FieldFlow

variable {K : Type} [FieldOfNumbers K]

/-! ## The points of the fit -/

section Points

variable {α : Type} [Scalar α]

/-- The times at which a distance is positive. -/
def offTarget (distance : Nat → α) (points : Nat) : List Nat :=
  (List.range points).filter fun t => Scalar.lt Scalar.zero (distance t)

/-- The point for the distance at one time. -/
def fitPoint (time distance : Nat → α) (t : Nat) : FitPoint α :=
  ⟨time t, Scalar.ln (distance t), distance t⟩

/-- **A decay constant**, from the distances at the successive times. -/
theorem decayConstant_eq (points : Nat) (time distance : Nat → α) :
    decayConstant ((List.range points).map time) ((List.range points).map distance) =
      if (List.range points).any fun t => !Scalar.isFinite (distance t) then -Scalar.infinity
      else if (offTarget distance points).length < 2 then Scalar.infinity
      else -weightedSlope ((offTarget distance points).map (fitPoint time distance)) := by
  have hpoints : ((((List.range points).map time).zip ((List.range points).map distance)).filter
      fun p => Scalar.lt Scalar.zero p.2).map
        (fun p => (⟨p.1, Scalar.ln p.2, p.2⟩ : FitPoint α)) =
      (offTarget distance points).map (fitPoint time distance) := by
    rw [List.zip_map', List.filter_map, List.map_map]
    rfl
  unfold decayConstant
  rw [List.any_map]
  dsimp only
  rw [hpoints, List.length_map]
  rfl

/-- Distances that are all finite leave the fit, unless there is at most one to fit. -/
theorem decayConstant_of_finite {points : Nat} {time distance : Nat → α}
    (h : ∀ t < points, Scalar.isFinite (distance t) = true) :
    decayConstant ((List.range points).map time) ((List.range points).map distance) =
      if (offTarget distance points).length < 2 then Scalar.infinity
      else -weightedSlope ((offTarget distance points).map (fitPoint time distance)) := by
  have hall : ((List.range points).any fun t => !Scalar.isFinite (distance t)) = false := by
    simpa [List.any_eq_false] using h
  rw [decayConstant_eq, hall, if_neg Bool.false_ne_true]

theorem decayConstant_of_nonfinite {points t : Nat} {time distance : Nat → α} (ht : t < points)
    (h : Scalar.isFinite (distance t) = false) :
    decayConstant ((List.range points).map time) ((List.range points).map distance) =
      -Scalar.infinity := by
  have hany : ((List.range points).any fun t => !Scalar.isFinite (distance t)) = true :=
    List.any_eq_true.2 ⟨t, List.mem_range.2 ht, by rw [h]; rfl⟩
  rw [decayConstant_eq, hany, if_pos rfl]

theorem mem_offTarget {distance : Nat → α} {points t : Nat} :
    t ∈ offTarget distance points ↔ t < points ∧ Scalar.lt Scalar.zero (distance t) = true := by
  rw [offTarget, List.mem_filter, List.mem_range]

/-- Fewer than two times differ in nothing. -/
theorem length_offTarget_lt_two {distance : Nat → α} {points : Nat} :
    (offTarget distance points).length < 2 ↔
      {t | t < points ∧ Scalar.lt Scalar.zero (distance t) = true}.Subsingleton := by
  have hnodup : (offTarget distance points).Nodup := List.nodup_range.filter _
  rw [← List.toFinset_card_of_nodup hnodup, Nat.lt_succ_iff, Finset.card_le_one]
  simp only [List.mem_toFinset, mem_offTarget, Set.Subsingleton, Set.mem_ofPred_eq]

end Points

section Extended

open Extended

variable [LinearOrder K] [IsStrictOrderedRing K] [FloorRing K] [Elementary K]

/-! ## Slopes -/

/-- A point for a positive distance; its time may be anything at all. -/
structure FitPoint.OfDistance (p : FitPoint (Extended K)) : Prop where
  weight : ∃ w, 0 < w ∧ p.weight = number w
  height : ∃ y, p.y = number y

variable {points : List (FitPoint (Extended K))}

omit [IsStrictOrderedRing K] in
/-- Points at finite times have numbers for coordinates. -/
theorem exists_fitPoints (hp : ∀ p ∈ points, p.OfDistance)
    (hx : ∀ p ∈ points, Scalar.isFinite p.x = true) : ∃ qs : List (FitPoint K),
      points = qs.map FitPoint.numbers ∧ ∀ q ∈ qs, 0 < q.weight := by
  have hrange : points ∈ Set.range (List.map (FitPoint.numbers (K := K))) := by
    rw [Set.range_list_map]
    intro p hmem
    obtain ⟨⟨w, -, hw⟩, y, hy⟩ := hp p hmem
    obtain ⟨x, hx⟩ := isFinite_iff.1 (hx p hmem)
    refine ⟨⟨x, y, w⟩, ?_⟩
    rw [FitPoint.numbers, ← hx, ← hy, ← hw]
  obtain ⟨qs, rfl⟩ := hrange
  refine ⟨qs, rfl, fun q hq => ?_⟩
  obtain ⟨w, hpos, hw⟩ := (hp _ (List.mem_map_of_mem hq)).weight
  exact number_injective hw ▸ hpos

/-- A slope of points with numbers for coordinates is a number, or zero over zero. -/
theorem weightedSlope_of_numbers {qs : List (FitPoint K)} (hw : ∀ q ∈ qs, 0 < q.weight)
    (hne : qs ≠ []) : weightedSlope (qs.map FitPoint.numbers) = undefined ∨
      ∃ s : K, weightedSlope (qs.map FitPoint.numbers) = number s := by
  have hmass : mass qs FitPoint.weight ≠ 0 := (mass_pos hw hne).ne'
  by_cases hspread : spread qs = 0
  · left
    have hsame : ∀ q ∈ qs, q.x = FitPoint.mean qs FitPoint.x := by
      rw [spread, comoment_self] at hspread
      exact (inertia_eq_zero_iff hw _).1 hspread
    have hcomoment : comoment qs FitPoint.weight FitPoint.x FitPoint.y = 0 := by
      refine List.sum_eq_zero fun x hx => ?_
      obtain ⟨q, hq, rfl⟩ := List.mem_map.1 hx
      rw [hsame q hq, FitPoint.mean, sub_self, mul_zero, zero_mul]
    rw [weightedSlope_eq, fitCovariance_numbers hmass, fitVariance_numbers hmass, hspread, hcomoment,
      zero_div_zero]
  · exact .inr ⟨_, weightedSlope_numbers hmass hspread⟩

/-- The sum of the weights is a positive number. -/
theorem fitWeight_pos (hp : ∀ p ∈ points, p.OfDistance) (hne : points ≠ []) :
    ∃ total : K, 0 < total ∧ fitWeight points = number total := by
  have hfinite : ∀ v ∈ points.map FitPoint.weight, Scalar.isFinite v = true := by
    intro v hv
    obtain ⟨q, hq, rfl⟩ := List.mem_map.1 hv
    obtain ⟨w, -, hw⟩ := (hp q hq).weight
    rw [hw, isFinite_number]
  obtain ⟨ws, hws⟩ := exists_map_number hfinite
  have hpos : ∀ w ∈ ws, 0 < w := by
    intro w hw
    obtain ⟨q, hq, heq⟩ := List.mem_map.1 (hws ▸ List.mem_map_of_mem (f := number) hw)
    obtain ⟨w', hpos, hw'⟩ := (hp q hq).weight
    exact number_injective (hw'.symm.trans heq) ▸ hpos
  have hsome : ws ≠ [] := by
    rintro rfl
    exact hne (List.map_eq_nil_iff.1 hws)
  exact ⟨ws.sum, List.sum_pos ws hpos hsome, by rw [fitWeight, hws, sum_number]⟩

/-- The mean of times that are not all finite is one of them, or not a number. -/
theorem fitMean_of_nonfinite (hp : ∀ p ∈ points, p.OfDistance) {p : FitPoint (Extended K)}
    (hmem : p ∈ points) (hx : Scalar.isFinite p.x = false) :
    fitMean points FitPoint.x = p.x ∨ fitMean points FitPoint.x = undefined := by
  obtain ⟨total, hpos, htotal⟩ := fitWeight_pos hp (List.ne_nil_of_mem hmem)
  have hterm : p.weight * p.x = p.x := by
    obtain ⟨w, hw, hweight⟩ := (hp p hmem).weight
    rw [hweight, (mul_nonfinite hx hw).1]
  have hsum : Scalar.sum (points.map fun q => q.weight * q.x) = p.x ∨
      Scalar.sum (points.map fun q => q.weight * q.x) = undefined :=
    foldl_add_of_mem (P := fun a => a = p.x ∨ a = undefined) (add_nonfinite hx)
      (.inr ⟨_, List.mem_map_of_mem hmem, .inl hterm⟩)
  rw [fitMean, htotal]
  rcases hsum with hsum | hsum
  · rw [hsum, (mul_nonfinite hx hpos).2]
    exact .inl rfl
  · rw [hsum, undefined_div]
    exact .inr rfl

/-- A slope of points at times that are not all finite is not a number — a time that is not finite
is in the mean, and nothing can be told from the distance to it. -/
theorem weightedSlope_of_nonfinite (hp : ∀ p ∈ points, p.OfDistance) {p : FitPoint (Extended K)}
    (hmem : p ∈ points) (hx : Scalar.isFinite p.x = false) : weightedSlope points = undefined := by
  have hdistance : p.x - fitMean points FitPoint.x = undefined := by
    rcases fitMean_of_nonfinite hp hmem hx with hmean | hmean
    · rw [hmean, sub_nonfinite hx]
    · rw [hmean, sub_undefined]
  have hterm : p.weight * (p.x - fitMean points FitPoint.x) *
      (p.y - fitMean points FitPoint.y) = undefined := by
    rw [hdistance, mul_undefined, undefined_mul]
  have hcovariance : fitCovariance points = undefined := by
    refine foldl_add_of_mem (P := (· = undefined)) ?_ (.inr ⟨_, List.mem_map_of_mem hmem, hterm⟩)
    rintro a b (rfl | rfl)
    · exact undefined_add b
    · exact add_undefined a
  rw [weightedSlope_eq, hcovariance, undefined_div]

/-- **A slope is not infinite.** -/
theorem weightedSlope_ne (hp : ∀ p ∈ points, p.OfDistance) (hne : points ≠ []) :
    -weightedSlope points ≠ Scalar.infinity ∧ -weightedSlope points ≠ -Scalar.infinity := by
  have hslope : weightedSlope points = undefined ∨ ∃ s : K, weightedSlope points = number s := by
    by_cases hx : ∀ p ∈ points, Scalar.isFinite p.x = true
    · obtain ⟨qs, rfl, hw⟩ := exists_fitPoints hp hx
      exact weightedSlope_of_numbers hw fun hnil => hne (by rw [hnil, List.map_nil])
    · push Not at hx
      obtain ⟨p, hmem, hx⟩ := hx
      exact .inl (weightedSlope_of_nonfinite hp hmem (Bool.eq_false_iff.2 hx))
  rcases hslope with hslope | ⟨s, hslope⟩
  · rw [hslope]
    exact ⟨nofun, nofun⟩
  · rw [hslope]
    exact ⟨nofun, nofun⟩

/-! ## Rates that are not finite -/

section Infinite

variable {time distance : Nat → Extended K} {n : Nat}

/-- A distance that is a number is zero or positive. -/
theorem lt_zero_iff {t : Nat} (hd : ∃ x : K, 0 ≤ x ∧ distance t = number x) :
    Scalar.lt Scalar.zero (distance t) = true ↔ distance t ≠ Scalar.zero := by
  obtain ⟨x, hx, heq⟩ := hd
  rw [heq, zero_eq, lt_number, decide_eq_true_iff, Ne, number.injEq]
  exact ⟨fun h => h.ne', fun h => lt_of_le_of_ne hx (Ne.symm h)⟩

/-- The points for distances. -/
theorem fitPoint_ofDistance {t : Nat} (hd : ∃ x : K, 0 ≤ x ∧ distance t = number x)
    (hpos : Scalar.lt Scalar.zero (distance t) = true) : (fitPoint time distance t).OfDistance := by
  obtain ⟨x, -, heq⟩ := hd
  rw [heq, zero_eq, lt_number, decide_eq_true_iff] at hpos
  refine ⟨⟨x, hpos, heq⟩, Elementary.ln x, ?_⟩
  rw [fitPoint, heq]
  exact if_pos hpos

/-- **Infinite decay constants of finite distances** — there is one where at most one distance is
not zero, and none that is negative. -/
theorem decayConstant_of_numbers (hd : ∀ t < n, ∃ x : K, 0 ≤ x ∧ distance t = number x) :
    (decayConstant ((List.range n).map time) ((List.range n).map distance) = Scalar.infinity ↔
      {t | t < n ∧ distance t ≠ Scalar.zero}.Subsingleton) ∧
    decayConstant ((List.range n).map time) ((List.range n).map distance) ≠ -Scalar.infinity := by
  have hfinite : ∀ t < n, Scalar.isFinite (distance t) = true := by
    intro t ht
    obtain ⟨x, -, heq⟩ := hd t ht
    rw [heq, isFinite_number]
  have hfew : (offTarget distance n).length < 2 ↔
      {t | t < n ∧ distance t ≠ Scalar.zero}.Subsingleton := by
    have hsame : {t | t < n ∧ Scalar.lt Scalar.zero (distance t) = true} =
        {t | t < n ∧ distance t ≠ Scalar.zero} :=
      Set.ext fun t => and_congr_right fun ht => lt_zero_iff (hd t ht)
    rw [length_offTarget_lt_two, hsame]
  rw [decayConstant_of_finite hfinite]
  split
  · rename_i hlength
    exact ⟨iff_of_true rfl (hfew.1 hlength), nofun⟩
  · rename_i hlength
    have hpoints : ∀ p ∈ (offTarget distance n).map (fitPoint time distance), p.OfDistance := by
      intro p hp
      obtain ⟨t, ht, rfl⟩ := List.mem_map.1 hp
      obtain ⟨ht, hpos⟩ := mem_offTarget.1 ht
      exact fitPoint_ofDistance (hd t ht) hpos
    have hsome : (offTarget distance n).map (fitPoint time distance) ≠ [] := by
      rw [Ne, List.map_eq_nil_iff]
      intro hnil
      exact hlength (hnil ▸ Nat.two_pos)
    obtain ⟨htop, hbottom⟩ := weightedSlope_ne hpoints hsome
    exact ⟨iff_of_false htop (mt hfew.2 hlength), hbottom⟩

/-- **The two infinite decay constants.** -/
theorem decayConstant_infinite (hd : ∀ t < n, Scalar.isFinite (distance t) = true →
      ∃ x : K, 0 ≤ x ∧ distance t = number x) {rate : Extended K}
    (hrate : decayConstant ((List.range n).map time) ((List.range n).map distance) = rate) :
    (rate = Scalar.infinity ↔ (∀ t < n, Scalar.isFinite (distance t) = true) ∧
      {t | t < n ∧ distance t ≠ Scalar.zero}.Subsingleton) ∧
    (rate = -Scalar.infinity ↔ ∃ t < n, Scalar.isFinite (distance t) = false) := by
  rw [← hrate]
  by_cases hall : ∀ t < n, Scalar.isFinite (distance t) = true
  · obtain ⟨htop, hbottom⟩ := decayConstant_of_numbers fun t ht => hd t ht (hall t ht)
    refine ⟨htop.trans (and_iff_right hall).symm, iff_of_false hbottom ?_⟩
    rintro ⟨t, ht, hfalse⟩
    exact nomatch hfalse.symm.trans (hall t ht)
  · obtain ⟨t, ht, hfalse⟩ : ∃ t < n, Scalar.isFinite (distance t) = false := by simpa using hall
    rw [decayConstant_of_nonfinite ht hfalse]
    exact ⟨iff_of_false nofun fun h => hall h.1, iff_of_true rfl ⟨t, ht, hfalse⟩⟩

end Infinite

section Run

variable {m : Model (Extended K)} {axes : RunAxes} {method : Method} {timeStep : Extended K}
  {control : StepControl (Extended K)} {outcome : Outcome (Extended K)}
  {registry : Registry (Extended K)} {d : Description (Extended K)}

/-- **Rates that are not finite** — the rate of a run is infinite if all of its distances are finite
and all but one are zero, and negatively infinite if a distance is not finite. -/
theorem convergenceRates_infinite (hm : m.InUse registry d) (hdeclares : ¬ d.Declares "time")
    (hrun : integrate m axes method timeStep control = .ok outcome)
    {target : OrderedMap (Extended K)} {region : Nat} {rates : List (Extended K)}
    (hrates : convergenceRates outcome.recording target region = .ok rates) :
    rates.length = axes.runs ∧ ∀ x rate, rates[x]? = some rate →
      (rate = Scalar.infinity ↔
        (∀ t ≤ outcome.recording.lastValid,
          Scalar.isFinite (outcome.recording.distance target region x t) = true) ∧
        {t | t ≤ outcome.recording.lastValid ∧
          outcome.recording.distance target region x t ≠ Scalar.zero}.Subsingleton) ∧
      (rate = -Scalar.infinity ↔ ∃ t ≤ outcome.recording.lastValid,
        Scalar.isFinite (outcome.recording.distance target region x t) = false) := by
  obtain ⟨hmeasures, hpoints⟩ := Recording.measures_of_integrate hm hdeclares hrun hrates
  have hlist := Except.ok.inj
    (hrates.symm.trans (Recording.convergenceRates_eq hmeasures))
  rw [axes_of_integrate hrun, hpoints] at hlist
  refine ⟨by rw [hlist, List.length_map, List.length_range], fun x rate hx => ?_⟩
  rw [hlist, List.getElem?_map, Option.map_eq_some_iff] at hx
  obtain ⟨y, hy, hrate⟩ := hx
  obtain ⟨hlt, hy⟩ := List.getElem?_eq_some_iff.1 hy
  rw [List.getElem_range] at hy
  subst hy
  have hroot : ∀ t < outcome.recording.lastValid + 1,
      Scalar.isFinite (outcome.recording.distance target region x t) = true →
        ∃ y : K, 0 ≤ y ∧ outcome.recording.distance target region x t = number y :=
    fun t _ => exists_sqrt
  simpa only [Nat.lt_succ_iff] using decayConstant_infinite hroot hrate

end Run

end Extended

/-- A height that grows from one at rate one. -/
def climb : Description (Extended ℚ) where
  name := "climb"
  differential := .ofList
    [("height", ⟨[("func", .function ((Expression.number (.number 1)).toFunction [])),
      ("initial", .value (.scalar (.number 1)))]⟩)]

/-- Half unit steps, which are too small for an adaptive method. -/
def climb.run (m : Model (Extended ℚ)) (method : Method) :
    Except (Failure (Extended ℚ)) (Outcome (Extended ℚ)) :=
  integrate m ⟨3, 1, 1⟩ method (.number (1 / 2)) { StepControl.standard with minStep := .number 1 }

/-- No height at all. -/
def climb.ground : OrderedMap (Extended ℚ) := .ofList [("height", .number 0)]

theorem climb.not_declares_time : ¬ climb.Declares "time" := by decide +kernel

/-- What is read off a run and its rates. -/
def climb.measured? {β : Type} (method : Method)
    (read : Outcome (Extended ℚ) → List (Extended ℚ) → β) : Option β :=
  (load .empty climb).toOption.bind fun m => (climb.run m method).toOption.bind fun outcome =>
    (convergenceRates outcome.recording climb.ground 0).toOption.map (read outcome)

theorem climb.measured?_eq_some {β : Type} {method : Method}
    {read : Outcome (Extended ℚ) → List (Extended ℚ) → β} {b : β}
    (h : measured? method read = some b) : ∃ m outcome rates, m.InUse .empty climb ∧
      climb.run m method = .ok outcome ∧
      convergenceRates outcome.recording climb.ground 0 = .ok rates ∧ read outcome rates = b := by
  obtain ⟨m, hload, h⟩ := Option.bind_eq_some_iff.1 h
  obtain ⟨outcome, houtcome, h⟩ := Option.bind_eq_some_iff.1 h
  obtain ⟨rates, hrates, hread⟩ := Option.map_eq_some_iff.1 h
  exact ⟨m, outcome, rates, .loaded (toOption_eq_some_iff.1 hload), toOption_eq_some_iff.1 houtcome,
    toOption_eq_some_iff.1 hrates, hread⟩

/-- Someone who climbs for three points comes to no target, and does not leave the numbers. -/
theorem climb_rates : ∃ m outcome rate, m.InUse .empty climb ∧ ¬ climb.Declares "time" ∧
    climb.run m .rk4 = .ok outcome ∧
    convergenceRates outcome.recording climb.ground 0 = .ok [rate] ∧
    rate ≠ Scalar.infinity ∧ rate ≠ -Scalar.infinity := by
  have hruns : climb.measured? .rk4 (fun outcome rates =>
      (rates.length, outcome.recording.lastValid,
        (List.range 3).map (outcome.recording.distance climb.ground 0 0))) =
      some (1, 2, [1, 3 / 2, 2].map .number) := by
    decide +kernel
  obtain ⟨m, outcome, rates, hm, hrun, hrates, hread⟩ := climb.measured?_eq_some hruns
  simp only [Prod.mk.injEq] at hread
  obtain ⟨hlength, hvalid, hdistances⟩ := hread
  obtain ⟨rate, rfl⟩ := List.length_eq_one_iff.1 hlength
  obtain ⟨htop, hbottom⟩ :=
    (convergenceRates_infinite hm climb.not_declares_time hrun hrates).2 0 rate rfl
  have hat (t : Nat) (ht : t < 3) : ∃ q ∈ [1, 3 / 2, 2],
      outcome.recording.distance climb.ground 0 0 t = .number q := by
    have hmem := List.mem_map_of_mem (f := outcome.recording.distance climb.ground 0 0)
      (List.mem_range.2 ht)
    rw [hdistances] at hmem
    exact (List.mem_map.1 hmem).imp fun _ h => ⟨h.1, h.2.symm⟩
  have hoff (t : Nat) (ht : t < 3) : t ∈ {t | t ≤ outcome.recording.lastValid ∧
      outcome.recording.distance climb.ground 0 0 t ≠ Scalar.zero} := by
    obtain ⟨q, hq, heq⟩ := hat t ht
    refine ⟨hvalid ▸ Nat.le_of_lt_succ ht, heq ▸ ?_⟩
    exact (by decide +kernel : ∀ q ∈ [1, 3 / 2, 2], (Extended.number q : Extended ℚ) ≠ Scalar.zero)
      q hq
  refine ⟨m, outcome, rate, hm, climb.not_declares_time, hrun, hrates, fun heq => ?_, fun heq => ?_⟩
  · exact absurd ((htop.1 heq).2 (hoff 0 (by decide)) (hoff 1 (by decide))) (by decide)
  · obtain ⟨t, ht, hfalse⟩ := hbottom.1 heq
    obtain ⟨q, -, hq⟩ := hat t (Nat.lt_succ_of_le (hvalid ▸ ht))
    rw [hq] at hfalse
    exact nomatch hfalse

/-- **A run that does not get off the ground** has an infinite rate all the same — the adaptive
method gives up at the first point, which is one away from the target. -/
theorem climb_held_back : ∃ m outcome, m.InUse .empty climb ∧ ¬ climb.Declares "time" ∧
    climb.run m .rk45 = .ok outcome ∧ outcome.divergence.isSome ∧
    outcome.recording.lastValid = 0 ∧
    outcome.recording.distance climb.ground 0 0 0 = .number 1 ∧
    convergenceRates outcome.recording climb.ground 0 = .ok [Scalar.infinity] := by
  have hruns : climb.measured? .rk45 (fun outcome rates =>
      (outcome.divergence.isSome, outcome.recording.lastValid,
        outcome.recording.distance climb.ground 0 0 0, rates)) =
      some (true, 0, .number 1, [Scalar.infinity]) := by
    decide +kernel
  obtain ⟨m, outcome, rates, hm, hrun, hrates, hread⟩ := climb.measured?_eq_some hruns
  simp only [Prod.mk.injEq] at hread
  obtain ⟨hdiverges, hvalid, hdistance, rfl⟩ := hread
  exact ⟨m, outcome, hm, climb.not_declares_time, hrun, hdiverges, hvalid, hdistance, hrates⟩

end FieldFlow
