import FieldFlow.Proofs.Analysis.Moments
import FieldFlow.Proofs.Analysis.Summary
import FieldFlow.Proofs.Scalar.Extended

/-!
# Proofs/Analysis/Figures — statistics of numbers

Where nothing is rounded the five figures of some numbers are numbers again, and describe them
(`Figures.Describe`): the extremes are attained, the mean and the median lie between them, and half
of the numbers lie on either side of the median, which is taken from the middle two in order
(`Summary.exists_middle`). There is only one order, so that the one in which the numbers are given
does not show (`Summary.ofList_perm`).
-/

namespace FieldFlow

variable {K : Type} [FieldOfNumbers K]

/-! ## The middle -/

section Order

variable {L : Type} [LinearOrder L] {xs ys : List L} {lower upper x : L}

/-- Numbers in ascending order. -/
def ascending (xs : List L) : List L := xs.mergeSort fun x y => decide (x ≤ y)

theorem ascending_perm (xs : List L) : (ascending xs).Perm xs := List.mergeSort_perm _ _

theorem pairwise_ascending (xs : List L) : (ascending xs).Pairwise (· ≤ ·) := by
  have htrans (x y z : L) (hxy : decide (x ≤ y) = true) (hyz : decide (y ≤ z) = true) :
      decide (x ≤ z) = true :=
    decide_eq_true ((of_decide_eq_true hxy).trans (of_decide_eq_true hyz))
  have htotal (x y : L) : (decide (x ≤ y) || decide (y ≤ x)) = true := by
    simpa using le_total x y
  exact (List.pairwise_mergeSort htrans htotal xs).imp of_decide_eq_true

theorem ascending_eq_of_perm (h : xs.Perm ys) : ascending xs = ascending ys :=
  List.Perm.eq_of_pairwise (fun _ _ _ _ => le_antisymm) (pairwise_ascending xs)
    (pairwise_ascending ys) ((ascending_perm xs).trans (h.trans (ascending_perm ys).symm))

/-- At least half of the numbers are no larger than the lower one of the middle two… -/
theorem half_le_lower (hlower : (ascending xs)[(xs.length - 1) / 2]? = some lower) (hx : lower ≤ x) :
    xs.length ≤ 2 * xs.countP (· ≤ x) := by
  obtain ⟨hlt, rfl⟩ := List.getElem?_eq_some_iff.1 hlower
  have hlength := (ascending_perm xs).length_eq
  have hfirst : ((ascending xs).take ((xs.length - 1) / 2 + 1)).countP (· ≤ x) =
      (xs.length - 1) / 2 + 1 := by
    rw [List.countP_eq_length.2, List.length_take_of_le hlt]
    intro a ha
    obtain ⟨k, hk, rfl⟩ := List.mem_iff_getElem.1 ha
    rw [List.length_take_of_le hlt] at hk
    rw [List.getElem_take, decide_eq_true_iff]
    refine le_trans ?_ hx
    rcases Nat.lt_succ_iff_lt_or_eq.1 hk with hk | rfl
    · exact List.pairwise_iff_getElem.1 (pairwise_ascending xs) _ _ _ _ hk
    · exact le_rfl
  have hcount := ((ascending xs).take_sublist ((xs.length - 1) / 2 + 1)).countP_le (p := (· ≤ x))
  rw [hfirst, (ascending_perm xs).countP_eq] at hcount
  omega

/-- …and at least half of them no smaller than the upper one. -/
theorem half_ge_upper (hupper : (ascending xs)[xs.length / 2]? = some upper) (hx : x ≤ upper) :
    xs.length ≤ 2 * xs.countP (x ≤ ·) := by
  obtain ⟨hlt, rfl⟩ := List.getElem?_eq_some_iff.1 hupper
  have hlength := (ascending_perm xs).length_eq
  have hlast : ((ascending xs).drop (xs.length / 2)).countP (x ≤ ·) =
      xs.length - xs.length / 2 := by
    rw [List.countP_eq_length.2, List.length_drop, hlength]
    intro a ha
    obtain ⟨k, hk, rfl⟩ := List.mem_iff_getElem.1 ha
    rw [List.getElem_drop, decide_eq_true_iff]
    refine hx.trans ?_
    rcases Nat.eq_zero_or_pos k with rfl | hk
    · exact le_rfl
    · exact List.pairwise_iff_getElem.1 (pairwise_ascending xs) _ _ _ _ (by omega)
  have hcount := ((ascending xs).drop_sublist (xs.length / 2)).countP_le (p := (x ≤ ·))
  rw [hlast, (ascending_perm xs).countP_eq] at hcount
  omega

theorem mem_of_ascending {k : Nat} (h : (ascending xs)[k]? = some x) : x ∈ xs :=
  (ascending_perm xs).mem_iff.1 (List.mem_of_getElem? h)

theorem lower_le_upper (hlower : (ascending xs)[(xs.length - 1) / 2]? = some lower)
    (hupper : (ascending xs)[xs.length / 2]? = some upper) : lower ≤ upper := by
  obtain ⟨hlt, rfl⟩ := List.getElem?_eq_some_iff.1 hlower
  obtain ⟨hlt', rfl⟩ := List.getElem?_eq_some_iff.1 hupper
  rcases Nat.lt_or_ge ((xs.length - 1) / 2) (xs.length / 2) with h | h
  · exact List.pairwise_iff_getElem.1 (pairwise_ascending xs) _ _ _ _ h
  · have heq : (xs.length - 1) / 2 = xs.length / 2 := by omega
    simp only [heq, le_rfl]

end Order

/-! ## Figures of numbers -/

/-- **The figures of some numbers**, with the variance in place of its root. -/
structure Figures (K : Type) where
  mean : K
  variance : K
  least : K
  greatest : K
  median : K

/-- **What figures say about the numbers** that they are taken of. -/
structure Figures.Describe [LinearOrder K] (f : Figures K) (xs : List K) :
    Prop where
  mean_eq : f.mean = xs.sum / xs.length
  isLeast : IsLeast {x | x ∈ xs} f.least
  isGreatest : IsGreatest {x | x ∈ xs} f.greatest
  mean_mem : f.mean ∈ Set.Icc f.least f.greatest
  median_mem : f.median ∈ Set.Icc f.least f.greatest
  half_le : xs.length ≤ 2 * xs.countP (· ≤ f.median)
  half_ge : xs.length ≤ 2 * xs.countP (f.median ≤ ·)
  variance_eq : f.variance = (xs.map fun x => x ^ 2).sum / xs.length - f.mean ^ 2
  variance_eq_zero_iff : f.variance = 0 ↔ ∀ x ∈ xs, ∀ y ∈ xs, x = y

section Numbers

variable {xs ys : List K} {x : K}

theorem mass_one (xs : List K) : mass xs (fun _ => (1 : K)) = xs.length := by simp [mass]

theorem centre_one (xs : List K) : centre xs (fun _ => (1 : K)) id = xs.sum / xs.length := by
  simp [centre, mass_one]

/-- The mean of the squared distances from the mean. -/
def meanSquare (xs : List K) : K :=
  (xs.map fun x => (x - xs.sum / xs.length) * (x - xs.sum / xs.length)).sum / xs.length

theorem meanSquare_eq_inertia (xs : List K) : meanSquare xs =
    inertia xs (fun _ => 1) id (xs.sum / xs.length) / xs.length := by
  simp only [meanSquare, inertia, one_mul, id, sq]

variable [LinearOrder K] [IsStrictOrderedRing K]

theorem length_pos_cast (hne : xs ≠ []) : (0 : K) < xs.length :=
  Nat.cast_pos.2 (List.length_pos_iff.2 hne)

theorem le_mean (hne : xs ≠ []) (h : ∀ y ∈ xs, x ≤ y) : x ≤ xs.sum / xs.length := by
  rw [le_div_iff₀ (length_pos_cast hne), mul_comm, ← nsmul_eq_mul]
  exact List.card_nsmul_le_sum xs x h

theorem mean_le (hne : xs ≠ []) (h : ∀ y ∈ xs, y ≤ x) : xs.sum / xs.length ≤ x := by
  rw [div_le_iff₀ (length_pos_cast hne), mul_comm, ← nsmul_eq_mul]
  exact List.sum_le_card_nsmul xs x h

theorem meanSquare_eq (hne : xs ≠ []) :
    meanSquare xs = (xs.map fun x => x ^ 2).sum / xs.length - (xs.sum / xs.length) ^ 2 := by
  have hlength : (xs.length : K) ≠ 0 := (length_pos_cast hne).ne'
  have hparallel := inertia_eq (l := xs) (w := fun _ => (1 : K)) (f := id)
    (by rwa [mass_one]) 0
  rw [mass_one, centre_one, sub_zero] at hparallel
  have hsquares : inertia xs (fun _ => (1 : K)) id 0 = (xs.map fun x => x ^ 2).sum := by
    simp only [inertia, one_mul, id, sub_zero]
  rw [meanSquare_eq_inertia, ← hsquares, hparallel, add_div, mul_div_cancel_left₀ _ hlength,
    add_sub_cancel_right]

theorem meanSquare_eq_zero_iff (hne : xs ≠ []) :
    meanSquare xs = 0 ↔ ∀ x ∈ xs, ∀ y ∈ xs, x = y := by
  have hlength : (xs.length : K) ≠ 0 := (length_pos_cast hne).ne'
  rw [meanSquare_eq_inertia, div_eq_zero_iff, or_iff_left hlength,
    inertia_eq_zero_iff (fun _ _ => one_pos)]
  constructor
  · intro h x hx y hy
    exact (h x hx).trans (h y hy).symm
  · intro h x hx
    have hsame : xs.sum = xs.length • x := List.sum_eq_card_nsmul xs x fun y hy => h y hy x hx
    rw [hsame, nsmul_eq_mul, mul_div_cancel_left₀ _ hlength, id]

end Numbers

/-! ## Figures as they are computed -/

section Computed

open Extended

variable [LinearOrder K] [IsStrictOrderedRing K] [FloorRing K] [Elementary K] {xs ys : List K}

/-- Figures as a program has them, with the root of the variance. -/
def Figures.summary (f : Figures K) : Summary (Extended K) where
  mean := number f.mean
  deviation := Scalar.sqrt (number f.variance)
  least := number f.least
  greatest := number f.greatest
  median := number f.median

namespace Summary

theorem meanOf_number (hne : xs ≠ []) :
    meanOf (xs.map number) = number (xs.sum / xs.length) := by
  rw [meanOf, sum_number, List.length_map, Extended.ofNat_eq, div_number (length_pos_cast hne).ne']

theorem varianceOf_number (hne : xs ≠ []) :
    varianceOf (xs.map number) = number (meanSquare xs) := by
  have hsquare (x : K) : Scalar.square (number x - number (xs.sum / xs.length)) =
      number ((x - xs.sum / xs.length) * (x - xs.sum / xs.length)) := by
    rw [sub_number]
    rfl
  have hsquares : (xs.map number).map
      (fun v => Scalar.square (v - number (xs.sum / xs.length))) =
      (xs.map fun x => (x - xs.sum / xs.length) * (x - xs.sum / xs.length)).map number := by
    simp only [List.map_map, List.map_inj_left, Function.comp_apply, hsquare, implies_true]
  rw [varianceOf, meanOf_number hne, hsquares, sum_number, List.length_map, Extended.ofNat_eq,
    div_number (length_pos_cast hne).ne', meanSquare]

omit [IsStrictOrderedRing K] in
/-- A pass over some numbers that starts behind all of them ends at one of them. -/
theorem exists_extreme {beyond : Extended K → Extended K → Bool}
    {pick : Extended K → Extended K → Extended K} (h : PicksBeyond beyond pick) {start : Extended K}
    (hstart : ∀ x, beyond (number x) start = true) (hne : xs ≠ []) :
    ∃ x ∈ xs, (xs.map number).foldl pick start = number x ∧
      ∀ y ∈ xs, beyond (number y) (number x) = false := by
  have hbeyond (y : K) (hy : y ∈ xs) :
      beyond (number y) ((xs.map number).foldl pick start) = false :=
    h.not_beyond_foldl _ start _ (List.mem_cons_of_mem _ (List.mem_map_of_mem hy))
  rcases h.foldl_mem (xs.map number) start with hsame | ⟨hmem, -⟩
  · obtain ⟨y, hy⟩ := List.exists_mem_of_ne_nil xs hne
    have hout := hbeyond y hy
    rw [hsame, hstart] at hout
    exact nomatch hout
  · obtain ⟨x, hx, heq⟩ := List.mem_map.1 hmem
    exact ⟨x, hx, heq.symm, heq ▸ hbeyond⟩

omit [IsStrictOrderedRing K] in
theorem exists_least (hne : xs ≠ []) :
    ∃ x, leastOf (xs.map number) = number x ∧ IsLeast {y | y ∈ xs} x := by
  obtain ⟨x, hx, heq, hbeyond⟩ := exists_extreme .min lt_infinity hne
  exact ⟨x, heq, hx, fun y hy => by simpa using hbeyond y hy⟩

omit [IsStrictOrderedRing K] in
theorem exists_greatest (hne : xs ≠ []) :
    ∃ x, greatestOf (xs.map number) = number x ∧ IsGreatest {y | y ∈ xs} x := by
  obtain ⟨x, hx, heq, hbeyond⟩ := exists_extreme .max neg_infinity_lt hne
  exact ⟨x, heq, hx, fun y hy => by simpa using hbeyond y hy⟩

/-- The median lies halfway between the middle two of the numbers in order — there is one way only
to put them in order. -/
theorem exists_middle (hne : xs ≠ []) : ∃ lower upper,
    (ascending xs)[(xs.length - 1) / 2]? = some lower ∧
    (ascending xs)[xs.length / 2]? = some upper ∧
    medianOf (xs.map number) = number ((lower + upper) / 2) := by
  obtain ⟨sorted, lower, upper, hperm, hpairwise, hlower, hupper, hmedian⟩ :=
    isMedian_medianOf (by simpa using hne : xs.map number ≠ [])
  have hsorted : sorted = (ascending xs).map number := by
    refine List.Perm.eq_of_pairwise ?_ hpairwise ?_
      (hperm.trans ((ascending_perm xs).symm.map number))
    · intro a b ha hb hab hba
      obtain ⟨x, -, rfl⟩ := List.mem_map.1 (hperm.mem_iff.1 ha)
      obtain ⟨y, -, rfl⟩ := List.mem_map.1 hb
      rw [sortsBefore_number] at hab hba
      rw [le_antisymm hab hba]
    · exact List.pairwise_map.2 ((pairwise_ascending xs).imp sortsBefore_number.2)
  rw [hsorted, List.length_map, List.getElem?_map, Option.map_eq_some_iff] at hlower hupper
  obtain ⟨x, hx, rfl⟩ := hlower
  obtain ⟨y, hy, rfl⟩ := hupper
  refine ⟨x, y, hx, hy, ?_⟩
  rw [hmedian, List.length_map, half_eq, add_number, mul_number]
  split
  · congr 1
    ring
  · have hodd : (xs.length - 1) / 2 = xs.length / 2 := by omega
    obtain rfl := Option.some.inj (hx.symm.trans (hodd ▸ hy))
    congr 1
    ring

/-- **Some numbers have figures.** -/
theorem exists_figures (hne : xs ≠ []) :
    ∃ f : Figures K, ofList (xs.map number) = f.summary ∧ f.Describe xs := by
  obtain ⟨least, hleast, hisLeast⟩ := exists_least hne
  obtain ⟨greatest, hgreatest, hisGreatest⟩ := exists_greatest hne
  obtain ⟨lower, upper, hlower, hupper, hmedian⟩ := exists_middle hne
  have hmiddle := lower_le_upper hlower hupper
  refine ⟨⟨xs.sum / xs.length, meanSquare xs, least, greatest, (lower + upper) / 2⟩, ?_, ?_⟩
  · simp only [ofList, Figures.summary, meanOf_number hne, varianceOf_number hne, hleast, hgreatest,
      hmedian]
  · exact {
      mean_eq := rfl
      isLeast := hisLeast
      isGreatest := hisGreatest
      mean_mem := ⟨le_mean hne fun y hy => hisLeast.2 hy, mean_le hne fun y hy => hisGreatest.2 hy⟩
      median_mem := by
        have hleft := hisLeast.2 (mem_of_ascending hlower)
        have hright := hisGreatest.2 (mem_of_ascending hupper)
        constructor
        · linarith
        · linarith
      half_le := half_le_lower hlower (by linarith)
      half_ge := half_ge_upper hupper (by linarith)
      variance_eq := meanSquare_eq hne
      variance_eq_zero_iff := meanSquare_eq_zero_iff hne }

/-- **The order of numbers does not show** in their figures. -/
theorem ofList_perm (h : xs.Perm ys) : ofList (xs.map number) = ofList (ys.map number) := by
  by_cases hne : xs = []
  · rw [hne] at h ⊢
    rw [h.nil_eq]
  have hne' : ys ≠ [] := fun hnil => hne (by rw [hnil] at h; exact h.eq_nil)
  have hmem : {x | x ∈ xs} = {x | x ∈ ys} := Set.ext fun x => h.mem_iff
  obtain ⟨x, hx, hisLeast⟩ := exists_least hne
  obtain ⟨y, hy, hisLeast'⟩ := exists_least hne'
  obtain ⟨x', hx', hisGreatest⟩ := exists_greatest hne
  obtain ⟨y', hy', hisGreatest'⟩ := exists_greatest hne'
  obtain ⟨lower, upper, hlower, hupper, hmedian⟩ := exists_middle hne
  obtain ⟨lower', upper', hlower', hupper', hmedian'⟩ := exists_middle hne'
  have hmean : xs.sum / (xs.length : K) = ys.sum / ys.length := by rw [h.sum_eq, h.length_eq]
  have hsquare : meanSquare xs = meanSquare ys := by
    rw [meanSquare, meanSquare, hmean, (h.map _).sum_eq, h.length_eq]
  obtain rfl := hisLeast.unique (hmem ▸ hisLeast')
  obtain rfl := hisGreatest.unique (hmem ▸ hisGreatest')
  rw [ascending_eq_of_perm h, h.length_eq] at hlower hupper
  obtain rfl := Option.some.inj (hlower.symm.trans hlower')
  obtain rfl := Option.some.inj (hupper.symm.trans hupper')
  simp only [ofList, meanOf_number hne, meanOf_number hne', varianceOf_number hne,
    varianceOf_number hne', hx, hy, hx', hy', hmedian, hmedian', hmean, hsquare]

end Summary

end Computed

end FieldFlow
