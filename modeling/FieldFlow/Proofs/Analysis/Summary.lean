import FieldFlow.Analysis.Cycle
import FieldFlow.Proofs.Scalar.Comparison

/-!
# Proofs/Analysis/Summary — what the five figures say about the values

The extremes are found in one pass, which starts at an infinity and skips what is not a number; the
median is read off a sorted copy. Where the arithmetic compares its numbers, no value lies beyond an
extreme, and the sorted copy has a middle (`Summary.describes_ofList`). A cycle computes its figures
by itself, and comes to those of its values (`Cycle.figuresOf_eq`).
-/

namespace FieldFlow

variable {α : Type} [Scalar α]

/-! ## Extremes -/

/-- **A choice between two values** — the first if it lies beyond the second or the second is not a
number. -/
structure PicksBeyond (beyond : α → α → Bool) (pick : α → α → α) : Prop where
  pick_eq : ∀ a b, pick a b = if beyond a b || !Scalar.isNumber b then a else b
  asymm : ∀ {a b}, beyond a b = true → beyond b a = false
  isNumber : ∀ {a b}, beyond a b = true → Scalar.isNumber a = true ∧ Scalar.isNumber b = true
  line : ∀ {a b c}, Scalar.isNumber b = true → beyond a c = true →
    beyond a b = true ∨ beyond b c = true

namespace PicksBeyond

theorem min [Compares α] : PicksBeyond (α := α) Scalar.lt Scalar.min where
  pick_eq _ _ := rfl
  asymm := Compares.lt_asymm
  isNumber := Compares.isNumber_of_lt
  line := Compares.lt_or_lt

theorem max [Compares α] : PicksBeyond (α := α) (fun a b => Scalar.lt b a) Scalar.max where
  pick_eq _ _ := rfl
  asymm := Compares.lt_asymm
  isNumber h := (Compares.isNumber_of_lt h).symm
  line hb h := (Compares.lt_or_lt hb h).symm

variable {beyond : α → α → Bool} {pick : α → α → α} (h : PicksBeyond beyond pick) {a b c : α}

include h

theorem irrefl (a : α) : beyond a a = false := by
  cases haa : beyond a a with
  | false => rfl
  | true => exact haa.symm.trans (h.asymm haa)

theorem eq_or_eq (a b : α) : pick a b = a ∨ pick a b = b ∧ Scalar.isNumber b = true := by
  rw [h.pick_eq]
  split
  · exact .inl rfl
  · rename_i hb
    rw [Bool.or_eq_true, not_or, Bool.not_eq_true', Bool.not_eq_false] at hb
    exact .inr ⟨rfl, hb.2⟩

/-- What the choice is not beyond, neither of the two is — `b` is a number if it lies beyond
anything, and `a` is picked over a number only for lying beyond it. -/
theorem not_beyond (hc : beyond (pick a b) c = false) : beyond a c = false ∧ beyond b c = false := by
  rw [h.pick_eq] at hc
  split at hc
  · rename_i hpick
    refine ⟨hc, Bool.eq_false_iff.2 fun hbc => ?_⟩
    have hab : beyond a b = true := by simpa [(h.isNumber hbc).1] using hpick
    rcases h.line (h.isNumber hab).1 hbc with hba | hac
    · exact nomatch (h.asymm hab).symm.trans hba
    · exact nomatch hc.symm.trans hac
  · rename_i hpick
    rw [Bool.or_eq_true, not_or, Bool.not_eq_true', Bool.not_eq_false] at hpick
    refine ⟨Bool.eq_false_iff.2 fun hac => ?_, hc⟩
    rcases h.line hpick.2 hac with hab | hbc
    · exact hpick.1 hab
    · exact nomatch hc.symm.trans hbc

/-- **A pass over values** ends at one of them, or where it started… -/
theorem foldl_mem : ∀ (values : List α) (a : α), values.foldl pick a = a ∨
    values.foldl pick a ∈ values ∧ Scalar.isNumber (values.foldl pick a) = true
  | [], _ => .inl rfl
  | v :: values, a => by
      rw [List.foldl_cons]
      rcases foldl_mem values (pick a v) with hsame | ⟨hmem, hnumber⟩
      · rw [hsame]
        exact (h.eq_or_eq a v).imp_right fun ⟨heq, hv⟩ => by simp [heq, hv]
      · exact .inr ⟨List.mem_cons_of_mem _ hmem, hnumber⟩

/-- …and none of them lies beyond its end. -/
theorem not_beyond_foldl : ∀ (values : List α) (a : α),
    ∀ v ∈ a :: values, beyond v (values.foldl pick a) = false
  | [], a => by simpa using h.irrefl a
  | w :: values, a => by
      have hrest := not_beyond_foldl values (pick a w)
      obtain ⟨ha, hw⟩ := h.not_beyond (hrest _ List.mem_cons_self)
      intro v hv
      rcases List.mem_cons.1 hv with rfl | hv
      · exact ha
      · rcases List.mem_cons.1 hv with rfl | hv
        · exact hw
        · exact hrest v (List.mem_cons_of_mem _ hv)

end PicksBeyond

/-! ## The five figures -/

namespace Summary

/-- **The middle of a list of values**, sorted; of two middle values the mean. -/
def IsMedian (median : α) (values : List α) : Prop :=
  ∃ (sorted : List α) (lower upper : α), sorted.Perm values ∧
    sorted.Pairwise (fun a b => Scalar.sortsBefore a b = true) ∧
    sorted[(values.length - 1) / 2]? = some lower ∧ sorted[values.length / 2]? = some upper ∧
    median = if values.length % 2 = 0 then Scalar.half * (lower + upper) else upper

/-- **The figures of a list of values.** -/
structure Describes (s : Summary α) (values : List α) : Prop where
  mean : s.mean = Scalar.sum values / Scalar.ofNat values.length
  deviation : s.deviation = Scalar.sqrt
    (Scalar.sum (values.map fun v => Scalar.square (v - s.mean)) / Scalar.ofNat values.length)
  least : s.least = Scalar.infinity ∨ s.least ∈ values ∧ Scalar.isNumber s.least = true
  least_le : ∀ v ∈ values, Scalar.lt v s.least = false
  greatest : s.greatest = -Scalar.infinity ∨
    s.greatest ∈ values ∧ Scalar.isNumber s.greatest = true
  le_greatest : ∀ v ∈ values, Scalar.lt s.greatest v = false
  median : IsMedian s.median values

variable [Compares α] {values : List α}

/-- Some values have a middle. -/
theorem isMedian_medianOf (hne : values ≠ []) : IsMedian (medianOf values) values := by
  have hperm := List.mergeSort_perm values Scalar.sortsBefore
  have hlength := hperm.length_eq
  have hpos : 0 < values.length := List.length_pos_iff.2 hne
  have hget (k : Nat) (hk : k < values.length) :
      (values.mergeSort Scalar.sortsBefore)[k]? =
        some ((values.mergeSort Scalar.sortsBefore)[k]?.getD default) := by
    rw [List.getElem?_eq_getElem (hlength ▸ hk), Option.getD_some]
  refine ⟨values.mergeSort Scalar.sortsBefore, _, _, hperm,
    List.pairwise_mergeSort Compares.sortsBefore_trans Compares.sortsBefore_total values,
    hget _ (by omega), hget _ (by omega), ?_⟩
  rw [medianOf, if_neg (by simpa using hne)]
  simp only [List.size_toArray, List.getElem?_toArray, hlength]
  split
  · have hlower : values.length / 2 - 1 = (values.length - 1) / 2 := by omega
    rw [hlower]
  · rfl

/-- **The figures of some values** are the ones they are named for. -/
theorem describes_ofList (hne : values ≠ []) : (ofList values).Describes values where
  mean := rfl
  deviation := rfl
  least := PicksBeyond.min.foldl_mem values _
  least_le v hv := PicksBeyond.min.not_beyond_foldl values _ v (List.mem_cons_of_mem _ hv)
  greatest := PicksBeyond.max.foldl_mem values _
  le_greatest v hv := PicksBeyond.max.not_beyond_foldl values _ v (List.mem_cons_of_mem _ hv)
  median := isMedian_medianOf hne

end Summary

/-! ## The figures of a cycle -/

namespace Cycle

variable {window : List α}

/-- The middle of a cycle is the one of its values, of which there is at least one. -/
theorem medianOf_eq (hne : window ≠ []) : medianOf window = Summary.medianOf window := by
  have hempty : ¬ window.isEmpty = true := by simpa using hne
  rw [Summary.medianOf, if_neg hempty]
  rfl

/-- **A cycle has the figures of its values.** -/
theorem figuresOf_eq (hne : window ≠ []) : figuresOf window = .ofList window := by
  rw [figuresOf, Summary.ofList, Summary.varianceOf, medianOf_eq hne]
  rfl

end Cycle

end FieldFlow
