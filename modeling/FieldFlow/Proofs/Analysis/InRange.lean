import FieldFlow.Analysis.Cycle
import FieldFlow.Proofs.Outcome

/-!
# Proofs/Analysis/InRange — every place that a cycle is made from exists

The maxima, the ends of a cycle and the middle of its values are found at places in arrays. They can
be found with every place looked up before it is read, so that a place beyond the end is a fault
(`checkedMaxima`, `checkedCycle`). A maximum has both its neighbours, a cycle is not empty and ends
before the values do, and what is not empty has a middle; so there is no such place, and the checked
cycles are the cycles (`checkedCycles_eq`).
-/

namespace FieldFlow

/-! ## Elements that follow each other -/

section Consecutive

variable {β : Type}

theorem consecutive_eq : ∀ l : List β, consecutive l = l.zip l.tail
  | [] | [_] => rfl
  | a :: b :: rest => by
      rw [consecutive, consecutive_eq (b :: rest)]
      rfl

/-- A pair begins where the one before it ends. -/
theorem isChain_consecutive : ∀ l : List β, (consecutive l).IsChain fun p q => p.2 = q.1
  | [] | [_] | [_, _] => by simp [consecutive]
  | a :: b :: c :: rest => by
      have hrest := isChain_consecutive (b :: c :: rest)
      simp only [consecutive] at hrest ⊢
      exact .cons_cons rfl hrest

/-- In a list in line, a pair is in line, and nothing is between its ends: what comes after a first
pair is behind its end, and the first element is before the start of every later one. -/
theorem of_mem_consecutive {p : Nat × Nat} : ∀ {l : List Nat}, l.Pairwise (· < ·) →
    p ∈ consecutive l → p.1 ∈ l ∧ p.2 ∈ l ∧ p.1 < p.2 ∧ ∀ i ∈ l, i ≤ p.1 ∨ p.2 ≤ i
  | [], _, hp | [_], _, hp => nomatch hp
  | a :: b :: rest, hl, hp => by
      obtain ⟨ha, hrest⟩ := List.pairwise_cons.1 hl
      rcases List.mem_cons.1 hp with rfl | hp
      · refine ⟨List.mem_cons_self, by simp, ha b List.mem_cons_self, fun i hi => ?_⟩
        rcases List.mem_cons.1 hi with rfl | hi
        · exact .inl (Nat.le_refl _)
        · rcases List.mem_cons.1 hi with rfl | hi
          · exact .inr (Nat.le_refl _)
          · exact .inr (Nat.le_of_lt (List.rel_of_pairwise_cons hrest hi))
      · obtain ⟨hstart, hstop, hlt, hclear⟩ := of_mem_consecutive hrest hp
        refine ⟨List.mem_cons_of_mem _ hstart, List.mem_cons_of_mem _ hstop, hlt, fun i hi => ?_⟩
        rcases List.mem_cons.1 hi with rfl | hi
        · exact .inl (Nat.le_of_lt (ha p.1 hstart))
        · exact hclear i hi

end Consecutive

/-! ## Maxima -/

section Maxima

variable {α : Type} [Scalar α] {values : Array α} {i : Nat}

theorem pairwise_localMaxima (values : Array α) : (localMaxima values).Pairwise (· < ·) :=
  (List.pairwise_lt_range.sublist (List.drop_sublist _ _)).filter _

/-- The points that have two neighbours and are not the last but one. -/
theorem mem_candidates_iff {n : Nat} : i ∈ (List.range (n - 2)).drop 1 ↔ 1 ≤ i ∧ i + 3 ≤ n := by
  rw [List.range_eq_range', List.drop_range', List.mem_range'_1]
  omega

theorem add_three_le_of_mem_localMaxima (hi : i ∈ localMaxima values) : i + 3 ≤ values.size :=
  (mem_candidates_iff.1 (List.mem_filter.1 hi).1).2

end Maxima

/-! ## Places that are looked up -/

section Checked

variable {α : Type}

/-- An element at a place, which has to exist. -/
def elementAt (values : Array α) (k : Nat) : Except Fault α :=
  match values[k]? with
  | some v => .ok v
  | none => .error .outOfRange

theorem elementAt_eq_ok [Inhabited α] {values : Array α} {k : Nat} (h : k < values.size) :
    elementAt values k = .ok (values[k]?.getD default) := by
  rw [elementAt, Array.getElem?_eq_getElem h]
  rfl

/-- The elements from one place up to another, which have to be in order and to exist. -/
def elementsBetween (values : Array α) (start stop : Nat) : Except Fault (List α) :=
  if start ≤ stop ∧ stop ≤ values.size then .ok (values.extract start stop).toList
  else .error .outOfRange

variable [Scalar α]

/-- The local maxima, with both neighbours of a point looked up. -/
def checkedMaxima (values : Array α) : Except Fault (List Nat) :=
  ((List.range (values.size - 2)).drop 1).filterM fun i => do
    let before ← elementAt values (i - 1)
    let here ← elementAt values i
    let after ← elementAt values (i + 1)
    return Scalar.lt before here && Scalar.lt after here

/-- The middle of the values of a cycle, looked up; without values there is none. -/
def checkedMedian (window : List α) : Except Fault α := do
  let sorted := (window.mergeSort Scalar.sortsBefore).toArray
  let middle := sorted.size / 2
  let upper ← elementAt sorted middle
  if sorted.size % 2 = 0 then return Scalar.half * ((← elementAt sorted (middle - 1)) + upper)
  else return upper

/-- The cycle of values between two maxima, with its values, its ends and its middle looked up. -/
def checkedCycle (values times : Array α) (start stop : Nat) : Except Fault (Cycle α) := do
  let window ← elementsBetween values start stop
  let median ← checkedMedian window
  let startTime ← elementAt times start
  let stopTime ← elementAt times stop
  let coefficients := (List.range cycleHarmonics).map (fourierMagnitude window)
  return {
    start := start
    stop := stop
    startTime := startTime
    stopTime := stopTime
    summary := { Cycle.figuresOf window with median := median }
    coefficients := coefficients
    harmonicity := harmonicityOf coefficients }

/-- The cycles of one run between the maxima of a reference, every place looked up. -/
def checkedCycles (values times bounds : Array α) : Except Fault (List (Cycle α)) := do
  let maxima ← checkedMaxima bounds
  (consecutive maxima).mapM fun (start, stop) => checkedCycle values times start stop

variable {values times bounds : Array α} {window : List α} {start stop : Nat}

/-- Both neighbours of a candidate exist. -/
theorem checkedMaxima_eq (values : Array α) : checkedMaxima values = .ok (localMaxima values) := by
  refine filterM_eq_ok fun i hi => ?_
  obtain ⟨hpos, hle⟩ := mem_candidates_iff.1 hi
  rw [elementAt_eq_ok (by omega), elementAt_eq_ok (by omega), elementAt_eq_ok (by omega)]
  rfl

/-- What is not empty has a middle. -/
theorem checkedMedian_eq (hne : window ≠ []) :
    checkedMedian window = .ok (Cycle.medianOf window) := by
  have hsize : (window.mergeSort Scalar.sortsBefore).toArray.size = window.length := by
    rw [List.size_toArray, List.length_mergeSort]
  have hpos : 0 < window.length := List.length_pos_iff.2 hne
  unfold checkedMedian Cycle.medianOf
  dsimp only
  rw [elementAt_eq_ok (by omega), elementAt_eq_ok (by omega)]
  split <;> rfl

/-- A cycle that is not empty and ends before the values and the times do is made from places that
exist. -/
theorem checkedCycle_eq (hlt : start < stop) (hvalues : stop < values.size)
    (htimes : stop < times.size) :
    checkedCycle values times start stop = .ok (describeCycle values times start stop) := by
  have hwindow : elementsBetween values start stop = .ok (values.extract start stop).toList :=
    if_pos ⟨Nat.le_of_lt hlt, Nat.le_of_lt hvalues⟩
  have hne : (values.extract start stop).toList ≠ [] := by
    rw [← List.length_pos_iff, Array.length_toList, Array.size_extract]
    omega
  have hmedian := checkedMedian_eq hne
  rw [checkedCycle, hwindow]
  change (checkedMedian _ >>= _) = _
  rw [hmedian, elementAt_eq_ok (by omega), elementAt_eq_ok (by omega)]
  rfl

/-- **No place beyond the end is read** for the cycles of a run. -/
theorem checkedCycles_eq (hvalues : bounds.size ≤ values.size) (htimes : bounds.size ≤ times.size) :
    checkedCycles values times bounds = .ok ((consecutive (localMaxima bounds)).map
      fun (start, stop) => describeCycle values times start stop) := by
  rw [checkedCycles, checkedMaxima_eq]
  refine mapM_eq_ok_map fun p hp => ?_
  obtain ⟨-, hstop, hlt, -⟩ := of_mem_consecutive (pairwise_localMaxima bounds) hp
  have hle := add_three_le_of_mem_localMaxima hstop
  exact checkedCycle_eq hlt (by omega) (by omega)

end Checked

end FieldFlow
