import FieldFlow.Analysis.Derivative
import FieldFlow.Proofs.Scalar.Extended
import FieldFlow.Proofs.Tensor.History

/-!
# Proofs/Analysis/Differences — finite differences as a derivative

The rate at a time point is a quotient of differences: between the two time points around it inside,
between the point and its one neighbour at both ends. In an arithmetic with exact quotients all
three are the slope of one chord (`timeDerivative_ofNumbers`), so that every law is one about
chords: they are combined as the values are, turned around with the history, and as steep as a
parabola half-way between their ends (`chord_parabola`). So the rates are linear in the history,
exact where it is affine in time and, between the ends, where it is quadratic, and negated with time
(`timeDerivative_isTimeDerivative`).

The differences can be taken for whole stretches of time points at once: for every number of time
points the stretches have equal lengths and fill the history (`timeDerivativeByRows_eq`).
-/

namespace FieldFlow

/-! ## Arithmetics with quotients -/

/-- **An arithmetic in which numbers are added, subtracted, multiplied and divided exactly.** -/
class ExactQuotients (K : Type) [FieldOfNumbers K] (α : Type) [Scalar α] extends ExactSums K α where
  two : (Scalar.two : α) = of 2
  sub : ∀ x y : K, of x - of y = of (x - y)
  neg : ∀ x : K, -of x = of (-x)
  div : ∀ x y : K, y ≠ 0 → of x / of y = of (x / y)

/-- Numbers with infinities have exact quotients. -/
instance {K : Type} [FieldOfNumbers K] [LinearOrder K] [IsStrictOrderedRing K] [FloorRing K]
    [Elementary K] : ExactQuotients K (Extended K) where
  toExactSums := inferInstance
  two := Extended.two_eq
  sub := Extended.sub_number
  neg := Extended.neg_number
  div _ _ := Extended.div_number

namespace History

open ExactSums

variable {α : Type} [Scalar α]

/-! ## Stretches of time points -/

/-- `count` time points from one on, if the history has them. -/
def rows? (h : History α) (start count : Nat) : Option (History α) :=
  if start + count ≤ h.steps then
    some (.ofFn count h.shape fun t => h.get (start + t))
  else none

/-- The history with other values at the time points from one on, if it has them. -/
def setRows? (h rows : History α) (start : Nat) : Option (History α) :=
  if rows.shape = h.shape ∧ start + rows.steps ≤ h.steps then
    some (.ofFn h.steps h.shape fun t x r i j =>
      if start ≤ t ∧ t < start + rows.steps then rows.get (t - start) x r i j
      else h.get t x r i j)
  else none

/-- Two histories element by element, if they have the same axes. -/
def zipWith? (f : α → α → α) (g h : History α) : Option (History α) :=
  if g.steps = h.steps ∧ g.shape = h.shape then
    some (.ofFn g.steps g.shape fun t x r i j => f (g.get t x r i j) (h.get t x r i j))
  else none

/-- Writes quotients at `count` time points from one on: of the differences between as many values
from `later` and from `earlier` on. -/
def setQuotients? (h out : History α) (start count later earlier : Nat) (distance : α) :
    Option (History α) := do
  let ahead ← h.rows? later count
  let behind ← h.rows? earlier count
  out.setRows? (← ahead.zipWith? (fun a b => (a - b) / distance) behind) start

/-- The time derivative by stretches: the first time point, the last one, and all between them. -/
def timeDerivativeByRows (h : History α) (timeStep : α) : Option (History α) := do
  let out := ofFn h.steps h.shape fun _ _ _ _ _ => Scalar.zero
  if h.steps < 2 then return out
  let out ← h.setQuotients? out 0 1 1 0 timeStep
  let out ← h.setQuotients? out (h.steps - 1) 1 (h.steps - 1) (h.steps - 2) timeStep
  if 2 < h.steps then h.setQuotients? out 1 (h.steps - 2) 2 0 (Scalar.two * timeStep)
  else return out

/-- Quotients are written where there are values and room for them. -/
theorem setQuotients?_eq_some {h : History α} {f : Nat → Nat → Nat → Nat → Nat → α}
    {start count later earlier : Nat} {distance : α} (hlater : later + count ≤ h.steps)
    (hearlier : earlier + count ≤ h.steps) (hstart : start + count ≤ h.steps) :
    h.setQuotients? (ofFn h.steps h.shape f) start count later earlier distance =
      some (ofFn h.steps h.shape fun t x r i j =>
        if start ≤ t ∧ t < start + count then
          (h.get (later + (t - start)) x r i j - h.get (earlier + (t - start)) x r i j) / distance
        else f t x r i j) := by
  simp only [setQuotients?, rows?, zipWith?, setRows?, if_pos hlater, if_pos hearlier,
    Option.bind_eq_bind, Option.bind_some, steps_ofFn, shape_ofFn, and_self, if_true, true_and,
    if_pos hstart]
  congr 1
  refine ofFn_congr fun t ht x r i j hin => ?_
  by_cases hwritten : start ≤ t ∧ t < start + count
  · have hrow : t - start < count := by omega
    simp only [if_pos hwritten, get_ofFn _ _ _ hrow hin]
  · simp only [if_neg hwritten, get_ofFn _ _ _ ht hin]

/-- **The stretches line up**, whatever their lengths: they never run over an end of the history,
and together they give the rate at every time point — of two time points, none is between them. -/
theorem timeDerivativeByRows_eq (h : History α) (timeStep : α) :
    h.timeDerivativeByRows timeStep = some (h.timeDerivative timeStep) := by
  by_cases hsteps : h.steps < 2
  · simp [timeDerivativeByRows, timeDerivative, hsteps]
  simp only [timeDerivativeByRows, if_neg hsteps, Option.bind_eq_bind]
  rw [setQuotients?_eq_some (by omega) (by omega) (by omega), Option.bind_some,
    setQuotients?_eq_some (by omega) (by omega) (by omega), Option.bind_some,
    setQuotients?_eq_some (by omega) (by omega) (by omega)]
  refine ite_eq_iff'.2 ⟨fun _ => ?_, fun htwo => ?_⟩
  · refine congrArg some (ofFn_congr fun t ht x r i j _ => ?_)
    rw [if_neg hsteps]
    rcases Nat.eq_zero_or_pos t with rfl | hpos
    · simp [show ¬ h.steps - 1 ≤ 0 by omega]
    · by_cases hlast : t + 1 = h.steps
      · rw [if_neg (by omega), if_pos (by omega), if_neg (by omega), if_pos hlast,
          show h.steps - 1 + (t - (h.steps - 1)) = t by omega,
          show h.steps - 2 + (t - (h.steps - 1)) = t - 1 by omega]
      · rw [if_pos (by omega), if_neg hpos.ne', if_neg hlast,
          show 2 + (t - 1) = t + 1 by omega, show 0 + (t - 1) = t - 1 by omega]
  · have hsteps : h.steps = 2 := by omega
    refine congrArg some (ofFn_congr fun t ht x r i j _ => ?_)
    obtain rfl | rfl : t = 0 ∨ t = 1 := by omega
    · simp [hsteps]
    · simp [hsteps]

/-! ## Histories of numbers -/

/-- The combination of two histories of the same axes, element by element. -/
def combine (a b : α) (g h : History α) : History α :=
  .ofFn g.steps g.shape fun t x r i j => a * g.get t x r i j + b * h.get t x r i j

/-- The history run through from its end. -/
def reversed (h : History α) : History α :=
  .ofFn h.steps h.shape fun t x r i j => h.get (h.steps - 1 - t) x r i j

/-- The history with every sign changed. -/
def negated (h : History α) : History α :=
  .ofFn h.steps h.shape fun t x r i j => -h.get t x r i j

section Numbers

variable {K : Type} [FieldOfNumbers K] [ExactQuotients K α] {steps t : Nat} {s : Shape}
  {u v : Nat → Nat → Nat → Nat → Nat → K}

variable (α) in
/-- The history of given numbers. -/
def ofNumbers (steps : Nat) (s : Shape) (u : Nat → Nat → Nat → Nat → Nat → K) : History α :=
  .ofFn steps s fun t x r i j => of (u t x r i j)

theorem get_ofNumbers {x r i j : Nat} (ht : t < steps) (hin : s.Contains x r i j) :
    (ofNumbers α steps s u).get t x r i j = of (u t x r i j) := get_ofFn _ _ _ ht hin

theorem combine_ofNumbers (a b : K) :
    combine (of a) (of b) (ofNumbers α steps s u) (ofNumbers α steps s v) =
      ofNumbers α steps s fun t x r i j => a * u t x r i j + b * v t x r i j :=
  ofFn_congr fun t (ht : t < steps) x r i j (hin : s.Contains x r i j) => by
    rw [get_ofNumbers ht hin, get_ofNumbers ht hin, mul, mul, add]

theorem reversed_ofNumbers : (ofNumbers α steps s u).reversed =
    ofNumbers α steps s fun t => u (steps - 1 - t) :=
  ofFn_congr fun t (ht : t < steps) x r i j hin =>
    get_ofNumbers (show steps - 1 - t < steps by omega) hin

theorem negated_ofNumbers : (ofNumbers α steps s u).negated =
    ofNumbers α steps s fun t x r i j => -u t x r i j :=
  ofFn_congr fun t (ht : t < steps) x r i j (hin : s.Contains x r i j) => by
    rw [get_ofNumbers ht hin, ExactQuotients.neg]

/-! ## Chords -/

/-- The time point a difference starts from. -/
def earlier (t : Nat) : Nat := t - 1

/-- The time point a difference ends at. -/
def later (steps t : Nat) : Nat := if t + 1 = steps then t else t + 1

/-- The slope of the chord between the time points around one. -/
def chord (value : Nat → K) (dt : K) (steps t : Nat) : K :=
  (value (later steps t) - value (earlier t)) / ((later steps t - earlier t : Nat) * dt)

/-- **Every rate is the slope of a chord.** -/
theorem timeDerivative_ofNumbers [NeZero (2 : K)] {dt : K} (hdt : dt ≠ 0) :
    (ofNumbers α steps s u).timeDerivative (of dt) =
      ofNumbers α steps s fun t x r i j => chord (u · x r i j) dt steps t := by
  refine ofFn_congr fun t (ht : t < steps) x r i j (hin : s.Contains x r i j) => ?_
  change (if steps < 2 then _ else if t = 0 then _ else if t + 1 = steps then _ else _) = _
  beta_reduce
  have hvalue : ∀ t' < steps, (ofNumbers α steps s u).get t' x r i j = of (u t' x r i j) :=
    fun _ ht' => get_ofNumbers ht' hin
  by_cases hshort : steps < 2
  · obtain ⟨rfl, rfl⟩ : steps = 1 ∧ t = 0 := by omega
    simp [chord, later, earlier, zero (K := K)]
  rw [if_neg hshort]
  by_cases hfirst : t = 0
  · subst hfirst
    rw [if_pos rfl, hvalue 1 (by omega), hvalue 0 ht, ExactQuotients.sub,
      ExactQuotients.div _ _ hdt]
    simp [chord, later, earlier, show (1 : Nat) ≠ steps by omega]
  rw [if_neg hfirst]
  by_cases hlast : t + 1 = steps
  · rw [if_pos hlast, hvalue t ht, hvalue (t - 1) (by omega), ExactQuotients.sub,
      ExactQuotients.div _ _ hdt]
    simp [chord, later, earlier, hlast, show t - (t - 1) = 1 by omega]
  · rw [if_neg hlast, hvalue (t + 1) (by omega), hvalue (t - 1) (by omega), ExactQuotients.sub,
      ExactQuotients.two (K := K), mul, ExactQuotients.div _ _ (mul_ne_zero two_ne_zero hdt)]
    simp [chord, later, earlier, hlast, show t + 1 - (t - 1) = 2 by omega]

theorem later_lt (ht : t < steps) : later steps t < steps := by
  unfold later
  split <;> omega

theorem earlier_lt (ht : t < steps) : earlier t < steps := (Nat.sub_le t 1).trans_lt ht

/-- From two time points on, a chord goes over one or two steps. -/
theorem later_sub_earlier (hsteps : 2 ≤ steps) :
    later steps t - earlier t = 1 ∨ later steps t - earlier t = 2 := by
  unfold later earlier
  split <;> omega

/-- The mirror image of a chord is the one at the mirror image, from its other end. -/
theorem later_mirror : steps - 1 - later steps t = earlier (steps - 1 - t) := by
  unfold later earlier
  split <;> omega

theorem earlier_mirror (ht : t < steps) :
    steps - 1 - earlier t = later steps (steps - 1 - t) := by
  unfold later earlier
  split <;> omega

theorem chord_combine (a b dt : K) (value value' : Nat → K) :
    chord (fun t => a * value t + b * value' t) dt steps t =
      a * chord value dt steps t + b * chord value' dt steps t := by
  unfold chord
  ring

theorem chord_mirror (value : Nat → K) (dt : K) (ht : t < steps) :
    chord (fun t => value (steps - 1 - t)) dt steps t =
      -chord value dt steps (steps - 1 - t) := by
  have hspan : later steps t - earlier t =
      later steps (steps - 1 - t) - earlier (steps - 1 - t) := by
    rw [← later_mirror, ← earlier_mirror ht]
    have := later_lt ht
    omega
  rw [chord, chord, later_mirror, earlier_mirror ht, hspan]
  ring

/-- A chord of a parabola is as steep as the parabola is half-way. -/
theorem chord_parabola [NeZero (2 : K)] {value : Nat → K} {dt start level slope curve : K}
    (hdt : dt ≠ 0) (hsteps : 2 ≤ steps) (hvalue : ∀ t < steps, value t =
      level + slope * (start + t * dt) + curve * (start + t * dt) ^ 2) (ht : t < steps) :
    chord value dt steps t =
      slope + curve * (2 * start + (later steps t + earlier t : Nat) * dt) := by
  have hspan : ((later steps t - earlier t : Nat) : K) ≠ 0 := by
    rcases later_sub_earlier (t := t) hsteps with h | h
    · simp [h]
    · simpa [h] using two_ne_zero
  have horder : earlier t ≤ later steps t := by
    have := later_sub_earlier (t := t) hsteps
    omega
  rw [chord, div_eq_iff (mul_ne_zero hspan hdt), hvalue _ (later_lt ht), hvalue _ (earlier_lt ht),
    Nat.cast_sub horder, Nat.cast_add]
  ring

/-! ## The laws of a derivative -/

/-- **A derivative in time**, of histories of numbers a certain time apart. -/
structure IsTimeDerivative (dt : K) (derivative : History α → History α) : Prop where
  /-- Combinations keep their coefficients. -/
  linear : ∀ steps s (u v : Nat → Nat → Nat → Nat → Nat → K) (a b : K),
    derivative (combine (of a) (of b) (ofNumbers α steps s u) (ofNumbers α steps s v)) =
      combine (of a) (of b) (derivative (ofNumbers α steps s u))
        (derivative (ofNumbers α steps s v))
  /-- Where a history goes in a straight line, its rate is the slope, at both ends as well. -/
  affine : ∀ steps s (u : Nat → Nat → Nat → Nat → Nat → K) (x r i j : Nat) (start level slope : K),
    2 ≤ steps → s.Contains x r i j →
    (∀ t < steps, u t x r i j = level + slope * (start + t * dt)) → ∀ t < steps,
      (derivative (ofNumbers α steps s u)).get t x r i j = of slope
  /-- Where it follows a parabola, its rate between the ends is the derivative there. -/
  quadratic : ∀ steps s (u : Nat → Nat → Nat → Nat → Nat → K) (x r i j : Nat)
    (start level slope curve : K), s.Contains x r i j →
    (∀ t < steps, u t x r i j =
      level + slope * (start + t * dt) + curve * (start + t * dt) ^ 2) →
    ∀ t, 0 < t → t + 1 < steps → (derivative (ofNumbers α steps s u)).get t x r i j =
      of (slope + 2 * curve * (start + t * dt))
  /-- Run through from its end, a history goes the other way. -/
  mirrored : ∀ steps s (u : Nat → Nat → Nat → Nat → Nat → K),
    derivative (ofNumbers α steps s u).reversed =
      (derivative (ofNumbers α steps s u)).reversed.negated

/-- **Finite differences are a derivative**, over any number of time points and with any step that
is not zero — a straight line is a parabola that does not bend. -/
theorem timeDerivative_isTimeDerivative [NeZero (2 : K)] {dt : K} (hdt : dt ≠ 0) :
    IsTimeDerivative dt fun h : History α => h.timeDerivative (of dt) where
  linear steps s u v a b := by
    rw [combine_ofNumbers, timeDerivative_ofNumbers hdt, timeDerivative_ofNumbers hdt,
      timeDerivative_ofNumbers hdt, combine_ofNumbers]
    exact ofFn_congr fun t _ x r i j _ => congrArg of (chord_combine a b dt _ _)
  affine steps s u x r i j start level slope hsteps hin hvalue t ht := by
    have hparabola : ∀ t < steps, u t x r i j =
        level + slope * (start + t * dt) + 0 * (start + t * dt) ^ 2 := fun t ht => by
      rw [hvalue t ht, zero_mul, add_zero]
    rw [timeDerivative_ofNumbers hdt, get_ofNumbers ht hin,
      chord_parabola hdt hsteps hparabola ht, zero_mul, add_zero]
  quadratic steps s u x r i j start level slope curve hin hvalue t hpos ht := by
    have hmiddle : later steps t + earlier t = 2 * t := by
      unfold later earlier
      split <;> omega
    rw [timeDerivative_ofNumbers hdt, get_ofNumbers (by omega) hin,
      chord_parabola hdt (by omega) hvalue (by omega), hmiddle, Nat.cast_mul, Nat.cast_two]
    congr 1
    ring
  mirrored steps s u := by
    rw [reversed_ofNumbers, timeDerivative_ofNumbers hdt, timeDerivative_ofNumbers hdt,
      reversed_ofNumbers, negated_ofNumbers]
    exact ofFn_congr fun t ht x r i j _ => congrArg of (chord_mirror (u · x r i j) dt ht)

/-- Three points of a parabola, half a unit of time apart: straight ahead at both ends, and exactly
in the middle. -/
theorem timeDerivative_parabola : (1 / 2 : Rat) ≠ 0 ∧
    IsTimeDerivative (1 / 2 : Rat) (fun h : History (Extended Rat) =>
      h.timeDerivative (.number (1 / 2))) ∧
    (((ofNumbers (Extended Rat) 3 ⟨1, 1, 1, 1⟩ fun t _ _ _ _ => (t / 2 : Rat) ^ 2).timeDerivative
      (.number (1 / 2))).data = #[.number (1 / 2), .number 1, .number (3 / 2)]) :=
  ⟨by norm_num, timeDerivative_isTimeDerivative (by norm_num), by decide +kernel⟩

end Numbers

end History

end FieldFlow
