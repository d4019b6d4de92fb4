import FieldFlow.Proofs.Solver.Numbers
import FieldFlow.Proofs.Solver.Retry

/-!
# Proofs/Solver/Equilibrium — steps from a state at which the system rests

Where a system has no slope, an attempt comes to the state it began with, and its error is zero over
the error scale of each component (`Rests.attempt_eq`). For valid tolerances that scale is zero only
where the absolute tolerance and the component are (`exists_errorScale`), and zero over zero is not
a number. An error that is no number is not at most one: with such a component every attempt of a
step is rejected until it fails, and with any other state the step is one internal step
(`step_equilibrium`).
-/

namespace FieldFlow.Adaptive

open Relation ExactOver

section ErrorScale

variable {α : Type} {n : Nat} [Scalar α]

/-- **What the error of a component is divided by.** -/
def errorScale (control : StepControl α) (old new : α) : α :=
  control.absolute + control.relative * Scalar.max (Scalar.abs old) (Scalar.abs new)

theorem scaledError_eq (control : StepControl α) (y next delta : Vector α n) :
    scaledError control y next delta =
      Scalar.sqrt ((List.ofFn fun i : Fin n =>
        Scalar.square (delta.get i / errorScale control (y.get i) (next.get i))).foldl (· + ·)
          Scalar.zero / Scalar.ofNat n) := rfl

/-- The error of an attempt without slopes. -/
def stillError (control : StepControl α) (y : Vector α n) : α :=
  if n = 0 then Scalar.zero else scaledError control y y (.replicate n Scalar.zero)

/-- What a component adds to it. -/
def stillTerm (control : StepControl α) (y : Vector α n) (i : Fin n) : α :=
  Scalar.square (Scalar.zero / errorScale control (y.get i) (y.get i))

theorem stillError_eq {control : StepControl α} (hn : n ≠ 0) (y : Vector α n) :
    stillError control y =
      Scalar.sqrt ((List.ofFn (stillTerm control y)).foldl (· + ·) Scalar.zero / Scalar.ofNat n) := by
  have hzero : ∀ i : Fin n, (.replicate n Scalar.zero : Vector α n).get i = Scalar.zero :=
    fun i => Vector.getElem_replicate i.isLt
  rw [stillError, if_neg hn, scaledError_eq]
  simp only [hzero]
  rfl

/-- A step makes one attempt at least. -/
theorem attemptBound_pos (control : StepControl α) (dt : α) : 0 < attemptBound control dt :=
  Nat.lt_of_lt_of_le (by decide) (Nat.le_max_left _ _)

end ErrorScale

variable {ε α K : Type} {n : Nat} [Scalar α] [Field K] [LinearOrder K] [IsStrictOrderedRing K]
  [FloorSemiring K] [ExactRoots K α] {tableau : Tableau} {control : StepControl α}
  {f : Rate ε α n} {goal : Goal α} {c next : Cursor α n} {p q : Progress α n}
  {m start dt t h : K} {x : Fin n → K}

/-! ## The error scale -/

/-- Valid tolerances are numbers from zero on, and not both zero. -/
theorem exists_tolerances (hvalid : control.validate = .ok ()) : ∃ rtol atol : K,
    control.relative = of rtol ∧ control.absolute = of atol ∧ 0 ≤ rtol ∧ 0 ≤ atol ∧
      (0 < rtol ∨ 0 < atol) := by
  obtain ⟨⟨hrelative, hrfrom⟩, ⟨habsolute, hafrom⟩, hsome, -⟩ :=
    StepControl.validate_eq_ok_iff.1 hvalid
  obtain ⟨rtol, hrtol⟩ := exists_of (K := K) _ hrelative
  obtain ⟨atol, hatol⟩ := exists_of (K := K) _ habsolute
  rw [hrtol, zero_eq (K := K), le, decide_eq_true_iff] at hrfrom
  rw [hatol, zero_eq (K := K), le, decide_eq_true_iff] at hafrom
  rw [hrtol, hatol, zero_eq (K := K), lt, lt, decide_eq_true_iff, decide_eq_true_iff] at hsome
  exact ⟨rtol, atol, hrtol, hatol, hrfrom, hafrom, hsome⟩

/-- **The error scale of valid tolerances** is a number, and zero where the absolute tolerance is
zero and both values are. -/
theorem exists_errorScale (hvalid : control.validate = .ok ()) (y z : K) : ∃ s : K,
    errorScale control (of y) (of z) = of s ∧
      (s = 0 ↔ control.absolute = of (0 : K) ∧ y = 0 ∧ z = 0) := by
  obtain ⟨rtol, atol, hrtol, hatol, hrfrom, hafrom, hsome⟩ := exists_tolerances (K := K) hvalid
  have hlarger : 0 ≤ max |y| |z| := (abs_nonneg y).trans (le_max_left _ _)
  refine ⟨atol + rtol * max |y| |z|, ?_, ?_⟩
  · rw [errorScale, hrtol, hatol, ExactRoots.abs, ExactRoots.abs, ExactPartial.max_of, mul, add]
  rw [hatol, of_injective.eq_iff, add_eq_zero_iff_of_nonneg hafrom (mul_nonneg hrfrom hlarger),
    and_congr_right_iff]
  rintro rfl
  have hpositive : rtol ≠ 0 := (hsome.resolve_right (lt_irrefl 0)).ne'
  rw [mul_eq_zero, or_iff_right hpositive]
  constructor
  · intro hzero
    exact ⟨abs_nonpos_iff.1 (hzero ▸ le_max_left _ _), abs_nonpos_iff.1 (hzero ▸ le_max_right _ _)⟩
  · rintro ⟨rfl, rfl⟩
    rw [abs_zero, max_self]

/-! ## No slope, no error -/

/-- **A system that rests** at a state of numbers: it has no slope there, at any time. -/
def Rests (f : Rate ε α n) (x : Fin n → K) : Prop :=
  ∀ t : K, f (of t) (numbers x) = .ok (numbers (0 : Fin n → K))

/-- Then there is none in any stage. -/
theorem Rests.staged (hf : Rests f x) (stages : List (Rat × List Rat)) {ks : List (Fin n → K)}
    (hks : ∀ s ∈ ks, s = 0) : ∃ all, Staged f t h x stages ks all ∧ ∀ s ∈ all, s = 0 := by
  induction stages generalizing ks with
  | nil => exact ⟨ks, .nil ks, hks⟩
  | cons stage rest ih =>
    obtain ⟨c, row⟩ := stage
    have hnext : ∀ s ∈ ks ++ [0], s = 0 :=
      List.forall_mem_append.2 ⟨hks, List.forall_mem_singleton.2 rfl⟩
    obtain ⟨all, hstaged, hall⟩ := ih hnext
    refine ⟨all, .cons ?_ hstaged, hall⟩
    rw [combination_eq_zero hks, smul_zero, add_zero]
    exact hf _

/-- Slopes that are zero make no error. -/
theorem delta_eq_zero {all : List (Fin n → K)} (hall : ∀ s ∈ all, s = 0) (weights : List Rat) :
    (Vector.ofFn fun i : Fin n => of h *
      weighted (weights.map fun q => (Scalar.ofQuot q.num q.den : α)) (all.map numbers) i) =
        .replicate n Scalar.zero := by
  rw [increment_numbers, combination_eq_zero hall, smul_zero, numbers_zero]

/-- **An attempt without slopes** comes to the state it began with. -/
theorem Rests.attempt_eq (hf : Rests f x) :
    attempt tableau.inScalars control f (of t) (numbers x) (of h) =
      .ok ⟨numbers x, stillError control (numbers x)⟩ := by
  obtain ⟨all, hstaged, hall⟩ := hf.staged (tableau.nodes.zip tableau.rows) (t := t) (h := h)
    (fun s hs => absurd hs List.not_mem_nil)
  have hslopes := slopes_of_staged hstaged
  rw [← stages_inScalars, List.map_nil] at hslopes
  have hmoved : (Vector.ofFn fun i => (numbers x : Vector α n).get i + of h *
      weighted (tableau.inScalars : Coefficients α).weights (all.map numbers) i) = numbers x := by
    refine (moved_numbers ..).trans ?_
    rw [combination_eq_zero hall, smul_zero, add_zero]
  have hdelta : (Vector.ofFn fun i : Fin n => of h *
      weighted (tableau.inScalars : Coefficients α).errors (all.map numbers) i) =
        .replicate n Scalar.zero := delta_eq_zero hall tableau.errors
  rw [attempt_of_slopes hslopes]
  dsimp only
  rw [hmoved, hdelta, all_isFinite_numbers]
  rfl

/-! ## Zero over the error scales -/

/-- Zeros add up to zero. -/
theorem foldl_add_zero {l : List α} (hl : ∀ a ∈ l, a = of (0 : K)) :
    l.foldl (· + ·) Scalar.zero = of (0 : K) := by
  induction l with
  | nil => exact zero_eq
  | cons a l ih =>
    rw [List.forall_mem_cons] at hl
    have hzero : Scalar.zero + a = Scalar.zero := by
      rw [hl.1, zero_eq (K := K), add, add_zero]
    rw [List.foldl_cons, hzero, ih hl.2]

/-- **With error scales that are not zero** there is no error. -/
theorem stillError_eq_zero {y : Vector α n} (hscales : ∀ i : Fin n, ∃ s : K,
    errorScale control (y.get i) (y.get i) = of s ∧ s ≠ 0) : stillError control y = of (0 : K) := by
  by_cases hn : n = 0
  · rw [stillError, if_pos hn, zero_eq (K := K)]
  have hcount : (n : K) ≠ 0 := Nat.cast_ne_zero.2 hn
  have hterms : ∀ a ∈ List.ofFn (stillTerm control y), a = of (0 : K) := by
    intro a ha
    obtain ⟨i, rfl⟩ := List.mem_ofFn.1 ha
    obtain ⟨s, hs, hnonzero⟩ := hscales i
    rw [stillTerm, hs, zero_eq (K := K), ExactFloor.div _ _ hnonzero, zero_div, Scalar.square, mul,
      mul_zero]
  have hroot := ExactRoots.sqrt_square (α := α) (0 : K)
  rw [mul_zero, abs_zero] at hroot
  rw [stillError_eq hn, foldl_add_zero hterms, ofNat_eq (K := K),
    ExactFloor.div _ _ hcount, zero_div, hroot]

/-- **With an error scale that is zero** the error is not a number. -/
theorem stillError_undefined {y : Vector α n} {i : Fin n}
    (hscale : errorScale control (y.get i) (y.get i) = of (0 : K)) :
    Scalar.isNumber (stillError control y) = false := by
  have hterm : Scalar.isNumber (stillTerm control y i) = false := by
    rw [stillTerm, hscale, zero_eq (K := K)]
    exact ExactPartial.mul_undefined K _ _ (.inl ExactPartial.zero_div_zero)
  rw [stillError_eq (Nat.ne_zero_of_lt i.isLt)]
  refine ExactRoots.sqrt_undefined K _ (ExactPartial.div_undefined K _ _ (.inl ?_))
  exact foldl_add_of_mem (P := fun a => Scalar.isNumber a = false) (ExactPartial.add_undefined K)
    (.inr ⟨_, List.mem_ofFn.2 ⟨i, rfl⟩, hterm⟩)

/-! ## Steps -/

/-- The only attempt that can be made. -/
theorem Makes.eq_still (hf : Rests f x) (hnow : p.now = of t) (hstate : p.state = numbers x)
    {tried : Attempt α n} (hmakes : Makes tableau control f goal p tried) :
    tried = ⟨numbers x, stillError control (numbers x)⟩ := by
  obtain ⟨⟨hfinite, -⟩, hattempt⟩ := hmakes
  obtain ⟨size, hsize⟩ := exists_of (K := K) _ hfinite
  rw [hnow, hstate, hsize, hf.attempt_eq] at hattempt
  exact (Except.ok.inj hattempt).symm

/-- Where the error is too large, trials stand still. -/
theorem Rests.of_leads (hf : Rests f x)
    (hlarge : Scalar.le (stillError control (numbers x : Vector α n)) Scalar.one = false)
    (hnow : p.now = of t) (hstate : p.state = numbers x)
    (hleads : ReflTransGen (Goes tableau control f goal) p q) :
    q.now = p.now ∧ q.state = p.state ∧ q.accepted = p.accepted := by
  induction hleads with
  | refl => exact ⟨rfl, rfl, rfl⟩
  | tail _ hgoes ih =>
    obtain ⟨hsame, hkept, hcount⟩ := ih
    cases hgoes with
    | accepted _ htries =>
      cases htries with
      | accepted hmakes hgood =>
        obtain rfl := hmakes.eq_still hf (hsame.trans hnow) (hkept.trans hstate)
        exact absurd (hlarge.symm.trans hgood) Bool.false_ne_true
    | rejected _ htries =>
      cases htries
      exact ⟨hsame, hkept, hcount⟩

/-- The first size of a step, if none is carried into it, is its length. -/
theorem clamp_outset (hmin : control.minStep = of m) (hstart : c.time = of start)
    (hfresh : c.suggestion = none) :
    clamp (goalOf control c.time (of dt)) (outset (of dt) c) = (of dt, true) := by
  have hleft : (goalOf control c.time (of dt)).stop - (outset (of dt) c).now = of dt := by
    rw [stop_eq hstart, outset, hstart, sub, add_sub_cancel_left]
  have hsize : (outset (of dt) c).size = of dt := by
    rw [outset, hfresh, Option.getD_none, Scalar.min, ite_self]
  rw [clamp_numbers hleft hsize (snap_eq hmin c.time), if_pos (.inl le_rfl)]

/-- A step without an error is one internal step. -/
theorem Rests.step_of_good (hf : Rests f x) (hmin : control.minStep = of m) (hle : m ≤ dt)
    (hdt : 0 < dt) (hstart : c.time = of start) (hfresh : c.suggestion = none)
    (hstate : c.state = numbers x)
    (hgood : Scalar.le (stillError control (numbers x : Vector α n)) Scalar.one = true) :
    ∃ next, step tableau control f (of dt) c = (next, .ok ()) ∧ next.state = c.state ∧
      next.time = of (start + dt) ∧ next.accepted = c.accepted + 1 ∧ next.rejected = c.rejected := by
  let goal := goalOf control c.time (of dt)
  have hstop : goal.stop = of (start + dt) := stop_eq hstart
  have hbefore : Scalar.lt (outset (of dt) c).now goal.stop = true := by
    rw [hstop, outset, hstart, lt, decide_eq_true (lt_add_of_pos_right start hdt)]
  have hclamp : clamp goal (outset (of dt) c) = (of dt, true) := clamp_outset hmin hstart hfresh
  have hmakes : Makes tableau control f goal (outset (of dt) c)
      ⟨numbers x, stillError control (numbers x)⟩ := by
    rw [Makes, hclamp, triable_of_iff hmin, outset, hstart, hstate]
    exact ⟨hle, hf.attempt_eq⟩
  let arrived := accept goal (outset (of dt) c) (of dt) true
    (sizeFactor tableau.errorOrder (stillError control (numbers x))) (numbers x)
  have hgoes : Goes tableau control f goal (outset (of dt) c) arrived := by
    have haccepts := Tries.accepted hmakes hgood
    rw [hclamp] at haccepts
    exact .accepted hbefore haccepts
  obtain ⟨bound, hbound⟩ :=
    Nat.exists_eq_add_one_of_ne_zero (attemptBound_pos control (of dt)).ne'
  have hdone : Scalar.lt arrived.now goal.stop = false := lt_irrefl K goal.stop
  have hadvance : advance tableau control f goal (attemptBound control (of dt)) (outset (of dt) c) =
      (arrived, .ok ()) := by
    rw [hbound, hgoes.advance_eq, advance_of_not_lt hdone]
  exact ⟨_, step_of_advance hadvance, hstate.symm, hstop, rfl, rfl⟩

/-- A step whose error is too large fails where it began. -/
theorem Rests.step_of_large (hf : Rests f x) (hmin : control.minStep = of m) (hm : 0 < m)
    (hdt : 0 < dt) (hstart : c.time = of start) (hstate : c.state = numbers x)
    (hlarge : Scalar.le (stillError control (numbers x : Vector α n)) Scalar.one = false) :
    ∃ next cause, step tableau control f (of dt) c = (next, .error (.impasse c.time cause)) ∧
      next.state = c.state ∧ next.accepted = c.accepted := by
  have hstill : ∀ {q}, ReflTransGen (Goes tableau control f (goalOf control c.time (of dt)))
      (outset (of dt) c) q → q.now = c.time ∧ q.state = c.state ∧ q.accepted = c.accepted :=
    fun hleads => hf.of_leads hlarge hstart hstate hleads
  rcases hstep : step tableau control f (of dt) c with ⟨next, result⟩
  obtain ⟨q, hends, rfl⟩ := exists_ends hstep
  have hended := (hends.within hmin hm hstart hdt (mostAttempts_le hmin hm)).1
  cases hends with
  | cut => exact absurd rfl hended
  | arrived hleads hdone =>
    rw [(hstill hleads).1, stop_eq hstart, hstart, lt, decide_eq_false_iff_not] at hdone
    exact absurd (lt_add_of_pos_right start hdt) hdone
  | failed hleads _ htries =>
    obtain ⟨hnow, hkept, hcount⟩ := hstill hleads
    cases htries with
    | small => exact ⟨_, _, rfl, hkept, hcount⟩
    | exhausted => exact ⟨_, _, rfl, hkept, hcount⟩
    | refused hsize hrefuses =>
      obtain ⟨size, hof⟩ := exists_of (K := K) _ hsize.1
      rw [hof, hnow, hkept, hstart, hstate, hf.attempt_eq] at hrefuses
      exact nomatch hrefuses

/-- **A step from an equilibrium.** With valid settings an error scale is zero exactly where the
absolute tolerance and the component are. If none is, a step that is no shorter than the minimum is
one internal step and leaves the state as it is; if one is, the step fails, and leaves it as
well. -/
theorem step_equilibrium (hvalid : control.validate = .ok ()) (hmin : control.minStep = of m)
    (hle : m ≤ dt) (hstart : c.time = of start) (hfresh : c.suggestion = none)
    (hfinite : AllFinite c.state.toArray)
    (hf : ∀ t : K, f (of t) c.state = .ok (.replicate n Scalar.zero)) :
    (∀ i : Fin n, errorScale control (c.state.get i) (c.state.get i) = Scalar.zero ↔
      control.absolute = Scalar.zero ∧ c.state.get i = Scalar.zero) ∧
    ((∀ i : Fin n, errorScale control (c.state.get i) (c.state.get i) ≠ Scalar.zero) →
      ∃ next, step tableau control f (of dt) c = (next, .ok ()) ∧ next.state = c.state ∧
        next.time = of (start + dt) ∧ next.accepted = c.accepted + 1 ∧
          next.rejected = c.rejected) ∧
    ((∃ i : Fin n, errorScale control (c.state.get i) (c.state.get i) = Scalar.zero) →
      ∃ next cause, step tableau control f (of dt) c = (next, .error (.impasse c.time cause)) ∧
        next.state = c.state ∧ next.accepted = c.accepted) := by
  obtain ⟨x, hx⟩ := exists_numbers (K := K) hfinite
  have hm : 0 < m := StepControl.pos_of_validate hvalid hmin
  have hrests : Rests f x := by
    intro t
    rw [← hx, hf, numbers_zero]
  have hvalue : ∀ i, c.state.get i = of (x i) := fun i => by rw [hx, get_numbers]
  have hscale := fun i => exists_errorScale (K := K) hvalid (x i) (x i)
  simp only [hvalue, zero_eq (K := K)]
  refine ⟨fun i => ?_, fun hscales => ?_, ?_⟩
  · obtain ⟨s, hs, hzero⟩ := hscale i
    rw [hs, of_injective.eq_iff, of_injective.eq_iff, hzero, and_self_iff]
  · have hnone : stillError control (numbers x : Vector α n) = of (0 : K) := by
      refine stillError_eq_zero fun i => ?_
      obtain ⟨s, hs, -⟩ := hscale i
      rw [get_numbers]
      exact ⟨s, hs, fun hzero => hscales i (by rw [hs, hzero])⟩
    refine hrests.step_of_good hmin hle (hm.trans_le hle) hstart hfresh hx ?_
    rw [hnone, one_eq (K := K), le, decide_eq_true zero_le_one]
  · rintro ⟨i, hi⟩
    rw [← get_numbers] at hi
    refine hrests.step_of_large hmin hm (hm.trans_le hle) hstart hx ?_
    exact ExactPartial.le_undefined K _ _ (.inl (stillError_undefined hi))

/-! ## Growth with a limit -/

/-- Growth that stands still at zero and at one. -/
def logistic : Rate Empty Rooted 1 := fun _ y => .ok #v[y[0] * (.of 1 - y[0])]

/-- A relative tolerance alone. -/
def logistic.tolerances : StepControl Rooted := ⟨.of (1 / 100), .of 0, .of (1 / 10), 3⟩

def logistic.outset (y : Rat) : Cursor Rooted 1 := ⟨.of 0, .replicate 1 (.of y), none, 0, 0⟩

theorem logistic_valid : logistic.tolerances.validate = .ok () := by decide +kernel

/-- From one, a step succeeds at once. -/
theorem logistic_rests : ∃ next,
    step .dormandPrince logistic.tolerances logistic (.of 1) (logistic.outset 1) = (next, .ok ()) ∧
      next.state = .replicate 1 (.of 1) ∧ next.accepted = 1 := by
  have hslope : ∀ t : Rat,
      logistic (of t) (logistic.outset 1).state = .ok (.replicate 1 Scalar.zero) := by
    have hnone : logistic (.of 0) (logistic.outset 1).state = .ok (.replicate 1 Scalar.zero) := by
      decide +kernel
    exact fun _ => hnone
  have hmin : logistic.tolerances.minStep = of (1 / 10 : Rat) := rfl
  have hle : (1 / 10 : Rat) ≤ 1 := by norm_num
  have hstart : (logistic.outset 1).time = of (0 : Rat) := rfl
  have hscale : ∀ i : Fin 1, errorScale logistic.tolerances ((logistic.outset 1).state.get i)
      ((logistic.outset 1).state.get i) ≠ Scalar.zero := by decide +kernel
  have hfinite : AllFinite (logistic.outset 1).state.toArray := by decide +kernel
  obtain ⟨next, hstep, hstate, -, haccepted, -⟩ :=
    (step_equilibrium logistic_valid hmin hle hstart rfl hfinite hslope).2.1 hscale
  exact ⟨next, hstep, hstate, haccepted⟩

/-- From zero, it fails. -/
theorem logistic_fails : logistic.tolerances.validate = .ok () ∧
    (∀ t, logistic t (logistic.outset 0).state = .ok (.replicate 1 Scalar.zero)) ∧
    errorScale logistic.tolerances (.of 0) (.of 0) = Scalar.zero ∧
    (step .dormandPrince logistic.tolerances logistic (.of 1) (logistic.outset 0)).2 ≠ .ok () := by
  have hslope : logistic (.of 0) (logistic.outset 0).state = .ok (.replicate 1 Scalar.zero) := by
    decide +kernel
  exact ⟨logistic_valid, fun _ => hslope, by decide +kernel, by decide +kernel⟩

end FieldFlow.Adaptive
