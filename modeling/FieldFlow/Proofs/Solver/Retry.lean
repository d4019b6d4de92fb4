import FieldFlow.Proofs.Scalar.Partial
import FieldFlow.Proofs.Solver.Attempts

/-!
# Proofs/Solver/Retry — what becomes of an attempt that is rejected

After an error that is not at most one, error control makes the size smaller: between a fifth and
nine tenths of what it was (`exists_reduced`). The next attempt is of that size, unless it would
leave a remainder that is too short to stand alone; then it takes all that remains. So an attempt
that fell short of the end is always followed by a smaller one. One that took all that remains may
be followed by itself, and then is again, until there are too many (`advance_stuck`): the step
fails, although smaller sizes have not been tried (`rejected_retried`).
-/

namespace FieldFlow

open ExactOver

/-- The minimum of valid settings is positive. -/
theorem StepControl.pos_of_validate {K α : Type} [Field K] [LinearOrder K] [IsStrictOrderedRing K]
    [Scalar α] [ExactOver K α] {control : StepControl α} {m : K}
    (hvalid : control.validate = .ok ()) (hmin : control.minStep = of m) : 0 < m := by
  have hpositive := (StepControl.validate_eq_ok_iff.1 hvalid).2.2.2.2
  rw [hmin, zero_eq (K := K), lt, decide_eq_true_iff] at hpositive
  exact hpositive

namespace Adaptive

open Relation

section Trials

variable {ε α : Type} {n : Nat} [Scalar α] {tableau : Tableau} {control : StepControl α}
  {f : Rate ε α n} {goal : Goal α} {p next q : Progress α n} {tried : Attempt α n}

/-! ## The same trial again -/

/-- What is attempted depends on the time and on the size that is proposed. -/
theorem clamp_congr (hnow : p.now = q.now) (hsize : p.size = q.size) :
    clamp goal p = clamp goal q := by
  rw [clamp, clamp, hnow, hsize]

/-- The verdict on an attempt that is made. -/
theorem trial_of_makes (hmakes : Makes tableau control f goal p tried) :
    trial tableau control f goal p =
      let factor := sizeFactor tableau.errorOrder tried.error
      let next := reject p (clamp goal p).1 factor
      if Scalar.le tried.error Scalar.one then
        .accepted (accept goal p (clamp goal p).1 (clamp goal p).2 factor tried.candidate)
      else if control.maxRejections < next.rejections then
        .failed next (.impasse goal.start (.rejections next.rejections p.now))
      else .rejected next := by
  obtain ⟨⟨hfinite, hsmall⟩, hattempt⟩ := hmakes
  unfold trial
  simp only [hfinite, hsmall, hattempt]
  rfl

/-- A trial has no verdict but its own. -/
theorem Tries.trial_eq {verdict : Trial ε α n} (h : Tries tableau control f goal p verdict) :
    trial tableau control f goal p = verdict := by
  cases h with
  | small hsmall =>
    rw [not_triable_iff, ← Bool.not_eq_true', ← Bool.or_eq_true] at hsmall
    unfold trial
    exact if_pos hsmall
  | refused hsize hrefuses =>
    obtain ⟨hfinite, hsmall⟩ := hsize
    unfold trial
    simp only [hfinite, hsmall, hrefuses]
    rfl
  | accepted hmakes herror =>
    rw [trial_of_makes hmakes, herror]
    rfl
  | rejected hmakes herror hfew =>
    rw [trial_of_makes hmakes, herror]
    exact if_neg (Nat.not_lt.2 hfew)
  | exhausted hmakes herror hmany =>
    rw [trial_of_makes hmakes, herror]
    exact if_pos (Nat.lt_succ_of_le hmany)

/-- Trials go on from where one has led. -/
theorem Goes.advance_eq (h : Goes tableau control f goal p next) (bound : Nat) :
    advance tableau control f goal (bound + 1) p = advance tableau control f goal bound next := by
  cases h with
  | accepted hbefore htries => rw [advance, if_pos hbefore, htries.trial_eq]
  | rejected hbefore htries => rw [advance, if_pos hbefore, htries.trial_eq]

theorem advance_of_leads (h : ReflTransGen (Goes tableau control f goal) p q) :
    ∃ count, ∀ bound, advance tableau control f goal (count + bound) p =
      advance tableau control f goal bound q := by
  induction h with
  | refl => exact ⟨0, fun bound => by rw [Nat.zero_add]⟩
  | tail _ hgoes ih =>
    obtain ⟨count, hsame⟩ := ih
    refine ⟨count + 1, fun bound => ?_⟩
    rw [Nat.add_right_comm, Nat.add_assoc, hsame, hgoes.advance_eq]

/-- **A rejected attempt that is followed by itself** is made again until there are too many
rejections. -/
theorem advance_stuck {left : Nat} (bound : Nat) (hbefore : Scalar.lt p.now goal.stop = true)
    (hmakes : Makes tableau control f goal p tried)
    (herror : Scalar.le tried.error Scalar.one = false)
    (hsame : clamp goal (reject p (clamp goal p).1 (sizeFactor tableau.errorOrder tried.error)) =
      clamp goal p)
    (hleft : p.rejections + left = control.maxRejections) :
    ∃ last, advance tableau control f goal (left + 1 + bound) p = (last,
      .error (.impasse goal.start (.rejections (control.maxRejections + 1) p.now))) := by
  induction left generalizing p with
  | zero =>
    have hrejections : p.rejections = control.maxRejections := hleft
    have htries : Tries tableau control f goal p _ := .exhausted hmakes herror hrejections.ge
    rw [Nat.zero_add, Nat.add_comm, advance, if_pos hbefore, htries.trial_eq, hrejections]
    exact ⟨_, rfl⟩
  | succ left ih =>
    let next := reject p (clamp goal p).1 (sizeFactor tableau.errorOrder tried.error)
    have hgoes : Goes tableau control f goal p next :=
      .rejected hbefore (.rejected hmakes herror (by omega))
    have hagain : Makes tableau control f goal next tried := by
      rw [Makes, hsame]
      exact hmakes
    have hnext : clamp goal (reject next (clamp goal next).1
        (sizeFactor tableau.errorOrder tried.error)) = clamp goal next := by
      refine clamp_congr rfl ?_
      rw [hsame]
      rfl
    have hcount : next.rejections + left = control.maxRejections :=
      (Nat.succ_add_eq_add_succ _ _).trans hleft
    rw [Nat.add_right_comm, hgoes.advance_eq]
    exact ih (p := next) hbefore hagain hnext hcount

end Trials

section Numbers

variable {ε α K : Type} {n : Nat} [Scalar α] [Field K] [LinearOrder K] [IsStrictOrderedRing K]
  [FloorSemiring K] {tableau : Tableau} {control : StepControl α} {f : Rate ε α n} {goal : Goal α}
  {c : Cursor α n} {p next : Progress α n} {m start dt : K}

/-! ## Sizes in numbers -/

theorem fifth_eq [ExactOver K α] : (Scalar.ofQuot 1 5 : α) = of (1 / 5 : K) :=
  ofQuot_eq (by norm_num) (by norm_num)

/-- **After an error that is too large** the size is to be smaller, between a fifth and nine tenths
of what it was — a fifth where the power of the error is no number, and makes no size. -/
theorem exists_sizeFactor [ExactPowers K α] {error : α} (order : Nat)
    (herror : Scalar.le error Scalar.one = false) :
    ∃ part : K, 1 / 5 ≤ part ∧ part ≤ 9 / 10 ∧ sizeFactor order error = of part := by
  have hsafety : (Scalar.ofQuot 9 10 : α) = of (9 / 10 : K) := ofQuot_eq (by norm_num) (by norm_num)
  have hpositive : (0 : K) < (order + 1 : Nat) := Nat.cast_pos.2 order.succ_pos
  have hnonzero : ¬ Scalar.eq error Scalar.zero = true := by
    intro hzero
    rw [zero_eq (K := K), ExactPartial.eq_of_iff] at hzero
    rw [hzero, one_eq (K := K), le, decide_eq_false_iff_not] at herror
    exact herror zero_le_one
  rw [sizeFactor, if_neg hnonzero]
  dsimp only
  rw [fifth_eq (K := K), hsafety, ofNat_eq (K := K), ofNat_eq (K := K), one_eq (K := K),
    ExactFloor.div _ _ hpositive.ne', ExactPowers.neg, Nat.cast_ofNat]
  rcases ExactPowers.pow_neg error _ (one_div_pos.2 hpositive) herror with hpow | ⟨y, hy, hpow⟩
  · refine ⟨1 / 5, le_rfl, by norm_num, ?_⟩
    rw [ExactPartial.max_undefined (ExactPartial.mul_undefined K _ _ (.inr hpow)),
      ExactPartial.min_of, min_eq_left (by norm_num)]
  · have hmost : max (9 / 10 * y) (1 / 5) ≤ 9 / 10 := max_le (by linarith) (by norm_num)
    refine ⟨max (9 / 10 * y) (1 / 5), le_max_right _ _, hmost, ?_⟩
    rw [hpow, mul, ExactPartial.max_of, ExactPartial.min_of, min_eq_left (by linarith)]

/-- The size that is proposed after a rejection. -/
theorem exists_reduced [ExactPowers K α] {error : α} (order : Nat)
    (herror : Scalar.le error Scalar.one = false) (size : K) :
    ∃ part : K, 1 / 5 ≤ part ∧ part ≤ 9 / 10 ∧
      (reject p (of size) (sizeFactor order error)).size = of (size * part) := by
  obtain ⟨part, hleast, hmost, hfactor⟩ := exists_sizeFactor (K := K) order herror
  refine ⟨part, hleast, hmost, ?_⟩
  rw [reject, hfactor, one_eq (K := K), fifth_eq (K := K), ExactPartial.min_of, ExactPartial.max_of,
    min_eq_left (by linarith), max_eq_left hleast, mul]

/-- The leftover that is too short to stand alone. -/
theorem snap_eq [ExactPartial K α] (hmin : control.minStep = of m) (t : α) :
    (goalOf control t (of dt)).snap = of (max m (dt / 10 ^ 9)) := by
  have hpart : (Scalar.ofQuot 1 1000000000 : α) = of (1 / 10 ^ 9 : K) :=
    ofQuot_eq (by norm_num) (by norm_num)
  rw [goalOf, hmin, hpart, mul, ExactPartial.max_of, mul_one_div]

/-- A size that is proposed is tried, unless it would leave too little. -/
theorem clamp_numbers [ExactPartial K α] {left size snap : K} (hleft : goal.stop - p.now = of left)
    (hsize : p.size = of size) (hsnap : goal.snap = of snap) : clamp goal p =
      if left ≤ size ∨ left - size < snap then (of left, true) else (of size, false) := by
  unfold clamp
  dsimp only
  rw [hleft, hsize, hsnap, sub, le, lt]
  simp only [Bool.or_eq_true, decide_eq_true_eq]

/-- A size that is tried is all that is left, or leaves as much as may stand alone. -/
theorem exists_size [ExactPartial K α] {left snap : K} (hleft : goal.stop - p.now = of left)
    (hsnap : goal.snap = of snap) (htriable : Triable control (clamp goal p).1) :
    ∃ size : K, (clamp goal p).1 = of size ∧
      (clamp goal p = (of left, true) ∧ size = left ∨ size < left ∧ snap ≤ left - size) := by
  rcases clamp_cases goal p with hlast | ⟨hinner, hshort, henough⟩
  · rw [hleft] at hlast
    exact ⟨left, by rw [hlast], .inl ⟨hlast, rfl⟩⟩
  · rw [hinner] at htriable ⊢
    obtain ⟨size, hsize⟩ := exists_of (K := K) p.size htriable.1
    rw [hleft, hsize] at hshort henough
    rw [sub, hsnap] at henough
    exact ⟨size, hsize, .inr ⟨lt_of_le_eq_false hshort, le_of_lt_eq_false henough⟩⟩

/-- **A size that is made smaller** is tried, unless the one before was all that is left and it
would leave too little of that: then all that is left is tried again. -/
theorem clamp_smaller [ExactPartial K α] {left snap size proposed : K}
    (hleft : goal.stop - p.now = of left) (hsnap : goal.snap = of snap)
    (hplace : clamp goal p = (of left, true) ∧ size = left ∨ size < left ∧ snap ≤ left - size)
    (hnow : next.now = p.now) (hproposed : next.size = of proposed) (hsmaller : proposed < size) :
    clamp goal next =
      if size = left ∧ left - proposed < snap then clamp goal p else (of proposed, false) := by
  rw [clamp_numbers (hnow ▸ hleft) hproposed hsnap]
  rcases hplace with ⟨hlast, rfl⟩ | ⟨hshort, henough⟩
  · simp only [hlast, hsmaller.not_ge, true_and, false_or]
  · have hapart : ¬ (left ≤ proposed ∨ left - proposed < snap) := by
      rw [not_or]
      exact ⟨by linarith, by linarith⟩
    rw [if_neg hapart, if_neg fun hfolded => hshort.ne hfolded.1]

/-! ## A rejected trial and the next one -/

/-- **A trial of a step that is rejected** with another one to follow. -/
structure Rejects (tableau : Tableau) (control : StepControl α) (f : Rate ε α n) (dt : α)
    (c : Cursor α n) (p next : Progress α n) : Prop where
  leads : ReflTransGen (Goes tableau control f (goalOf control c.time dt)) (outset dt c) p
  before : Scalar.lt p.now (goalOf control c.time dt).stop = true
  tries : Tries tableau control f (goalOf control c.time dt) p (.rejected next)

/-- A step in which a rejected attempt is followed by itself fails. -/
theorem Rejects.stuck [ExactFloor K α] (hmin : control.minStep = of m) (hm : 0 < m) (hdt : 0 < dt)
    (h : Rejects tableau control f (of dt) c p next)
    (hsame : clamp (goalOf control c.time (of dt)) next = clamp (goalOf control c.time (of dt)) p) :
    ∃ last, step tableau control f (of dt) c = (last,
      .error (.impasse c.time (.rejections (control.maxRejections + 1) p.now))) := by
  obtain ⟨count, hcount⟩ := advance_of_leads h.leads
  cases h.tries with
  | rejected hmakes herror hfew =>
    let left := control.maxRejections - p.rejections
    obtain ⟨last, hstuck⟩ := advance_stuck (attemptBound control (of dt)) h.before hmakes herror
      hsame (Nat.add_sub_of_le hfew.le)
    have hended : (advance tableau control f (goalOf control c.time (of dt))
        (attemptBound control (of dt)) (outset (of dt) c)).2 ≠ .error .unfinished :=
      (advance_within hmin hm hdt (mostAttempts_le hmin hm) rfl).1
    refine ⟨_, step_of_advance (q := last) ?_⟩
    rw [← advance_add (count + (left + 1)) hended, Nat.add_comm, Nat.add_assoc, hcount]
    exact hstuck

/-- What error control proposes after a rejection. -/
theorem Tries.proposes [ExactPowers K α] {left snap : K} (hmin : control.minStep = of m)
    (hm : 0 < m) (hleft : goal.stop - p.now = of left) (hsnap : goal.snap = of snap)
    (h : Tries tableau control f goal p (.rejected next)) :
    next.now = p.now ∧ next.state = p.state ∧ ∃ size proposed : K,
      (clamp goal p).1 = of size ∧ next.size = of proposed ∧
      size / 5 ≤ proposed ∧ proposed ≤ 9 / 10 * size ∧ proposed < size ∧
      (clamp goal p = (of left, true) ∧ size = left ∨ size < left ∧ snap ≤ left - size) := by
  cases h with
  | rejected hmakes herror _ =>
    obtain ⟨size, hsize, hplace⟩ := exists_size hleft hsnap hmakes.1
    have hlarge : m ≤ size := by
      have htriable := hmakes.1
      rwa [hsize, triable_of_iff hmin] at htriable
    obtain ⟨part, hleast, hmost, hproposed⟩ :=
      exists_reduced (p := p) tableau.errorOrder herror size
    rw [hsize]
    refine ⟨rfl, rfl, size, size * part, rfl, hproposed, ?_, ?_, ?_, hplace⟩
    · nlinarith
    · nlinarith
    · nlinarith

/-- **What becomes of a rejected attempt.** Time and state are as they were, and the size that is
proposed is smaller, between a fifth and nine tenths of the one that was tried. That is the size of
the next attempt — unless the rejected one was all that is left of the step and the proposed one
would leave too little: then all that is left is tried again, as often as may be, and the step
fails. -/
theorem rejected_retried [ExactPowers K α] (hvalid : control.validate = .ok ())
    (hmin : control.minStep = of m) (hstart : c.time = of start) (hdt : 0 < dt)
    (h : Rejects tableau control f (of dt) c p next) :
    next.now = p.now ∧ next.state = p.state ∧ ∃ size proposed left : K,
      (clamp (goalOf control c.time (of dt)) p).1 = of size ∧ next.size = of proposed ∧
      (goalOf control c.time (of dt)).stop - p.now = of left ∧
      size / 5 ≤ proposed ∧ proposed ≤ 9 / 10 * size ∧ proposed < size ∧
      clamp (goalOf control c.time (of dt)) next =
        (if size = left ∧ left - proposed < max m (dt / 10 ^ 9)
          then clamp (goalOf control c.time (of dt)) p else (of proposed, false)) ∧
      (size = left ∧ left - proposed < max m (dt / 10 ^ 9) →
        ∃ last, step tableau control f (of dt) c = (last,
          .error (.impasse c.time (.rejections (control.maxRejections + 1) p.now)))) := by
  have hm : 0 < m := StepControl.pos_of_validate hvalid hmin
  obtain ⟨sizes, hstage⟩ := exists_stage hmin hstart hdt h.leads
  have hleft : (goalOf control c.time (of dt)).stop - p.now = of (dt - sizes.sum) :=
    remaining_eq (stop_eq hstart) hstage.now
  obtain ⟨hnow, hstate, size, proposed, hsize, hproposed, hleast, hmost, hsmaller, hplace⟩ :=
    h.tries.proposes hmin hm hleft (snap_eq hmin c.time)
  have hnext := clamp_smaller hleft (snap_eq hmin c.time) hplace hnow hproposed hsmaller
  refine ⟨hnow, hstate, size, proposed, dt - sizes.sum, hsize, hproposed, hleft, hleast, hmost,
    hsmaller, hnext, fun hfolded => h.stuck hmin hm hdt ?_⟩
  rw [hnext, if_pos hfolded]

end Numbers

/-! ## A slope that rises at once -/

deriving instance DecidableEq for Attempt

instance {ε α : Type} {n : Nat} [Scalar α] [DecidableEq ε] [DecidableEq α] {tableau : Tableau}
    {control : StepControl α} {f : Rate ε α n} {goal : Goal α} {p : Progress α n}
    {tried : Attempt α n} : Decidable (Makes tableau control f goal p tried) :=
  inferInstanceAs (Decidable ((_ ∧ _) ∧ _))

/-- No slope before time one, and a steep one from then on. -/
def surge : Rate Empty Rooted 1 := fun t _ =>
  .ok #v[if Scalar.lt t (.of 1) then .of 0 else .of (44 / 5)]

/-- An error of one is allowed, with a fifth for a minimum. -/
def surge.tolerances : StepControl Rooted := ⟨.of 0, .of 1, .of (1 / 5), 3⟩

def surge.start : Cursor Rooted 1 := ⟨.of 0, .replicate 1 (.of 0), none, 0, 0⟩

/-- A step across the rise begins with an attempt of its length. -/
def surge.first (dt : Rat) : Progress Rooted 1 := outset (.of dt) surge.start

def surge.goal (dt : Rat) : Goal Rooted := goalOf surge.tolerances surge.start.time (.of dt)

/-- What follows an attempt that is rejected. -/
def surge.second (dt : Rat) (tried : Attempt Rooted 1) : Progress Rooted 1 :=
  reject (surge.first dt) (clamp (surge.goal dt) (surge.first dt)).1
    (sizeFactor Tableau.bogackiShampine.errorOrder tried.error)

theorem surge_rejects (dt : Rat) {tried : Attempt Rooted 1}
    (hbefore : Scalar.lt (surge.first dt).now (surge.goal dt).stop = true)
    (hmakes : Makes .bogackiShampine surge.tolerances surge (surge.goal dt) (surge.first dt) tried)
    (herror : Scalar.le tried.error Scalar.one = false) :
    Rejects .bogackiShampine surge.tolerances surge (.of dt) surge.start (surge.first dt)
      (surge.second dt tried) :=
  ⟨.refl, hbefore, .rejected hmakes herror (Nat.zero_lt_succ _)⟩

/-- The attempt of a step of length two, which is rejected. -/
def surge.two : Attempt Rooted 1 := ⟨.replicate 1 (.of (616 / 45)), .of (11 / 9)⟩

/-- The attempt of a step of length one, which is rejected as well. -/
def surge.one : Attempt Rooted 1 := ⟨.replicate 1 (.of 0), .of (11 / 10)⟩

/-- After the attempt of a step of length two comes a smaller one. -/
theorem surge_retried : surge.tolerances.validate = .ok () ∧
    Rejects .bogackiShampine surge.tolerances surge (.of 2) surge.start (surge.first 2)
      (surge.second 2 surge.two) ∧
    ∃ size proposed : Rat, (clamp (surge.goal 2) (surge.first 2)).1 = .of size ∧
      clamp (surge.goal 2) (surge.second 2 surge.two) = (.of proposed, false) ∧
      size / 5 ≤ proposed ∧ proposed ≤ 9 / 10 * size ∧ proposed < size := by
  have hvalid : surge.tolerances.validate = .ok () := by decide +kernel
  have hmin : surge.tolerances.minStep = of (1 / 5 : Rat) := rfl
  have hstart : surge.start.time = of (0 : Rat) := rfl
  have hmakes : Makes .bogackiShampine surge.tolerances surge (surge.goal 2) (surge.first 2)
      surge.two := by decide +kernel
  have hrejects := surge_rejects 2 (by decide +kernel) hmakes (by decide +kernel)
  have hother : clamp (surge.goal 2) (surge.second 2 surge.two) ≠
      clamp (surge.goal 2) (surge.first 2) := by decide +kernel
  obtain ⟨-, -, size, proposed, left, hsize, -, -, hleast, hmost, hsmaller, hnext, -⟩ :=
    rejected_retried hvalid hmin hstart two_pos hrejects
  split at hnext
  · exact absurd hnext hother
  · exact ⟨hvalid, hrejects, size, proposed, hsize, hnext, hleast, hmost, hsmaller⟩

/-- After the attempt of a step of length one comes the same again. -/
theorem surge_repeats : surge.tolerances.validate = .ok () ∧ ∃ p next tried,
    Rejects .bogackiShampine surge.tolerances surge (.of 1) surge.start p next ∧
    Makes .bogackiShampine surge.tolerances surge (surge.goal 1) next tried ∧
    next.now = p.now ∧ next.state = p.state ∧
    ¬ Scalar.lt (clamp (surge.goal 1) next).1 (clamp (surge.goal 1) p).1 = true := by
  have hmakes : Makes .bogackiShampine surge.tolerances surge (surge.goal 1) (surge.first 1)
      surge.one := by decide +kernel
  have hagain : Makes .bogackiShampine surge.tolerances surge (surge.goal 1)
      (surge.second 1 surge.one) surge.one := by decide +kernel
  have hrejects := surge_rejects 1 (by decide +kernel) hmakes (by decide +kernel)
  exact ⟨by decide +kernel, _, _, _, hrejects, hagain, rfl, rfl, by decide +kernel⟩

end Adaptive

end FieldFlow
