import FieldFlow.Proofs.Scalar.Ordered
import FieldFlow.Proofs.Solver.Adaptive
import Mathlib.Algebra.Order.BigOperators.Group.List
import Mathlib.Tactic.Linarith

/-!
# Proofs/Solver/Interval — an adaptive step covers its interval

In exact arithmetic an accepted trial takes time on by the size that it tries, and leaves nothing of
the interval or at least as much as may stand alone (`Tries.advances`). So the sizes that were
accepted add up to the time that has passed (`Stage`), and when the step succeeds they add up to its
length. And since what is left may always stand alone, clamping a size to it never makes it too
small: where a size is refused, error control had proposed it or it was carried into the step
(`step_covers`).
-/

namespace FieldFlow.Adaptive

open Relation ExactOver

variable {ε α K : Type} {n : Nat} [Scalar α] [Field K] [LinearOrder K] [IsStrictOrderedRing K]
  [ExactOver K α] {tableau : Tableau} {control : StepControl α} {f : Rate ε α n} {goal : Goal α}
  {c : Cursor α n} {p next : Progress α n} {m start dt passed : K}

/-! ## One trial -/

/-- Where a step ends, in numbers. -/
theorem stop_eq (hstart : c.time = of start) :
    (goalOf control c.time (of dt)).stop = of (start + dt) := by
  rw [goalOf, hstart, add]

/-- What remains, in numbers. -/
theorem remaining_eq (hstop : goal.stop = of (start + dt)) (hnow : p.now = of (start + passed)) :
    goal.stop - p.now = of (dt - passed) := by
  rw [hstop, hnow, sub]
  congr 1
  ring

/-- A number may be tried unless it is below the minimum. -/
theorem triable_of_iff (hm : control.minStep = of m) {h : K} :
    Triable control (of h : α) ↔ m ≤ h := by
  rw [Triable, isFinite_of, hm, lt, decide_eq_false_iff_not, not_lt]
  exact and_iff_right rfl

/-- **An accepted trial in numbers**: its size, the attempt of that size, and what it leaves —
nothing of the interval, or as much as may stand alone. -/
structure Advances (tableau : Tableau) (control : StepControl α) (f : Rate ε α n) (goal : Goal α)
    (start dt passed : K) (p next : Progress α n) (size : K) (tried : Attempt α n) : Prop where
  clamped : (clamp goal p).1 = of size
  made : Makes tableau control f goal p tried
  good : Scalar.le tried.error Scalar.one = true
  state : next.state = tried.candidate
  now : next.now = of (start + (passed + size))
  rejections : next.rejections = 0
  attempts : next.attempts = p.attempts + 1
  left : passed + size = dt ∨ passed + size < dt ∧
    Scalar.lt (of (dt - (passed + size)) : α) goal.snap = false

theorem Advances.le {size : K} {tried : Attempt α n}
    (h : Advances tableau control f goal start dt passed p next size tried) : passed + size ≤ dt := by
  rcases h.left with hend | ⟨hshort, -⟩
  · exact hend.le
  · exact hshort.le

/-- **An accepted trial** takes time on by its size — the last internal step takes what remains, and
any other one falls short of it. -/
theorem Tries.advances (hstop : goal.stop = of (start + dt)) (hnow : p.now = of (start + passed))
    (h : Tries tableau control f goal p (.accepted next)) :
    ∃ size tried, Advances tableau control f goal start dt passed p next size tried := by
  have hremaining := remaining_eq hstop hnow
  cases h with
  | @accepted tried hmakes herror =>
    rcases clamp_cases goal p with hlast | ⟨hinner, hshort, hleft⟩
    · have hsize : (clamp goal p).1 = of (dt - passed) := by rw [hlast, hremaining]
      have hend : passed + (dt - passed) = dt := by ring
      refine ⟨dt - passed, tried, hsize, hmakes, herror, rfl, ?_, rfl, attempts_accept _ _ _ _,
        .inl hend⟩
      rw [hlast, now_accept, if_pos rfl, hstop, hend]
    · obtain ⟨size, hsize⟩ : ∃ size : K, (clamp goal p).1 = of size := exists_of _ hmakes.1.1
      have hplain : p.size = of size := by rw [← hsize, hinner]
      rw [hremaining, hplain] at hshort hleft
      rw [sub] at hleft
      refine ⟨size, tried, hsize, hmakes, herror, rfl, ?_, rfl, attempts_accept _ _ _ _,
        .inr ⟨?_, ?_⟩⟩
      · rw [hinner, now_accept, if_neg Bool.false_ne_true, hnow, hplain, add, add_assoc]
      · linarith [lt_of_le_eq_false hshort]
      · rwa [sub_sub] at hleft

/-! ## A chain of sizes -/

/-- The attempts of some sizes, one after another from some time on. -/
def attemptsFrom : K → List K → List (α × α)
  | _, [] => []
  | start, h :: sizes => (of start, of h) :: attemptsFrom (start + h) sizes

theorem attemptsFrom_concat (start h : K) (sizes : List K) :
    (attemptsFrom start (sizes ++ [h]) : List (α × α)) =
      attemptsFrom start sizes ++ [(of (start + sizes.sum), of h)] := by
  induction sizes generalizing start with
  | nil => simp [attemptsFrom]
  | cons first rest ih => simp [attemptsFrom, ih, add_assoc]

/-- **A stage of a step**: the sizes that were accepted, none of them below the minimum, which add
up to the time that has passed; what is left, which is not below the minimum either unless the
interval is; and the attempts so far, for each accepted one no more rejected ones than are
tolerated. -/
structure Stage (tableau : Tableau) (control : StepControl α) (f : Rate ε α n) (c : Cursor α n)
    (m start dt : K) (sizes : List K) (p : Progress α n) : Prop where
  minimal : ∀ h ∈ sizes, m ≤ h
  now : p.now = of (start + sizes.sum)
  within : sizes.sum ≤ dt
  left : m ≤ dt → sizes.sum < dt → m ≤ dt - sizes.sum
  chain : Chain tableau control f c.state (attemptsFrom start sizes) p.state
  rejections : p.rejections ≤ control.maxRejections
  attempts : p.attempts ≤
    c.accepted + c.rejected + sizes.length * (control.maxRejections + 1) + p.rejections

section Stage

variable {sizes : List K}

/-- What is not too short to stand alone is not below the minimum. -/
theorem le_of_lt_snap_eq_false (hm : control.minStep = of m) {t : α} {x : K}
    (h : Scalar.lt (of x) (goalOf control t (of dt)).snap = false) : m ≤ x := by
  rw [goalOf, hm, ofQuot (K := K) 1 1000000000 (by norm_num), mul] at h
  exact le_of_lt_max_eq_false h

theorem Stage.outset (hstart : c.time = of start) (hdt : 0 < dt) :
    Stage tableau control f c m start dt [] (outset (of dt) c) where
  minimal := fun _ h => absurd h List.not_mem_nil
  now := by rw [Adaptive.outset, hstart, List.sum_nil, add_zero]
  within := hdt.le
  left := fun hle _ => by rwa [List.sum_nil, sub_zero]
  chain := .nil
  rejections := Nat.zero_le _
  attempts := by
    rw [List.length_nil, Nat.zero_mul]
    exact Nat.le_refl _

theorem Stage.accepted (hm : control.minStep = of m) (hstart : c.time = of start)
    (h : Stage tableau control f c m start dt sizes p)
    (htries : Tries tableau control f (goalOf control c.time (of dt)) p (.accepted next)) :
    ∃ size, Stage tableau control f c m start dt (sizes ++ [size]) next := by
  obtain ⟨size, tried, hadvances⟩ := htries.advances (stop_eq hstart) h.now
  have hsum : (sizes ++ [size]).sum = sizes.sum + size := by
    rw [List.sum_append, List.sum_singleton]
  have hmade := hadvances.made
  rw [Makes, hadvances.clamped, triable_of_iff hm, h.now] at hmade
  refine ⟨size, {
    minimal := ?minimal
    now := by rw [hadvances.now, hsum]
    within := hsum.trans_le hadvances.le
    left := ?left
    chain := ?chain
    rejections := hadvances.rejections.trans_le (Nat.zero_le _)
    attempts := ?attempts }⟩
  case minimal =>
    intro h' hmem
    rcases List.mem_append.1 hmem with hold | hnew
    · exact h.minimal h' hold
    · exact List.mem_singleton.1 hnew ▸ hmade.1
  case left =>
    intro hle hlt
    rw [hsum] at hlt ⊢
    rcases hadvances.left with hend | ⟨-, hleft⟩
    · exact absurd hend hlt.ne
    · exact le_of_lt_snap_eq_false hm hleft
  case chain =>
    rw [attemptsFrom_concat, hadvances.state]
    exact h.chain.snoc hmade.2 hadvances.good
  case attempts =>
    rw [hadvances.attempts, hadvances.rejections, List.length_append, List.length_singleton,
      Nat.succ_mul]
    have hattempts := h.attempts
    have hrejections := h.rejections
    omega

theorem Stage.rejected (h : Stage tableau control f c m start dt sizes p)
    (htries : Tries tableau control f goal p (.rejected next)) :
    Stage tableau control f c m start dt sizes next := by
  cases htries with
  | rejected _ _ hfew => exact { h with
      rejections := hfew
      attempts := Nat.succ_le_succ h.attempts }

/-- **Every stage of a step is reached by a chain of sizes.** -/
theorem exists_stage (hm : control.minStep = of m) (hstart : c.time = of start) (hdt : 0 < dt)
    (h : ReflTransGen (Goes tableau control f (goalOf control c.time (of dt)))
      (outset (of dt) c) p) : ∃ sizes, Stage tableau control f c m start dt sizes p := by
  induction h with
  | refl => exact ⟨[], .outset hstart hdt⟩
  | tail _ hgoes ih =>
    obtain ⟨sizes, hstage⟩ := ih
    cases hgoes with
    | accepted _ htries =>
      obtain ⟨size, hnext⟩ := hstage.accepted hm hstart htries
      exact ⟨sizes ++ [size], hnext⟩
    | rejected _ htries => exact ⟨sizes, hstage.rejected htries⟩

end Stage

/-! ## What error control proposes -/

/-- The size that error control makes of one that was tried, by the error of the attempt. -/
def adjusted (order : Nat) (error size : α) : α :=
  let factor := sizeFactor order error
  size * if Scalar.le error Scalar.one then factor
    else Scalar.max (Scalar.min factor Scalar.one) (Scalar.ofQuot 1 5)

/-- **The size that is proposed for a trial**, before it is clamped: for the first trial of a step
the one that is carried into it, and for any other what error control makes of the trial before. -/
inductive Proposes (tableau : Tableau) (control : StepControl α) (f : Rate ε α n) (dt : α)
    (c : Cursor α n) : Progress α n → α → Prop
  | carried {h : α} : c.suggestion = some h → Proposes tableau control f dt c (outset dt c) h
  | controlled {p next : Progress α n} {tried : Attempt α n} :
      ReflTransGen (Goes tableau control f (goalOf control c.time dt)) (outset dt c) p →
        Goes tableau control f (goalOf control c.time dt) p next →
          Makes tableau control f (goalOf control c.time dt) p tried →
            Proposes tableau control f dt c next
              (adjusted tableau.errorOrder tried.error (clamp (goalOf control c.time dt) p).1)

theorem Goes.size (h : Goes tableau control f goal p next) : ∃ tried,
    Makes tableau control f goal p tried ∧
      next.size = adjusted tableau.errorOrder tried.error (clamp goal p).1 := by
  cases h with
  | accepted _ htries =>
    cases htries with
    | @accepted tried hmakes herror =>
      refine ⟨tried, hmakes, ?_⟩
      rw [adjusted, if_pos herror]
      rfl
  | rejected _ htries =>
    cases htries with
    | @rejected tried hmakes herror =>
      refine ⟨tried, hmakes, ?_⟩
      rw [adjusted, herror, if_neg Bool.false_ne_true]
      rfl

/-- A step begins with its length, or with the size that is carried into it. -/
theorem outset_size (dt : α) (c : Cursor α n) :
    (outset dt c).size = dt ∨ c.suggestion = some (outset dt c).size := by
  unfold outset Scalar.min
  dsimp only
  split
  · cases c.suggestion with
    | none => exact .inl rfl
    | some size => exact .inr rfl
  · exact .inl rfl

/-- A size is proposed as it is, unless it is the length of the step. -/
theorem proposes_size {dt : α}
    (h : ReflTransGen (Goes tableau control f (goalOf control c.time dt)) (outset dt c) p) :
    p.size = dt ∨ Proposes tableau control f dt c p p.size := by
  rcases h.cases_tail with rfl | ⟨before, hleads, hgoes⟩
  · exact (outset_size dt c).imp_right .carried
  · obtain ⟨tried, hmakes, hsize⟩ := hgoes.size
    exact .inr (hsize ▸ .controlled hleads hgoes hmakes)

/-! ## Whole steps -/

/-- What is left may always be tried, so that a size that is refused was not clamped. -/
theorem clamp_of_not_triable (hm : control.minStep = of m) (hstart : c.time = of start)
    (hle : m ≤ dt) {sizes : List K} (h : Stage tableau control f c m start dt sizes p)
    (hbefore : Scalar.lt p.now (goalOf control c.time (of dt)).stop = true)
    (hsmall : ¬ Triable control (clamp (goalOf control c.time (of dt)) p).1) :
    clamp (goalOf control c.time (of dt)) p = (p.size, false) := by
  rcases clamp_cases (goalOf control c.time (of dt)) p with hlast | ⟨hinner, -, -⟩
  · rw [h.now, stop_eq hstart, lt, decide_eq_true_iff, add_lt_add_iff_left] at hbefore
    rw [hlast, remaining_eq (stop_eq hstart) h.now, triable_of_iff hm] at hsmall
    exact absurd (h.left hle hbefore) hsmall
  · exact hinner

/-- **An adaptive step covers its interval.** If it succeeds, its state comes of attempts one after
another, each with an error of at most one, whose sizes are not below the minimum and add up to the
length of the step. If it fails for a size that is too small, and its own length is not, the size
was proposed as it is, and not made too small by what is left of the interval. -/
theorem step_covers (hm : control.minStep = of m) (hstart : c.time = of start) (hdt : 0 < dt) :
    (∀ next, step tableau control f (of dt) c = (next, .ok ()) →
      next.time = of (start + dt) ∧ ∃ sizes : List K, sizes ≠ [] ∧ (∀ h ∈ sizes, m ≤ h) ∧
        sizes.sum = dt ∧ Chain tableau control f c.state (attemptsFrom start sizes) next.state) ∧
    (m ≤ dt → ∀ next begun size now,
      step tableau control f (of dt) c = (next, .error (.impasse begun (.smallStep size now))) →
        (Scalar.isFinite size = false ∨ Scalar.lt size control.minStep = true) ∧
          ∃ p, p.now = now ∧ clamp (goalOf control c.time (of dt)) p = (size, false) ∧
            Proposes tableau control f (of dt) c p size) := by
  constructor
  · intro next h
    obtain ⟨q, hends, rfl⟩ := exists_ends h
    cases hends with
    | arrived hleads hdone =>
      obtain ⟨sizes, hstage⟩ := exists_stage hm hstart hdt hleads
      rw [hstage.now, stop_eq hstart, lt, decide_eq_false_iff_not, not_lt,
        add_le_add_iff_left] at hdone
      have hsum : sizes.sum = dt := le_antisymm hstage.within hdone
      have hstop : (goalOf control c.time (of dt)).stop = of (start + dt) := stop_eq hstart
      refine ⟨hstop, sizes, ?_, hstage.minimal, hsum, hstage.chain⟩
      rintro rfl
      exact hdt.ne hsum
  · intro hle next begun size now h
    obtain ⟨q, hends, -⟩ := exists_ends h
    cases hends with
    | failed hleads hbefore htries =>
      obtain ⟨sizes, hstage⟩ := exists_stage hm hstart hdt hleads
      cases htries with
      | small hsmall =>
        have hclamp := clamp_of_not_triable hm hstart hle hstage hbefore hsmall
        refine ⟨not_triable_iff.1 hsmall, _, rfl, ?_, ?_⟩
        · rw [hclamp]
        · rw [hclamp] at hsmall ⊢
          rcases proposes_size hleads with hlength | hproposes
          · rw [hlength, triable_of_iff hm] at hsmall
            exact absurd hle hsmall
          · exact hproposes

/-! ## A slope that ends -/

/-- A slope of one up to time two, and none that is a number beyond it. -/
def fade : Rate Empty Rough 1 := fun t _ =>
  .ok #v[if Scalar.le t (.of 2) then .of 1 else Scalar.nan]

/-- Loose tolerances, with a tenth for a minimum. -/
def fade.tolerances : StepControl Rough := ⟨.of 1, .of 1, .of (1 / 10), 3⟩

/-- Zero at some time, with a size that is carried into the first step. -/
def fade.outset (time : Rat) (size : Option Rough) : Cursor Rough 1 :=
  ⟨.of time, .replicate 1 (.of 0), size, 0, 0⟩

/-- Where a step ends that comes upon the end of the slope after two sizes. -/
def fade.brink : Cursor Rough 1 :=
  ⟨.of (3 / 2), .replicate 1 (.of (41 / 100)), some (.of (441 / 2000)), 2, 2⟩

theorem fade_step : step .bogackiShampine fade.tolerances fade (.of 1) (fade.outset (3 / 2) none) =
    (fade.brink, .error (.impasse (.of (3 / 2)) (.smallStep (.of (441 / 10000)) (.of (191 / 100))))) := by
  decide +kernel

/-- A step of three sizes, the last of which takes in what would be left; and a step that comes upon
the end of the slope, where error control proposes a size below the minimum. -/
theorem fade_covers :
    (∃ next, step .bogackiShampine fade.tolerances fade (.of 1)
        (fade.outset 0 (some (.of (3 / 10)))) = (next, .ok ()) ∧ next.accepted = 3 ∧
      next.time = .of (0 + 1) ∧ ∃ sizes : List Rat, sizes ≠ [] ∧ (∀ h ∈ sizes, 1 / 10 ≤ h) ∧
        sizes.sum = 1 ∧ Chain .bogackiShampine fade.tolerances fade (.replicate 1 (.of 0))
          (attemptsFrom 0 sizes) next.state) ∧
    (Scalar.isFinite (Rough.of (441 / 10000)) = false ∨
      Scalar.lt (Rough.of (441 / 10000)) fade.tolerances.minStep = true) ∧
    ∃ p, p.now = Rough.of (191 / 100) ∧
      clamp (goalOf fade.tolerances (.of (3 / 2)) (.of 1)) p = (.of (441 / 10000), false) ∧
      Proposes .bogackiShampine fade.tolerances fade (.of 1) (fade.outset (3 / 2) none) p
        (.of (441 / 10000)) := by
  have hsucceeds : (step .bogackiShampine fade.tolerances fade (.of 1)
      (fade.outset 0 (some (.of (3 / 10))))).2 = .ok () ∧ (step .bogackiShampine fade.tolerances fade
        (.of 1) (fade.outset 0 (some (.of (3 / 10))))).1.accepted = 3 := by
    decide +kernel
  have hmin : (1 / 10 : Rat) ≤ 1 := by norm_num
  refine ⟨⟨_, Prod.ext rfl hsucceeds.1, hsucceeds.2, ?_⟩, ?_⟩
  · exact (step_covers (K := Rat) (m := 1 / 10) rfl rfl one_pos).1 _ (Prod.ext rfl hsucceeds.1)
  · exact (step_covers rfl rfl one_pos).2 hmin _ _ _ _ fade_step

end FieldFlow.Adaptive
