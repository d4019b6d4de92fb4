import FieldFlow.Proofs.Outcome
import FieldFlow.Solver.Method
import Mathlib.Logic.Relation

/-!
# Proofs/Solver/Adaptive — what an internal step can do

A trial has one of three verdicts, and only an accepted one moves the state: to the candidate of an
attempt whose error is at most one; the others change at most the size that is tried next (`tries`).
So trials that go on are a relation (`Goes`), and there are three ways for them to end (`ends`). A
step of any number of trials keeps whatever accepted and rejected ones keep (`advance_induct`), and
moves the state by the attempts that were accepted, one after another (`exists_chain`).
-/

namespace FieldFlow.Adaptive

open Relation

variable {ε α : Type} {n : Nat} [Scalar α]

/-! ## One attempt -/

/-- **Slopes are values of the system**, one for each stage. -/
theorem of_slopes {P : Vector α n → Prop} {f : Rate ε α n} (hf : ∀ {t y k}, f t y = .ok k → P k)
    {t : α} {y : Vector α n} {h : α} : ∀ {stages : List (α × List α)} {ks ks' : List (Vector α n)},
      slopes f t y h stages ks = .ok ks' → (∀ k ∈ ks, P k) →
        ks'.length = ks.length + stages.length ∧ ∀ k ∈ ks', P k
  | [], ks, ks', hslopes, hks => by
      obtain rfl := Except.ok.inj hslopes
      exact ⟨rfl, hks⟩
  | (c, row) :: rest, ks, ks', hslopes, hks => by
      rw [slopes] at hslopes
      obtain ⟨k, hk, hrest⟩ := bind_eq_ok_iff.1 hslopes
      have hnext : ∀ k' ∈ ks ++ [k], P k' := by
        intro k' hk'
        rcases List.mem_append.1 hk' with hold | hnew
        · exact hks k' hold
        · exact List.mem_singleton.1 hnew ▸ hf hk
      obtain ⟨hlength, hall⟩ := of_slopes hf hrest hnext
      refine ⟨?_, hall⟩
      rw [hlength, List.length_append, List.length_singleton, List.length_cons]
      omega

/-- An attempt comes to a candidate along the slopes, whose error is infinite unless it is
finite. -/
theorem of_attempt {pair : Coefficients α} {control : StepControl α} {f : Rate ε α n} {t : α}
    {y : Vector α n} {h : α} {tried : Attempt α n}
    (htried : attempt pair control f t y h = .ok tried) :
    ∃ ks, slopes f t y h (pair.nodes.zip pair.rows) [] = .ok ks ∧
      tried.candidate = Vector.ofFn (fun i => y.get i + h * weighted pair.weights ks i) ∧
      tried.error =
        if n = 0 then Scalar.zero
        else if tried.candidate.all Scalar.isFinite then
          scaledError control y tried.candidate (Vector.ofFn fun i => h * weighted pair.errors ks i)
        else Scalar.infinity := by
  obtain ⟨ks, hks, htried⟩ := bind_eq_ok_iff.1 htried
  obtain rfl := pure_eq_ok_iff.1 htried
  exact ⟨ks, hks, rfl, rfl⟩

/-- An attempt whose slopes are given. -/
theorem attempt_of_slopes {pair : Coefficients α} {control : StepControl α}
    {f : Rate ε α n} {t h : α} {y : Vector α n} {ks : List (Vector α n)}
    (hslopes : slopes f t y h (pair.nodes.zip pair.rows) [] = .ok ks) :
    attempt pair control f t y h = .ok (
      let candidate := Vector.ofFn fun i => y.get i + h * weighted pair.weights ks i
      let delta := Vector.ofFn fun i => h * weighted pair.errors ks i
      ⟨candidate, if n = 0 then Scalar.zero
        else if candidate.all Scalar.isFinite then scaledError control y candidate delta
        else Scalar.infinity⟩) := by
  rw [attempt, hslopes]
  rfl

/-! ## One trial -/

section Trial

variable {tableau : Tableau} {control : StepControl α} {f : Rate ε α n} {goal : Goal α}
  {p next : Progress α n}

@[simp] theorem state_accept (h : α) (last : Bool) (factor : α) (candidate : Vector α n) :
    (accept goal p h last factor candidate).state = candidate := rfl

@[simp] theorem now_accept (h : α) (last : Bool) (factor : α) (candidate : Vector α n) :
    (accept goal p h last factor candidate).now = if last then goal.stop else p.now + h := rfl

/-- The attempts that came to a verdict. -/
def Progress.attempts (p : Progress α n) : Nat := p.accepted + p.rejected

@[simp] theorem attempts_accept (h : α) (last : Bool) (factor : α) (candidate : Vector α n) :
    (accept goal p h last factor candidate).attempts = p.attempts + 1 := Nat.add_right_comm _ _ _

@[simp] theorem attempts_reject (h factor : α) : (reject p h factor).attempts = p.attempts + 1 := rfl

/-- A size that is tried is all that remains, or falls short of it by as much as may stand alone. -/
theorem clamp_cases (goal : Goal α) (p : Progress α n) :
    clamp goal p = (goal.stop - p.now, true) ∨
      clamp goal p = (p.size, false) ∧ Scalar.le (goal.stop - p.now) p.size = false ∧
        Scalar.lt (goal.stop - p.now - p.size) goal.snap = false := by
  unfold clamp
  dsimp only
  split
  · exact .inl rfl
  · rename_i hshort
    rw [Bool.or_eq_true, not_or] at hshort
    exact .inr ⟨rfl, Bool.eq_false_iff.2 hshort.1, Bool.eq_false_iff.2 hshort.2⟩

/-- **A size that may be tried** is finite and not below the minimum. -/
def Triable (control : StepControl α) (h : α) : Prop :=
  Scalar.isFinite h = true ∧ Scalar.lt h control.minStep = false

theorem not_triable_iff {h : α} : ¬ Triable control h ↔
    Scalar.isFinite h = false ∨ Scalar.lt h control.minStep = true := by
  rw [Triable, not_and_or, Bool.not_eq_true, Bool.not_eq_false]

/-- A trial that makes an attempt. -/
def Makes (tableau : Tableau) (control : StepControl α) (f : Rate ε α n) (goal : Goal α)
    (p : Progress α n) (tried : Attempt α n) : Prop :=
  Triable control (clamp goal p).1 ∧
    attempt tableau.inScalars control f p.now p.state (clamp goal p).1 = .ok tried

/-- **What a trial can do**: it finds that the size is too small or that the system has no slope to
give, or it makes an attempt, and accepts it, rejects it, or gives up on the step. -/
inductive Tries (tableau : Tableau) (control : StepControl α) (f : Rate ε α n) (goal : Goal α)
    (p : Progress α n) : Trial ε α n → Prop
  | small : ¬ Triable control (clamp goal p).1 → Tries tableau control f goal p
      (.failed p (.impasse goal.start (.smallStep (clamp goal p).1 p.now)))
  | refused {e : ε} : Triable control (clamp goal p).1 →
      attempt tableau.inScalars control f p.now p.state (clamp goal p).1 = .error e →
        Tries tableau control f goal p (.failed p (.system e))
  | accepted {tried : Attempt α n} : Makes tableau control f goal p tried →
      Scalar.le tried.error Scalar.one = true → Tries tableau control f goal p
        (.accepted (accept goal p (clamp goal p).1 (clamp goal p).2
          (sizeFactor tableau.errorOrder tried.error) tried.candidate))
  | rejected {tried : Attempt α n} : Makes tableau control f goal p tried →
      Scalar.le tried.error Scalar.one = false → p.rejections < control.maxRejections →
        Tries tableau control f goal p
          (.rejected (reject p (clamp goal p).1 (sizeFactor tableau.errorOrder tried.error)))
  | exhausted {tried : Attempt α n} : Makes tableau control f goal p tried →
      Scalar.le tried.error Scalar.one = false → control.maxRejections ≤ p.rejections →
        Tries tableau control f goal p
          (.failed (reject p (clamp goal p).1 (sizeFactor tableau.errorOrder tried.error))
            (.impasse goal.start (.rejections (p.rejections + 1) p.now)))

theorem tries (tableau : Tableau) (control : StepControl α) (f : Rate ε α n) (goal : Goal α)
    (p : Progress α n) : Tries tableau control f goal p (trial tableau control f goal p) := by
  unfold trial
  split
  rename_i h last hclamp
  obtain ⟨rfl, rfl⟩ : (clamp goal p).1 = h ∧ (clamp goal p).2 = last := by simp [hclamp]
  split
  · rename_i hsmall
    rw [Bool.or_eq_true, Bool.not_eq_true'] at hsmall
    exact .small (not_triable_iff.2 hsmall)
  rename_i hsize
  rw [Bool.or_eq_true, Bool.not_eq_true', ← not_triable_iff, not_not] at hsize
  split
  · rename_i e hrefuses
    exact .refused hsize hrefuses
  rename_i tried htried
  dsimp only
  split
  · rename_i herror
    exact .accepted ⟨hsize, htried⟩ herror
  rename_i herror
  rw [Bool.not_eq_true] at herror
  split
  · rename_i hmany
    exact .exhausted ⟨hsize, htried⟩ herror (Nat.le_of_lt_succ hmany)
  · rename_i hfew
    exact .rejected ⟨hsize, htried⟩ herror (Nat.lt_of_succ_le (Nat.not_lt.1 hfew))

end Trial

/-! ## Trials one after another -/

section Advance

variable {tableau : Tableau} {control : StepControl α} {f : Rate ε α n} {goal : Goal α}

/-- **A trial that goes on**, accepted or rejected, on the way to the goal. -/
inductive Goes (tableau : Tableau) (control : StepControl α) (f : Rate ε α n) (goal : Goal α)
    (p : Progress α n) : Progress α n → Prop
  | accepted {next : Progress α n} : Scalar.lt p.now goal.stop = true →
      Tries tableau control f goal p (.accepted next) → Goes tableau control f goal p next
  | rejected {next : Progress α n} : Scalar.lt p.now goal.stop = true →
      Tries tableau control f goal p (.rejected next) → Goes tableau control f goal p next

theorem Goes.attempts {p next : Progress α n} (h : Goes tableau control f goal p next) :
    next.attempts = p.attempts + 1 := by
  cases h with
  | accepted _ htries =>
    cases htries
    exact attempts_accept _ _ _ _
  | rejected _ htries =>
    cases htries
    exact attempts_reject _ _

/-- **How trials end**: they have arrived at the goal, or the last one fails, or there have been as
many as may be. -/
inductive Ends (tableau : Tableau) (control : StepControl α) (f : Rate ε α n) (goal : Goal α)
    (p : Progress α n) (bound : Nat) : Progress α n × Except (StepFailure ε α) Unit → Prop
  | arrived {q : Progress α n} : ReflTransGen (Goes tableau control f goal) p q →
      Scalar.lt q.now goal.stop = false → Ends tableau control f goal p bound (q, .ok ())
  | failed {last q : Progress α n} {e : StepFailure ε α} :
      ReflTransGen (Goes tableau control f goal) p last → Scalar.lt last.now goal.stop = true →
        Tries tableau control f goal last (.failed q e) →
          Ends tableau control f goal p bound (q, .error e)
  | cut {q : Progress α n} : ReflTransGen (Goes tableau control f goal) p q →
      q.attempts = p.attempts + bound →
        Ends tableau control f goal p bound (q, .error .unfinished)

theorem Ends.head {p next : Progress α n} {bound : Nat}
    {r : Progress α n × Except (StepFailure ε α) Unit} (h : Goes tableau control f goal p next)
    (hends : Ends tableau control f goal next bound r) :
    Ends tableau control f goal p (bound + 1) r := by
  cases hends with
  | arrived hleads hdone => exact .arrived (hleads.head h) hdone
  | failed hleads hbefore htries => exact .failed (hleads.head h) hbefore htries
  | cut hleads hcount => exact .cut (hleads.head h) (by rw [hcount, h.attempts]; omega)

theorem ends (tableau : Tableau) (control : StepControl α) (f : Rate ε α n) (goal : Goal α) :
    ∀ (bound : Nat) (p : Progress α n),
      Ends tableau control f goal p bound (advance tableau control f goal bound p)
  | 0, p => by
      rw [advance]
      split
      · exact .cut .refl rfl
      · rename_i hdone
        exact .arrived .refl (Bool.eq_false_iff.2 hdone)
  | bound + 1, p => by
      have htries := tries tableau control f goal p
      rw [advance]
      split
      · rename_i hbefore
        split
        · rename_i next hnext
          exact (ends tableau control f goal bound next).head (.accepted hbefore (hnext ▸ htries))
        · rename_i next hnext
          exact (ends tableau control f goal bound next).head (.rejected hbefore (hnext ▸ htries))
        · rename_i next e hnext
          exact .failed .refl hbefore (hnext ▸ htries)
      · rename_i hdone
        exact .arrived .refl (Bool.eq_false_iff.2 hdone)

/-- **What accepted and rejected trials keep** is kept by any number of trials, also when the last
one fails. -/
theorem advance_induct {motive : Progress α n → Prop}
    (haccept : ∀ {p next}, Scalar.lt p.now goal.stop = true →
      Tries tableau control f goal p (.accepted next) → motive p → motive next)
    (hreject : ∀ {p} size factor, motive p → motive (reject p size factor)) {bound : Nat}
    {p : Progress α n} (h : motive p) : motive (advance tableau control f goal bound p).1 := by
  have hgoes : ∀ {q}, ReflTransGen (Goes tableau control f goal) p q → motive q := by
    intro q hleads
    induction hleads with
    | refl => exact h
    | tail _ hstep ih =>
      cases hstep with
      | accepted hbefore htries => exact haccept hbefore htries ih
      | rejected _ htries =>
        cases htries
        exact hreject _ _ ih
  have hends := ends tableau control f goal bound p
  generalize advance tableau control f goal bound p = r at hends
  cases hends with
  | arrived hleads => exact hgoes hleads
  | cut hleads => exact hgoes hleads
  | failed hleads _ htries =>
    cases htries with
    | small => exact hgoes hleads
    | refused => exact hgoes hleads
    | exhausted => exact hreject _ _ (hgoes hleads)

/-- **A step that succeeds** has come to its goal. -/
theorem not_lt_of_advance {bound : Nat} {p q : Progress α n}
    (h : advance tableau control f goal bound p = (q, .ok ())) :
    Scalar.lt q.now goal.stop = false := by
  have hends := ends tableau control f goal bound p
  rw [h] at hends
  cases hends with
  | arrived _ hdone => exact hdone

/-- A step whose goal is not ahead leaves everything as it is. -/
theorem advance_of_not_lt {bound : Nat} {p : Progress α n}
    (h : Scalar.lt p.now goal.stop = false) :
    advance tableau control f goal bound p = (p, .ok ()) := by
  cases bound with
  | zero => rw [advance, h, if_neg Bool.false_ne_true]
  | succ bound => rw [advance, h, if_neg Bool.false_ne_true]

/-- The cursor that trials leave at some time. -/
def Progress.cursor (p : Progress α n) (time : α) : Cursor α n :=
  ⟨time, p.state, p.suggestion, p.accepted, p.rejected⟩

/-- **A step ends as its trials do**, at its goal if it succeeds and where it began if it fails. -/
theorem step_of_advance {dt : α} {c : Cursor α n} {q : Progress α n}
    {result : Except (StepFailure ε α) Unit}
    (h : advance tableau control f (goalOf control c.time dt) (attemptBound control dt)
      (outset dt c) = (q, result)) :
    step tableau control f dt c =
      (q.cursor (if result.isOk then c.time + dt else c.time), result) := by
  unfold step
  dsimp only
  rw [h]
  cases result with
  | error => rfl
  | ok => rfl

/-- A step that succeeds has come to its goal, with the state of its last internal step. -/
theorem of_step {dt : α} {c next : Cursor α n}
    (h : step tableau control f dt c = (next, .ok ())) : ∃ q,
      advance tableau control f (goalOf control c.time dt) (attemptBound control dt) (outset dt c) =
        (q, .ok ()) ∧ next.time = c.time + dt ∧ next.state = q.state := by
  rcases hadvance : advance tableau control f (goalOf control c.time dt) (attemptBound control dt)
    (outset dt c) with ⟨q, ended⟩
  obtain ⟨rfl, rfl⟩ := Prod.mk.inj ((step_of_advance hadvance).symm.trans h)
  exact ⟨q, rfl, rfl, rfl⟩

theorem exists_ends {dt : α} {c next : Cursor α n} {result : Except (StepFailure ε α) Unit}
    (h : step tableau control f dt c = (next, result)) : ∃ q,
      Ends tableau control f (goalOf control c.time dt) (outset dt c) (attemptBound control dt)
        (q, result) ∧
      next = q.cursor (if result.isOk then c.time + dt else c.time) := by
  have hends := ends tableau control f (goalOf control c.time dt) (attemptBound control dt)
    (outset dt c)
  rcases hadvance : advance tableau control f (goalOf control c.time dt) (attemptBound control dt)
    (outset dt c) with ⟨q, ended⟩
  rw [hadvance] at hends
  obtain ⟨rfl, rfl⟩ := Prod.mk.inj ((step_of_advance hadvance).symm.trans h)
  exact ⟨q, hends, rfl⟩

end Advance

/-! ## What accepted trials add up to -/

section Chain

variable {tableau : Tableau} {control : StepControl α} {f : Rate ε α n} {goal : Goal α}

/-- **Attempts one after another**: each at some time and of some size, from the state that the one
before came to, and with an error of at most one. -/
inductive Chain (tableau : Tableau) (control : StepControl α) (f : Rate ε α n) (y : Vector α n) :
    List (α × α) → Vector α n → Prop
  | nil : Chain tableau control f y [] y
  | snoc {trace : List (α × α)} {z : Vector α n} {t h : α} {tried : Attempt α n} :
      Chain tableau control f y trace z →
        attempt tableau.inScalars control f t z h = .ok tried →
          Scalar.le tried.error Scalar.one = true →
            Chain tableau control f y (trace ++ [(t, h)]) tried.candidate

/-- **Trials move the state by a chain of attempts**, as many as are accepted. -/
theorem exists_chain {p q : Progress α n}
    (h : ReflTransGen (Goes tableau control f goal) p q) :
    ∃ trace, Chain tableau control f p.state trace q.state ∧
      q.accepted = p.accepted + trace.length := by
  induction h with
  | refl => exact ⟨[], .nil, rfl⟩
  | tail _ hgoes ih =>
    obtain ⟨trace, hchain, haccepted⟩ := ih
    cases hgoes with
    | rejected _ htries =>
      cases htries
      exact ⟨trace, hchain, haccepted⟩
    | accepted _ htries =>
      cases htries with
      | accepted hmakes herror =>
        refine ⟨_, hchain.snoc hmakes.2 herror, ?_⟩
        rw [List.length_append, ← Nat.add_assoc, ← haccepted]
        rfl

end Chain

end FieldFlow.Adaptive
