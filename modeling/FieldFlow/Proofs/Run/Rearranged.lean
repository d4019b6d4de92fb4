import FieldFlow.Proofs.Model.Auxiliary
import FieldFlow.Proofs.Model.Rearranged
import FieldFlow.Proofs.Run.Part

/-!
# Proofs/Run/Rearranged — a run does not depend on the order of declaration

Models with the same fields are parts of each other, whatever the order in which their fields are
declared and evaluated, so either run restricts to the other (`SameRun.of_partOf`). Descriptions
with the same entries load to models with the same fields, which settles the rest
(`load_rearranged`).
-/

namespace FieldFlow

variable {α : Type}

/-- **Runs that nobody can tell apart by their histories**: both fail, or both succeed, get as far
as each other and leave the same history under every name. -/
inductive SameRun : Except (Failure α) (Outcome α) → Except (Failure α) (Outcome α) → Prop
  | failed {e e' : Failure α} : SameRun (.error e) (.error e')
  | succeeded {outcome outcome' : Outcome α} :
      outcome.recording.lastValid = outcome'.recording.lastValid →
      outcome.divergence = outcome'.divergence →
      (∀ name, outcome.recording.field? name = outcome'.recording.field? name) →
        SameRun (.ok outcome) (.ok outcome')

section Run

variable [Scalar α] {m m' : Model α} {axes : RunAxes} {timeStep : α} {control : StepControl α}

/-- **Models with the same fields** make the same run. -/
theorem SameRun.of_partOf (h : m.PartOf m') (h' : m'.PartOf m) :
    SameRun (integrate m axes .rk4 timeStep control) (integrate m' axes .rk4 timeStep control) := by
  cases hrun : integrate m axes .rk4 timeStep control with
  | error e =>
    cases hrun' : integrate m' axes .rk4 timeStep control with
    | error e' => exact .failed
    | ok outcome' =>
      obtain ⟨outcome, houtcome, -⟩ := integrate_partOf h hrun'
      exact nomatch hrun.symm.trans houtcome
  | ok outcome =>
    obtain ⟨outcome', hrun', hlast, hdivergence, hfields⟩ := integrate_partOf h' hrun
    rw [hrun']
    refine .succeeded hlast.symm hdivergence.symm fun name => ?_
    by_cases hname : (m'.field? name).isSome
    · exact (hfields name hname).symm
    · have hname' : ¬(m.field? name).isSome := fun hsome => by
        obtain ⟨f, hf⟩ := Option.isSome_iff_exists.1 hsome
        exact hname (Option.isSome_of_mem (h.field hf))
      rw [← isSome_recorded_iff h.evaluable hrun, Option.not_isSome_iff_eq_none] at hname'
      rw [← isSome_recorded_iff h'.evaluable hrun', Option.not_isSome_iff_eq_none] at hname
      rw [hname, hname']

/-- **Order of declaration and of evaluation never change a result**: descriptions with the same
entries load to the same fields, and their runs cannot be told apart. -/
theorem load_rearranged {registry : Registry α} {d d' : Description α} (hsame : d.SameEntries d')
    (h : load registry d = .ok m) (h' : load registry d' = .ok m') :
    (∀ name, m.field? name = m'.field? name) ∧ ∀ axes timeStep control,
      SameRun (integrate m axes .rk4 timeStep control)
        (integrate m' axes .rk4 timeStep control) := by
  have hfield := field?_of_sameEntries hsame h h'
  have hm : m.Evaluable := (load_sound h).toEvaluable
  have hm' : m'.Evaluable := (load_sound h').toEvaluable
  have hpart : m.PartOf m' := ⟨hm, hm', fun {name _} hf => hfield name ▸ hf⟩
  have hpart' : m'.PartOf m := ⟨hm', hm, fun {name _} hf => (hfield name).symm ▸ hf⟩
  exact ⟨hfield, fun _ _ _ => .of_partOf hpart hpart'⟩

end Run

/-! ## A model declared in two orders -/

/-- A cascade with the flow declared in front, and an order of evaluation of its own. -/
def cascade.reordered : Description Fraction :=
  { cascade with
    statevar := .ofList cascade.statevar.entries.reverse
    order := some ["half", "flow"] }

theorem cascade_sameEntries : cascade.SameEntries cascade.reordered where
  differential := .rfl
  statevar := by
    have hnodup : (cascade.statevar.entries.reverse.map Prod.fst).Nodup := by
      rw [List.map_reverse, List.nodup_reverse]
      exact cascade.statevar.nodup
    rw [cascade.reordered, OrderedMap.entries_ofList hnodup]
    exact (List.reverse_perm _).symm
  parameter := .rfl
  size := .rfl
  unclassified := .rfl

theorem cascade_rearranged : ∃ m m', load .empty cascade = .ok m ∧
    load .empty cascade.reordered = .ok m' ∧ m.fields.keys ≠ m'.fields.keys ∧
      (∀ name, m.field? name = m'.field? name) ∧
        SameRun (integrate m ⟨3, 1, 1⟩ .rk4 (.of (1 / 2)) ⟨.of 1, .of 1, .of 1, 1⟩)
          (integrate m' ⟨3, 1, 1⟩ .rk4 (.of (1 / 2)) ⟨.of 1, .of 1, .of 1, 1⟩) := by
  have hloads : ((load .empty cascade).toOption.bind fun m =>
      (load .empty cascade.reordered).toOption.map fun m' =>
        decide (m.fields.keys = m'.fields.keys)) = some false := by
    decide +kernel
  obtain ⟨m, hm, h⟩ := Option.bind_eq_some_iff.1 hloads
  obtain ⟨m', hm', hkeys⟩ := Option.map_eq_some_iff.1 h
  have hm := toOption_eq_some_iff.1 hm
  have hm' := toOption_eq_some_iff.1 hm'
  obtain ⟨hfield, hruns⟩ := load_rearranged cascade_sameEntries hm hm'
  exact ⟨m, m', hm, hm', of_decide_eq_false hkeys, hfield, hruns _ _ _⟩

end FieldFlow
