import FieldFlow.Proofs.Model.Auxiliary
import FieldFlow.Proofs.Run.Initials
import FieldFlow.Proofs.Run.Part
import FieldFlow.Proofs.Run.Plan

/-!
# Proofs/Run/Auxiliary — auxiliary fields leave the others alone

The fields that are not auxiliary make up a part of the model, whatever the auxiliary ones start
from. Two runs of models with a common part record the same of it (`recorded_of_common_part`), so
the start of an auxiliary field is seen in auxiliary fields only (`auxiliary_apart`).
-/

namespace FieldFlow

variable {α : Type} [Scalar α]

/-- **What models have in common** runs alike in both. -/
theorem recorded_of_common_part {part m m' : Model α} {axes : RunAxes} {timeStep : α}
    {control : StepControl α} {outcome outcome' : Outcome α} (h : part.PartOf m)
    (h' : part.PartOf m') (hrun : integrate m axes .rk4 timeStep control = .ok outcome)
    (hrun' : integrate m' axes .rk4 timeStep control = .ok outcome') {name : String}
    (hname : (part.field? name).isSome) :
    outcome.recording.field? name = outcome'.recording.field? name := by
  obtain ⟨alone, halone, -, -, hfields⟩ := integrate_partOf h hrun
  obtain ⟨alone', halone', -, -, hfields'⟩ := integrate_partOf h' hrun'
  obtain rfl := Except.ok.inj (halone.symm.trans halone')
  rw [← hfields name hname, ← hfields' name hname]

/-- **A choice of initial values for auxiliary fields** has been assigned. -/
def Simulation.AuxiliaryChoice (s next : Simulation α) : Prop :=
  ∃ values, s.model.AreInitials values ∧ (∀ entry ∈ values, entry.1 ∈ s.model.auxiliary) ∧
    s.setAll values = (next, .ok ())

namespace Simulation.AuxiliaryChoice

variable {s next : Simulation α}

theorem regions (h : s.AuxiliaryChoice next) : next.regions = s.regions := by
  obtain ⟨values, hvalues, -, hset⟩ := h
  exact (reinitialized_of_setAll hvalues hset).regions

/-- The fields that are not auxiliary are a part of the model under every such choice. -/
theorem partOf {registry : Registry α} {d : Description α} (hm : s.model.InUse registry d)
    (h : s.AuxiliaryChoice next) : (s.model.without s.model.auxiliary).PartOf next.model := by
  obtain ⟨values, hvalues, hauxiliary, hset⟩ := h
  refine ⟨hm.unread_auxiliary.evaluable_without hm.evaluable, (hm.setAll hset).evaluable,
    fun {name f} hf => ?_⟩
  obtain ⟨hf, hname⟩ := Model.field?_without.1 hf
  have hnone : (OrderedMap.ofList values).get? name = none :=
    Option.eq_none_iff_forall_ne_some.2 fun v hv =>
      hname (hauxiliary _ (OrderedMap.mem_of_get?_ofList hv))
  rw [(reinitialized_of_setAll hvalues hset).field hf, hnone, Option.none_or]

end Simulation.AuxiliaryChoice

/-- **Auxiliary fields really are auxiliary** — runs of fixed steps that differ in what the
auxiliary fields start from, and in no number of runs, record the same of every other field. -/
theorem auxiliary_apart {registry : Registry α} {d : Description α} {s s₁ s₂ r₁ r₂ : Simulation α}
    {method : String} {timeStep span : α} {control : StepControl α} {rec₁ rec₂ : Recording α}
    (hm : s.model.InUse registry d) (hchoice₁ : s.AuxiliaryChoice s₁)
    (hchoice₂ : s.AuxiliaryChoice s₂)
    (hmethod : (Method.ofName method : Except (Error α) Method) = .ok .rk4)
    (hrun₁ : s₁.run method timeStep span control = (r₁, .ok ()))
    (hrun₂ : s₂.run method timeStep span control = (r₂, .ok ()))
    (hlast₁ : r₁.last = some rec₁) (hlast₂ : r₂.last = some rec₂)
    (hruns : rec₁.axes.runs = rec₂.axes.runs) {name : String}
    (hname : (s.model.field? name).isSome) (hneeded : name ∉ s.model.auxiliary) :
    ∃ history, rec₁.field? name = some history ∧ rec₂.field? name = some history := by
  obtain ⟨_, axes₁, outcome₁, hplan₁, houtcome₁, -, rfl⟩ := run_eq_ok_iff.1 hrun₁
  obtain ⟨_, axes₂, outcome₂, hplan₂, houtcome₂, -, rfl⟩ := run_eq_ok_iff.1 hrun₂
  obtain rfl := Option.some.inj hlast₁
  obtain rfl := Option.some.inj hlast₂
  obtain rfl := Except.ok.inj ((plan_eq_ok_iff.1 hplan₁).1.symm.trans hmethod)
  rw [axes_of_integrate houtcome₁, axes_of_integrate houtcome₂] at hruns
  obtain ⟨rfl, rfl⟩ := eq_of_plan hplan₁ hplan₂ hruns (hchoice₁.regions.trans hchoice₂.regions.symm)
  have hpart₁ := hchoice₁.partOf hm
  obtain ⟨f, hf⟩ := Option.isSome_iff_exists.1 hname
  have hpart := Model.field?_without.2 ⟨hf, hneeded⟩
  obtain ⟨history, hhistory⟩ := Option.isSome_iff_exists.1
    ((isSome_recorded_iff hpart₁.evaluable_whole houtcome₁).2
      (Option.isSome_of_mem (hpart₁.field hpart)))
  have hsame := recorded_of_common_part hpart₁ (hchoice₂.partOf hm) houtcome₁ houtcome₂
    (Option.isSome_of_mem hpart)
  exact ⟨history, hhistory, hsame ▸ hhistory⟩

/-- Other values for the total of a cascade and its time to start from. -/
def cascade.elsewhere : List (String × Value Fraction) :=
  [("total", .scalar (.of 7)), ("time", .scalar (.of 2010))]

/-- Nothing reads the total or the time, so the stock moves as it does without the change. -/
theorem cascade_apart : ∃ s s₁ r r₁ rec rec₁, s.model.InUse .empty cascade ∧
    s.setAll cascade.elsewhere = (s₁, .ok ()) ∧ cascade.runFor 1 s = (r, .ok ()) ∧
    cascade.runFor 1 s₁ = (r₁, .ok ()) ∧ r.last = some rec ∧ r₁.last = some rec₁ ∧
    ∃ history, rec.field? "stock" = some history ∧ rec₁.field? "stock" = some history := by
  have hruns : ((Simulation.load .empty cascade 0).toOption.map fun s =>
      let changed := s.setAll cascade.elsewhere
      let ended := cascade.runFor 1 s
      let ended₁ := cascade.runFor 1 changed.1
      (changed.2.toOption.isSome, ended.2.toOption.isSome, ended₁.2.toOption.isSome,
        ended.1.last.map (·.axes.runs), ended₁.1.last.map (·.axes.runs))) =
          some (true, true, true, some 1, some 1) := by
    decide +kernel
  have hmodel : ((Simulation.load .empty cascade 0).toOption.map fun s =>
      (cascade.elsewhere.all fun entry => (s.model.field? entry.1).any (·.kind = .dynamic) &&
          s.model.auxiliary.contains entry.1,
        (s.model.field? "stock").isSome, s.model.auxiliary.contains "stock")) =
          some (true, true, false) := by
    decide +kernel
  obtain ⟨s, hs, h⟩ := Option.map_eq_some_iff.1 hruns
  rw [hs, Option.map_some, Option.some.injEq] at hmodel
  simp only [Prod.mk.injEq] at h hmodel
  obtain ⟨hset, hrun, hrun₁, hlast, hlast₁⟩ := h
  obtain ⟨hvalues, hname, hneeded⟩ := hmodel
  obtain ⟨s₁, hset⟩ := exists_eq_ok_of_isSome hset
  rw [hset] at hrun₁ hlast₁
  obtain ⟨r, hrun⟩ := exists_eq_ok_of_isSome hrun
  obtain ⟨r₁, hrun₁⟩ := exists_eq_ok_of_isSome hrun₁
  rw [hrun] at hlast
  rw [hrun₁] at hlast₁
  obtain ⟨rec, hlast, hone⟩ := Option.map_eq_some_iff.1 hlast
  obtain ⟨rec₁, hlast₁, hone₁⟩ := Option.map_eq_some_iff.1 hlast₁
  have hm : s.model.InUse .empty cascade := .of_load (toOption_eq_some_iff.1 hs)
  have hchoice₁ : s.AuxiliaryChoice s₁ := by
    simp only [List.all_eq_true, Bool.and_eq_true, Option.any_eq_true, decide_eq_true_eq,
      List.contains_iff_mem] at hvalues
    exact ⟨_, fun entry hentry => (hvalues entry hentry).1,
      fun entry hentry => (hvalues entry hentry).2, hset⟩
  have hchoice : s.AuxiliaryChoice s :=
    ⟨[], fun _ h => absurd h List.not_mem_nil, fun _ h => absurd h List.not_mem_nil, rfl⟩
  exact ⟨s, s₁, r, r₁, rec, rec₁, hm, hset, hrun, hrun₁, hlast, hlast₁,
    auxiliary_apart hm hchoice hchoice₁ rfl hrun hrun₁ hlast hlast₁ (hone.trans hone₁.symm) hname
      (by simpa using hneeded)⟩

end FieldFlow
