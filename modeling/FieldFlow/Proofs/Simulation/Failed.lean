import FieldFlow.Proofs.Simulation.Calls

/-!
# Proofs/Simulation/Failed — what a call leaves that fails

A call that makes one assignment is all or nothing (`setField_failed`). Presets and ensembles make
several and stop at the first that is refused, with those in front of it made (`perform_failed`): so
one that fails leaves the values as they were only where nothing behind the first assignment is
refused, and else may not (`twoGoods_partly`).
-/

namespace FieldFlow

namespace Simulation

variable {α : Type} [Scalar α] {s next : Simulation α} {c : Call α} {e : Failure α}

/-- **A call that has been made in part** — the assignments in front of one that is refused are
made, on top of what there was; of a call that is refused as a whole there are none. -/
structure MadeInPart (s : Simulation α) (c : Call α) (made left : List (String × Value α))
    (next : Simulation α) : Prop where
  assignments : s.assignments c = made ++ left
  stopped : s.assignments c = [] ∨ left ≠ []
  result : ({ s with generator := next.generator } : Simulation α).setAll made = (next, .ok ())
  accepted : ∀ entry ∈ made, s.Accepts entry.1 entry.2
  refused : ∀ entry ∈ left.head?, ¬ s.Accepts entry.1 entry.2

/-- **What fails has been made in part** — what is accepted depends neither on the stream of draws
nor on the assignments made. -/
theorem exists_madeInPart (h : s.perform c = (next, .error e)) :
    ∃ made left, s.MadeInPart c made left next := by
  rcases s.perform_cases c with ⟨hnone, _, hrefused⟩ | ⟨g, hmade⟩
  · obtain ⟨rfl, -⟩ := Prod.mk.inj (hrefused.symm.trans h)
    exact ⟨[], [], hnone, .inl hnone, rfl, by simp, by simp⟩
  rw [hmade] at h
  obtain ⟨made, left, kept, hsplit, hkept, hends⟩ :=
    setAll_cases ({ s with generator := g } : Simulation α) (s.assignments c)
  rcases hends with ⟨-, hall⟩ | ⟨name, v, rest, _, rfl, hrefused, hall⟩
  · exact nomatch (Prod.mk.inj (hall.symm.trans h)).2
  obtain ⟨rfl, -⟩ := Prod.mk.inj (hall.symm.trans h)
  have hgenerator : kept.generator = g := setAll_induct (motive := fun s => s.generator = g) hkept
    (fun _ _ _ _ hassigns hmid => hassigns.generator.trans hmid) rfl
  have hsame : ∀ {name v}, s.Accepts name v ↔
      ({ s with generator := g } : Simulation α).Accepts name v :=
    accepts_congr (.refl s.model)
  refine ⟨made, _, hsplit, .inr (List.cons_ne_nil _ _), hgenerator.symm ▸ hkept,
    fun entry hentry => hsame.2 (exists_setAll_iff.1 ⟨kept, hkept⟩ entry hentry), ?_⟩
  intro entry hentry
  obtain rfl : entry = (name, v) := (Option.some.inj hentry).symm
  rw [hsame, accepts_congr (reassigned_of_setAll hkept)]
  rintro ⟨after, hafter⟩
  exact nomatch hrefused.symm.trans (setValue_eq_ok_iff.2 hafter)

/-- Where only the first assignment can be refused, none is made — with one made, the one that is
refused is not the first. -/
theorem unchanged_of_failed (h : s.perform c = (next, .error e))
    (hrest : ∀ entry ∈ (s.assignments c).tail, s.Accepts entry.1 entry.2) :
    next = { s with generator := next.generator } := by
  obtain ⟨made, left, hpart⟩ := exists_madeInPart h
  cases made with
  | nil => exact (Prod.mk.inj hpart.result).1.symm
  | cons first others =>
    have hleft := hpart.stopped
    rw [hpart.assignments] at hleft hrest
    obtain ⟨entry, rest, rfl⟩ := List.exists_cons_of_ne_nil (hleft.resolve_left (by simp))
    exact absurd (hrest entry (by simp)) (hpart.refused entry rfl)

/-- **A single assignment is all or nothing.** -/
theorem setField_failed {name : String} {assignment : Assignment α}
    (h : s.setField name assignment = (next, .error e)) :
    next = { s with generator := next.generator } := by
  refine unchanged_of_failed (c := .field name assignment) h fun entry hentry => ?_
  refine absurd hentry ?_
  cases assignment with
  | value v => exact List.not_mem_nil
  | drawn d runs =>
    simp only [assignments]
    split <;> exact List.not_mem_nil

/-- **What a failed call leaves** — a part of it made, and so nothing but the stream of draws
changed where only its very first assignment can be refused. -/
theorem perform_failed (h : s.perform c = (next, .error e)) :
    (∃ made left, s.MadeInPart c made left next) ∧
      ((∀ entry ∈ (s.assignments c).tail, s.Accepts entry.1 entry.2) →
        next = { s with generator := next.generator }) :=
  ⟨exists_madeInPart h, unchanged_of_failed h⟩

end Simulation

/-- A price for two goods, and twice that price. A preset changes the price and then the number of
goods. -/
def twoGoods : Description Float where
  name := "two goods"
  statevar := .ofList
    [("double", ⟨[("func", .function
      ((Expression.binary .mul (.number 2.0) (.input "price")).toFunction ["price"]))]⟩)]
  parameter := .ofList [("price", ⟨[("value", .value (.scalar 1.0))]⟩)]
  size := .ofList [("goods", ⟨[("labels", .names ["corn", "iron"])]⟩)]
  presets := .ofList
    [("more", ⟨.ofList [("price", .runs [3.0, 3.0]), ("goods", .scalar 3.0)], "more goods"⟩)]

/-- An ensemble of prices, and of what is computed from them. -/
def twoGoods.ensemble : OrderedMap (Distribution Float) :=
  .ofList [("price", .uniformBetween 3.0 3.0), ("double", .uniformBetween 6.0 6.0)]

/-- The number of runs that a price is given for. -/
def twoGoods.runsOf (s : Simulation Float) : Option Nat :=
  ((s.model.field? "price").bind Field.value).map Value.runCount

theorem twoGoods_failed : ∃ s next e, Simulation.load .empty twoGoods 0 = .ok s ∧
    s.perform (.preset "more") = (next, .error e) ∧
      ∃ made left, s.MadeInPart (.preset "more") made left next := by
  have hfails : ((Simulation.load .empty twoGoods 0).toOption.map fun s =>
      (s.perform (.preset "more")).2.toOption.isNone) = some true := by
    decide +kernel
  obtain ⟨s, hs, h⟩ := Option.map_eq_some_iff.1 hfails
  obtain ⟨next, e, hnext⟩ := exists_eq_error_of_isNone h
  exact ⟨s, next, e, toOption_eq_some_iff.1 hs, hnext, (Simulation.perform_failed hnext).1⟩

/-- **Presets and ensembles can be assigned in part**: each of these fails at its second assignment
and leaves the first one made. -/
theorem twoGoods_partly : ∃ s, Simulation.load .empty twoGoods 0 = .ok s ∧
    (∃ next e, s.setPreset "more" = (next, .error e) ∧
      twoGoods.runsOf next ≠ twoGoods.runsOf s) ∧
    ∃ next e, s.setEnsemble twoGoods.ensemble 2 1 = (next, .error e) ∧
      twoGoods.runsOf next ≠ twoGoods.runsOf s := by
  have hruns : ((Simulation.load .empty twoGoods 0).toOption.map fun s =>
      let preset := s.setPreset "more"
      let ensemble := s.setEnsemble twoGoods.ensemble 2 1
      (preset.2.toOption.isNone, ensemble.2.toOption.isNone, twoGoods.runsOf s,
        twoGoods.runsOf preset.1, twoGoods.runsOf ensemble.1)) =
          some (true, true, some 1, some 2, some 2) := by
    decide +kernel
  obtain ⟨s, hs, h⟩ := Option.map_eq_some_iff.1 hruns
  simp only [Prod.mk.injEq] at h
  obtain ⟨hpreset, hensemble, hone, hpreset', hensemble'⟩ := h
  obtain ⟨_, e, hnext⟩ := exists_eq_error_of_isNone hpreset
  obtain ⟨_, e', hnext'⟩ := exists_eq_error_of_isNone hensemble
  rw [hnext] at hpreset'
  rw [hnext'] at hensemble'
  refine ⟨s, toOption_eq_some_iff.1 hs, ⟨_, e, hnext, ?_⟩, _, e', hnext', ?_⟩
  · rw [hone, hpreset']
    decide
  · rw [hone, hensemble']
    decide

end FieldFlow
