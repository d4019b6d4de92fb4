import FieldFlow.Decode.Registry
import FieldFlow.Proofs.OrderedMap
import FieldFlow.Proofs.Simulation.Settings

/-!
# Proofs/Simulation/Origin — where the added time starts

The time that is added to a model starts from the entry `time` of the registry if that has an
initial value, and else from the entry `Tini`. Entries of other names leave the entry `time` alone
(`Registry.MadeFrom.get?_eq`). So in a registry that was made from the empty one `Tini` is the
start, while the standard registry comes with an entry `time` of its own and whatever is entered for
`Tini` is not looked at (`starts_from_registry`, `dated_starts_at_zero`).
-/

namespace FieldFlow

/-! ## Registries made from others -/

namespace Registry

/-- The entries that a text gives. -/
def entriesOf? (text : String) : Option (OrderedMap (Defaults Double)) :=
  (Json.read? text).bind (Json.map? (Defaults.ofJson? 2))

/-- Extending by a text enters what it gives. -/
theorem extend_of_extendFromText {r r' : Registry Double} {text : String} {count : Nat}
    (h : r.extendFromText text = .ok (r', count)) :
    ∃ entries, entriesOf? text = some entries ∧ r.extend entries = r' := by
  rw [extendFromText, ← entriesOf?] at h
  split at h
  · exact nomatch h
  · rename_i entries hentries
    split at h
    · exact nomatch h
    · exact ⟨entries, hentries, (Prod.mk.inj (Except.ok.inj h)).1⟩

theorem get?_extend_of_notMem {α : Type} {entries : OrderedMap (Defaults α)} {name : String}
    (h : name ∉ entries.keys) (r : Registry α) : (r.extend entries).get? name = r.get? name := by
  have hnone : (OrderedMap.ofList entries.entries).get? name = none := by
    refine Option.eq_none_iff_forall_ne_some.2 fun d hd => h ?_
    exact List.mem_map.2 ⟨_, OrderedMap.mem_of_get?_ofList hd, rfl⟩
  have hextend : (r.extend entries).get? name = _ := OrderedMap.get?_extend name
  rw [hextend, hnone, Option.none_or, get?]

/-- **A registry made from another** by entries of allowed names, one at a time or from a text. -/
inductive MadeFrom (allowed : String → Prop) (base : Registry Double) : Registry Double → Prop
  | base : MadeFrom allowed base base
  | entry {r : Registry Double} {name : String} (d : Defaults Double) :
      MadeFrom allowed base r → allowed name → MadeFrom allowed base (r.insert name d)
  | text {r r' : Registry Double} {text : String} {count : Nat} :
      MadeFrom allowed base r → r.extendFromText text = .ok (r', count) →
        (∀ entries, entriesOf? text = some entries → ∀ name ∈ entries.keys, allowed name) →
          MadeFrom allowed base r'

/-- Entries of other names are those of the beginning. -/
theorem MadeFrom.get?_eq {allowed : String → Prop} {base r : Registry Double}
    (h : MadeFrom allowed base r) {name : String} (hname : ¬ allowed name) :
    r.get? name = base.get? name := by
  induction h with
  | base => rfl
  | @entry r other d _ hallowed ih =>
    have hne : name ≠ other := fun heq => hname (heq ▸ hallowed)
    rw [← ih, get?, insert, OrderedMap.get?_insert, if_neg hne, get?]
  | text _ hextend hallowed ih =>
    obtain ⟨entries, hentries, rfl⟩ := extend_of_extendFromText hextend
    rw [← ih, get?_extend_of_notMem fun hmem => hname (hallowed entries hentries name hmem)]

end Registry

/-! ## The added time -/

namespace Simulation

section Added

variable {α : Type} [Scalar α] {registry : Registry α} {d : Description α} {seed : Nat}
  {s : Simulation α}

/-- **The start of the added time**, now and in every run that follows: the initial value of the
entry `time`, or else the value of the entry `Tini`. -/
theorem startsAt_of_load (h : Simulation.load registry d seed = .ok s)
    (hdeclares : ¬ d.Declares "time") {c : α}
    (hc : ((registry.get? "time").bind Defaults.initial <|> registry.number? "Tini").getD
      Scalar.zero = c) :
    s.StartsAt c ∧
      s.Henceforth (fun name => name ≠ "Tini" ∧ name ≠ "time") fun _ rec => rec.StartsAt c := by
  have hload := load_of_loadSimulation h
  have htime := (loadedFrom_of_load hload).field?_time hdeclares
  have hstarts : s.StartsAt c := ⟨_, htime, rfl, rfl, hc ▸ rfl⟩
  exact ⟨hstarts, hstarts.henceforth (.loaded hload)⟩

end Added

/-- **Where time starts by the registry** — with a value for `Tini`, a model that does not declare
its time starts there, and so does every run before another assignment to `time` or `Tini`, if the
registry was made from the empty one without an entry for `time`. If it was made from the standard
one, the start is zero whatever the value for `Tini`. -/
theorem starts_from_registry {r : Registry Double} {d : Description Double} {seed : Nat}
    {s : Simulation Double} {v : Double} (hv : r.number? "Tini" = some v)
    (hload : Simulation.load r d seed = .ok s) (hdeclares : ¬ d.Declares "time") :
    (Registry.MadeFrom (· ≠ "time") .empty r → s.StartsAt v ∧
      s.Henceforth (fun name => name ≠ "Tini" ∧ name ≠ "time") fun _ rec => rec.StartsAt v) ∧
    (Registry.MadeFrom (· ≠ "time") .standard r → s.StartsAt Scalar.zero ∧
      s.Henceforth (fun name => name ≠ "Tini" ∧ name ≠ "time") fun _ rec =>
        rec.StartsAt Scalar.zero) := by
  constructor
  · intro hmade
    have htime : r.get? "time" = none := hmade.get?_eq (by simp)
    exact startsAt_of_load hload hdeclares (by rw [htime, hv]; rfl)
  · intro hmade
    have htime : r.get? "time" = Registry.standard.get? "time" := hmade.get?_eq (by simp)
    exact startsAt_of_load hload hdeclares (by rw [htime, hv]; rfl)

end Simulation

/-- A model with no field of its own. -/
def dated : Description Double where
  name := "dated"

/-- Entries that start time at five, and leave it to the run how many runs and regions there are. -/
def dated.text : String :=
  "\x7b\"nx\": \x7b\x7d, \"nr\": \x7b\x7d, \"Tini\": \x7b\"value\": 5\x7d\x7d"

/-- A registry with these entries, the time that it has for `Tini`, and a simulation loaded with
it. -/
def dated.loadedWith (base : Registry Double) :
    Option (Registry Double × Double × Simulation Double) := do
  let (r, _) ← (base.extendFromText dated.text).toOption
  let v ← r.number? "Tini"
  let s ← (Simulation.load r dated 0).toOption
  return (r, v, s)

theorem dated.of_loadedWith {base r : Registry Double} {v : Double} {s : Simulation Double}
    (h : dated.loadedWith base = some (r, v, s)) : Registry.MadeFrom (· ≠ "time") base r ∧
      r.number? "Tini" = some v ∧ Simulation.load r dated 0 = .ok s := by
  have hkeys : (Registry.entriesOf? dated.text).map OrderedMap.keys = some ["nx", "nr", "Tini"] := by
    decide +kernel
  unfold dated.loadedWith at h
  obtain ⟨⟨r', count⟩, hr, h⟩ := Option.bind_eq_some_iff.1 h
  obtain ⟨v', hv, h⟩ := Option.bind_eq_some_iff.1 h
  obtain ⟨s', hs, h⟩ := Option.bind_eq_some_iff.1 h
  obtain ⟨rfl, rfl, rfl⟩ : r' = r ∧ v' = v ∧ s' = s := by simpa using h
  refine ⟨?_, hv, toOption_eq_some_iff.1 hs⟩
  refine .text .base (toOption_eq_some_iff.1 hr) fun entries hentries name hname => ?_
  rw [hentries, Option.map_some, Option.some.injEq] at hkeys
  rw [hkeys] at hname
  exact (by decide : ∀ name ∈ ["nx", "nr", "Tini"], name ≠ "time") name hname

/-- The first time on record in a run of one point. -/
def dated.firstTime? (s : Simulation Double) : Option Double := do
  let outcome ← (integrate s.model ⟨1, 1, 1⟩ .rk4 Scalar.one default).toOption
  let history ← outcome.recording.field? "time"
  return history.get 0 0 0 0 0

/-- From the empty registry, time starts at five. -/
theorem dated_starts_at_five : ∃ r v s, Registry.MadeFrom (· ≠ "time") .empty r ∧
    r.number? "Tini" = some v ∧ Scalar.eq v (Scalar.ofNat 5) = true ∧
    Simulation.load r dated 0 = .ok s ∧ s.StartsAt v ∧
    s.Henceforth (fun name => name ≠ "Tini" ∧ name ≠ "time") fun _ rec => rec.StartsAt v := by
  have hloads : ((dated.loadedWith .empty).map fun (_, v, _) => Scalar.eq v (Scalar.ofNat 5)) =
      some true := by
    decide +kernel
  obtain ⟨⟨r, v, s⟩, hloaded, hfive⟩ := Option.map_eq_some_iff.1 hloads
  obtain ⟨hmade, hv, hs⟩ := dated.of_loadedWith hloaded
  obtain ⟨hstarts, hruns⟩ := (Simulation.starts_from_registry hv hs (by decide +kernel)).1 hmade
  exact ⟨r, v, s, hmade, hv, hfive, hs, hstarts, hruns⟩

/-- **The start by the registry is not looked at** where the standard registry already has one for
`time`: with five entered for `Tini`, time starts at zero. -/
theorem dated_starts_at_zero : ∃ r v s c, Registry.MadeFrom (· ≠ "time") .standard r ∧
    r.number? "Tini" = some v ∧ ¬ dated.Declares "time" ∧ Simulation.load r dated 0 = .ok s ∧
    ¬ s.StartsAt v ∧ dated.firstTime? s = some c ∧ Scalar.eq c Scalar.zero = true ∧
    Scalar.eq c v = false := by
  have hruns : ((dated.loadedWith .standard).bind fun (_, v, s) =>
      (dated.firstTime? s).map fun c => (Scalar.eq (startTime s.model) Scalar.zero,
        Scalar.eq v Scalar.zero, Scalar.eq c Scalar.zero, Scalar.eq c v)) =
          some (true, false, true, false) := by
    decide +kernel
  obtain ⟨⟨r, v, s⟩, hloaded, h⟩ := Option.bind_eq_some_iff.1 hruns
  obtain ⟨c, hc, h⟩ := Option.map_eq_some_iff.1 h
  simp only [Prod.mk.injEq] at h
  obtain ⟨hstart, hfive, hzero, hdiffers⟩ := h
  obtain ⟨hmade, hv, hs⟩ := dated.of_loadedWith hloaded
  refine ⟨r, v, s, c, hmade, hv, by decide +kernel, hs, fun hstarts => ?_, hc, hzero, hdiffers⟩
  obtain ⟨f, hf, -, -, hinitial⟩ := hstarts
  rw [startTime, hf, Option.bind_some, hinitial] at hstart
  exact nomatch hstart.symm.trans hfive

end FieldFlow
