import FieldFlow.Proofs.Field.Value
import FieldFlow.Proofs.Run.Initials

/-!
# Proofs/Simulation/Calls — what the calls that change a simulation come down to

Every call that assigns makes single assignments one after another, up to the first that is refused
(`perform_cases`, `setAll_cases`), and a single assignment does one of five things or is refused
(`setValue_eq_ok_iff`). So whatever those five keep is kept however a simulation is used
(`Reaches.induct`), by calls that fail as well.
-/

namespace FieldFlow

variable {α : Type} [Scalar α]

namespace Simulation

variable {s next : Simulation α} {name : String} {v : Value α} {values : List (String × Value α)}

/-! ## One assignment -/

/-- **What an assignment does** where it is not refused. A name that no field has may be that of a
setting. -/
inductive Assigns (s : Simulation α) : String → Value α → Simulation α → Prop
  | initial {name : String} {f : Field α} {v : Value α} : s.model.field? name = some f →
      f.kind = .dynamic → v.Regular →
        Assigns s name v (s.withField name fun field => { field with initial := some v })
  | value {name : String} {f : Field α} {v : Value α} : s.model.field? name = some f →
      f.kind = .parameter → v.Regular →
        Assigns s name v
          (s.withField name fun field => { field with function := none, value := some v })
  | runs {c : α} {n : Nat} : s.model.field? "nx" = none → Scalar.toCount? c = some n →
      Assigns s "nx" (.scalar c) { s with runs := n }
  | regions {c : α} {n : Nat} : s.model.field? "nr" = none → Scalar.toCount? c = some n →
      Assigns s "nr" (.scalar c) { s with regions := n }
  | start {c : α} : s.model.field? "Tini" = none →
      Assigns s "Tini" (.scalar c)
        (s.withField "time" fun field => { field with initial := some (.scalar c) })

/-- What may be assigned. -/
def Accepts (s : Simulation α) (name : String) (v : Value α) : Prop := ∃ next, s.Assigns name v next

theorem positiveCount_eq_ok_iff {c : α} {n : Nat} :
    positiveCount name c = .ok n ↔ Scalar.toCount? c = some n := by
  unfold positiveCount
  cases Scalar.toCount? c <;> simp

/-- A setting is one number, which counts something or is a time. -/
theorem setSetting_eq_ok_iff (hnone : s.model.field? name = none) :
    s.setSetting name v = .ok next ↔ s.Assigns name v next := by
  constructor
  · intro h
    unfold setSetting at h
    split at h
    · split at h
      · obtain ⟨n, hn, h⟩ := bind_eq_ok_iff.1 h
        exact pure_eq_ok_iff.1 h ▸ .runs hnone (positiveCount_eq_ok_iff.1 hn)
      · obtain ⟨n, hn, h⟩ := bind_eq_ok_iff.1 h
        exact pure_eq_ok_iff.1 h ▸ .regions hnone (positiveCount_eq_ok_iff.1 hn)
      · exact Except.ok.inj h ▸ .start hnone
      · exact nomatch h
    · exact nomatch h
  · rintro (⟨hf, -, -⟩ | ⟨hf, -, -⟩ | ⟨-, hn⟩ | ⟨-, hn⟩ | -)
    · exact nomatch hnone.symm.trans hf
    · exact nomatch hnone.symm.trans hf
    · exact bind_eq_ok_iff.2 ⟨_, positiveCount_eq_ok_iff.2 hn, rfl⟩
    · exact bind_eq_ok_iff.2 ⟨_, positiveCount_eq_ok_iff.2 hn, rfl⟩
    · rfl

/-- **An assignment**: which are accepted, and what they do. -/
theorem setValue_eq_ok_iff : s.setValue name v = .ok next ↔ s.Assigns name v next := by
  unfold setValue
  rw [bind_eq_ok_iff]
  simp only [discard_eq_ok_iff, Value.exists_toTensor_iff, exists_const]
  cases hf : s.model.field? name with
  | none =>
    dsimp only
    rw [setSetting_eq_ok_iff hf, and_iff_right_iff_imp]
    rintro (⟨hf', -, -⟩ | ⟨hf', -, -⟩ | - | - | -)
    · exact nomatch hf.symm.trans hf'
    · exact nomatch hf.symm.trans hf'
    all_goals trivial
  | some f =>
    dsimp only
    constructor
    · rintro ⟨hregular, h⟩
      split at h
      · rename_i hkind
        exact pure_eq_ok_iff.1 h ▸ .initial hf hkind hregular
      · rename_i hkind
        exact pure_eq_ok_iff.1 h ▸ .value hf hkind hregular
      · exact absurd h throw_ne_ok
      · exact absurd h throw_ne_ok
    · rintro (⟨hf', hkind, hregular⟩ | ⟨hf', hkind, hregular⟩ | ⟨hnone, -⟩ | ⟨hnone, -⟩ | hnone)
      · obtain rfl := Option.some.inj (hf.symm.trans hf')
        rw [hkind]
        exact ⟨hregular, rfl⟩
      · obtain rfl := Option.some.inj (hf.symm.trans hf')
        rw [hkind]
        exact ⟨hregular, rfl⟩
      all_goals exact nomatch hnone.symm.trans hf

theorem setField_eq_ok_iff :
    s.setField name (.value v) = (next, .ok ()) ↔ s.Assigns name v next :=
  resultOf_eq_ok_iff.trans setValue_eq_ok_iff

/-- A field that is neither computed nor a size accepts whatever can be laid out. -/
theorem accepts_iff {f : Field α} (hf : s.model.field? name = some f) :
    s.Accepts name v ↔ (f.kind = .dynamic ∨ f.kind = .parameter) ∧ v.Regular := by
  constructor
  · rintro ⟨_, ⟨hf', hkind, hregular⟩ | ⟨hf', hkind, hregular⟩ | ⟨hnone, -⟩ | ⟨hnone, -⟩ | hnone⟩
    · obtain rfl := Option.some.inj (hf.symm.trans hf')
      exact ⟨.inl hkind, hregular⟩
    · obtain rfl := Option.some.inj (hf.symm.trans hf')
      exact ⟨.inr hkind, hregular⟩
    all_goals exact nomatch hnone.symm.trans hf
  · rintro ⟨hkind | hkind, hregular⟩
    · exact ⟨_, .initial hf hkind hregular⟩
    · exact ⟨_, .value hf hkind hregular⟩

/-- What is accepted depends on the kinds of the fields alone. -/
theorem Accepts.congr {s' : Simulation α} (h : s.Accepts name v)
    (hkinds : ∀ name, (s.model.field? name).map Field.kind = (s'.model.field? name).map Field.kind) :
    s'.Accepts name v := by
  have hkind : ∀ {f}, s.model.field? name = some f →
      ∃ g, s'.model.field? name = some g ∧ g.kind = f.kind := fun hf =>
    Option.map_eq_some_iff.1 (by rw [← hkinds, hf, Option.map_some])
  have hnone : s.model.field? name = none → s'.model.field? name = none := fun hf => by
    rw [← Option.map_eq_none_iff, ← hkinds, hf, Option.map_none]
  obtain ⟨_, ⟨hf, hf', hregular⟩ | ⟨hf, hf', hregular⟩ | ⟨hf, hn⟩ | ⟨hf, hn⟩ | hf⟩ := h
  · obtain ⟨g, hg, hkind⟩ := hkind hf
    exact ⟨_, .initial hg (hkind.trans hf') hregular⟩
  · obtain ⟨g, hg, hkind⟩ := hkind hf
    exact ⟨_, .value hg (hkind.trans hf') hregular⟩
  · exact ⟨_, .runs (hnone hf) hn⟩
  · exact ⟨_, .regions (hnone hf) hn⟩
  · exact ⟨_, .start (hnone hf)⟩

omit [Scalar α] in
theorem kind?_of_reassigned {m m' : Model α} (h : m.Reassigned m') (name : String) :
    (m.field? name).map Field.kind = (m'.field? name).map Field.kind := by
  cases hf : m.field? name with
  | some f =>
    obtain ⟨g, hg, hfg⟩ := h.kept hf
    rw [hg, Option.map_some, Option.map_some, hfg.kind]
  | none =>
    cases hg : m'.field? name with
    | none => rfl
    | some g =>
      obtain ⟨f, hf', -⟩ := h.origin hg
      exact nomatch hf.symm.trans hf'

theorem accepts_congr {s' : Simulation α} (h : s.model.Reassigned s'.model) :
    s.Accepts name v ↔ s'.Accepts name v :=
  ⟨fun hs => hs.congr (kind?_of_reassigned h), fun hs' =>
    hs'.congr fun name => (kind?_of_reassigned h name).symm⟩

/-! ## Assignments one after another -/

/-- **Assignments one after another** are made up to the first that is refused, each starting from
what the last one left. -/
theorem setAll_cases (s : Simulation α) (values : List (String × Value α)) :
    ∃ made left next, values = made ++ left ∧ s.setAll made = (next, .ok ()) ∧
      ((left = [] ∧ s.setAll values = (next, .ok ())) ∨ ∃ name v rest e, left = (name, v) :: rest ∧
        next.setValue name v = .error e ∧ s.setAll values = (next, .error (.error e))) := by
  induction values generalizing s with
  | nil => exact ⟨[], [], s, rfl, rfl, .inl ⟨rfl, rfl⟩⟩
  | cons entry rest ih =>
    obtain ⟨name, v⟩ := entry
    cases hset : s.setValue name v with
    | error e =>
      refine ⟨[], (name, v) :: rest, s, rfl, rfl, .inr ⟨name, v, rest, e, rfl, hset, ?_⟩⟩
      rw [setAll, hset]
    | ok mid =>
      obtain ⟨made, left, next, rfl, hmade, hleft⟩ := ih mid
      have hcons : ∀ values, s.setAll ((name, v) :: values) = mid.setAll values := fun values => by
        rw [setAll, hset]
      refine ⟨(name, v) :: made, left, next, rfl, (hcons made).trans hmade, ?_⟩
      rw [hcons]
      exact hleft

/-- **What every assignment keeps**, assignments one after another keep. -/
theorem setAll_induct {motive : Simulation α → Prop} (h : s.setAll values = (next, .ok ()))
    (hassign : ∀ entry ∈ values, ∀ {mid next}, mid.Assigns entry.1 entry.2 next → motive mid →
      motive next) (hs : motive s) : motive next := by
  induction values generalizing s with
  | nil => exact (Prod.mk.inj h).1 ▸ hs
  | cons entry rest ih =>
    obtain ⟨name, v⟩ := entry
    rw [List.forall_mem_cons] at hassign
    obtain ⟨mid, hmid, h⟩ := setAll_cons_eq_ok_iff.1 h
    exact ih h hassign.2 (hassign.1 (setField_eq_ok_iff.1 hmid) hs)

theorem Assigns.reassigned (h : s.Assigns name v next) : s.model.Reassigned next.model :=
  reassigned_of_setValue (setValue_eq_ok_iff.2 h)

theorem reassigned_of_setAll (h : s.setAll values = (next, .ok ())) :
    s.model.Reassigned next.model :=
  setAll_induct (motive := fun mid => s.model.Reassigned mid.model) h
    (fun _ _ _ _ hassigns hmid => hmid.trans hassigns.reassigned) (.refl s.model)

theorem Assigns.generator (h : s.Assigns name v next) : next.generator = s.generator := by
  cases h <;> rfl

/-- **Assignments one after another succeed** exactly if each is accepted to begin with. -/
theorem exists_setAll_iff : (∃ next, s.setAll values = (next, .ok ())) ↔
    ∀ entry ∈ values, s.Accepts entry.1 entry.2 := by
  induction values generalizing s with
  | nil => exact iff_of_true ⟨s, rfl⟩ (by simp)
  | cons entry rest ih =>
    obtain ⟨name, v⟩ := entry
    simp only [setAll_cons_eq_ok_iff, setField_eq_ok_iff, List.forall_mem_cons]
    constructor
    · rintro ⟨next, mid, hmid, hrest⟩
      refine ⟨⟨mid, hmid⟩, fun entry hentry => ?_⟩
      exact (accepts_congr hmid.reassigned).2 (ih.1 ⟨next, hrest⟩ entry hentry)
    · rintro ⟨⟨mid, hmid⟩, hrest⟩
      obtain ⟨next, hnext⟩ := ih.2 fun entry hentry =>
        (accepts_congr hmid.reassigned).1 (hrest entry hentry)
      exact ⟨next, mid, hmid, hnext⟩

end Simulation

/-! ## Calls -/

/-- **A call that assigns**: a value or draws to one name, a preset, or draws to many names. -/
inductive Call (α : Type) where
  | field (name : String) (assignment : Assignment α)
  | preset (name : String)
  | ensemble (distributions : OrderedMap (Distribution α)) (n seed : Nat)

namespace Simulation

variable {s next : Simulation α} {c : Call α}

def perform (s : Simulation α) : Call α → Result α
  | .field name assignment => s.setField name assignment
  | .preset name => s.setPreset name
  | .ensemble distributions n seed => s.setEnsemble distributions n seed

/-- **The assignments that a call is to make**, in order; none if it is refused as a whole. -/
def assignments (s : Simulation α) : Call α → List (String × Value α)
  | .field name (.value v) => [(name, v)]
  | .field name (.drawn d runs) =>
    match d.sample name runs s.generator with
    | .ok (values, _) => [(name, .runs values)]
    | .error _ => []
  | .preset name =>
    match s.model.presets.get? name with
    | some preset => preset.values.entries
    | none => []
  | .ensemble distributions n seed =>
    match distributions.keys.find? fun name => (s.model.field? name).isNone with
    | some _ => []
    | none =>
      match drawEnsemble distributions n (.ofSeed seed) with
      | .ok columns => columns.map fun (name, values) => (name, .runs values)
      | .error _ => []

theorem setAll_single (s : Simulation α) (name : String) (v : Value α) :
    s.setAll [(name, v)] = s.resultOf (s.setValue name v) := by
  rw [setAll]
  cases s.setValue name v <;> rfl

/-- **A call** is refused as a whole, or makes its assignments one after another, perhaps with a
stream of draws that has moved on. -/
theorem perform_cases (s : Simulation α) (c : Call α) :
    (s.assignments c = [] ∧ ∃ e, s.perform c = (s, .error e)) ∨
      ∃ g, s.perform c = ({ s with generator := g } : Simulation α).setAll (s.assignments c) := by
  cases c with
  | field name assignment =>
    cases assignment with
    | value v => exact .inr ⟨s.generator, (s.setAll_single name v).symm⟩
    | drawn d runs =>
      simp only [perform, setField, assignments]
      cases d.sample name runs s.generator with
      | error e => exact .inl ⟨rfl, e, rfl⟩
      | ok drawn => exact .inr ⟨drawn.2, (setAll_single _ _ _).symm⟩
  | preset name =>
    simp only [perform, setPreset, assignments]
    cases s.model.presets.get? name with
    | none => exact .inl ⟨rfl, _, rfl⟩
    | some preset => exact .inr ⟨s.generator, rfl⟩
  | ensemble distributions n seed =>
    simp only [perform, setEnsemble, assignments]
    cases distributions.keys.find? fun name => (s.model.field? name).isNone with
    | some missing => exact .inl ⟨rfl, _, rfl⟩
    | none =>
      dsimp only
      cases drawEnsemble distributions n (.ofSeed seed) with
      | error e => exact .inl ⟨rfl, e, rfl⟩
      | ok columns => exact .inr ⟨s.generator, rfl⟩

/-! ## Simulations in use -/

/-- **What a simulation can come to** by calls that assign to allowed names only, by runs, and by
starting the stream of draws anew; calls and runs that fail are among them. -/
inductive Reaches (allowed : String → Prop) (s : Simulation α) : Simulation α → Prop
  | start : Reaches allowed s s
  | called {mid : Simulation α} (c : Call α) : Reaches allowed s mid →
      (∀ entry ∈ mid.assignments c, allowed entry.1) → Reaches allowed s (mid.perform c).1
  | ran {mid : Simulation α} (method : String) (timeStep span : α) (control : StepControl α) :
      Reaches allowed s mid → Reaches allowed s (mid.run method timeStep span control).1
  | reseeded {mid : Simulation α} (seed : Nat) : Reaches allowed s mid →
      Reaches allowed s { mid with generator := .ofSeed seed }

/-- A run changes nothing but what is on record. -/
theorem run_fst (s : Simulation α) (method : String) (timeStep span : α) (control : StepControl α) :
    ∃ last, (s.run method timeStep span control).1 = { s with last := last } := by
  unfold run
  dsimp only
  split
  · exact ⟨s.last, rfl⟩
  · split
    · exact ⟨none, rfl⟩
    · exact ⟨_, rfl⟩

/-- **What every assignment keeps is kept in use**, if streams of draws and recordings are no part
of it — a call leaves what some first part of its assignments makes, whether it fails or not. -/
theorem Reaches.induct {allowed : String → Prop} {motive : Simulation α → Prop} {s s' : Simulation α}
    (h : s.Reaches allowed s')
    (hassign : ∀ {name v mid next}, allowed name → mid.Assigns name v next → motive mid →
      motive next)
    (hrest : ∀ {mid} g last, motive mid → motive { mid with generator := g, last := last })
    (hs : motive s) : motive s' := by
  induction h with
  | start => exact hs
  | @called mid c _ hallowed ih =>
    rcases mid.perform_cases c with ⟨-, e, hrefused⟩ | ⟨g, hmade⟩
    · rw [hrefused]
      exact ih
    · obtain ⟨made, left, next, hsplit, hnext, hends⟩ :=
        setAll_cases ({ mid with generator := g } : Simulation α) (mid.assignments c)
      have hfst : (mid.perform c).1 = next := by
        rw [hmade]
        rcases hends with ⟨-, hall⟩ | ⟨_, _, _, _, -, -, hsome⟩
        · rw [hall]
        · rw [hsome]
      rw [hfst]
      refine setAll_induct hnext (fun entry hentry _ _ => hassign (hallowed entry ?_))
        (hrest g mid.last ih)
      rw [hsplit]
      exact List.mem_append_left left hentry
  | @ran mid method timeStep span control _ ih =>
    obtain ⟨last, hlast⟩ := mid.run_fst method timeStep span control
    rw [hlast]
    exact hrest mid.generator last ih
  | reseeded seed _ ih => exact hrest _ _ ih

theorem Reaches.reassigned {allowed : String → Prop} {s s' : Simulation α}
    (h : s.Reaches allowed s') : s.model.Reassigned s'.model :=
  h.induct (motive := fun mid => s.model.Reassigned mid.model)
    (fun _ hassigns hmid => hmid.trans hassigns.reassigned) (fun _ _ hmid => hmid) (.refl s.model)

theorem Reaches.inUse {allowed : String → Prop} {registry : Registry α} {d : Description α}
    {s s' : Simulation α} (h : s.Reaches allowed s') (hm : s.model.InUse registry d) :
    s'.model.InUse registry d :=
  h.induct (motive := fun mid => mid.model.InUse registry d)
    (fun _ hassigns hmid => .assigned hmid (setField_eq_ok_iff.2 hassigns)) (fun _ _ hmid => hmid) hm

/-- **A simulation that was loaded**, and any calls and runs since. -/
def InUse (registry : Registry α) (d : Description α) (s : Simulation α) : Prop :=
  ∃ seed loaded, load registry d seed = .ok loaded ∧ loaded.Reaches (fun _ => True) s

theorem InUse.model {registry : Registry α} {d : Description α} (h : s.InUse registry d) :
    s.model.InUse registry d := by
  obtain ⟨seed, loaded, hload, hreaches⟩ := h
  exact hreaches.inUse (.of_load hload)

end Simulation

end FieldFlow
