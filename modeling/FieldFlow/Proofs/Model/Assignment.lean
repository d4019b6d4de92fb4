import FieldFlow.Proofs.Model.Soundness
import FieldFlow.Simulation

/-!
# Proofs/Model/Assignment — what an assignment leaves of a model

An assignment gives a field another value or initial value, and takes the function from a parameter
that gets a value of its own. Names, kinds, axes, the two orders and the list of auxiliary fields
stay, and no field reads more than before, so a model that could be evaluated still can
(`Model.InUse.evaluable`).
-/

namespace FieldFlow

variable {α : Type}

/-! ## Models that differ in what they are given -/

/-- **What an assignment may change of a field.** -/
structure Field.Reassigned (f g : Field α) : Prop where
  name : g.name = f.name
  kind : g.kind = f.kind
  axes : g.axes = f.axes
  sectors : g.sectors = f.sectors
  /-- Only a parameter loses its function. -/
  function : g.function = f.function ∨ f.kind = .parameter ∧ g.function = none
  initial : f.initial.isSome → g.initial.isSome

namespace Field.Reassigned

variable {f g : Field α}

theorem refl (f : Field α) : f.Reassigned f := ⟨rfl, rfl, rfl, rfl, .inl rfl, id⟩

theorem trans {e : Field α} (h : e.Reassigned f) (h' : f.Reassigned g) : e.Reassigned g where
  name := h'.name.trans h.name
  kind := h'.kind.trans h.kind
  axes := h'.axes.trans h.axes
  sectors := h'.sectors.trans h.sectors
  function := by
    rcases h'.function with heq | ⟨hkind, hnone⟩
    · rw [heq]
      exact h.function
    · exact .inr ⟨h.kind.symm.trans hkind, hnone⟩
  initial := fun hinitial => h'.initial (h.initial hinitial)

theorem inputs_subset (h : f.Reassigned g) : ∀ input ∈ g.inputs, input ∈ f.inputs := by
  intro input hinput
  rw [Field.mem_inputs_iff] at hinput ⊢
  obtain ⟨e, he, hmem⟩ := hinput
  rcases h.function with heq | ⟨-, hnone⟩
  · exact ⟨e, heq ▸ he, hmem⟩
  · exact nomatch he.symm.trans hnone

theorem isSome_function (h : f.Reassigned g) (hkind : f.kind ≠ .parameter)
    (hf : f.function.isSome) : g.function.isSome := by
  rcases h.function with heq | ⟨hparameter, -⟩
  · rwa [heq]
  · exact absurd hparameter hkind

theorem isComputed (h : f.Reassigned g) (hg : g.isComputed = true) : f.isComputed = true := by
  rcases h.function with heq | ⟨-, hnone⟩
  · rwa [Field.isComputed, ← heq]
  · rw [Field.isComputed, hnone] at hg
    exact absurd hg Bool.false_ne_true

end Field.Reassigned

/-- **A model with other values**, field by field. -/
structure Model.Reassigned (m m' : Model α) : Prop where
  kept : ∀ {name f}, m.field? name = some f → ∃ g, m'.field? name = some g ∧ f.Reassigned g
  origin : ∀ {name g}, m'.field? name = some g → ∃ f, m.field? name = some f ∧ f.Reassigned g
  order : m'.order = m.order
  parameterOrder : m'.parameterOrder = m.parameterOrder
  auxiliary : m'.auxiliary = m.auxiliary

namespace Model.Reassigned

variable {m m' : Model α}

theorem refl (m : Model α) : m.Reassigned m :=
  ⟨fun hf => ⟨_, hf, .refl _⟩, fun hg => ⟨_, hg, .refl _⟩, rfl, rfl, rfl⟩

theorem trans {m'' : Model α} (h : m.Reassigned m') (h' : m'.Reassigned m'') :
    m.Reassigned m'' where
  kept := fun hf => by
    obtain ⟨g, hg, hfg⟩ := h.kept hf
    obtain ⟨k, hk, hgk⟩ := h'.kept hg
    exact ⟨k, hk, hfg.trans hgk⟩
  origin := fun hk => by
    obtain ⟨g, hg, hgk⟩ := h'.origin hk
    obtain ⟨f, hf, hfg⟩ := h.origin hg
    exact ⟨f, hf, hfg.trans hgk⟩
  order := h'.order.trans h.order
  parameterOrder := h'.parameterOrder.trans h.parameterOrder
  auxiliary := h'.auxiliary.trans h.auxiliary

theorem mayRead (h : m.Reassigned m') {f g : Field α} (hfg : f.Reassigned g) {input : String}
    (hread : MayRead m.fields f input) : MayRead m'.fields g input := by
  unfold MayRead at hread ⊢
  rw [hfg.name, hfg.kind]
  split at hread
  · rwa [if_pos (by assumption)]
  · rw [if_neg (by assumption)]
    obtain ⟨hown, read, hget, hvaries⟩ := hread
    obtain ⟨read', hget', hreassigned⟩ := h.kept hget
    exact ⟨hown, read', hget', by rwa [hreassigned.kind]⟩

/-- An order of evaluation stays one; it may come to list a parameter that is computed no more. -/
theorem evaluationOrder (h : m.Reassigned m') {kind : FieldKind} {order : List String}
    (horder : EvaluationOrder m.fields kind order) : EvaluationOrder m'.fields kind order where
  nodup := horder.nodup
  listed := fun name hname => by
    obtain ⟨f, hf, hkind⟩ := horder.listed name hname
    obtain ⟨g, hg, hfg⟩ := h.kept hf
    exact ⟨g, hg, hfg.kind.trans hkind⟩
  complete := fun hg hkind hcomputed => by
    obtain ⟨f, hf, hfg⟩ := h.origin hg
    exact horder.complete hf (hfg.kind.symm.trans hkind) (hfg.isComputed hcomputed)
  follows := fun hg hkind read hread hmem => by
    obtain ⟨f, hf, hfg⟩ := h.origin hg
    exact horder.follows hf (hfg.kind.symm.trans hkind) read (hfg.inputs_subset read hread) hmem

/-- **A model that can be evaluated still can with other values.** -/
theorem evaluable (h : m.Reassigned m') (hm : m.Evaluable) : m'.Evaluable where
  named := fun name g hg => by
    obtain ⟨f, hf, hfg⟩ := h.origin hg
    exact hfg.name.trans (hm.named name f hf)
  reads := fun hg input hinput => by
    obtain ⟨f, hf, hfg⟩ := h.origin hg
    exact h.mayRead hfg (hm.reads hf input (hfg.inputs_subset input hinput))
  dynamic := fun hg hkind => by
    obtain ⟨f, hf, hfg⟩ := h.origin hg
    have hkind : f.kind = .dynamic := hfg.kind.symm.trans hkind
    obtain ⟨hfunction, hinitial⟩ := hm.dynamic hf hkind
    exact ⟨hfg.isSome_function (by simp [hkind]) hfunction, hfg.initial hinitial⟩
  algebraic := fun hg hkind => by
    obtain ⟨f, hf, hfg⟩ := h.origin hg
    have hkind : f.kind = .algebraic := hfg.kind.symm.trans hkind
    exact hfg.isSome_function (by simp [hkind]) (hm.algebraic hf hkind)
  sized := fun hg hkind => by
    obtain ⟨f, hf, hfg⟩ := h.origin hg
    obtain ⟨hnone, hsectors⟩ := hm.sized hf (hfg.kind.symm.trans hkind)
    rw [hfg.sectors]
    refine ⟨?_, hsectors⟩
    rcases hfg.function with heq | ⟨-, hnone'⟩
    · exact heq.trans hnone
    · exact hnone'
  axes := fun hg axis haxis => by
    obtain ⟨f, hf, hfg⟩ := h.origin hg
    rw [hfg.axes] at haxis
    refine (hm.axes hf axis haxis).imp_right fun ⟨size, hsize, hkind⟩ => ?_
    obtain ⟨size', hsize', hreassigned⟩ := h.kept hsize
    exact ⟨size', hsize', hreassigned.kind.trans hkind⟩
  order := h.order ▸ h.evaluationOrder hm.order
  parameterOrder := h.parameterOrder ▸ h.evaluationOrder hm.parameterOrder

end Model.Reassigned

/-! ## Assignments -/

theorem field?_withField (s : Simulation α) (name : String) (u : Field α → Field α)
    (name' : String) : (s.withField name u).model.field? name' =
      if name' = name then (s.model.field? name).map u else s.model.field? name' :=
  OrderedMap.get?_modify s.model.fields name u name'

theorem reassigned_withField (s : Simulation α) {name : String} {u : Field α → Field α}
    (hu : ∀ f, s.model.field? name = some f → f.Reassigned (u f)) :
    s.model.Reassigned (s.withField name u).model where
  kept := fun {name' f} hf => by
    rw [field?_withField]
    split
    · rename_i heq
      obtain rfl := heq
      exact ⟨u f, by rw [hf, Option.map_some], hu f hf⟩
    · exact ⟨f, hf, .refl f⟩
  origin := fun {name' g} hg => by
    rw [field?_withField] at hg
    split at hg
    · rename_i heq
      obtain rfl := heq
      obtain ⟨f, hf, rfl⟩ := Option.map_eq_some_iff.1 hg
      exact ⟨f, hf, hu f hf⟩
    · exact ⟨g, hg, .refl g⟩
  order := rfl
  parameterOrder := rfl
  auxiliary := rfl

/-- What an assignment has changed is the simulation it ends in. -/
theorem resultOf_eq_ok_iff {s next : Simulation α}
    {changed : Except (Error α) (Simulation α)} :
    s.resultOf changed = (next, .ok ()) ↔ changed = .ok next := by
  cases changed <;> simp [Simulation.resultOf]

section Assignment

variable [Scalar α] {s next : Simulation α} {name : String}

theorem reassigned_of_setSetting {v : Value α} (h : s.setSetting name v = .ok next) :
    s.model.Reassigned next.model := by
  unfold Simulation.setSetting at h
  split at h
  · split at h
    · obtain ⟨count, -, h⟩ := bind_eq_ok_iff.1 h
      obtain rfl := pure_eq_ok_iff.1 h
      exact .refl s.model
    · obtain ⟨count, -, h⟩ := bind_eq_ok_iff.1 h
      obtain rfl := pure_eq_ok_iff.1 h
      exact .refl s.model
    · obtain rfl := Except.ok.inj h
      exact reassigned_withField s fun f _ => ⟨rfl, rfl, rfl, rfl, .inl rfl, fun _ => rfl⟩
    · exact nomatch h
  · exact nomatch h

theorem reassigned_of_setValue {v : Value α} (h : s.setValue name v = .ok next) :
    s.model.Reassigned next.model := by
  obtain ⟨-, -, h⟩ := bind_eq_ok_iff.1 h
  split at h
  · exact reassigned_of_setSetting h
  rename_i f hf
  split at h
  · obtain rfl := pure_eq_ok_iff.1 h
    exact reassigned_withField s fun f _ => ⟨rfl, rfl, rfl, rfl, .inl rfl, fun _ => rfl⟩
  · rename_i hkind
    obtain rfl := pure_eq_ok_iff.1 h
    refine reassigned_withField s fun f' hf' => ⟨rfl, rfl, rfl, rfl, .inr ⟨?_, rfl⟩, id⟩
    rwa [Option.some.inj (hf'.symm.trans hf)]
  · exact absurd h throw_ne_ok
  · exact absurd h throw_ne_ok

/-- **An assignment that succeeds** changes nothing of the model but values. -/
theorem reassigned_of_setField {a : Assignment α} (h : s.setField name a = (next, .ok ())) :
    s.model.Reassigned next.model := by
  cases a with
  | value v => exact reassigned_of_setValue (resultOf_eq_ok_iff.1 h)
  | drawn d runs =>
    unfold Simulation.setField at h
    dsimp only at h
    split at h
    · exact nomatch (Prod.mk.inj h).2
    · rename_i values generator hsample
      have hdrawn := reassigned_of_setValue (resultOf_eq_ok_iff.1 h)
      exact ⟨hdrawn.kept, hdrawn.origin, hdrawn.order, hdrawn.parameterOrder,
        hdrawn.auxiliary⟩

/-- **A model that was loaded**, and any number of assignments that succeeded since. -/
inductive Model.InUse (registry : Registry α) (d : Description α) : Model α → Prop
  | loaded {m : Model α} : load registry d = .ok m → Model.InUse registry d m
  | assigned {s next : Simulation α} {name : String} {a : Assignment α} :
      Model.InUse registry d s.model → s.setField name a = (next, .ok ()) →
        Model.InUse registry d next.model

theorem Model.InUse.evaluable {registry : Registry α} {d : Description α} {m : Model α}
    (h : m.InUse registry d) : m.Evaluable := by
  induction h with
  | loaded hload => exact (loadedFrom_of_load hload).sound.toEvaluable
  | assigned _ hset ih => exact (reassigned_of_setField hset).evaluable ih

end Assignment

end FieldFlow
