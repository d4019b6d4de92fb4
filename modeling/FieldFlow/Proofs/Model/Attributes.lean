import FieldFlow.Proofs.Model.Names
import FieldFlow.Proofs.Scalar.Fraction

/-!
# Proofs/Model/Attributes — what becomes of what was declared

A built field shows each attribute of its declaration, with two exceptions. An initial value on a
parameter or a size, and labels on anything but a size, are looked at by no one
(`FieldKind.Overlooks`). Any other attribute that does not apply to the kind of its field is refused
(`reflects_or_overlooked`). Building blames the field that it builds and loading the first
field that it cannot build, so a refusal is always an answer about a field (`load_attributes`).
-/

namespace FieldFlow

variable {α : Type}

/-! ## Attributes and kinds -/

/-- Whether a kind of field has a use for what is under a key. -/
def FieldKind.Uses (kind : FieldKind) (key : String) : Prop :=
  match key with
  | "func" | "size" => kind ≠ .size
  | "value" => kind = .parameter ∨ kind = .size
  | "initial" => kind = .dynamic
  | "labels" => kind = .size
  | _ => True

/-- **What goes unnoticed**: an initial value on a field that is neither integrated nor computed,
and labels on a field that is no size. -/
def FieldKind.Overlooks (kind : FieldKind) (key : String) : Prop :=
  key = "initial" ∧ (kind = .parameter ∨ kind = .size) ∨ key = "labels" ∧ kind ≠ .size

/-- An attribute that its key may hold and that applies to the kind of field. A size may say that it
has no axes. -/
def Attribute.AppliesTo (kind : FieldKind) (key : String) (held : Attribute α) : Prop :=
  held.sort ∈ sortsOfKey key ∧ (kind.Uses key ∨ key = "size" ∧ held = .names [])

/-- **A field shows an attribute.** A number of sectors is as the machine counts it. -/
def Field.Reflects [Scalar α] (f : Field α) (key : String) (held : Attribute α) : Prop :=
  match key, held with
  | "func", .function g => f.function = some g
  | "value", .value v => f.value = some v ∨
      ∃ c n, v = .scalar c ∧ Scalar.toCount? c = some n ∧ f.sectors = some (.count n)
  | "value", .names labels | "labels", .names labels => f.sectors = some (.labels labels)
  | "initial", .value v => f.initial = some v
  | "size", .names axes => axes <+: [f.axes.1, f.axes.2]
  | "units", .text t => f.metadata.units = t
  | "definition", .text t => f.metadata.definition = t
  | "com", .text t => f.metadata.comment = t
  | "symbol", .text t => f.metadata.symbol = t
  | "group", .text t => f.metadata.group = t
  | _, _ => False

/-! ## Blame -/

/-- **A step that blames one field**: it fails with nothing but a defect of that field. -/
def Blames {β : Type} (name : String) (x : Except (Error α) β) : Prop :=
  ∀ e, x = .error e → ∃ defect, e = .malformedField name defect

section Blame

variable {β γ : Type} {name : String}

theorem blames_ok (name : String) (b : β) : Blames name (.ok b : Except (Error α) β) :=
  fun _ h => nomatch h

theorem blames_error (name : String) (defect : Defect α) :
    Blames name (.error (.malformedField name defect) : Except (Error α) β) :=
  fun _ h => ⟨defect, (Except.error.inj h).symm⟩

theorem Blames.bind {x : Except (Error α) β} {f : β → Except (Error α) γ} (hx : Blames name x)
    (hf : ∀ b, Blames name (f b)) : Blames name (x >>= f) := by
  intro e h
  rcases bind_eq_error_iff.1 h with hfirst | ⟨b, -, hrest⟩
  · exact hx e hfirst
  · exact hf b e hrest

end Blame

section Declared

variable {name : String} {d : Declaration α} {defaults : Option (Defaults α)}

theorem blames_check (name : String) (d : Declaration α) : Blames name (d.check name) := by
  unfold Declaration.check
  split
  · exact blames_error name _
  · exact blames_ok name _

theorem blames_initialOf (name : String) (d : Declaration α) (defaults : Option (Defaults α)) :
    Blames name (initialOf name d defaults) := by
  unfold initialOf
  split
  · exact blames_ok name _
  split
  · exact blames_ok name _
  · exact blames_error name _

theorem blames_parameterValue (name : String) (d : Declaration α) (defaults : Option (Defaults α)) :
    Blames name (parameterValue name d defaults) := by
  unfold parameterValue
  split
  · exact blames_ok name _
  · exact blames_error name _
  split
  · exact blames_ok name _
  · exact blames_error name _

theorem blames_axesOf (name : String) (kind : FieldKind) (d : Declaration α) :
    Blames name (axesOf name kind d) := by
  unfold axesOf
  split
  · exact blames_ok name _
  · split
    · exact blames_error name _
    split
    · exact blames_error name _
    · exact blames_ok name _
  · exact blames_error name _

variable [Scalar α]

theorem blames_sectorsOf (name : String) (d : Declaration α) : Blames name (sectorsOf name d) := by
  unfold sectorsOf
  extract_lets refuse checked
  have hrefuse : ∀ defect, Blames name (refuse defect) := blames_error name
  have hchecked : ∀ sectors, Blames name (checked sectors) := fun sectors => by
    simp only [checked]
    split
    · exact hrefuse _
    · exact blames_ok name _
  split
  case h_1 | h_5 | h_6 => exact (hrefuse _).bind hchecked
  case h_2 | h_3 => exact (blames_ok name _).bind hchecked
  case h_4 =>
    split
    · exact (blames_ok name _).bind hchecked
    · exact (hrefuse _).bind hchecked

theorem blames_completeField (d : Declaration α) (defaults : Option (Defaults α))
    (field : Field α) : Blames field.name (completeField d defaults field) := by
  unfold completeField
  dsimp only
  split
  case h_1 | h_2 | h_7 => exact blames_error field.name _
  case h_3 =>
    split
    · exact blames_error field.name _
    · exact (blames_initialOf _ d defaults).bind fun _ => blames_ok field.name _
  case h_4 =>
    split
    · exact blames_error field.name _
    split
    · exact blames_error field.name _
    · exact blames_ok field.name _
  case h_5 =>
    split
    · exact blames_ok field.name _
    · exact blames_error field.name _
    · exact blames_error field.name _
  case h_6 =>
    exact (blames_parameterValue _ d defaults).bind fun _ => blames_ok field.name _
  case h_8 => exact (blames_sectorsOf _ d).bind fun _ => blames_ok field.name _

/-- **Building a field** blames that field. -/
theorem blames_buildField (registry : Registry α) (category : Category) (name : String)
    (d : Declaration α) : Blames name (buildField registry category name d) := by
  refine (blames_check name d).bind fun _ => ?_
  have hrest := (blames_completeField d (registry.get? name) (d.bare registry category name)).bind
    fun field => (blames_axesOf name (kindOf category d) d).bind fun axes =>
      blames_ok name { field with axes := axes }
  dsimp only
  split
  · exact (blames_error name _).bind fun _ => hrest
  · exact hrest

end Declared

/-! ## One declaration -/

/-- Attributes without a defect have different keys, and hold what their keys may hold. -/
theorem of_firstDefect? : ∀ {attributes : List (String × Attribute α)} {seen : List String},
    Declaration.firstDefect? seen attributes = none →
      (attributes.map Prod.fst).Nodup ∧
        ∀ a ∈ attributes, a.1 ∉ seen ∧ a.2.sort ∈ sortsOfKey a.1
  | [], _, _ => ⟨List.nodup_nil, fun _ h => absurd h List.not_mem_nil⟩
  | (key, held) :: rest, seen, h => by
      rw [Declaration.firstDefect?] at h
      split at h
      · exact nomatch h
      split at h
      · exact nomatch h
      rename_i hseen
      split at h
      · exact nomatch h
      rename_i hsort
      obtain ⟨hnodup, hrest⟩ := of_firstDefect? h
      have hnew : ∀ a ∈ rest, a.1 ∉ seen ∧ a.1 ≠ key := fun a ha => by
        simpa using (hrest a ha).1
      refine ⟨List.nodup_cons.2 ⟨fun hmem => ?_, hnodup⟩, List.forall_mem_cons.2 ⟨⟨?_, ?_⟩, ?_⟩⟩
      · obtain ⟨a, ha, hkey⟩ := List.mem_map.1 hmem
        exact (hnew a ha).2 hkey
      · simpa using hseen
      · simpa using hsort
      · exact fun a ha => ⟨(hnew a ha).1, (hrest a ha).2⟩

/-- **An attribute of a declaration that passes its check** is the one under its key. -/
theorem of_check {name : String} {d : Declaration α} (h : d.check name = .ok ()) {key : String}
    {held : Attribute α} (hmem : (key, held) ∈ d.attributes) :
    d.get? key = some held ∧ held.sort ∈ sortsOfKey key := by
  have hnone : Declaration.firstDefect? [] d.attributes = none := by
    unfold Declaration.check at h
    split at h
    · exact nomatch h
    · assumption
  obtain ⟨hnodup, hall⟩ := of_firstDefect? hnone
  refine ⟨?_, (hall _ hmem).2⟩
  rw [Declaration.get?, (OrderedMap.find?_eq_some_iff hnodup).2 ⟨hmem, rfl⟩, Option.map_some]

section Built

variable [Scalar α] {registry : Registry α} {category : Category} {name : String}
  {d : Declaration α} {f : Field α}

theorem metadata_of_buildField (h : buildField registry category name d = .ok f) :
    f.metadata = mergeMetadata d (registry.get? name) := by
  obtain ⟨g, axes, hg, -, rfl⟩ := exists_completed h
  cases completion_of_completeField hg <;> rfl

/-- A declared function is that of the field, which is no size. -/
theorem function_attribute_of_buildField (h : buildField registry category name d = .ok f)
    {g : Function α} (hget : d.get? "func" = some (.function g)) :
    f.kind ≠ .size ∧ f.function = some g := by
  have hfunction : f.function = some g := by
    rw [function_of_buildField h, Declaration.function?, hget]
  refine ⟨fun hsize => ?_, hfunction⟩
  have hmade := (of_buildField h).2.2.1
  rw [Field.WellMade, hsize] at hmade
  cases hfunction.symm.trans hmade.1

/-- The axes of a built field begin with those that it was given. -/
theorem axes_of_buildField (h : buildField registry category name d = .ok f) {axes : List String}
    (hget : d.get? "size" = some (.names axes)) :
    axes <+: [f.axes.1, f.axes.2] ∧ (f.kind = .size → axes = []) := by
  have hkind := (of_buildField h).2.1
  obtain ⟨-, -, g, found, -, haxes, rfl⟩ := buildField_eq_ok_iff.1 h
  unfold axesOf at haxes
  rw [hget] at haxes
  dsimp only at haxes hkind ⊢
  rw [← hkind] at haxes
  split at haxes
  · exact nomatch haxes
  rename_i hlength
  split at haxes
  · exact nomatch haxes
  rename_i hsize
  obtain rfl := Except.ok.inj haxes
  refine ⟨?_, fun heq => by simpa [heq] using hsize⟩
  rcases axes with _ | ⟨first, _ | ⟨second, _ | ⟨third, rest⟩⟩⟩
  · exact List.nil_prefix
  · exact ⟨_, rfl⟩
  · exact ⟨[], rfl⟩
  · exact absurd (by simp) hlength

/-- An initial value is what a dynamic field starts from; an algebraic one has none. -/
theorem initial_of_buildField (h : buildField registry category name d = .ok f) {v : Value α}
    (hget : d.get? "initial" = some (.value v)) :
    f.kind = .dynamic ∧ f.initial = some v ∨
      (f.kind = .parameter ∨ f.kind = .size) ∧ f.initial = none := by
  obtain ⟨g, axes, hg, -, rfl⟩ := exists_completed h
  cases completion_of_completeField hg with
  | dynamic hkind _ _ hinitial =>
    unfold initialOf at hinitial
    rw [hget] at hinitial
    exact .inl ⟨hkind, congrArg some (Except.ok.inj hinitial).symm⟩
  | algebraic _ _ _ hnone => exact nomatch hget.symm.trans hnone
  | computed hkind => exact .inr ⟨.inl hkind, rfl⟩
  | fixed hkind => exact .inr ⟨.inl hkind, rfl⟩
  | size hkind => exact .inr ⟨.inr hkind, rfl⟩

/-- Labels are the sectors of a size; no other field has sectors. -/
theorem labels_of_buildField (h : buildField registry category name d = .ok f)
    {labels : List String} (hget : d.get? "labels" = some (.names labels)) :
    f.kind = .size ∧ f.sectors = some (.labels labels) ∨ f.kind ≠ .size ∧ f.sectors = none := by
  have hlabels : d.labels? = some labels := by rw [Declaration.labels?, hget]
  obtain ⟨g, axes, hg, -, rfl⟩ := exists_completed h
  cases completion_of_completeField hg with
  | dynamic hkind | algebraic hkind | computed hkind | fixed hkind =>
    refine .inr ⟨fun heq => ?_, rfl⟩
    exact nomatch hkind.symm.trans heq
  | size hkind _ hsectors =>
    cases (of_sectorsOf hsectors).1 with
    | labelled _ hfound =>
      obtain rfl := Option.some.inj (hlabels.symm.trans hfound)
      exact .inl ⟨hkind, rfl⟩
    | listed _ hnone | counted _ hnone => exact nomatch hlabels.symm.trans hnone

/-- A value is that of a parameter, or the sectors of a size. -/
theorem value_of_buildField (h : buildField registry category name d = .ok f) {held : Attribute α}
    (hget : d.get? "value" = some held) : (f.kind = .parameter ∨ f.kind = .size) ∧
      f.Reflects "value" held := by
  obtain ⟨g, axes, hg, -, rfl⟩ := exists_completed h
  cases completion_of_completeField hg with
  | dynamic _ _ hnone | algebraic _ _ hnone | computed _ _ hnone =>
    exact nomatch hget.symm.trans hnone
  | fixed hkind _ hvalue =>
    unfold parameterValue at hvalue
    rw [hget] at hvalue
    refine ⟨.inl hkind, ?_⟩
    cases held with
    | value v => exact .inl (congrArg some (Except.ok.inj hvalue).symm)
    | function | text | names => exact nomatch hvalue
  | size hkind _ hsectors =>
    refine ⟨.inr hkind, ?_⟩
    cases (of_sectorsOf hsectors).1 with
    | labelled hnone => exact nomatch hget.symm.trans hnone
    | listed hfound =>
      obtain rfl := Option.some.inj (hget.symm.trans hfound)
      rfl
    | counted hfound _ hcount =>
      obtain rfl := Option.some.inj (hget.symm.trans hfound)
      exact .inr ⟨_, _, rfl, hcount, rfl⟩

/-- **Each attribute of a built field** applies to its kind and is shown, or goes unnoticed. -/
theorem reflects_or_overlooked (h : buildField registry category name d = .ok f) {key : String}
    {held : Attribute α} (hmem : (key, held) ∈ d.attributes) :
    held.AppliesTo f.kind key ∧ f.Reflects key held ∨
      f.kind.Overlooks key ∧ ¬ f.Reflects key held := by
  obtain ⟨hget, hsort⟩ := of_check (buildField_eq_ok_iff.1 h).1 hmem
  have hsorted := hsort
  unfold sortsOfKey at hsorted
  split at hsorted
  case h_1 =>
    cases held with
    | function g =>
      obtain ⟨hkind, hfunction⟩ := function_attribute_of_buildField h hget
      exact .inl ⟨⟨hsort, .inl hkind⟩, hfunction⟩
    | value | text | names => simp [Attribute.sort] at hsorted
  case h_2 =>
    obtain ⟨hkind, hreflects⟩ := value_of_buildField h hget
    exact .inl ⟨⟨hsort, .inl hkind⟩, hreflects⟩
  case h_3 =>
    cases held with
    | value v =>
      rcases initial_of_buildField h hget with ⟨hkind, hinitial⟩ | ⟨hkind, hnone⟩
      · exact .inl ⟨⟨hsort, .inl hkind⟩, hinitial⟩
      · refine .inr ⟨.inl ⟨rfl, hkind⟩, fun hinitial => ?_⟩
        cases hnone.symm.trans hinitial
    | function | text | names => simp [Attribute.sort] at hsorted
  case h_4 =>
    cases held with
    | names axes =>
      obtain ⟨hbegins, hsize⟩ := axes_of_buildField h hget
      refine .inl ⟨⟨hsort, ?_⟩, hbegins⟩
      by_cases hkind : f.kind = .size
      · exact .inr ⟨rfl, by rw [hsize hkind]⟩
      · exact .inl hkind
    | function | value | text => simp [Attribute.sort] at hsorted
  case h_5 =>
    cases held with
    | names labels =>
      rcases labels_of_buildField h hget with ⟨hkind, hsectors⟩ | ⟨hkind, hnone⟩
      · exact .inl ⟨⟨hsort, .inl hkind⟩, hsectors⟩
      · refine .inr ⟨.inr ⟨rfl, hkind⟩, fun hsectors => ?_⟩
        cases hnone.symm.trans hsectors
    | function | value | text => simp [Attribute.sort] at hsorted
  case h_6 | h_7 | h_8 | h_9 | h_10 =>
    cases held with
    | text t =>
      refine .inl ⟨⟨hsort, .inl trivial⟩, ?_⟩
      simp [Field.Reflects, metadata_of_buildField h, mergeMetadata, Declaration.text?, hget]
    | function | value | names => simp [Attribute.sort] at hsorted
  case h_11 => exact absurd hsorted List.not_mem_nil

end Built

/-! ## The whole model -/

theorem Attribute.AppliesTo.not_overlooks {kind : FieldKind} {key : String} {held : Attribute α}
    (h : held.AppliesTo kind key) : ¬ kind.Overlooks key := by
  rintro (⟨rfl, hkind⟩ | ⟨rfl, hkind⟩)
  · rcases h.2 with (hdynamic : kind = .dynamic) | ⟨hkey, -⟩
    · rcases hkind with rfl | rfl <;> exact nomatch hdynamic
    · exact absurd hkey (by decide)
  · rcases h.2 with (hsize : kind = .size) | ⟨hkey, -⟩
    · exact hkind hsize
    · exact absurd hkey (by decide)

variable [Scalar α] {registry : Registry α} {d : Description α}

theorem blames_declare (registry : Registry α) (acc : FieldMap α × OrderedMap Category)
    (entry : Category × String × Declaration α) :
    Blames entry.2.1 (declare registry acc entry) := by
  have hrest := (blames_buildField registry entry.1 entry.2.1 entry.2.2).bind fun field =>
    blames_ok (α := α) entry.2.1 (acc.1.insert entry.2.1 field, acc.2.insert entry.2.1 entry.1)
  unfold declare
  split
  · exact (blames_error entry.2.1 _).bind fun _ => hrest
  · exact hrest

/-- **What cannot be built is blamed on a declared field.** -/
theorem of_buildFields_eq_error {e : Error α} (h : buildFields registry d.declarations = .error e) :
    ∃ name defect, d.Declares name ∧ load registry d = .error (.malformedField name defect) := by
  have hload : load registry d = .error e := by
    unfold load
    rw [h]
    rfl
  have hfold : d.declarations.foldlM (declare registry) (.empty, .empty) = .error e := by
    rcases bind_eq_error_iff.1 h with hfold | ⟨acc, -, hpure⟩
    · exact hfold
    · exact absurd hpure pure_ne_error
  obtain ⟨entry, hentry, acc, hdeclare⟩ := exists_of_foldlM_eq_error hfold
  obtain ⟨defect, rfl⟩ := blames_declare registry acc entry e hdeclare
  exact ⟨entry.2.1, defect, List.mem_map_of_mem hentry, hload⟩

/-- **Attributes of a description.** If it loads, each attribute of each declared field is shown by
the field, unless it is one that goes unnoticed. An attribute that does not apply to the kind of its
field and does not go unnoticed is refused: the field cannot be built, and loading fails with a
defect of a declared field. -/
theorem load_attributes (registry : Registry α) (d : Description α) :
    (∀ m, load registry d = .ok m → ∀ category name e, (category, name, e) ∈ d.declarations →
      ∃ f, m.field? name = some f ∧ f.kind = kindOf category e ∧ ∀ key held,
        (key, held) ∈ e.attributes → (f.Reflects key held ↔ ¬ f.kind.Overlooks key)) ∧
    ∀ category name e, (category, name, e) ∈ d.declarations → ∀ key held,
      (key, held) ∈ e.attributes → ¬ held.AppliesTo (kindOf category e) key →
        ¬ (kindOf category e).Overlooks key →
          (∃ defect, buildField registry category name e = .error (.malformedField name defect)) ∧
          ∃ blamed defect, d.Declares blamed ∧
            load registry d = .error (.malformedField blamed defect) := by
  constructor
  · intro m hload category name e hentry
    obtain ⟨f, hbuild, hf⟩ := (loadedFrom_of_load hload).declared hentry
    refine ⟨f, hf, (of_buildField hbuild).2.1, fun key held hmem => ?_⟩
    rcases reflects_or_overlooked hbuild hmem with ⟨happlies, hreflects⟩ | ⟨hoverlooks, hlost⟩
    · exact iff_of_true hreflects happlies.not_overlooks
    · exact iff_of_false hlost (not_not_intro hoverlooks)
  · intro category name e hentry key held hmem hforeign hnoticed
    have hrefused : ∀ f, buildField registry category name e ≠ .ok f := by
      intro f hbuild
      have hshown := reflects_or_overlooked hbuild hmem
      rw [(of_buildField hbuild).2.1] at hshown
      rcases hshown with ⟨happlies, -⟩ | ⟨hoverlooks, -⟩
      · exact hforeign happlies
      · exact hnoticed hoverlooks
    constructor
    · cases hbuild : buildField registry category name e with
      | ok f => exact absurd hbuild (hrefused f)
      | error cause =>
        obtain ⟨defect, rfl⟩ := blames_buildField registry category name e cause hbuild
        exact ⟨defect, rfl⟩
    · cases hbuilt : buildFields registry d.declarations with
      | error cause => exact of_buildFields_eq_error hbuilt
      | ok declared =>
        obtain ⟨origins, hfold⟩ := buildFields_eq_ok_iff.1 hbuilt
        obtain ⟨f, hbuild, -⟩ := (of_foldlM_declare hfold).2 _ hentry
        exact absurd hbuild (hrefused f)

/-! ## A price that starts somewhere -/

/-- A value and an initial value. -/
def startingPrice : Declaration Fraction :=
  ⟨[("value", .value (.scalar (.of 1))), ("initial", .value (.scalar (.of 2)))]⟩

/-- The price as a parameter. -/
def fixedPrice : Description Fraction where
  name := "fixed price"
  parameter := .ofList [("price", startingPrice)]

/-- The price as a field that is recomputed. -/
def computedPrice : Description Fraction where
  name := "computed price"
  statevar := .ofList [("price", startingPrice)]

/-- As a parameter the price has its value; as a computed field it is refused. -/
theorem price_attributes :
    (∃ m f, load .empty fixedPrice = .ok m ∧ m.field? "price" = some f ∧
      (.parameter, "price", startingPrice) ∈ fixedPrice.declarations ∧
      f.Reflects "value" (.value (.scalar (.of 1)))) ∧
    (.statevar, "price", startingPrice) ∈ computedPrice.declarations ∧
    ∃ blamed defect, computedPrice.Declares blamed ∧
      load .empty computedPrice = .error (.malformedField blamed defect) := by
  have hloads : (load .empty fixedPrice).toOption.isSome = true := by decide +kernel
  obtain ⟨m, hm⟩ := Option.isSome_iff_exists.1 hloads
  have hm := toOption_eq_some_iff.1 hm
  have hfixed : (.parameter, "price", startingPrice) ∈ fixedPrice.declarations := .head _
  have hcomputed : (.statevar, "price", startingPrice) ∈ computedPrice.declarations := .head _
  obtain ⟨f, hf, -, hshown⟩ := (load_attributes .empty fixedPrice).1 m hm _ _ _ hfixed
  have hvalue : ¬ f.kind.Overlooks "value" := by simp [FieldKind.Overlooks]
  have hforeign : ¬ (Attribute.value (.scalar (Fraction.of 1))).AppliesTo
      (kindOf .statevar startingPrice) "value" := by
    simp [Attribute.AppliesTo, FieldKind.Uses, kindOf]
  have hnoticed : ¬ (kindOf .statevar startingPrice).Overlooks "value" := by
    simp [FieldKind.Overlooks]
  exact ⟨⟨m, f, hm, hf, hfixed, (hshown "value" _ (.head _)).2 hvalue⟩, hcomputed,
    ((load_attributes .empty computedPrice).2 _ _ _ hcomputed "value" _ (.head _) hforeign
      hnoticed).2⟩

/-- The initial value of the parameter is lost without a word. -/
theorem fixedPrice_overlooked : ∃ m f, load .empty fixedPrice = .ok m ∧
    (.parameter, "price", startingPrice) ∈ fixedPrice.declarations ∧
    ("initial", .value (.scalar (.of 2))) ∈ startingPrice.attributes ∧
    m.field? "price" = some f ∧ f.kind = .parameter ∧ f.initial = none ∧
    ¬ f.Reflects "initial" (.value (.scalar (.of 2))) := by
  have hloads : ((load .empty fixedPrice).toOption.map fun m =>
      (m.field? "price").map fun f => (f.kind, f.initial.isNone)) =
        some (some (.parameter, true)) := by
    decide +kernel
  obtain ⟨m, hm, hprice⟩ := Option.map_eq_some_iff.1 hloads
  obtain ⟨f, hf, hfound⟩ := Option.map_eq_some_iff.1 hprice
  obtain ⟨hkind, hinitial⟩ := Prod.mk.inj hfound
  have hnone : f.initial = none := Option.isNone_iff_eq_none.1 hinitial
  exact ⟨m, f, toOption_eq_some_iff.1 hm, .head _, .tail _ (.head _), hf, hkind, hnone,
    fun hshown => nomatch hnone.symm.trans hshown⟩

end FieldFlow
