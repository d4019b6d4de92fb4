import FieldFlow.Proofs.Model.Canonical

/-!
# Proofs/Model/VerifiedOrder — an order is accepted exactly if it is one

Where all algebraic fields are computed, a given order passes its checks exactly if it arranges them
(`verifyOrder_eq_ok_iff`). The order that is resolved does, and where none can be resolved there is
nothing to be accepted. The checks compare positions in the given order only after it is known to
list everything that they ask for (`verifyByPosition_eq`). All of it is put together in
`verifyOrder_exact`.
-/

namespace FieldFlow

variable {α : Type} {fields : FieldMap α} {order : List String}

/-! ## One check after another -/

theorem checkListed_eq_ok_iff : ∀ {order seen : List String},
    checkListed fields seen order = .ok () ↔ order.Nodup ∧ (∀ name ∈ order, name ∉ seen) ∧
      ∀ name ∈ order, ∃ f, fields.get? name = some f ∧ f.kind = .algebraic
  | [], _ => ⟨of_checkListed, fun _ => rfl⟩
  | name :: rest, seen => by
      refine ⟨of_checkListed, fun ⟨hnodup, hfresh, hlisted⟩ => ?_⟩
      rw [List.nodup_cons] at hnodup
      rw [List.forall_mem_cons] at hfresh hlisted
      obtain ⟨f, hf, hkind⟩ := hlisted.1
      have hrest : checkListed fields (seen ++ [name]) rest = .ok () := by
        refine checkListed_eq_ok_iff.2 ⟨hnodup.2, fun later hlater => ?_, hlisted.2⟩
        rw [List.mem_append, List.mem_singleton, not_or]
        exact ⟨hfresh.2 later hlater, ne_of_mem_of_not_mem hlater hnodup.1⟩
      rw [checkListed, hf]
      dsimp only
      rw [if_neg (not_not_intro hkind), if_neg (by simpa using hfresh.1), hrest]

theorem violation?_eq_none_iff {readers : List Reader} : violation? order readers = none ↔
    ∀ r ∈ readers, ∀ read ∈ r.reads, order.idxOf read < order.idxOf r.name := by
  refine ⟨idxOf_lt_of_violation?, fun h => List.findSome?_eq_none_iff.2 fun r hr => ?_⟩
  rw [Option.map_eq_none_iff, List.find?_eq_none]
  intro read hread
  simpa using h r hr read hread

theorem lacks_nothing_iff :
    (fields.values.find? fun f => f.kind = .algebraic && !order.contains f.name) = none ↔
      ∀ f ∈ fields.values, f.kind = .algebraic → f.name ∈ order := by
  simp

/-- **An order that passes all checks** is listed as it should be, lacks nothing and violates no
read. -/
theorem verifyOrder_of_checks {readers : List Reader}
    (hlisted : checkListed fields [] order = .ok ())
    (hcomplete : ∀ f ∈ fields.values, f.kind = .algebraic → f.name ∈ order)
    (hreaders : readersOf fields .algebraic = .ok readers)
    (hviolation : violation? order readers = none) : verifyOrder fields order = .ok order := by
  unfold verifyOrder
  rw [hlisted, lacks_nothing_iff.2 hcomplete, hreaders]
  dsimp only [bind, Except.bind, pure, Except.pure]
  rw [hviolation]

/-! ## Arrangements and nothing else -/

/-- Where all algebraic fields are computed, they are what is arranged. -/
theorem arranges_algebraic_iff
    (hcomputed : ∀ f ∈ fields.values, f.kind = .algebraic → f.isComputed = true) :
    Arranges fields .algebraic order ↔
      order.Perm ((fields.values.filter fun f => f.kind = .algebraic).map Field.name) ∧
        ∀ f ∈ fields.values, f.kind = .algebraic → ∀ read ∈ f.inputs,
          (∃ g ∈ fields.values, g.name = read ∧ g.kind = .algebraic) →
            order.idxOf read < order.idxOf f.name := by
  have hall : computedOf fields .algebraic = fields.values.filter fun f => f.kind = .algebraic := by
    refine List.filter_congr fun f hf => ?_
    by_cases hkind : f.kind = .algebraic
    · simp [hkind, hcomputed f hf hkind]
    · simp [hkind]
  have hmem : ∀ f, f ∈ computedOf fields .algebraic ↔ f ∈ fields.values ∧ f.kind = .algebraic :=
    fun f => by rw [hall, List.mem_filter, decide_eq_true_iff]
  rw [← hall]
  constructor
  · rintro ⟨hperm, hfollows⟩
    refine ⟨hperm, fun f hf hkind read hread ⟨g, hg, hname, hgkind⟩ => ?_⟩
    refine hfollows ⟨⟨f, ?_, rfl, hread⟩, ?_⟩
    · exact (hmem f).2 ⟨hf, hkind⟩
    · exact List.mem_map.2 ⟨g, (hmem g).2 ⟨hg, hgkind⟩, hname⟩
  · rintro ⟨hperm, hfollows⟩
    refine ⟨hperm, ?_⟩
    rintro reader read ⟨⟨f, hf, rfl, hread⟩, hknown⟩
    obtain ⟨g, hg, hname⟩ := List.mem_map.1 hknown
    obtain ⟨hvalue, hkind⟩ := (hmem f).1 hf
    exact hfollows f hvalue hkind read hread ⟨g, ((hmem g).1 hg).1, hname, ((hmem g).1 hg).2⟩

/-- **A given order is accepted exactly if it arranges the algebraic fields**, and then as it is. -/
theorem verifyOrder_eq_ok_iff (hnamed : Named fields)
    (hcomputed : ∀ f ∈ fields.values, f.kind = .algebraic → f.isComputed = true)
    (hfiled : Filed fields .algebraic) {given : List String} :
    verifyOrder fields given = .ok order ↔ order = given ∧ Arranges fields .algebraic given := by
  constructor
  · intro h
    obtain ⟨rfl, -⟩ := of_verifyOrder h
    obtain ⟨hperm, horder⟩ := evaluationOrder_of_verifyOrder hnamed hcomputed h
    exact ⟨rfl, hperm, horder.idxOf_lt hnamed⟩
  · rintro ⟨rfl, hperm, hfollows⟩
    refine verifyOrder_of_checks (checkListed_eq_ok_iff.2 ⟨?_, fun _ _ => List.not_mem_nil, ?_⟩)
      (fun f hf hkind => ?_) (readersOf_eq_ok (.inl rfl) hfiled)
      (violation?_eq_none_iff.2 fun r hr read hread => ?_)
    · exact hperm.nodup_iff.2 (nodup_computedOf hnamed .algebraic)
    · intro name hname
      obtain ⟨f, hf, rfl⟩ := List.mem_map.1 (hperm.mem_iff.1 hname)
      have hf := mem_computedOf_iff.1 hf
      exact ⟨f, hnamed.get? hf.1, hf.2.1⟩
    · exact hperm.mem_iff.2 (List.mem_map_of_mem
        (mem_computedOf_iff.2 ⟨hf, hkind, hcomputed f hf hkind⟩))
    · refine hfollows ?_
      rw [← links_graphOf hnamed (.inl rfl) hfiled]
      exact ⟨r, hr, rfl, hread⟩

/-! ## Positions -/

/-- The first of some reads that stands at a position or behind it; no answer if one of those before
it has no position. -/
def misplaced? (order : List String) (position : Nat) : List String → Option (Option String)
  | [] => some none
  | read :: rest =>
    match order.idxOf? read with
    | none => none
    | some i => if position ≤ i then some (some read) else misplaced? order position rest

/-- The first violation by looking positions up; no answer if one of them is missing. -/
def violationAt? (order : List String) : List Reader → Option (Option (String × String))
  | [] => some none
  | r :: rest =>
    match order.idxOf? r.name with
    | none => none
    | some position =>
      match misplaced? order position r.reads with
      | none => none
      | some (some read) => some (some (r.name, read))
      | some none => violationAt? order rest

/-- **The verification of an order by looking positions up**; no answer if one of them is missing.
-/
def verifyByPosition (fields : FieldMap α) (order : List String) :
    Option (Except (Error α) (List String)) :=
  match checkListed fields [] order with
  | .error e => some (.error e)
  | .ok () =>
    match fields.values.find? fun f => f.kind = .algebraic && !order.contains f.name with
    | some missing => some (.error (.malformedField missing.name .orderLacks))
    | none =>
      match readersOf fields .algebraic with
      | .error e => some (.error e)
      | .ok readers => (violationAt? order readers).map fun
        | some (reader, read) => .error (.cyclicDependency [reader, read])
        | none => .ok order

theorem idxOf?_of_mem {name : String} (h : name ∈ order) :
    order.idxOf? name = some (order.idxOf name) :=
  List.findIdx?_eq_some_of_exists ⟨name, h, BEq.rfl⟩

theorem misplaced?_eq {position : Nat} : ∀ {reads : List String}, (∀ read ∈ reads, read ∈ order) →
    misplaced? order position reads = some (reads.find? fun read => position ≤ order.idxOf read)
  | [], _ => rfl
  | read :: rest, h => by
      rw [List.forall_mem_cons] at h
      rw [misplaced?, idxOf?_of_mem h.1, misplaced?_eq h.2, List.find?_cons]
      dsimp only
      split <;> simp [*]

theorem violationAt?_eq : ∀ {readers : List Reader},
    (∀ r ∈ readers, r.name ∈ order ∧ ∀ read ∈ r.reads, read ∈ order) →
      violationAt? order readers = some (violation? order readers)
  | [], _ => rfl
  | r :: rest, h => by
      rw [List.forall_mem_cons] at h
      have hrest : violationAt? order rest = some (violation? order rest) := violationAt?_eq h.2
      rw [violationAt?, idxOf?_of_mem h.1.1]
      dsimp only
      rw [misplaced?_eq h.1.2]
      unfold violation?
      rw [List.findSome?_cons]
      cases r.reads.find? fun read => order.idxOf r.name ≤ order.idxOf read with
      | none => exact hrest
      | some read => rfl

/-- An order that lists all algebraic fields has a position for each reader and each read. -/
theorem listed_of_readersOf {readers : List Reader}
    (hcomplete : ∀ f ∈ fields.values, f.kind = .algebraic → f.name ∈ order)
    (hreaders : readersOf fields .algebraic = .ok readers) :
    ∀ r ∈ readers, r.name ∈ order ∧ ∀ read ∈ r.reads, read ∈ order := by
  have hnames : ∀ name ∈ (computedOf fields .algebraic).map Field.name, name ∈ order := by
    intro name hname
    obtain ⟨f, hf, rfl⟩ := List.mem_map.1 hname
    have hf := mem_computedOf_iff.1 hf
    exact hcomplete f hf.1 hf.2.1
  intro r hr
  rw [readersOf_eq (.inl rfl) hreaders] at hr
  obtain ⟨f, hf, rfl⟩ := List.mem_map.1 hr
  exact ⟨hnames _ (List.mem_map_of_mem hf),
    fun read hread => hnames _ (List.mem_of_mem_filter hread)⟩

/-- **Every position that the verification asks for is there**, whatever is given to it. -/
theorem verifyByPosition_eq (fields : FieldMap α) (order : List String) :
    verifyByPosition fields order = some (verifyOrder fields order) := by
  unfold verifyByPosition verifyOrder
  cases checkListed fields [] order with
  | error e => rfl
  | ok u =>
    dsimp only
    cases hnone : fields.values.find? fun f => f.kind = .algebraic && !order.contains f.name with
    | some missing => rfl
    | none =>
      dsimp only
      cases hreaders : readersOf fields .algebraic with
      | error e => rfl
      | ok readers =>
        dsimp only
        rw [violationAt?_eq (listed_of_readersOf (lacks_nothing_iff.1 hnone) hreaders)]
        rfl

/-! ## Exactly the orders -/

/-- **An explicit order is accepted exactly if it is an order** — a list of the algebraic fields,
once each, in which each stands behind those that it reads; and it is accepted as it is, with every
position that is asked for at hand. The resolved order is accepted, and some order is exactly if one
can be resolved. -/
theorem verifyOrder_exact (hnamed : Named fields)
    (hcomputed : ∀ f ∈ fields.values, f.kind = .algebraic → f.isComputed = true)
    (hfiled : Filed fields .algebraic) :
    (∀ given order, verifyOrder fields given = .ok order ↔ order = given ∧
      given.Perm ((fields.values.filter fun f => f.kind = .algebraic).map Field.name) ∧
      ∀ f ∈ fields.values, f.kind = .algebraic → ∀ read ∈ f.inputs,
        (∃ g ∈ fields.values, g.name = read ∧ g.kind = .algebraic) →
          given.idxOf read < given.idxOf f.name) ∧
    (∀ given, verifyByPosition fields given = some (verifyOrder fields given)) ∧
    (∀ order, resolveOrder fields .algebraic = .ok order → verifyOrder fields order = .ok order) ∧
    ((∃ given order, verifyOrder fields given = .ok order) ↔
      ∃ order, resolveOrder fields .algebraic = .ok order) := by
  have hexact {given order : List String} : verifyOrder fields given = .ok order ↔ order = given ∧
      Arranges fields .algebraic given := verifyOrder_eq_ok_iff hnamed hcomputed hfiled
  have hresolved : ∀ order, resolveOrder fields .algebraic = .ok order →
      verifyOrder fields order = .ok order := fun order horder =>
    hexact.2 ⟨rfl, arranges_of_resolveOrder hnamed (.inl rfl) horder⟩
  refine ⟨fun given order => ?_, verifyByPosition_eq fields, hresolved, ?_⟩
  · rw [hexact, arranges_algebraic_iff hcomputed]
  · constructor
    · rintro ⟨given, order, haccepted⟩
      exact exists_resolveOrder_of_follows hnamed (.inl rfl) hfiled (hexact.1 haccepted).2.follows
    · rintro ⟨order, horder⟩
      exact ⟨order, order, hresolved order horder⟩

theorem diamond_verified :
    Named diamond ∧ (∀ f ∈ diamond.values, f.kind = .algebraic → f.isComputed = true) ∧
      Filed diamond .algebraic ∧
      verifyOrder diamond ["base", "left", "right", "sum"] =
        .ok ["base", "left", "right", "sum"] ∧
      ∀ order, verifyOrder diamond ["left", "base", "right", "sum"] ≠ .ok order := by
  have hnamed : Named diamond := by decide +kernel
  have hcomputed : ∀ f ∈ diamond.values, f.kind = .algebraic → f.isComputed = true := by
    decide +kernel
  have hfiled : Filed diamond .algebraic := by decide +kernel
  obtain ⟨hexact, -⟩ := verifyOrder_exact hnamed hcomputed hfiled
  refine ⟨hnamed, hcomputed, hfiled, (hexact _ _).2 ⟨rfl, ?_⟩, fun order hok => ?_⟩
  · decide +kernel
  · exact absurd ((hexact _ _).1 hok).2 (by decide +kernel)

end FieldFlow
