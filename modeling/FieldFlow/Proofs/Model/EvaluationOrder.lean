import FieldFlow.Model.Order
import FieldFlow.Proofs.Model.Reads
import Mathlib.Data.List.Perm.Basic

/-!
# Proofs/Model/EvaluationOrder — every computed field once, and after what it reads

An order is found by taking out one ready reader after another, or is given and checked read by
read. Either way it lists the computed fields of its kind once each, and every one of them stands
behind the fields of that kind that it reads: `evaluationOrder_of_resolveOrder` and
`evaluationOrder_of_verifyOrder`.
-/

namespace FieldFlow

variable {α : Type}

/-- **An order for evaluating the computed fields of a kind.** It may still list a field that is not
computed any more. -/
structure EvaluationOrder (fields : FieldMap α) (kind : FieldKind) (order : List String) : Prop where
  nodup : order.Nodup
  listed : ∀ name ∈ order, ∃ f, fields.get? name = some f ∧ f.kind = kind
  complete : ∀ {name f}, fields.get? name = some f → f.kind = kind → f.isComputed = true →
    name ∈ order
  follows : ∀ {name f}, fields.get? name = some f → f.kind = kind →
    ∀ read ∈ f.inputs, read ∈ order → order.idxOf read < order.idxOf name

/-! ## Fields under their own names -/

/-- Every field stands under its own name. -/
def Named (fields : FieldMap α) : Prop := ∀ name f, fields.get? name = some f → f.name = name

theorem Named.get? {fields : FieldMap α} (h : Named fields) {f : Field α} (hf : f ∈ fields.values) :
    fields.get? f.name = some f := by
  obtain ⟨name, hname⟩ := OrderedMap.mem_values_iff.1 hf
  rwa [h name f hname]

theorem Named.map_name {fields : FieldMap α} (h : Named fields) :
    fields.values.map Field.name = fields.keys := by
  unfold OrderedMap.values OrderedMap.keys
  rw [List.map_map]
  refine List.map_congr_left fun ⟨name, f⟩ hmem => ?_
  exact h name f (OrderedMap.get?_eq_some_iff.2 hmem)

theorem mem_computedOf_iff {fields : FieldMap α} {kind : FieldKind} {f : Field α} :
    f ∈ computedOf fields kind ↔ f ∈ fields.values ∧ f.kind = kind ∧ f.isComputed = true := by
  simp [computedOf]

theorem nodup_computedOf {fields : FieldMap α} (h : Named fields) (kind : FieldKind) :
    ((computedOf fields kind).map Field.name).Nodup := by
  have hkeys : (fields.values.map Field.name).Nodup := h.map_name ▸ fields.nodup
  exact hkeys.sublist (List.filter_sublist.map _)

/-! ## Taking out what is ready -/

/-- Readers in an order in which each reads only what is done when its turn comes. -/
def ReadyOrder (done : List String) : List Reader → Prop
  | [] => True
  | r :: rest => (∀ read ∈ r.reads, read ∈ done) ∧ ReadyOrder (done ++ [r.name]) rest

theorem perm_of_takeReady? {done : List String} :
    ∀ {waiting : List Reader} {r : Reader} {rest : List Reader},
      takeReady? done waiting = some (r, rest) → waiting.Perm (r :: rest)
  | [], _, _, h => nomatch h
  | w :: ws, r, rest, h => by
      rw [takeReady?] at h
      split at h
      · obtain ⟨rfl, rfl⟩ := Prod.mk.inj (Option.some.inj h)
        exact List.Perm.refl _
      · obtain ⟨⟨found, others⟩, hfound, heq⟩ := Option.map_eq_some_iff.1 h
        obtain ⟨rfl, rfl⟩ := Prod.mk.inj heq
        exact ((perm_of_takeReady? hfound).cons w).trans (List.Perm.swap found w others)

theorem reads_of_takeReady? {done : List String} :
    ∀ {waiting : List Reader} {r : Reader} {rest : List Reader},
      takeReady? done waiting = some (r, rest) → ∀ read ∈ r.reads, read ∈ done
  | [], _, _, h => nomatch h
  | w :: ws, r, rest, h => by
      rw [takeReady?] at h
      split at h
      · rename_i hready
        obtain ⟨rfl, rfl⟩ := Prod.mk.inj (Option.some.inj h)
        simpa using hready
      · obtain ⟨⟨found, others⟩, hfound, heq⟩ := Option.map_eq_some_iff.1 h
        obtain ⟨rfl, rfl⟩ := Prod.mk.inj heq
        exact reads_of_takeReady? hfound

theorem emitReady_of_none {done : List String} {waiting : List Reader}
    (h : takeReady? done waiting = none) : emitReady done waiting = (done, waiting) := by
  rw [emitReady]
  split
  · rfl
  · rename_i htake
    cases h.symm.trans htake

theorem emitReady_of_some {done : List String} {waiting rest : List Reader} {r : Reader}
    (h : takeReady? done waiting = some (r, rest)) :
    emitReady done waiting = emitReady (done ++ [r.name]) rest := by
  rw [emitReady]
  split
  · rename_i hnone
    cases h.symm.trans hnone
  · rename_i htake
    obtain ⟨rfl, rfl⟩ := Prod.mk.inj (Option.some.inj (h.symm.trans htake))
    rfl

/-- **What is emitted is ready in turn**, and nothing is lost: a reader is emitted or left over. -/
theorem emitReady_spec (done : List String) (waiting : List Reader) :
    ∃ emitted, (emitReady done waiting).1 = done ++ emitted.map Reader.name ∧
      waiting.Perm (emitted ++ (emitReady done waiting).2) ∧ ReadyOrder done emitted := by
  induction done, waiting using emitReady.induct with
  | case1 done waiting hnone =>
    rw [emitReady_of_none hnone]
    exact ⟨[], (List.append_nil done).symm, List.Perm.refl _, trivial⟩
  | case2 done waiting r rest htake _ ih =>
    obtain ⟨emitted, hnames, hperm, hready⟩ := ih
    rw [emitReady_of_some htake]
    refine ⟨r :: emitted, ?_, ?_, reads_of_takeReady? htake, hready⟩
    · rw [hnames, List.append_assoc, List.map_cons, List.singleton_append]
    · exact (perm_of_takeReady? htake).trans (hperm.cons r)

/-- In a ready order of differently named readers, what is not done before stands before its
reader. -/
theorem idxOf_lt_of_readyOrder :
    ∀ {done : List String} {rs : List Reader}, ReadyOrder done rs → (rs.map Reader.name).Nodup →
      ∀ r ∈ rs, ∀ read ∈ r.reads, read ∉ done →
        (rs.map Reader.name).idxOf read < (rs.map Reader.name).idxOf r.name
  | _, [], _, _, _, hr, _, _, _ => absurd hr List.not_mem_nil
  | done, first :: rest, hready, hnodup, r, hr, read, hread, hdone => by
      rw [List.map_cons, List.nodup_cons] at hnodup
      rcases List.mem_cons.1 hr with rfl | hr
      · exact absurd (hready.1 read hread) hdone
      have hne : first.name ≠ r.name := fun heq =>
        hnodup.1 (heq ▸ List.mem_map.2 ⟨r, hr, rfl⟩)
      rw [List.map_cons, List.idxOf_cons_ne _ hne]
      by_cases heq : first.name = read
      · rw [heq, List.idxOf_cons_self]
        exact Nat.succ_pos _
      · rw [List.idxOf_cons_ne _ heq]
        have hdone' : read ∉ done ++ [first.name] := by simp [hdone, Ne.symm heq]
        exact Nat.succ_lt_succ (idxOf_lt_of_readyOrder hready.2 hnodup.2 r hr read hread hdone')

/-! ## The graph of a kind -/

/-- A computed field as a reader: of the computed fields of the kind, those among its inputs. -/
def readerOf (fields : FieldMap α) (kind : FieldKind) (f : Field α) : Reader :=
  ⟨f.name, ((computedOf fields kind).map Field.name).filter
    (f.inputs.filter (namesKind fields kind)).contains⟩

theorem readersOf_eq {fields : FieldMap α} {kind : FieldKind}
    (hkind : kind = .algebraic ∨ kind = .parameter) {readers : List Reader}
    (h : readersOf fields kind = .ok readers) :
    readers = (computedOf fields kind).map (readerOf fields kind) := by
  refine eq_map_of_mapM_eq_ok (fun f r hr => ?_) h
  obtain ⟨p, hp, heq⟩ := bind_eq_ok_iff.1 hr
  rcases hkind with rfl | rfl <;>
  · rw [pure_eq_ok_iff] at heq
    rw [← heq, readerOf, ofKind_of_partitionInputs hp]

theorem partitionInputs_of_readersOf {fields : FieldMap α} {kind : FieldKind}
    {readers : List Reader} (h : readersOf fields kind = .ok readers) :
    ∀ f ∈ computedOf fields kind, ∃ p, partitionInputs fields f = .ok p := by
  intro f hf
  obtain ⟨r, -, hr⟩ := exists_ok_of_mapM_eq_ok h f hf
  obtain ⟨p, hp, -⟩ := bind_eq_ok_iff.1 hr
  exact ⟨p, hp⟩

/-- **What a reader reads** — the computed fields of its kind among its inputs. -/
theorem mem_reads_readerOf {fields : FieldMap α} {kind : FieldKind} (hnamed : Named fields)
    {f : Field α} {read : String} (hread : read ∈ f.inputs) (hitself : read ≠ itself)
    (hmem : read ∈ (computedOf fields kind).map Field.name) :
    read ∈ (readerOf fields kind f).reads := by
  obtain ⟨g, hg, rfl⟩ := List.mem_map.1 hmem
  have hcomputed := mem_computedOf_iff.1 hg
  have hnames : namesKind fields kind g.name = true :=
    namesKind_iff.2 ⟨hitself, g, hnamed.get? hcomputed.1, hcomputed.2.1⟩
  simpa [readerOf, hread, hnames] using List.mem_map.1 hmem

/-- Only a dynamic field has the reserved name among its inputs. -/
theorem ne_itself_of_partitionInputs {fields : FieldMap α} {f : Field α} {p : InputPartition}
    (h : partitionInputs fields f = .ok p) (hkind : f.kind ≠ .dynamic) {read : String}
    (hread : read ∈ f.inputs) : read ≠ itself := by
  intro hitself
  have := mayRead_of_partitionInputs h read hread
  rw [MayRead, if_pos hitself] at this
  exact hkind this

/-! ## Both ways to an order -/

/-- A list of all computed fields of a kind, each behind those that it reads, is an order. -/
theorem evaluationOrder_of_perm {fields : FieldMap α} {kind : FieldKind} {order : List String}
    (hnamed : Named fields) (hperm : order.Perm ((computedOf fields kind).map Field.name))
    (hfollows : ∀ f ∈ computedOf fields kind, ∀ read ∈ f.inputs, read ∈ order →
      order.idxOf read < order.idxOf f.name) : EvaluationOrder fields kind order where
  nodup := hperm.nodup_iff.2 (nodup_computedOf hnamed kind)
  listed := fun name hmem => by
    obtain ⟨f, hf, rfl⟩ := List.mem_map.1 (hperm.mem_iff.1 hmem)
    have hcomputed := mem_computedOf_iff.1 hf
    exact ⟨f, hnamed.get? hcomputed.1, hcomputed.2.1⟩
  complete := fun {name f} hget hkind hcomputed => by
    rw [hperm.mem_iff, ← hnamed name f hget]
    exact List.mem_map.2 ⟨f, mem_computedOf_iff.2
      ⟨OrderedMap.mem_values_iff.2 ⟨name, hget⟩, hkind, hcomputed⟩, rfl⟩
  follows := fun {name f} hget hkind read hread hmem => by
    have hcomputed := Field.isComputed_of_mem_inputs hread
    have hf : f ∈ computedOf fields kind :=
      mem_computedOf_iff.2 ⟨OrderedMap.mem_values_iff.2 ⟨name, hget⟩, hkind, hcomputed⟩
    rw [← hnamed name f hget]
    exact hfollows f hf read hread hmem

/-- The readers of a resolved order are all emitted. -/
theorem of_resolveOrder {fields : FieldMap α} {kind : FieldKind} {order : List String}
    (h : resolveOrder fields kind = .ok order) :
    ∃ readers, readersOf fields kind = .ok readers ∧ emitReady [] readers = (order, []) := by
  obtain ⟨readers, hreaders, hemit⟩ := bind_eq_ok_iff.1 h
  refine ⟨readers, hreaders, ?_⟩
  split at hemit
  · rename_i found heq
    rw [heq, pure_eq_ok_iff.1 hemit]
  · exact absurd hemit throw_ne_ok

/-- **A resolved order** lists every computed field of its kind once, each behind those it reads. -/
theorem evaluationOrder_of_resolveOrder {fields : FieldMap α} {kind : FieldKind}
    {order : List String} (hnamed : Named fields) (hkind : kind = .algebraic ∨ kind = .parameter)
    (h : resolveOrder fields kind = .ok order) :
    order.Perm ((computedOf fields kind).map Field.name) ∧ EvaluationOrder fields kind order := by
  obtain ⟨readers, hreaders, hemit⟩ := of_resolveOrder h
  obtain ⟨emitted, hnames, hperm, hready⟩ := emitReady_spec [] readers
  rw [hemit] at hnames hperm
  simp only [List.nil_append, List.append_nil] at hnames hperm
  have hmap : readers.map Reader.name = (computedOf fields kind).map Field.name := by
    rw [readersOf_eq hkind hreaders, List.map_map]
    rfl
  have hlists : order.Perm ((computedOf fields kind).map Field.name) := by
    rw [hnames, ← hmap]
    exact (hperm.map Reader.name).symm
  refine ⟨hlists, evaluationOrder_of_perm hnamed hlists fun f hf read hread hmem => ?_⟩
  have hnodup : (emitted.map Reader.name).Nodup := by
    rw [← hnames, hlists.nodup_iff]
    exact nodup_computedOf hnamed kind
  have hreader : readerOf fields kind f ∈ emitted := by
    rw [← hperm.mem_iff, readersOf_eq hkind hreaders]
    exact List.mem_map.2 ⟨f, hf, rfl⟩
  have hitself : read ≠ itself := by
    obtain ⟨p, hp⟩ := partitionInputs_of_readersOf hreaders f hf
    have hfkind : f.kind ≠ .dynamic := by
      rw [(mem_computedOf_iff.1 hf).2.1]
      rcases hkind with rfl | rfl <;> exact fun h => nomatch h
    exact ne_itself_of_partitionInputs hp hfkind hread
  have hreads := mem_reads_readerOf hnamed hread hitself (hlists.mem_iff.1 hmem)
  rw [hnames]
  exact idxOf_lt_of_readyOrder hready hnodup _ hreader read hreads List.not_mem_nil

/-! ## An order given by the modeller -/

/-- A list that passes the check of its names lists algebraic fields, none of them twice. -/
theorem of_checkListed {fields : FieldMap α} :
    ∀ {order seen : List String}, checkListed fields seen order = .ok () →
      order.Nodup ∧ (∀ name ∈ order, name ∉ seen) ∧
        ∀ name ∈ order, ∃ f, fields.get? name = some f ∧ f.kind = .algebraic
  | [], _, _ => ⟨List.nodup_nil, by simp, by simp⟩
  | name :: rest, seen, h => by
      rw [checkListed] at h
      split at h
      · exact nomatch h
      rename_i f hf
      split at h
      · exact nomatch h
      rename_i hkind
      split at h
      · exact nomatch h
      rename_i hseen
      obtain ⟨hnodup, hfresh, hlisted⟩ := of_checkListed h
      have hout : name ∉ rest := fun hmem => hfresh name hmem (by simp)
      refine ⟨List.nodup_cons.2 ⟨hout, hnodup⟩, ?_, ?_⟩
      · rw [List.forall_mem_cons]
        exact ⟨by simpa using hseen, fun n hn hold => hfresh n hn (by simp [hold])⟩
      · rw [List.forall_mem_cons]
        exact ⟨⟨f, hf, by simpa using hkind⟩, hlisted⟩

/-- What is known of an order that passes all checks. -/
theorem of_verifyOrder {fields : FieldMap α} {given order : List String}
    (h : verifyOrder fields given = .ok order) :
    order = given ∧ checkListed fields [] given = .ok () ∧
      (∀ f ∈ fields.values, f.kind = .algebraic → f.name ∈ given) ∧
      ∃ readers, readersOf fields .algebraic = .ok readers ∧ violation? given readers = none := by
  obtain ⟨⟨⟩, hlisted, h⟩ := bind_eq_ok_iff.1 h
  dsimp only at h
  split at h
  · obtain ⟨_, hlacks, -⟩ := bind_eq_ok_iff.1 h
    exact absurd hlacks throw_ne_ok
  rename_i hnone
  obtain ⟨readers, hreaders, h⟩ := bind_eq_ok_iff.1 h
  split at h
  · exact absurd h throw_ne_ok
  rename_i hviolation
  refine ⟨(pure_eq_ok_iff.1 h).symm, hlisted, fun f hf hkind => ?_, readers, hreaders, hviolation⟩
  have := List.find?_eq_none.1 hnone f hf
  simpa [hkind] using this

/-- Without a violation every read stands before its reader. -/
theorem idxOf_lt_of_violation? {order : List String} {readers : List Reader}
    (h : violation? order readers = none) :
    ∀ r ∈ readers, ∀ read ∈ r.reads, order.idxOf read < order.idxOf r.name := by
  intro r hr read hread
  have hnone := List.findSome?_eq_none_iff.1 h r hr
  rw [Option.map_eq_none_iff] at hnone
  have := List.find?_eq_none.1 hnone read hread
  simpa using this

/-- **A verified order** is the given one; it lists every algebraic field once, each behind those it
reads. -/
theorem evaluationOrder_of_verifyOrder {fields : FieldMap α} {given order : List String}
    (hnamed : Named fields) (hcomputed : ∀ f ∈ fields.values, f.kind = .algebraic →
      f.isComputed = true) (h : verifyOrder fields given = .ok order) :
    order.Perm ((computedOf fields .algebraic).map Field.name) ∧
      EvaluationOrder fields .algebraic order := by
  obtain ⟨rfl, hcheck, hcomplete, readers, hreaders, hviolation⟩ := of_verifyOrder h
  obtain ⟨hnodup, -, hlisted⟩ := of_checkListed hcheck
  have hlists : order.Perm ((computedOf fields .algebraic).map Field.name) := by
    refine (List.perm_ext_iff_of_nodup hnodup (nodup_computedOf hnamed _)).2 fun name => ?_
    constructor
    · intro hmem
      obtain ⟨f, hf, hkind⟩ := hlisted name hmem
      have hvalue := OrderedMap.mem_values_iff.2 ⟨name, hf⟩
      exact List.mem_map.2 ⟨f, mem_computedOf_iff.2 ⟨hvalue, hkind, hcomputed f hvalue hkind⟩,
        hnamed name f hf⟩
    · intro hmem
      obtain ⟨f, hf, rfl⟩ := List.mem_map.1 hmem
      have hf := mem_computedOf_iff.1 hf
      exact hcomplete f hf.1 hf.2.1
  refine ⟨hlists, evaluationOrder_of_perm hnamed hlists fun f hf read hread hmem => ?_⟩
  have hitself : read ≠ itself := by
    obtain ⟨p, hp⟩ := partitionInputs_of_readersOf hreaders f hf
    refine ne_itself_of_partitionInputs hp ?_ hread
    rw [(mem_computedOf_iff.1 hf).2.1]
    exact fun h => nomatch h
  have hreader : readerOf fields .algebraic f ∈ readers := by
    rw [readersOf_eq (.inl rfl) hreaders]
    exact List.mem_map.2 ⟨f, hf, rfl⟩
  exact idxOf_lt_of_violation? hviolation _ hreader read
    (mem_reads_readerOf hnamed hread hitself (hlists.mem_iff.1 hmem))

end FieldFlow
