import FieldFlow.Proofs.Model.Graph
import Mathlib.Data.Set.Finite.List

/-!
# Proofs/Model/Cycles — what is left over reads its way to a cycle

The emission stops when every reader left over waits for another one. Among finitely many readers
such a chain of waiting comes back to itself (`leadsToCycle_of_finite`); along the reads of what is
emitted the places go down, so no chain does there (`not_leadsToCycle_of_rank`). Hence a refused
order names exactly the fields whose reads lead to a cycle: `resolveOrder_refuses`.
-/

namespace FieldFlow

open Relation

/-! ## Chains that come back to themselves -/

section Chains

variable {N : Type} {r : N → N → Prop} {a b : N}

/-- **A chain of reads leads to a cycle** — in some steps, perhaps none, to what leads to itself. -/
def LeadsToCycle (r : N → N → Prop) (a : N) : Prop := ∃ c, ReflTransGen r a c ∧ TransGen r c c

theorem LeadsToCycle.head (hab : r a b) (h : LeadsToCycle r b) : LeadsToCycle r a := by
  obtain ⟨c, hbc, hcycle⟩ := h
  exact ⟨c, hbc.head hab, hcycle⟩

theorem LeadsToCycle.exists_next (h : LeadsToCycle r a) : ∃ b, r a b ∧ LeadsToCycle r b := by
  obtain ⟨c, hac, hcycle⟩ := h
  rcases hac.cases_head with rfl | ⟨b, hab, hbc⟩
  · obtain ⟨b, hab, hba⟩ := TransGen.head'_iff.1 hcycle
    exact ⟨b, hab, a, hba, hcycle⟩
  · exact ⟨b, hab, c, hbc, hcycle⟩

/-- Where every step goes down, no chain comes back. -/
theorem not_leadsToCycle_of_rank {S : Set N} (rank : N → Nat)
    (hdown : ∀ a ∈ S, ∀ b, r a b → b ∈ S ∧ rank b < rank a) : a ∈ S → ¬ LeadsToCycle r a := by
  induction hrank : rank a using Nat.strong_induction_on generalizing a with
  | h n ih =>
    intro ha hcycle
    obtain ⟨b, hab, hb⟩ := hcycle.exists_next
    obtain ⟨hmem, hlt⟩ := hdown a ha b hab
    exact ih (rank b) (hrank ▸ hlt) rfl hmem hb

theorem wellFounded_of_acyclic [Finite N] (h : ∀ a, ¬ TransGen r a a) : WellFounded (flip r) := by
  have : Std.Irrefl (TransGen (flip r)) := ⟨fun a ha => h a (transGen_swap.1 ha)⟩
  have hchains : WellFounded (TransGen (flip r)) := Finite.wellFounded_of_trans_of_irrefl _
  exact Subrelation.wf TransGen.single hchains

/-- Without a cycle there is a last one among finitely many. -/
theorem exists_last_of_acyclic {S : Set N} (hfinite : S.Finite) (hne : S.Nonempty)
    (h : ∀ a ∈ S, ¬ TransGen r a a) : ∃ a ∈ S, ∀ b ∈ S, ¬ r a b := by
  have : Finite S := hfinite.to_subtype
  have hends : WellFounded (flip fun x y : S => r x y) := wellFounded_of_acyclic fun x hx =>
    h x x.2 (hx.lift Subtype.val fun _ _ hstep => hstep)
  obtain ⟨a, ha⟩ := hne
  by_contra! hnext
  refine hends.induction (C := fun _ => False) ⟨a, ha⟩ fun x ih => ?_
  obtain ⟨b, hb, hstep⟩ := hnext x x.2
  exact ih ⟨b, hb⟩ hstep

/-- **Where no chain ends, all of them come back**, if there are finitely many to go through — the
last of those that lead to no cycle would have nothing to read. -/
theorem leadsToCycle_of_finite {S : Set N} (hfinite : S.Finite)
    (hnext : ∀ a ∈ S, ∃ b ∈ S, r a b) : ∀ a ∈ S, LeadsToCycle r a := by
  intro a ha
  by_contra hnot
  obtain ⟨b, ⟨hb, hfree⟩, hlast⟩ := exists_last_of_acyclic (S := {b ∈ S | ¬ LeadsToCycle r b})
    (hfinite.subset fun _ h => h.1) ⟨a, ha, hnot⟩ fun b hb hcycle => hb.2 ⟨b, .refl, hcycle⟩
  obtain ⟨c, hc, hstep⟩ := hnext b hb
  exact hlast c ⟨hc, fun hcycle => hfree (hcycle.head hstep)⟩ hstep

end Chains

/-! ## Where the emission stops -/

section Emission

variable {readers : List Reader}

/-- When no reader is ready, each one waits for another. -/
theorem exists_notMem_of_takeReady? {done : List String} :
    ∀ {waiting : List Reader}, takeReady? done waiting = none →
      ∀ r ∈ waiting, ∃ read ∈ r.reads, read ∉ done
  | [], _, _, hr => absurd hr List.not_mem_nil
  | first :: rest, h, r, hr => by
      rw [takeReady?] at h
      split at h
      · cases h
      rename_i hwaits
      rcases List.mem_cons.1 hr with rfl | hr
      · simpa using hwaits
      · exact exists_notMem_of_takeReady? (Option.map_eq_none_iff.1 h) r hr

theorem sublist_of_takeReady? {done : List String} :
    ∀ {waiting rest : List Reader} {r : Reader}, takeReady? done waiting = some (r, rest) →
      rest.Sublist waiting
  | [], _, _, h => nomatch h
  | first :: others, rest, r, h => by
      rw [takeReady?] at h
      split at h
      · obtain ⟨rfl, rfl⟩ := Prod.mk.inj (Option.some.inj h)
        exact List.sublist_cons_self _ _
      · obtain ⟨⟨found, left⟩, hfound, heq⟩ := Option.map_eq_some_iff.1 h
        obtain ⟨rfl, rfl⟩ := Prod.mk.inj heq
        exact (sublist_of_takeReady? hfound).cons_cons first

/-- **The emission stops only when nothing is ready**; what is left over keeps its order. -/
theorem emitReady_stops (done : List String) (waiting : List Reader) :
    takeReady? (emitReady done waiting).1 (emitReady done waiting).2 = none ∧
      (emitReady done waiting).2.Sublist waiting := by
  induction done, waiting using emitReady.induct with
  | case1 done waiting hnone =>
    rw [emitReady_of_none hnone]
    exact ⟨hnone, List.Sublist.refl _⟩
  | case2 done waiting r rest htake _ ih =>
    rw [emitReady_of_some htake]
    exact ⟨ih.1, ih.2.trans (sublist_of_takeReady? htake)⟩

/-- Every reader is emitted or left over. -/
theorem mem_names_iff {name : String} : name ∈ readers.map Reader.name ↔
    name ∈ (emitReady [] readers).1 ∨ name ∈ (emitReady [] readers).2.map Reader.name := by
  obtain ⟨emitted, hnames, hperm, -⟩ := emitReady_spec [] readers
  rw [hnames, List.nil_append, (hperm.map Reader.name).mem_iff, List.map_append, List.mem_append]

namespace ReadEachOther

theorem leadsToCycle_of_left (h : ReadEachOther readers) :
    ∀ name ∈ (emitReady [] readers).2.map Reader.name, LeadsToCycle (Links readers) name := by
  obtain ⟨hstops, hsublist⟩ := emitReady_stops [] readers
  refine leadsToCycle_of_finite (List.finite_toSet _) fun name hname => ?_
  obtain ⟨r, hr, rfl⟩ := List.mem_map.1 hname
  obtain ⟨read, hread, hundone⟩ := exists_notMem_of_takeReady? hstops r hr
  have hreader : r ∈ readers := hsublist.subset hr
  have hleft := (mem_names_iff.1 (h.known r hreader read hread)).resolve_left hundone
  exact ⟨read, hleft, r, hreader, rfl, hread⟩

/-- An emitted reader leads to no cycle — each of its reads was emitted before it. -/
theorem not_leadsToCycle_of_emitted (h : ReadEachOther readers) {name : String}
    (hname : name ∈ (emitReady [] readers).1) : ¬ LeadsToCycle (Links readers) name := by
  obtain ⟨emitted, hnames, hperm, hready⟩ := emitReady_spec [] readers
  rw [hnames, List.nil_append] at hname
  have hnodup : (emitted.map Reader.name).Nodup := by
    have hall := (hperm.map Reader.name).nodup_iff.1 h.nodup
    rw [List.map_append] at hall
    exact hall.of_append_left
  refine not_leadsToCycle_of_rank (S := {n | n ∈ emitted.map Reader.name})
    (emitted.map Reader.name).idxOf (fun n hn read hlink => ?_) hname
  obtain ⟨r, hr, rfl, hread⟩ := hlink
  obtain ⟨s, hs, hsame⟩ := List.mem_map.1 hn
  obtain rfl := h.eq_of_name_eq (hperm.mem_iff.2 (List.mem_append_left _ hs)) hr hsame
  have hlt := idxOf_lt_of_readyOrder hready hnodup s hs read hread List.not_mem_nil
  exact ⟨List.idxOf_lt_length_iff.1 (hlt.trans_le List.idxOf_le_length), hlt⟩

/-- **A reader is left over** exactly if its reads lead to a cycle. -/
theorem mem_left_iff (h : ReadEachOther readers) {name : String} :
    name ∈ (emitReady [] readers).2.map Reader.name ↔
      name ∈ readers.map Reader.name ∧ LeadsToCycle (Links readers) name :=
  ⟨fun hleft => ⟨mem_names_iff.2 (.inr hleft), h.leadsToCycle_of_left name hleft⟩,
    fun ⟨hknown, hcycle⟩ => (mem_names_iff.1 hknown).resolve_left fun hemitted =>
      h.not_leadsToCycle_of_emitted hemitted hcycle⟩

end ReadEachOther

end Emission

/-! ## What a refusal says -/

variable {α : Type} {fields : FieldMap α} {kind : FieldKind}

theorem map_name_computedOf_sublist (hnamed : Named fields) (kind : FieldKind) :
    ((computedOf fields kind).map Field.name).Sublist fields.keys :=
  hnamed.map_name ▸ List.filter_sublist.map Field.name

/-- **A refused order names what can never be evaluated** — in declaration order and once each, the
computed fields of the kind whose reads lead to a cycle, of which there is at least one. -/
theorem resolveOrder_refuses (hnamed : Named fields)
    (hkind : kind = .algebraic ∨ kind = .parameter) (hfiled : Filed fields kind) {e : Error α}
    (h : resolveOrder fields kind = .error e) :
    ∃ names, e = .cyclicDependency names ∧ names.Sublist fields.keys ∧ names.Nodup ∧
      (∀ name, name ∈ names ↔ (∃ f ∈ computedOf fields kind, f.name = name) ∧
        LeadsToCycle (ReadsOfKind fields kind) name) ∧ names ≠ [] := by
  rw [resolveOrder_eq hkind hfiled] at h
  split at h
  · exact nomatch h
  rename_i hstuck
  have hsublist : ((emitReady [] (graphOf fields kind)).2.map Reader.name).Sublist fields.keys := by
    have := (emitReady_stops [] (graphOf fields kind)).2.map Reader.name
    rw [map_name_graphOf] at this
    exact this.trans (map_name_computedOf_sublist hnamed kind)
  refine ⟨_, (Except.error.inj h).symm, hsublist, fields.nodup.sublist hsublist, fun name => ?_, ?_⟩
  · rw [(readEachOther_graphOf hnamed).mem_left_iff, links_graphOf hnamed hkind hfiled,
      map_name_graphOf, List.mem_map]
  · exact fun hnil => hstuck (List.map_eq_nil_iff.1 hnil)

/-- Two fields in a cycle, one behind it and one beside it, one that reads itself, and one in
front. -/
def knot : FieldMap Nat := fieldsOf
  [takingOver .algebraic "behind" ["x", "free", "x"], takingOver .algebraic "x" ["y", "front"],
    takingOver .algebraic "y" ["x"], takingOver .algebraic "free" ["front"],
    takingOver .algebraic "self" ["self"], takingOver .algebraic "front" []]

theorem knot_refused :
    Named knot ∧ Filed knot .algebraic ∧
      resolveOrder knot .algebraic = .error (.cyclicDependency ["behind", "x", "y", "self"]) ∧
      ∃ names, Error.cyclicDependency (α := Nat) ["behind", "x", "y", "self"] =
          .cyclicDependency names ∧ names.Sublist knot.keys ∧ names.Nodup ∧
        (∀ name, name ∈ names ↔ (∃ f ∈ computedOf knot .algebraic, f.name = name) ∧
          LeadsToCycle (ReadsOfKind knot .algebraic) name) ∧ names ≠ [] := by
  have hnamed : Named knot := by decide +kernel
  have hfiled : Filed knot .algebraic := by decide +kernel
  have hrefused : resolveOrder knot .algebraic =
      .error (.cyclicDependency ["behind", "x", "y", "self"]) := by decide +kernel
  exact ⟨hnamed, hfiled, hrefused, resolveOrder_refuses hnamed (.inl rfl) hfiled hrefused⟩

end FieldFlow
