import FieldFlow.Proofs.Model.Countdown
import FieldFlow.Proofs.Model.Cycles

/-!
# Proofs/Model/Canonical — the order of a kind is the first of all that there are

Of the fields that are ready the first declared is always taken. So the order that is found comes
before every other one (`lex_of_arranges`): where two differ for the first time, both list fields
that are ready there. There is an order unless some field reads its way back to itself. All that is
known of it is put together in `resolveOrder_canonical`.
-/

namespace FieldFlow

open Relation

/-! ## Ready orders -/

section Emission

variable {readers : List Reader}

/-- Readers stand in a ready order if each read is done before or stands in front of its reader. -/
theorem readyOrder_of_idxOf : ∀ {done : List String} {rs : List Reader},
    (∀ r ∈ rs, ∀ read ∈ r.reads, read ∈ done ∨
      (rs.map Reader.name).idxOf read < (rs.map Reader.name).idxOf r.name) →
    (rs.map Reader.name).Nodup → ReadyOrder done rs
  | _, [], _, _ => trivial
  | done, first :: rest, h, hnodup => by
      rw [List.map_cons, List.nodup_cons] at hnodup
      refine ⟨fun read hread => ?_, readyOrder_of_idxOf (fun r hr read hread => ?_) hnodup.2⟩
      · refine (h first List.mem_cons_self read hread).resolve_right fun hlt => ?_
        rw [List.map_cons, List.idxOf_cons_self] at hlt
        exact Nat.not_lt_zero _ hlt
      · rw [List.mem_append, List.mem_singleton, or_assoc]
        refine (h r (List.mem_cons_of_mem _ hr) read hread).imp_right fun hlt => ?_
        have hother : first.name ≠ r.name := fun heq =>
          hnodup.1 (heq ▸ List.mem_map_of_mem hr)
        rcases eq_or_ne first.name read with heq | hne
        · exact .inl heq.symm
        · rw [List.map_cons, List.idxOf_cons_ne _ hne, List.idxOf_cons_ne _ hother] at hlt
          exact .inr (Nat.lt_of_succ_lt_succ hlt)

/-- **What is taken out is the first of all that are ready.** -/
theorem eq_or_rel_of_takeReady? {R : Reader → Reader → Prop} {done : List String} :
    ∀ {waiting rest : List Reader} {r : Reader}, takeReady? done waiting = some (r, rest) →
      waiting.Pairwise R → ∀ s ∈ waiting, (∀ read ∈ s.reads, read ∈ done) → s = r ∨ R r s
  | [], _, _, h, _, _, _, _ => nomatch h
  | first :: others, rest, r, h, hsorted, s, hs, hready => by
      rw [List.pairwise_cons] at hsorted
      rw [takeReady?] at h
      split at h
      · obtain ⟨rfl, rfl⟩ := Prod.mk.inj (Option.some.inj h)
        exact (List.mem_cons.1 hs).imp_right (hsorted.1 s)
      · rename_i hwaits
        obtain ⟨⟨found, left⟩, hfound, heq⟩ := Option.map_eq_some_iff.1 h
        obtain ⟨rfl, -⟩ := Prod.mk.inj heq
        have hne : s ≠ first := fun heq => hwaits (by simpa [heq] using hready)
        exact eq_or_rel_of_takeReady? hfound hsorted.2 s ((List.mem_cons.1 hs).resolve_left hne)
          hready

/-- **The emission comes before every other ready order** of the same readers. -/
theorem lex_of_readyOrder {before : String → String → Prop} {done : List String}
    {waiting : List Reader} (hsorted : waiting.Pairwise fun r s => before r.name s.name)
    {emitted : List String} (hemitted : (emitReady done waiting).1 = done ++ emitted)
    {other : List Reader} (hperm : other.Perm waiting) (hready : ReadyOrder done other)
    (hne : other.map Reader.name ≠ emitted) : List.Lex before emitted (other.map Reader.name) := by
  induction done, waiting using emitReady.induct generalizing emitted other with
  | case1 done waiting hnone =>
    rw [emitReady_of_none hnone, List.self_eq_append_right] at hemitted
    subst hemitted
    obtain ⟨first, rest, heq⟩ := List.exists_cons_of_ne_nil hne
    exact heq ▸ .nil
  | case2 done waiting r rest htake _ ih =>
    have hrest := perm_of_takeReady? htake
    rw [emitReady_of_some htake] at hemitted
    obtain ⟨later, hlater, -⟩ := emitReady_spec (done ++ [r.name]) rest
    rw [hlater, List.append_assoc, List.append_cancel_left_eq] at hemitted
    subst hemitted
    cases other with
    | nil => cases (hperm.trans hrest).nil_eq
    | cons s others =>
      have hs : s ∈ waiting := hperm.mem_iff.1 List.mem_cons_self
      rcases eq_or_rel_of_takeReady? htake hsorted s hs hready.1 with rfl | hbefore
      · refine .cons (ih (hsorted.sublist (sublist_of_takeReady? htake)) hlater
          ((hperm.trans hrest).cons_inv) hready.2 fun heq => hne ?_)
        rw [List.map_cons, heq]
        rfl
      · exact .rel hbefore

end Emission

/-! ## Arrangements -/

variable {α : Type} {fields : FieldMap α} {kind : FieldKind}

/-- **An arrangement of the computed fields of a kind** — all of them once, each behind those of the
kind that it reads. -/
structure Arranges (fields : FieldMap α) (kind : FieldKind) (order : List String) : Prop where
  perm : order.Perm ((computedOf fields kind).map Field.name)
  follows : ∀ {reader read}, ReadsOfKind fields kind reader read →
    order.idxOf read < order.idxOf reader

/-- In an order of evaluation what is read within the kind stands in front of its reader. -/
theorem EvaluationOrder.idxOf_lt (hnamed : Named fields) {order : List String}
    (horder : EvaluationOrder fields kind order) {reader read : String}
    (h : ReadsOfKind fields kind reader read) : order.idxOf read < order.idxOf reader := by
  obtain ⟨⟨f, hf, rfl, hread⟩, hknown⟩ := h
  obtain ⟨g, hg, rfl⟩ := List.mem_map.1 hknown
  have hf := mem_computedOf_iff.1 hf
  have hg := mem_computedOf_iff.1 hg
  have hlisted := horder.complete (hnamed.get? hg.1) hg.2.1 hg.2.2
  exact horder.follows (hnamed.get? hf.1) hf.2.1 g.name hread hlisted

theorem arranges_of_resolveOrder (hnamed : Named fields)
    (hkind : kind = .algebraic ∨ kind = .parameter) {order : List String}
    (h : resolveOrder fields kind = .ok order) : Arranges fields kind order := by
  obtain ⟨hperm, horder⟩ := evaluationOrder_of_resolveOrder hnamed hkind h
  exact ⟨hperm, horder.idxOf_lt hnamed⟩

/-- The readers of a kind are listed as they are declared. -/
theorem pairwise_graphOf (hnamed : Named fields) : (graphOf fields kind).Pairwise fun r s =>
    fields.keys.idxOf r.name < fields.keys.idxOf s.name := by
  have hnodup : fields.keys.Nodup := fields.nodup
  have hkeys : fields.keys.Pairwise fun a b => fields.keys.idxOf a < fields.keys.idxOf b := by
    refine List.pairwise_iff_getElem.2 fun i j hi hj hij => ?_
    rwa [hnodup.idxOf_getElem, hnodup.idxOf_getElem]
  have hnames := hkeys.sublist (map_name_computedOf_sublist hnamed kind)
  rwa [← map_name_graphOf, List.pairwise_map] at hnames

/-- An arrangement is a ready order of the readers. -/
theorem Arranges.exists_readyOrder (hnamed : Named fields)
    (hkind : kind = .algebraic ∨ kind = .parameter) (hfiled : Filed fields kind)
    {order : List String} (h : Arranges fields kind order) :
    ∃ rs, rs.Perm (graphOf fields kind) ∧ rs.map Reader.name = order ∧ ReadyOrder [] rs := by
  have hnames : List.Forall₂ (fun name r => name = Reader.name r)
      ((computedOf fields kind).map Field.name) (graphOf fields kind) := by
    rw [← map_name_graphOf, List.forall₂_map_left_iff]
    exact List.forall₂_same.2 fun _ _ => rfl
  obtain ⟨rs, hrs, hperm⟩ := List.perm_comp_forall₂ h.perm hnames
  have horder : rs.map Reader.name = order := by
    rwa [← List.forall₂_map_right_iff, List.forall₂_eq_eq_eq, eq_comm] at hrs
  refine ⟨rs, hperm, horder, readyOrder_of_idxOf (fun r hr read hread => .inr ?_) ?_⟩
  · rw [horder]
    refine h.follows ?_
    rw [← links_graphOf hnamed hkind hfiled]
    exact ⟨r, hperm.mem_iff.1 hr, rfl, hread⟩
  · rw [horder, h.perm.nodup_iff]
    exact nodup_computedOf hnamed kind

/-- **The order that is found comes before every other arrangement**: where they differ for the
first time it lists the field that is declared earlier. -/
theorem lex_of_arranges (hnamed : Named fields) (hkind : kind = .algebraic ∨ kind = .parameter)
    (hfiled : Filed fields kind) {order other : List String}
    (h : resolveOrder fields kind = .ok order) (hother : Arranges fields kind other)
    (hne : other ≠ order) :
    List.Lex (fun a b => fields.keys.idxOf a < fields.keys.idxOf b) order other := by
  obtain ⟨rs, hperm, rfl, hready⟩ := hother.exists_readyOrder hnamed hkind hfiled
  refine lex_of_readyOrder (pairwise_graphOf hnamed) ?_ hperm hready hne
  rw [resolveOrder_eq hkind hfiled] at h
  split at h
  · exact Except.ok.inj h
  · exact nomatch h

/-- **There is an order** exactly if no field reads its way back to itself. -/
theorem exists_resolveOrder_iff (hnamed : Named fields)
    (hkind : kind = .algebraic ∨ kind = .parameter) (hfiled : Filed fields kind) :
    (∃ order, resolveOrder fields kind = .ok order) ↔
      ∀ name, ¬ TransGen (ReadsOfKind fields kind) name name := by
  have hreaders : ReadEachOther (graphOf fields kind) := readEachOther_graphOf hnamed
  rw [resolveOrder_eq hkind hfiled, ← links_graphOf hnamed hkind hfiled]
  constructor
  · rintro ⟨order, horder⟩ name hcycle
    split at horder
    · rename_i hnil
      obtain ⟨read, ⟨r, hr, rfl, -⟩, -⟩ := TransGen.head'_iff.1 hcycle
      have hleft := hreaders.mem_left_iff.2 ⟨List.mem_map_of_mem hr, _, .refl, hcycle⟩
      rw [hnil] at hleft
      exact List.not_mem_nil hleft
    · exact nomatch horder
  · intro hacyclic
    refine ⟨_, if_pos (List.eq_nil_iff_forall_not_mem.2 fun r hr => ?_)⟩
    obtain ⟨c, -, hcycle⟩ := hreaders.leadsToCycle_of_left _ (List.mem_map_of_mem hr)
    exact hacyclic c hcycle

/-- A list in which each field stands behind those of the kind that it reads shows that there is an
order. -/
theorem exists_resolveOrder_of_follows (hnamed : Named fields)
    (hkind : kind = .algebraic ∨ kind = .parameter) (hfiled : Filed fields kind)
    {l : List String} (hfollows : ∀ {reader read}, ReadsOfKind fields kind reader read →
      l.idxOf read < l.idxOf reader) : ∃ order, resolveOrder fields kind = .ok order := by
  have hdown : ∀ {reader read}, TransGen (ReadsOfKind fields kind) reader read →
      l.idxOf read < l.idxOf reader := by
    intro reader read hchain
    induction hchain with
    | single hreads => exact hfollows hreads
    | tail _ hreads ih => exact (hfollows hreads).trans ih
  exact (exists_resolveOrder_iff hnamed hkind hfiled).2 fun name hcycle =>
    lt_irrefl _ (hdown hcycle)

/-- **The evaluation order of a kind** — it is found exactly if no field of the kind reads its way
back to itself; it arranges the computed fields of the kind and comes before every other
arrangement; it depends on nothing but which field reads which, however often it says so; and it can
be found by counting down what is missing, where no count goes below zero. -/
theorem resolveOrder_canonical (hnamed : Named fields)
    (hkind : kind = .algebraic ∨ kind = .parameter) (hfiled : Filed fields kind) :
    ((∃ order, resolveOrder fields kind = .ok order) ↔
      ∀ name, ¬ TransGen (ReadsOfKind fields kind) name name) ∧
    (∀ order, resolveOrder fields kind = .ok order → Arranges fields kind order ∧
      ∀ other, Arranges fields kind other → other ≠ order →
        List.Lex (fun a b => fields.keys.idxOf a < fields.keys.idxOf b) order other) ∧
    (∀ fields', SameReads kind fields fields' →
      resolveOrder fields' kind = resolveOrder fields kind) ∧
    orderByCounting (graphOf fields kind) = some (resolveOrder fields kind) :=
  ⟨exists_resolveOrder_iff hnamed hkind hfiled,
    fun _ horder => ⟨arranges_of_resolveOrder hnamed hkind horder,
      fun _ hother hne => lex_of_arranges hnamed hkind hfiled horder hother hne⟩,
    fun _ hsame => resolveOrder_congr hkind hfiled hsame,
    orderByCounting_graphOf hnamed hkind hfiled⟩

/-- A field that reads two others in turn, which both read a fourth one. -/
def diamond : FieldMap Nat := fieldsOf
  [takingOver .algebraic "sum" ["left", "right", "left"], takingOver .algebraic "right" ["base"],
    takingOver .algebraic "left" ["base", "base"], takingOver .algebraic "base" []]

theorem diamond_canonical :
    Named diamond ∧ Filed diamond .algebraic ∧
      Arranges diamond .algebraic ["base", "right", "left", "sum"] ∧
      (∀ other, Arranges diamond .algebraic other → other ≠ ["base", "right", "left", "sum"] →
        List.Lex (fun a b => diamond.keys.idxOf a < diamond.keys.idxOf b)
          ["base", "right", "left", "sum"] other) ∧
      orderByCounting (α := Nat) (graphOf diamond .algebraic) =
        some (.ok ["base", "right", "left", "sum"]) := by
  have hnamed : Named diamond := by decide +kernel
  have hfiled : Filed diamond .algebraic := by decide +kernel
  have horder : resolveOrder diamond .algebraic = .ok ["base", "right", "left", "sum"] := by
    decide +kernel
  obtain ⟨-, hfirst, -, hcounting⟩ := resolveOrder_canonical hnamed (.inl rfl) hfiled
  obtain ⟨harranges, hbefore⟩ := hfirst _ horder
  exact ⟨hnamed, hfiled, harranges, hbefore, hcounting.trans (congrArg some horder)⟩

end FieldFlow
