import FieldFlow.Proofs.Model.Auxiliary
import FieldFlow.Proofs.Model.Cycles
import Mathlib.Order.Bounds.Basic

/-!
# Proofs/Model/Needed — what is not auxiliary feeds back

A computed field is needed as long as another needed field reads it, so the needed fields are the
largest set whose members are all read from within (`isGreatest_neededNames`). In a finite set like
that every chain of reads comes back to a field that it met before, over others: the needed fields
are those that lead to a feedback (`mem_neededNames_iff`). How the set is gone through does not
matter: in whatever order its members come up in each round, the same fields are left, after at most
one round for each computed field and a last one (`auxiliaryFields_exact`).
-/

namespace FieldFlow

open Relation

variable {α : Type} {fields : FieldMap α} {name : String}

/-! ## Computed and needed fields by name -/

def computedNames (fields : FieldMap α) : List String :=
  (fields.values.filter Field.isComputed).map Field.name

def neededNames (fields : FieldMap α) : List String :=
  (neededAmong (fields.values.filter Field.isComputed)).map Field.name

theorem auxiliaryFields_eq : auxiliaryFields fields =
    (computedNames fields).filter fun name => !(neededNames fields).contains name := rfl

theorem mem_auxiliaryFields_iff_name : name ∈ auxiliaryFields fields ↔
    name ∈ computedNames fields ∧ name ∉ neededNames fields := by
  rw [auxiliaryFields_eq, List.mem_filter, Bool.not_eq_true', ← Bool.not_eq_true,
    List.contains_iff_mem]

theorem mem_computedNames_iff (hnamed : Named fields) : name ∈ computedNames fields ↔
    ∃ f, fields.get? name = some f ∧ f.isComputed = true := by
  constructor
  · intro h
    obtain ⟨f, hf, rfl⟩ := List.mem_map.1 h
    obtain ⟨hvalue, hcomputed⟩ := List.mem_filter.1 hf
    exact ⟨f, hnamed.get? hvalue, hcomputed⟩
  · rintro ⟨f, hf, hcomputed⟩
    rw [← hnamed name f hf]
    exact List.mem_map_of_mem
      (List.mem_filter.2 ⟨OrderedMap.mem_values_iff.2 ⟨name, hf⟩, hcomputed⟩)

theorem neededNames_subset_computedNames (h : name ∈ neededNames fields) :
    name ∈ computedNames fields := by
  obtain ⟨f, hf, rfl⟩ := List.mem_map.1 h
  exact List.mem_map_of_mem (mem_of_mem_neededAmong hf)

/-- The computed fields come up in declaration order. -/
theorem computedNames_sublist (hnamed : Named fields) :
    (computedNames fields).Sublist fields.keys :=
  hnamed.map_name ▸ List.filter_sublist.map Field.name

/-! ## The largest set that is read from within -/

/-- **One field is an input of another**, of a different name. What has inputs is computed. -/
def IsInputOf (fields : FieldMap α) (name reader : String) : Prop :=
  reader ≠ name ∧ ∃ f, fields.get? reader = some f ∧ name ∈ f.inputs

/-- **Some of the names given, read from within**: each is an input of another one of them. -/
def ReadWithin (fields : FieldMap α) (names : List String) (S : Set String) : Prop :=
  ∀ name ∈ S, name ∈ names ∧ ∃ reader ∈ S, IsInputOf fields name reader

theorem readWithin_neededNames (hnamed : Named fields) :
    ReadWithin fields (computedNames fields) {name | name ∈ neededNames fields} := by
  intro name hname
  refine ⟨neededNames_subset_computedNames hname, ?_⟩
  obtain ⟨f, hf, rfl⟩ := List.mem_map.1 hname
  obtain ⟨g, hg, hne, hread⟩ := exists_reader_of_mem_neededAmong hf
  have hvalue := List.mem_of_mem_filter (mem_of_mem_neededAmong hg)
  exact ⟨g.name, List.mem_map_of_mem hg, hne, g, hnamed.get? hvalue, hread⟩

/-- **The needed fields are the largest set of computed fields that is read from within** — the
fields that bear a name of such a set keep each other needed. -/
theorem isGreatest_neededNames (hnamed : Named fields) :
    IsGreatest {S | ReadWithin fields (computedNames fields) S} {name | name ∈ neededNames fields} := by
  refine ⟨readWithin_neededNames hnamed, fun S hS name hname => ?_⟩
  have hkept : ∀ f, f ∈ fields.values.filter Field.isComputed ∧ f.name ∈ S →
      f ∈ neededAmong (fields.values.filter Field.isComputed) := by
    refine mem_neededAmong_of_readers (fun f hf => hf.1) fun f ⟨_, hmem⟩ => ?_
    obtain ⟨reader, hreader, hne, g, hg, hread⟩ := (hS f.name hmem).2
    obtain rfl := hnamed reader g hg
    have hvalue := OrderedMap.mem_values_iff.2 ⟨g.name, hg⟩
    have hcomputed := Field.isComputed_of_mem_inputs hread
    exact ⟨g, ⟨List.mem_filter.2 ⟨hvalue, hcomputed⟩, hreader⟩, hne, hread⟩
  obtain ⟨f, hf, rfl⟩ := List.mem_map.1 (hS name hname).1
  exact List.mem_map_of_mem (hkept f ⟨hf, hname⟩)

/-! ## Feedbacks -/

section Feedback

variable {N : Type} {r : N → N → Prop} {a : N}

/-- **A chain leads to a feedback** — in some steps, perhaps none, to a cycle of at least two. -/
def LeadsToFeedback (r : N → N → Prop) (a : N) : Prop :=
  ∃ b c, b ≠ c ∧ ReflTransGen r a b ∧ TransGen r b c ∧ TransGen r c b

/-- Where nothing is a step away from itself, every cycle is one of at least two. -/
theorem leadsToFeedback_iff (hirrefl : ∀ a, ¬ r a a) : LeadsToFeedback r a ↔ LeadsToCycle r a := by
  constructor
  · rintro ⟨b, c, -, hab, hbc, hcb⟩
    exact ⟨b, hab, hbc.trans hcb⟩
  · rintro ⟨b, hab, hcycle⟩
    obtain ⟨c, hbc, hcb⟩ := TransGen.head'_iff.1 hcycle
    have hne : b ≠ c := fun heq => hirrefl b (heq ▸ hbc)
    exact ⟨b, c, hne, hab, .single hbc, (reflTransGen_iff_eq_or_transGen.1 hcb).resolve_left hne⟩

end Feedback

/-- What leads to a feedback is read from within: it is an input of what comes next. -/
theorem readWithin_feedback (hnamed : Named fields) : ReadWithin fields (computedNames fields)
    {name | name ∈ computedNames fields ∧ LeadsToFeedback (IsInputOf fields) name} := by
  simp only [leadsToFeedback_iff fun _ (h : IsInputOf fields _ _) => h.1 rfl]
  rintro name ⟨hcomputed, hcycle⟩
  obtain ⟨reader, hread, hnext⟩ := hcycle.exists_next
  obtain ⟨f, hf, hinput⟩ := hread.2
  have hreader := (mem_computedNames_iff hnamed).2 ⟨f, hf, Field.isComputed_of_mem_inputs hinput⟩
  exact ⟨hcomputed, reader, ⟨hreader, hnext⟩, hread⟩

/-- **A computed field is needed exactly if it leads to a feedback.** -/
theorem mem_neededNames_iff (hnamed : Named fields) : name ∈ neededNames fields ↔
    name ∈ computedNames fields ∧ LeadsToFeedback (IsInputOf fields) name := by
  refine ⟨fun h => ⟨neededNames_subset_computedNames h, ?_⟩,
    fun h => (isGreatest_neededNames hnamed).2 (readWithin_feedback hnamed) h⟩
  have hnext := fun name hname => (readWithin_neededNames hnamed name hname).2
  exact (leadsToFeedback_iff fun _ h => h.1 rfl).2
    (leadsToCycle_of_finite (List.finite_toSet _) hnext name h)

/-! ## Rounds over a set without an order -/

/-- **An order in which the members of a set come up**, a new one in each round. -/
structure Listing where
  list : Nat → List String → List String
  perm : ∀ round names, (list round names).Perm names

theorem Listing.mem_list_iff (listing : Listing) {round : Nat} {names : List String} :
    name ∈ listing.list round names ↔ name ∈ names := (listing.perm round names).mem_iff

/-- The names on a list that are no input of another field on it. -/
def unreadOn (fields : FieldMap α) (listed : List String) : List String :=
  listed.filter fun name => !listed.any fun reader =>
    reader ≠ name && (fields.get? reader).any fun f => f.inputs.contains name

/-- What is left of a list when some names are dropped. -/
def dropNames (dropped listed : List String) : List String :=
  listed.filter fun name => !dropped.contains name

theorem length_dropNames_unreadOn {listed : List String} (h : unreadOn fields listed ≠ []) :
    (dropNames (unreadOn fields listed) listed).length < listed.length := by
  obtain ⟨name, hname⟩ := List.exists_mem_of_ne_nil _ h
  refine List.length_filter_lt_length_iff_exists.2 ⟨name, List.mem_of_mem_filter hname, ?_⟩
  simpa using hname

/-- Goes through a set in rounds and drops what is unread in it, until a round finds nothing to
drop; returns the number of rounds and what is left. -/
def dropInRounds (fields : FieldMap α) (listing : Listing) (round : Nat) (needed : List String) :
    Nat × List String :=
  let listed := listing.list round needed
  let dropped := unreadOn fields listed
  if _h : dropped = [] then (round + 1, needed)
  else dropInRounds fields listing (round + 1) (dropNames dropped listed)
termination_by needed.length
decreasing_by
  rw [← (listing.perm round needed).length_eq]
  exact length_dropNames_unreadOn _h

/-- The auxiliary fields, found by rounds over a set whose members come up in any order. -/
def auxiliaryInRounds (fields : FieldMap α) (listing : Listing) : List String :=
  dropNames (dropInRounds fields listing 0 (computedNames fields)).2 (computedNames fields)

section Rounds

variable {listing : Listing} {names : List String}

theorem mem_unreadOn_iff {listed : List String} : name ∈ unreadOn fields listed ↔
    name ∈ listed ∧ ¬ ∃ reader ∈ listed, IsInputOf fields name reader := by
  simp [unreadOn, IsInputOf, Option.any_eq_true]

theorem mem_dropNames_iff {dropped listed : List String} :
    name ∈ dropNames dropped listed ↔ name ∈ listed ∧ name ∉ dropped := by
  simp [dropNames]

/-- **A round keeps all that is read from within.** -/
theorem readWithin_round (listing : Listing) (round : Nat) (names : List String)
    {S : Set String} : ReadWithin fields (dropNames (unreadOn fields (listing.list round names))
      (listing.list round names)) S ↔ ReadWithin fields names S := by
  refine ⟨fun h name hname => ?_, fun h name hname => ?_⟩
  · obtain ⟨hkept, hread⟩ := h name hname
    exact ⟨listing.mem_list_iff.1 (mem_dropNames_iff.1 hkept).1, hread⟩
  · obtain ⟨hmem, reader, hreader, hread⟩ := h name hname
    have hlisted : reader ∈ listing.list round names :=
      listing.mem_list_iff.2 (h reader hreader).1
    refine ⟨mem_dropNames_iff.2 ⟨listing.mem_list_iff.2 hmem, fun hunread => ?_⟩, reader, hreader,
      hread⟩
    exact (mem_unreadOn_iff.1 hunread).2 ⟨reader, hlisted, hread⟩

/-- A round that finds nothing to drop has gone through a set that is read from within. -/
theorem readWithin_of_nothing_unread {round : Nat}
    (h : unreadOn fields (listing.list round names) = []) :
    ReadWithin fields names {name | name ∈ names} := by
  intro name hname
  have hread : name ∉ unreadOn fields (listing.list round names) := by
    rw [h]
    exact List.not_mem_nil
  rw [mem_unreadOn_iff, listing.mem_list_iff, not_and, not_not] at hread
  obtain ⟨reader, hreader, hinput⟩ := hread hname
  exact ⟨hname, reader, listing.mem_list_iff.1 hreader, hinput⟩

/-- **Rounds leave the largest set that is read from within.** -/
theorem isGreatest_dropInRounds (round : Nat) : IsGreatest {S | ReadWithin fields names S}
    {name | name ∈ (dropInRounds fields listing round names).2} := by
  induction round, names using dropInRounds.induct fields listing with
  | case1 round names listed dropped hnone =>
    rw [dropInRounds, dif_pos hnone]
    exact ⟨readWithin_of_nothing_unread hnone, fun S hS name hname => (hS name hname).1⟩
  | case2 round names listed dropped hsome ih =>
    rw [dropInRounds, dif_neg hsome]
    simp only [← readWithin_round listing round names]
    exact ih

/-- **There is a round for each name that is dropped at most**, and a last one. -/
theorem rounds_le (round : Nat) :
    (dropInRounds fields listing round names).1 ≤ round + (names.length + 1) := by
  induction round, names using dropInRounds.induct fields listing with
  | case1 round names listed dropped hnone =>
    rw [dropInRounds, dif_pos hnone]
    exact Nat.add_le_add_left (Nat.le_add_left 1 _) round
  | case2 round names listed dropped hsome ih =>
    rw [dropInRounds, dif_neg hsome]
    have hfewer : (dropNames dropped listed).length < listed.length :=
      length_dropNames_unreadOn hsome
    have hlength : listed.length = names.length := (listing.perm round names).length_eq
    exact ih.trans (by omega)

end Rounds

/-! ## The auxiliary fields -/

theorem mem_neededNames_iff_notMem : name ∈ neededNames fields ↔
    name ∈ computedNames fields ∧ name ∉ auxiliaryFields fields := by
  rw [mem_auxiliaryFields_iff_name, not_and, not_not]
  exact ⟨fun h => ⟨neededNames_subset_computedNames h, fun _ => h⟩, fun h => h.2 h.1⟩

/-- **Whatever the order of the members**, rounds find the same auxiliary fields. -/
theorem auxiliaryInRounds_eq (hnamed : Named fields) (listing : Listing) :
    auxiliaryInRounds fields listing = auxiliaryFields fields := by
  have hleft : IsGreatest {S | ReadWithin fields (computedNames fields) S}
      {name | name ∈ (dropInRounds fields listing 0 (computedNames fields)).2} :=
    isGreatest_dropInRounds 0
  have hsame := hleft.unique (isGreatest_neededNames hnamed)
  refine List.filter_congr fun name _ => congrArg _ (Bool.eq_iff_iff.2 ?_)
  rw [List.contains_iff_mem, List.contains_iff_mem]
  exact Set.ext_iff.1 hsame name

/-- **The auxiliary fields, exactly** — of fields listed under their names, the computed ones that
are not auxiliary are the largest set of computed fields each of which is an input of another one in
it; a computed field is auxiliary just if it leads to no feedback; the auxiliary fields come up in
declaration order; and rounds over a set find the same ones, in whatever order its members come up,
after at most one round for each computed field and a last one. -/
theorem auxiliaryFields_exact (hnamed : Named fields) :
    IsGreatest {S | ReadWithin fields (computedNames fields) S}
      {name | name ∈ computedNames fields ∧ name ∉ auxiliaryFields fields} ∧
    (∀ name, name ∈ auxiliaryFields fields ↔
      name ∈ computedNames fields ∧ ¬ LeadsToFeedback (IsInputOf fields) name) ∧
    (auxiliaryFields fields).Sublist fields.keys ∧
    ∀ listing, auxiliaryInRounds fields listing = auxiliaryFields fields ∧
      (dropInRounds fields listing 0 (computedNames fields)).1 ≤ (computedNames fields).length + 1 := by
  simp only [← mem_neededNames_iff_notMem]
  refine ⟨isGreatest_neededNames hnamed, fun name => ?_,
    List.filter_sublist.trans (computedNames_sublist hnamed), fun listing =>
      ⟨auxiliaryInRounds_eq hnamed listing, (rounds_le 0).trans_eq (Nat.zero_add _)⟩⟩
  rw [mem_auxiliaryFields_iff_name, mem_neededNames_iff hnamed]
  exact and_congr_right fun hcomputed => not_congr (and_iff_right hcomputed)

/-- Two feedbacks with a field that feeds them, a field that reads itself, and a chain behind
them. -/
def tangle : FieldMap Nat := fieldsOf
  [takingOver .algebraic "end" ["behind"], takingOver .dynamic "x" ["y", "source"],
    takingOver .dynamic "y" ["x"], takingOver .algebraic "self" ["self"],
    takingOver .algebraic "p" ["q", "source"], takingOver .dynamic "q" ["r"],
    takingOver .dynamic "r" ["p"], takingOver .algebraic "behind" ["x", "r"],
    takingOver .parameter "source" ["given"], Field.bare "given" .parameter]

/-- Members that come up backwards in every other round. -/
def turning : Listing where
  list round names := if round % 2 = 0 then names.reverse else names
  perm round names := by
    split
    · exact List.reverse_perm names
    · exact .refl names

theorem tangle_exact : Named tangle ∧ auxiliaryFields tangle = ["end", "self", "behind"] ∧
    LeadsToFeedback (IsInputOf tangle) "source" ∧ ¬ LeadsToFeedback (IsInputOf tangle) "self" ∧
    auxiliaryInRounds tangle turning = ["end", "self", "behind"] ∧
    (dropInRounds tangle turning 0 (computedNames tangle)).1 ≤ 10 := by
  have hnamed : Named tangle := by decide +kernel
  have haux : auxiliaryFields tangle = ["end", "self", "behind"] := by decide +kernel
  have hcomputed : "source" ∈ computedNames tangle ∧ "self" ∈ computedNames tangle := by
    decide +kernel
  obtain ⟨-, hfeedback, -, hrounds⟩ := auxiliaryFields_exact hnamed
  refine ⟨hnamed, haux, ?_, ((hfeedback "self").1 (by rw [haux]; decide)).2,
    (hrounds turning).1.trans haux, (hrounds turning).2⟩
  by_contra hnone
  have hmem := (hfeedback "source").2 ⟨hcomputed.1, hnone⟩
  rw [haux] at hmem
  exact absurd hmem (by decide)

end FieldFlow
