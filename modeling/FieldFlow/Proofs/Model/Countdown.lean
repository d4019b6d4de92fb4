import FieldFlow.Proofs.Model.Graph
import Mathlib.Algebra.BigOperators.Fin
import Mathlib.Algebra.Order.BigOperators.Group.Finset
import Mathlib.Data.List.FinRange
import Mathlib.Data.List.Sort

/-!
# Proofs/Model/Countdown — the order of evaluation by counting down

Instead of asking again and again which reader is ready, one can keep for each the number of its
reads that are still missing, and lower it whenever one of them is evaluated. The counts and the
ready places then are functions of what has been evaluated so far (`after`), no count is ever
lowered below zero, and the answer is the same: `orderByCounting_graphOf`.
-/

namespace FieldFlow

/-! ## Counting down -/

/-- Counts at places: how many reads are missing at each, which places are ready, lowest first, and
which have been evaluated. -/
@[ext] structure Countdown (n : Nat) where
  missing : Fin n → Nat
  ready : List (Fin n)
  evaluated : List (Fin n)

namespace Countdown

variable {n : Nat} {c next : Countdown n}

/-- One read fewer is missing at a place, which is ready when it was the last. -/
def lowered (c : Countdown n) (i : Fin n) : Countdown n where
  missing := Function.update c.missing i (c.missing i - 1)
  ready := if c.missing i = 1 then c.ready.orderedInsert (· ≤ ·) i else c.ready
  evaluated := c.evaluated

/-- Counts one read less, if there is any to count. -/
def lower (c : Countdown n) (i : Fin n) : Option (Countdown n) :=
  if c.missing i = 0 then none else some (c.lowered i)

/-- Takes out a ready place. -/
def taking (c : Countdown n) (i : Fin n) (rest : List (Fin n)) : Countdown n :=
  { c with ready := rest, evaluated := c.evaluated ++ [i] }

theorem ready_lowered_perm (c : Countdown n) (i : Fin n) :
    (c.lowered i).ready.Perm ([i].filter (c.missing · = 1) ++ c.ready) := by
  unfold lowered
  split
  · rename_i hlast
    simpa [hlast] using List.perm_orderedInsert (· ≤ ·) i c.ready
  · rename_i hmore
    simp [hmore]

theorem ready_lowered_sorted {i : Fin n} (h : c.ready.Pairwise (· ≤ ·)) :
    (c.lowered i).ready.Pairwise (· ≤ ·) := by
  unfold lowered
  split
  · exact h.orderedInsert i _
  · exact h

/-- The reads that are missing and the places that are ready; every round leaves less. -/
def remaining (c : Countdown n) : Nat := ∑ i, c.missing i + c.ready.length

theorem remaining_lower {i : Fin n} (h : c.lower i = some next) : next.remaining ≤ c.remaining := by
  unfold lower at h
  split at h
  · exact nomatch h
  rename_i hpos
  obtain rfl := Option.some.inj h
  have hsum : ∑ j, (c.lowered i).missing j < ∑ j, c.missing j := by
    refine Finset.sum_lt_sum (fun j _ => ?_) ⟨i, Finset.mem_univ i, ?_⟩
    · exact update_le_iff.2 ⟨Nat.sub_le _ _, fun _ _ => le_rfl⟩ j
    · exact (Function.update_self i _ c.missing).trans_lt (Nat.sub_one_lt hpos)
  have hready : (c.lowered i).ready.length ≤ c.ready.length + 1 := by
    have := List.length_filter_le (c.missing · = 1) [i]
    rw [(ready_lowered_perm c i).length_eq, List.length_append]
    exact (Nat.add_le_add_right this _).trans_eq (Nat.add_comm _ _)
  unfold remaining
  omega

theorem remaining_foldlM : ∀ {places : List (Fin n)} {c : Countdown n},
    places.foldlM lower c = some next → next.remaining ≤ c.remaining
  | [], _, h => (Option.some.inj h) ▸ le_rfl
  | i :: rest, c, h => by
      rw [List.foldlM_cons, Option.bind_eq_bind, Option.bind_eq_some_iff] at h
      obtain ⟨first, hfirst, hrest⟩ := h
      exact (remaining_foldlM hrest).trans (remaining_lower hfirst)

theorem remaining_lt {places rest : List (Fin n)} {i : Fin n} (hready : c.ready = i :: rest)
    (hlower : places.foldlM lower (c.taking i rest) = some next) :
    next.remaining < c.remaining := by
  refine (remaining_foldlM hlower).trans_lt ?_
  unfold remaining
  rw [hready, List.length_cons]
  exact Nat.add_lt_add_left (Nat.lt_succ_self _) _

/-- **Counting down** — the first ready place is evaluated, and one read fewer is missing at every
place that depends on it. -/
def run (dependents : Fin n → List (Fin n)) (c : Countdown n) : Option (Countdown n) :=
  match hready : c.ready with
  | [] => some c
  | i :: rest =>
    match hlower : (dependents i).foldlM lower (c.taking i rest) with
    | none => none
    | some next =>
      have := remaining_lt hready hlower
      run dependents next
termination_by c.remaining

theorem run_of_nil {dependents : Fin n → List (Fin n)} (h : c.ready = []) :
    c.run dependents = some c := by
  rw [run]
  split
  · rfl
  · rename_i hcons
    exact nomatch h.symm.trans hcons

theorem run_of_cons {dependents : Fin n → List (Fin n)} {i : Fin n} {rest : List (Fin n)}
    (h : c.ready = i :: rest) (hlower : (dependents i).foldlM lower (c.taking i rest) = some next) :
    c.run dependents = next.run dependents := by
  rw [run]
  split
  · rename_i hnil
    exact nomatch h.symm.trans hnil
  · rename_i i' rest' hcons
    obtain ⟨rfl, rfl⟩ := List.cons.inj (h.symm.trans hcons)
    split
    · rename_i hnone
      exact nomatch hlower.symm.trans hnone
    · rename_i hsome
      rw [Option.some.inj (hlower.symm.trans hsome)]

/-- **Where something is missing at different places, it can be lowered at all of them.** The places
that become ready join the others in their order. -/
theorem exists_foldlM_lower : ∀ {places : List (Fin n)} {c : Countdown n}, places.Nodup →
    (∀ i ∈ places, 0 < c.missing i) → c.ready.Pairwise (· ≤ ·) →
      ∃ next, places.foldlM lower c = some next ∧ next.evaluated = c.evaluated ∧
        (∀ i, next.missing i = if i ∈ places then c.missing i - 1 else c.missing i) ∧
        next.ready.Pairwise (· ≤ ·) ∧
        next.ready.Perm (places.filter (c.missing · = 1) ++ c.ready)
  | [], c, _, _, hsorted => ⟨c, rfl, rfl, fun _ => rfl, hsorted, .refl _⟩
  | i :: rest, c, hnodup, hpos, hsorted => by
      rw [List.nodup_cons] at hnodup
      rw [List.forall_mem_cons] at hpos
      have hfirst : c.lower i = some (c.lowered i) := if_neg hpos.1.ne'
      have hmissing : ∀ j ∈ rest, (c.lowered i).missing j = c.missing j := fun j hj =>
        Function.update_of_ne (ne_of_mem_of_not_mem hj hnodup.1) _ _
      obtain ⟨next, hnext, hevaluated, hcounts, hnextsorted, hperm⟩ := exists_foldlM_lower hnodup.2
        (fun j hj => hmissing j hj ▸ hpos.2 j hj) (ready_lowered_sorted hsorted)
      refine ⟨next, ?_, hevaluated, fun j => ?_, hnextsorted, hperm.trans ?_⟩
      · rw [List.foldlM_cons, hfirst]
        exact hnext
      · rw [hcounts]
        by_cases hj : j ∈ rest
        · rw [if_pos hj, if_pos (List.mem_cons_of_mem i hj), hmissing j hj]
        · rw [if_neg hj]
          by_cases hji : j = i
          · rw [hji, if_pos List.mem_cons_self]
            exact Function.update_self _ _ _
          · rw [if_neg (by simp [hj, hji])]
            exact Function.update_of_ne hji _ _
      · have hfilter : rest.filter ((c.lowered i).missing · = 1) = rest.filter (c.missing · = 1) :=
          List.filter_congr fun j hj => by rw [hmissing j hj]
        rw [hfilter, ← List.singleton_append, List.filter_append, List.append_assoc]
        exact ((ready_lowered_perm c i).append_left _).trans (List.perm_append_comm_assoc _ _ _)

end Countdown

/-! ## Counting the reads of readers -/

section Readers

variable {readers : List Reader} {done rest : List (Fin readers.length)} {i j : Fin readers.length}

/-- The names at places. -/
def namesAt (readers : List Reader) (places : List (Fin readers.length)) : List String :=
  places.map fun i => (readers.get i).name

theorem namesAt_append :
    namesAt readers (done ++ [i]) = namesAt readers done ++ [(readers.get i).name] :=
  List.map_append

/-- The places that read a place. -/
def dependents (readers : List Reader) (i : Fin readers.length) : List (Fin readers.length) :=
  (List.finRange readers.length).filter fun j => (readers.get i).name ∈ (readers.get j).reads

/-- At first every read is missing. -/
def Countdown.start (readers : List Reader) : Countdown readers.length where
  missing i := (readers.get i).reads.length
  ready := (List.finRange readers.length).filter fun i => (readers.get i).reads.length = 0
  evaluated := []

/-- **The order by counting down**, or the readers for which something is missing at the end. No
answer at all means that a count was to go below zero. -/
def orderByCounting {α : Type} (readers : List Reader) :
    Option (Except (Error α) (List String)) :=
  ((Countdown.start readers).run (dependents readers)).map fun c =>
    if c.evaluated.length = readers.length then .ok (namesAt readers c.evaluated)
    else .error (.cyclicDependency (namesAt readers
      ((List.finRange readers.length).filter fun i => 0 < c.missing i)))

/-- **The counts after some places have been evaluated** — of the reads at each place those not
among them, and the places still to come at which there is none. -/
def Countdown.after (done : List (Fin readers.length)) : Countdown readers.length where
  missing i := (readers.get i).reads.countP (· ∉ namesAt readers done)
  ready := (List.finRange readers.length).filter fun i =>
    i ∉ done ∧ ∀ read ∈ (readers.get i).reads, read ∈ namesAt readers done
  evaluated := done

theorem Countdown.start_eq : Countdown.start readers = .after [] := by
  unfold start after
  congr 1
  · ext i
    exact (List.countP_eq_length.2 fun _ _ => by simp [namesAt]).symm
  · refine List.filter_congr fun i _ => ?_
    simp [namesAt, List.eq_nil_iff_forall_not_mem]

theorem Countdown.missing_after_eq_zero_iff : (Countdown.after done).missing i = 0 ↔
    ∀ read ∈ (readers.get i).reads, read ∈ namesAt readers done := by
  simp [after, List.countP_eq_zero]

theorem Countdown.mem_ready_after :
    i ∈ (Countdown.after done).ready ↔ i ∉ done ∧ (Countdown.after done).missing i = 0 := by
  rw [missing_after_eq_zero_iff]
  simp [after]

theorem Countdown.nodup_ready_after : (Countdown.after done).ready.Nodup :=
  (List.nodup_finRange _).filter _

theorem Countdown.ready_after_sorted : (Countdown.after done).ready.Pairwise (· ≤ ·) :=
  ((List.pairwise_lt_finRange _).filter _).imp le_of_lt

theorem Countdown.nodup_rest (h : (Countdown.after done).ready = i :: rest) : rest.Nodup :=
  (List.nodup_cons.1 (h ▸ nodup_ready_after)).2

theorem Countdown.mem_rest_iff (h : (Countdown.after done).ready = i :: rest) :
    j ∈ rest ↔ j ≠ i ∧ j ∈ (Countdown.after done).ready := by
  have hnodup : (i :: rest).Nodup := h ▸ nodup_ready_after
  rw [h, List.mem_cons]
  exact ⟨fun hj => ⟨ne_of_mem_of_not_mem hj (List.nodup_cons.1 hnodup).1, .inr hj⟩,
    fun ⟨hne, hj⟩ => hj.resolve_left hne⟩

/-- **Places that are evaluated after all that they read.** -/
def Settled (done : List (Fin readers.length)) : Prop :=
  ∀ i ∈ done, (Countdown.after done).missing i = 0

theorem mem_dependents_iff :
    j ∈ dependents readers i ↔ (readers.get i).name ∈ (readers.get j).reads := by
  simp [dependents]

theorem nodup_dependents : (dependents readers i).Nodup :=
  (List.nodup_finRange _).filter _

namespace ReadEachOther

theorem name_injective (h : ReadEachOther readers) :
    Function.Injective fun i => (readers.get i).name := fun i j hname =>
  h.nodup.of_map.injective_get
    (h.eq_of_name_eq (readers.get_mem i) (readers.get_mem j) hname)

theorem mem_namesAt_iff (h : ReadEachOther readers) :
    (readers.get i).name ∈ namesAt readers done ↔ i ∈ done :=
  List.mem_map_of_injective h.name_injective

end ReadEachOther

/-- Of the reads not done before, one name more takes away those of that name. -/
theorem countP_notMem_append {names : List String} {name : String} (hnew : name ∉ names) :
    ∀ reads : List String, reads.countP (· ∉ names) =
      reads.countP (· ∉ names ++ [name]) + reads.count name
  | [] => rfl
  | read :: rest => by
      rw [List.countP_cons, List.countP_cons, List.count_cons, countP_notMem_append hnew rest]
      by_cases hread : read = name
      · simp [hread, hnew]
        omega
      · simp [hread]
        omega

namespace ReadEachOther

theorem missing_after_append (h : ReadEachOther readers) (hi : i ∉ done)
    (j : Fin readers.length) : (Countdown.after (done ++ [i])).missing j =
      if j ∈ dependents readers i then (Countdown.after done).missing j - 1
      else (Countdown.after done).missing j := by
  have hcount := countP_notMem_append (mt h.mem_namesAt_iff.1 hi) (readers.get j).reads
  rw [(h.once _ (readers.get_mem j)).count, ← namesAt_append] at hcount
  simp only [mem_dependents_iff]
  unfold Countdown.after
  split
  · rename_i hreads
    rw [if_pos hreads] at hcount
    exact (Nat.sub_eq_of_eq_add hcount).symm
  · rename_i hreads
    rw [if_neg hreads] at hcount
    exact hcount.symm

theorem missing_pos_of_dependent (h : ReadEachOther readers) (hi : i ∉ done)
    (hj : j ∈ dependents readers i) : 0 < (Countdown.after done).missing j :=
  Nat.pos_of_ne_zero fun hnone => hi (h.mem_namesAt_iff.1
    (Countdown.missing_after_eq_zero_iff.1 hnone _ (mem_dependents_iff.1 hj)))

theorem settled_append (h : ReadEachOther readers) (hsettled : Settled done)
    (hi : i ∈ (Countdown.after done).ready) : Settled (done ++ [i]) := by
  obtain ⟨hnew, hzero⟩ := Countdown.mem_ready_after.1 hi
  intro j hj
  have hbefore : (Countdown.after done).missing j = 0 := by
    rcases List.mem_append.1 hj with hj | hj
    · exact hsettled j hj
    · rwa [List.mem_singleton.1 hj]
  rw [h.missing_after_append hnew, hbefore, ite_self]

/-- **What becomes ready** when a place is evaluated — besides what was ready before, that which
missed nothing else. -/
theorem mem_ready_after_append (h : ReadEachOther readers) (hsettled : Settled done)
    (hi : i ∈ (Countdown.after done).ready) :
    j ∈ (Countdown.after (done ++ [i])).ready ↔
      (j ∈ dependents readers i ∧ (Countdown.after done).missing j = 1) ∨
        (j ≠ i ∧ j ∈ (Countdown.after done).ready) := by
  obtain ⟨hnew, hzero⟩ := Countdown.mem_ready_after.1 hi
  rw [Countdown.mem_ready_after, Countdown.mem_ready_after, h.missing_after_append hnew,
    List.mem_append, List.mem_singleton]
  split
  · rename_i hreads
    have hpos := (h.missing_pos_of_dependent hnew hreads).ne'
    have hlater : j ∉ done := fun hj => hpos (hsettled j hj)
    have hother : j ≠ i := fun heq => hpos (heq ▸ hzero)
    simp only [hreads, hlater, hother, hpos, true_and, and_false, or_false, not_false_iff]
    omega
  · rename_i hreads
    simp only [hreads, false_and, false_or, not_or]
    tauto

/-- **A round of counting down** leads from the counts after some places to those after one more. -/
theorem lower_dependents (h : ReadEachOther readers) (hsettled : Settled done)
    (hready : (Countdown.after done).ready = i :: rest) :
    (dependents readers i).foldlM Countdown.lower ((Countdown.after done).taking i rest) =
      some (.after (done ++ [i])) := by
  have hi : i ∈ (Countdown.after done).ready := hready ▸ List.mem_cons_self
  have hnew := (Countdown.mem_ready_after.1 hi).1
  have hsorted : (i :: rest).Pairwise (· ≤ ·) := hready ▸ Countdown.ready_after_sorted
  obtain ⟨next, hnext, hevaluated, hcounts, hnextsorted, hperm⟩ :=
    Countdown.exists_foldlM_lower (c := (Countdown.after done).taking i rest) nodup_dependents
      (fun j hj => h.missing_pos_of_dependent hnew hj) (List.pairwise_cons.1 hsorted).2
  have hnodup : next.ready.Nodup := by
    refine hperm.nodup_iff.2 ((nodup_dependents.filter _).append (Countdown.nodup_rest hready) ?_)
    intro j hj hrest
    have hready := ((Countdown.mem_rest_iff hready).1 hrest).2
    exact (h.missing_pos_of_dependent hnew (List.mem_filter.1 hj).1).ne'
      (Countdown.mem_ready_after.1 hready).2
  have hsame : next.ready = (Countdown.after (done ++ [i])).ready := by
    refine List.Perm.eq_of_pairwise' hnextsorted Countdown.ready_after_sorted
      ((List.perm_ext_iff_of_nodup hnodup Countdown.nodup_ready_after).2 fun j => ?_)
    rw [hperm.mem_iff, h.mem_ready_after_append hsettled hi, List.mem_append, List.mem_filter,
      decide_eq_true_iff]
    exact or_congr_right (Countdown.mem_rest_iff hready)
  rw [hnext]
  exact congrArg some (Countdown.ext
    (funext fun j => (hcounts j).trans (h.missing_after_append hnew j).symm) hsame hevaluated)

end ReadEachOther

/-! ## The same order -/

/-- The readers that are still to come, in their order. -/
def waitingAt (readers : List Reader) (done : List (Fin readers.length)) : List Reader :=
  ((List.finRange readers.length).filter (· ∉ done)).map readers.get

theorem waitingAt_nil : waitingAt readers [] = readers := by
  simp [waitingAt]

/-- What is taken out is the first reader that is ready. -/
theorem takeReady?_eq (done : List String) : ∀ waiting : List Reader, takeReady? done waiting =
    (waiting.find? fun r => r.reads.all done.contains).map fun r => (r, waiting.erase r)
  | [] => rfl
  | first :: rest => by
      rw [takeReady?, takeReady?_eq done rest]
      split
      · rename_i hready
        rw [List.find?_cons, hready, Option.map_some, List.erase_cons_head]
      · rename_i hwaits
        rw [List.find?_cons, Bool.eq_false_of_not_eq_true hwaits, Option.map_map]
        refine Option.map_congr fun r hr => ?_
        have hready := List.find?_some hr
        have hne : first ≠ r := fun heq => hwaits (heq ▸ hready)
        rw [Function.comp_apply, List.erase_cons_tail (by simpa using hne)]

namespace ReadEachOther

/-- **The first ready reader is the one at the first ready place.** -/
theorem takeReady?_waitingAt (h : ReadEachOther readers) :
    takeReady? (namesAt readers done) (waitingAt readers done) =
      (Countdown.after done).ready.head?.map fun i =>
        (readers.get i, waitingAt readers (done ++ [i])) := by
  have hfind : ((waitingAt readers done).find? fun r =>
      r.reads.all (namesAt readers done).contains) =
        (Countdown.after done).ready.head?.map readers.get := by
    unfold waitingAt Countdown.after
    rw [List.find?_map, List.find?_filter, List.head?_filter]
    simp
  rw [takeReady?_eq, hfind, Option.map_map]
  refine Option.map_congr fun i _ => Prod.ext rfl ?_
  have hinjective : Function.Injective readers.get := h.nodup.of_map.injective_get
  change (waitingAt readers done).erase (readers.get i) = waitingAt readers (done ++ [i])
  unfold waitingAt
  rw [← List.map_erase hinjective, ((List.nodup_finRange _).filter _).erase_eq_filter,
    List.filter_filter]
  refine congrArg _ (List.filter_congr fun j _ => ?_)
  rw [Bool.eq_iff_iff]
  simp [not_or, and_comm]

/-- **Counting down runs the whole emission**, and at the end no place is ready. -/
theorem run_after (h : ReadEachOther readers) {done : List (Fin readers.length)}
    (hsettled : Settled done) :
    ∃ last, (Countdown.after done).run (dependents readers) = some (.after last) ∧
      emitReady (namesAt readers done) (waitingAt readers done) =
        (namesAt readers last, waitingAt readers last) ∧
      (Countdown.after last).ready = [] ∧ Settled last := by
  have htake : takeReady? (namesAt readers done) (waitingAt readers done) = _ :=
    h.takeReady?_waitingAt
  cases hready : (Countdown.after done).ready with
  | nil =>
    rw [hready] at htake
    exact ⟨done, Countdown.run_of_nil hready, emitReady_of_none htake, hready, hsettled⟩
  | cons i rest =>
    rw [hready] at htake
    have hfewer := length_of_takeReady? htake
    have hi : i ∈ (Countdown.after done).ready := hready ▸ List.mem_cons_self
    obtain ⟨last, hrun, hemit, hend⟩ := h.run_after (h.settled_append hsettled hi)
    refine ⟨last, ?_, ?_, hend⟩
    · rw [Countdown.run_of_cons hready (h.lower_dependents hsettled hready), hrun]
    · rw [emitReady_of_some htake, ← hemit, namesAt_append]
termination_by (waitingAt readers done).length

/-- **Counting down never goes below zero** and gives the order that taking out ready readers gives,
or refuses the same readers. -/
theorem orderByCounting_eq {α : Type} (h : ReadEachOther readers) :
    orderByCounting (α := α) readers = some
      (if (emitReady [] readers).2 = [] then .ok (emitReady [] readers).1
        else .error (.cyclicDependency ((emitReady [] readers).2.map Reader.name))) := by
  have hfirst : Settled ([] : List (Fin readers.length)) := fun _ hi => absurd hi List.not_mem_nil
  obtain ⟨last, hrun, hemit, hready, hsettled⟩ := h.run_after hfirst
  rw [waitingAt_nil] at hemit
  change emitReady [] readers = _ at hemit
  have hall : last.length = readers.length ↔ waitingAt readers last = [] := by
    obtain ⟨emitted, hnames, hperm, -⟩ := emitReady_spec [] readers
    have hlength := congrArg List.length hnames
    have hsplit := hperm.length_eq
    rw [hemit] at hlength hsplit
    simp only [namesAt, List.length_map, List.nil_append, List.length_append] at hlength hsplit
    rw [← List.length_eq_zero_iff]
    omega
  have hmissing : ∀ i, 0 < (Countdown.after last).missing i ↔ i ∉ last := fun i => by
    have hnone : i ∉ (Countdown.after last).ready := hready ▸ List.not_mem_nil
    rw [Countdown.mem_ready_after, not_and] at hnone
    exact ⟨fun hpos hi => hpos.ne' (hsettled i hi), fun hi => Nat.pos_of_ne_zero (hnone hi)⟩
  unfold orderByCounting
  rw [Countdown.start_eq, hrun, hemit, Option.map_some]
  refine congrArg some (ite_congr (propext hall) (fun _ => rfl) fun _ => ?_)
  have hleft : namesAt readers ((List.finRange readers.length).filter (· ∉ last)) =
      (waitingAt readers last).map Reader.name := List.map_map.symm
  simp only [hmissing, hleft]

end ReadEachOther

end Readers

/-! ## The order of a kind -/

/-- **The evaluation order of a kind is found by counting down as well**, without a count that goes
below zero. -/
theorem orderByCounting_graphOf {α : Type} {fields : FieldMap α} {kind : FieldKind}
    (hnamed : Named fields) (hkind : kind = .algebraic ∨ kind = .parameter)
    (hfiled : Filed fields kind) :
    orderByCounting (graphOf fields kind) = some (resolveOrder fields kind) := by
  rw [resolveOrder_eq hkind hfiled, (readEachOther_graphOf hnamed).orderByCounting_eq]

end FieldFlow
