import FieldFlow.OrderedMap
import Mathlib.Data.List.Nodup

/-!
# Proofs/OrderedMap — a map is what its look-ups say

Keys do not repeat, so the entry under a key is the only one: an entry, a look-up and a place among
the keys are three ways of saying the same (`get?_eq_some_iff`, `mem_keys_iff`).
-/

namespace FieldFlow.OrderedMap

variable {β : Type u}

/-- A search by a key that does not repeat finds the only item that has it. -/
theorem find?_eq_some_iff {key : β → String} {k : String} {e : β} :
    ∀ {items : List β}, (items.map key).Nodup →
      ((items.find? fun e => key e == k) = some e ↔ e ∈ items ∧ key e = k)
  | [], _ => by simp
  | first :: rest, h => by
      rw [List.map_cons, List.nodup_cons] at h
      by_cases hk : key first = k
      · have hout : e ∈ rest → key e ≠ k := fun hmem heq =>
          h.1 (List.mem_map.2 ⟨e, hmem, heq.trans hk.symm⟩)
        rw [List.find?_cons_of_pos (by simpa using hk), Option.some.injEq, List.mem_cons]
        constructor
        · rintro rfl
          exact ⟨.inl rfl, hk⟩
        · rintro ⟨rfl | hmem, heq⟩
          · rfl
          · exact absurd heq (hout hmem)
      · rw [List.find?_cons_of_neg (by simpa using hk), find?_eq_some_iff h.2, List.mem_cons]
        constructor
        · rintro ⟨hmem, heq⟩
          exact ⟨.inr hmem, heq⟩
        · rintro ⟨rfl | hmem, heq⟩
          · exact absurd heq hk
          · exact ⟨hmem, heq⟩

/-- **A look-up finds the entry of its key.** -/
theorem get?_eq_some_iff {m : OrderedMap β} {k : String} {v : β} :
    m.get? k = some v ↔ (k, v) ∈ m.entries := by
  rw [get?, Option.map_eq_some_iff]
  constructor
  · rintro ⟨⟨k', v'⟩, hfind, rfl⟩
    obtain ⟨hmem, rfl⟩ := (find?_eq_some_iff m.nodup).1 hfind
    exact hmem
  · intro hmem
    exact ⟨(k, v), (find?_eq_some_iff m.nodup).2 ⟨hmem, rfl⟩, rfl⟩

theorem mem_values_iff {m : OrderedMap β} {v : β} : v ∈ m.values ↔ ∃ k, m.get? k = some v := by
  simp [values, get?_eq_some_iff]

theorem mem_keys_iff {m : OrderedMap β} {k : String} : k ∈ m.keys ↔ ∃ v, m.get? k = some v := by
  simp [keys, get?_eq_some_iff]

theorem contains_iff {m : OrderedMap β} {k : String} : m.contains k = true ↔ k ∈ m.keys := by
  simp [contains, keys]

theorem get?_eq_none_iff {m : OrderedMap β} {k : String} : m.get? k = none ↔ k ∉ m.keys := by
  rw [mem_keys_iff, Option.eq_none_iff_forall_ne_some, not_exists]

/-- A new key in front is seen where no old one is. -/
theorem get?_insertFirst (m : OrderedMap β) (key : String) (value : β) (k : String) :
    (m.insertFirst key value).get? k =
      (m.get? k).or (if k = key then some value else none) := by
  unfold insertFirst
  split
  · rename_i h
    by_cases hk : k = key
    · obtain ⟨v, hv⟩ := mem_keys_iff.1 h
      rw [hk, hv, Option.some_or]
    · rw [if_neg hk, Option.or_none]
  · rename_i h
    by_cases hk : k = key
    · have hnone : m.get? key = none := get?_eq_none_iff.2 h
      rw [hk, hnone]
      simp [get?]
    · have hb : (key == k) = false := by simpa using Ne.symm hk
      simp [get?, hk, hb]

/-! ## A change of a value keeps the keys where they are -/

theorem keys_put_of_mem {key : String} (value : β) :
    ∀ {entries : List (String × β)}, key ∈ entries.map Prod.fst →
      (put key value entries).map Prod.fst = entries.map Prod.fst
  | [], h => absurd h List.not_mem_nil
  | (k, v) :: rest, h => by
      by_cases hk : k = key
      · simp [put, hk]
      · have hrest : key ∈ rest.map Prod.fst := by simpa [Ne.symm hk] using h
        simpa [put, hk] using keys_put_of_mem value hrest

@[simp] theorem keys_modify (m : OrderedMap β) (key : String) (f : β → β) :
    (m.modify key f).keys = m.keys := by
  unfold modify
  split
  · rename_i v hv
    exact keys_put_of_mem _ (mem_keys_iff.2 ⟨v, hv⟩)
  · rfl

/-- Looking up all keys gives all values. -/
theorem map_get?_keys (m : OrderedMap β) : m.keys.map m.get? = m.values.map some := by
  unfold keys values
  rw [List.map_map, List.map_map]
  exact List.map_congr_left fun _ he => get?_eq_some_iff.2 he

/-- Maps with the same keys in the same places and the same values are equal. -/
theorem ext_get? {m m' : OrderedMap β} (hkeys : m.keys = m'.keys)
    (h : ∀ k ∈ m.keys, m.get? k = m'.get? k) : m = m' := by
  have hvalues : m.values = m'.values := by
    refine List.map_injective_iff.2 (fun _ _ => Option.some.inj) ?_
    rw [← map_get?_keys, ← map_get?_keys, ← hkeys]
    exact List.map_congr_left h
  obtain ⟨entries, _⟩ := m
  obtain ⟨entries', _⟩ := m'
  obtain rfl : entries = entries' :=
    (List.zip_of_prod hkeys hvalues).trans (List.zip_of_prod rfl rfl).symm
  rfl

/-- Maps with the same keys in the same places have related lists of values if their values are
related key by key. -/
theorem forall₂_values {γ : Type v} {R : β → γ → Prop} {m : OrderedMap β} {m' : OrderedMap γ}
    (hkeys : m'.keys = m.keys)
    (h : ∀ {k v}, m.get? k = some v → ∃ w, m'.get? k = some w ∧ R v w) :
    List.Forall₂ R m.values m'.values := by
  have hget : List.Forall₂ (fun o o' => ∃ v w, o = some v ∧ o' = some w ∧ R v w)
      (m.keys.map m.get?) (m'.keys.map m'.get?) := by
    rw [hkeys, List.forall₂_map_left_iff, List.forall₂_map_right_iff, List.forall₂_same]
    intro k hk
    obtain ⟨v, hv⟩ := mem_keys_iff.1 hk
    obtain ⟨w, hw, hvw⟩ := h hv
    exact ⟨v, w, hv, hw, hvw⟩
  rw [map_get?_keys, map_get?_keys, List.forall₂_map_left_iff, List.forall₂_map_right_iff] at hget
  exact hget.imp fun v w ⟨_, _, hv, hw, hvw⟩ =>
    Option.some.inj hv ▸ Option.some.inj hw ▸ hvw

/-! ## What was entered -/

theorem mem_of_get?_extend {k : String} {v : β} : ∀ {pairs : List (String × β)} {m : OrderedMap β},
    (m.extend pairs).get? k = some v → (k, v) ∈ pairs ∨ m.get? k = some v
  | [], _, h => .inr h
  | (key, value) :: rest, m, h => by
      have hrest : ((m.insert key value).extend rest).get? k = some v := h
      rcases mem_of_get?_extend hrest with hmem | hold
      · exact .inl (List.mem_cons_of_mem _ hmem)
      · rw [get?_insert] at hold
        split at hold
        · rename_i heq
          obtain rfl := Option.some.inj hold
          exact .inl (heq ▸ List.mem_cons_self)
        · exact .inr hold

/-- What is found was entered. -/
theorem mem_of_get?_ofList {pairs : List (String × β)} {k : String} {v : β}
    (h : (ofList pairs).get? k = some v) : (k, v) ∈ pairs := by
  rcases mem_of_get?_extend h with hmem | hold
  · exact hmem
  · exact nomatch hold

/-- A new key goes to the end. -/
theorem put_of_notMem {key : String} (value : β) : ∀ {entries : List (String × β)},
    key ∉ entries.map Prod.fst → put key value entries = entries ++ [(key, value)]
  | [], _ => rfl
  | (k, v) :: rest, h => by
      rw [List.map_cons, List.mem_cons, not_or] at h
      rw [put, if_neg (Ne.symm h.1), put_of_notMem value h.2, List.cons_append]

theorem keys_insert_of_notMem {m : OrderedMap β} {key : String} (h : key ∉ m.keys) (value : β) :
    (m.insert key value).keys = m.keys ++ [key] := by
  have hput : (m.insert key value).entries = m.entries ++ [(key, value)] := put_of_notMem value h
  unfold keys
  rw [hput, List.map_append]
  rfl

theorem entries_extend : ∀ {pairs : List (String × β)} {m : OrderedMap β},
    ((m.entries ++ pairs).map Prod.fst).Nodup → (m.extend pairs).entries = m.entries ++ pairs
  | [], m, _ => (List.append_nil m.entries).symm
  | (key, value) :: rest, m, h => by
      have hnew : key ∉ m.entries.map Prod.fst := fun hmem => by
        rw [List.map_append, List.nodup_append] at h
        exact h.2.2 key hmem key List.mem_cons_self rfl
      have hput : (m.insert key value).entries = m.entries ++ [(key, value)] :=
        put_of_notMem value hnew
      have hnext : (m.insert key value).entries ++ rest = m.entries ++ (key, value) :: rest := by
        rw [hput, List.append_assoc, List.singleton_append]
      rw [← hnext] at h ⊢
      exact entries_extend h

/-- **Values under different keys** are entered as they are listed. -/
theorem entries_ofList {pairs : List (String × β)} (h : (pairs.map Prod.fst).Nodup) :
    (ofList pairs).entries = pairs := entries_extend h

/-- What was entered later covers what was there before. -/
theorem get?_extend {pairs : List (String × β)} {m : OrderedMap β} (k : String) :
    (m.extend pairs).get? k = ((ofList pairs).get? k).or (m.get? k) := by
  induction pairs generalizing m with
  | nil => rfl
  | cons pair rest ih =>
    have hentered : (m.extend (pair :: rest)).get? k = _ := ih (m := m.insert pair.1 pair.2)
    have hfresh : (ofList (pair :: rest)).get? k = _ := ih (m := empty.insert pair.1 pair.2)
    rw [hentered, hfresh, Option.or_assoc, get?_insert, get?_insert, get?_empty]
    split <;> rfl

theorem get?_ofList_cons {key : String} {value : β} {rest : List (String × β)} (k : String) :
    (ofList ((key, value) :: rest)).get? k =
      ((ofList rest).get? k).or (if k = key then some value else none) := by
  have hentered : (ofList ((key, value) :: rest)).get? k = _ :=
    get?_extend (m := empty.insert key value) k
  rw [hentered, get?_insert, get?_empty]

/-! ## Some of the keys -/

theorem ext_entries {m m' : OrderedMap β} (h : m.entries = m'.entries) : m = m' := by
  obtain ⟨entries, hnodup⟩ := m
  obtain ⟨entries', hnodup'⟩ := m'
  obtain rfl : entries = entries' := h
  rfl

/-- The entries under the keys that satisfy a condition. -/
def filterKeys (p : String → Bool) (m : OrderedMap β) : OrderedMap β :=
  ⟨m.entries.filter fun e => p e.1, m.nodup.sublist (List.filter_sublist.map Prod.fst)⟩

theorem get?_filterKeys (p : String → Bool) (m : OrderedMap β) (k : String) :
    (m.filterKeys p).get? k = if p k then m.get? k else none := by
  ext v
  have hentry : (k, v) ∈ (m.filterKeys p).entries ↔ (k, v) ∈ m.entries ∧ p k = true :=
    List.mem_filter
  rw [get?_eq_some_iff, hentry]
  split
  · rename_i hk
    rw [get?_eq_some_iff, and_iff_left hk]
  · rename_i hk
    exact ⟨fun h => absurd h.2 hk, fun h => nomatch h⟩

theorem filter_put (p : String → Bool) (key : String) (value : β) :
    ∀ entries : List (String × β), (put key value entries).filter (fun e => p e.1) =
      if p key then put key value (entries.filter fun e => p e.1) else entries.filter fun e => p e.1
  | [] => by
      by_cases hp : p key <;> simp [put, hp]
  | (k, v) :: rest => by
      by_cases hk : k = key
      · subst hk
        by_cases hp : p k <;> simp [put, hp]
      · have ih := filter_put p key value rest
        simp only [put, hk, if_false, List.filter_cons, ih]
        by_cases hp : p key <;> by_cases hk' : p k <;> simp [put, hk, hp, hk']

/-- An insertion is seen among the keys that satisfy the condition if its own key does. -/
theorem filterKeys_insert (p : String → Bool) (m : OrderedMap β) (key : String) (value : β) :
    (m.insert key value).filterKeys p =
      if p key then (m.filterKeys p).insert key value else m.filterKeys p := by
  refine ext_entries ((filter_put p key value m.entries).trans ?_)
  split <;> rfl

theorem filterKeys_extend (p : String → Bool) : ∀ (pairs : List (String × β)) (m : OrderedMap β),
    (m.extend pairs).filterKeys p = (m.filterKeys p).extend (pairs.filter fun e => p e.1)
  | [], _ => rfl
  | (key, value) :: rest, m => by
      have ih : (m.extend ((key, value) :: rest)).filterKeys p = _ :=
        filterKeys_extend p rest (m.insert key value)
      rw [ih, filterKeys_insert, List.filter_cons]
      split <;> rfl

theorem filterKeys_ofList (p : String → Bool) (pairs : List (String × β)) :
    (ofList pairs).filterKeys p = ofList (pairs.filter fun e => p e.1) :=
  filterKeys_extend p pairs empty

theorem mem_keys_filterKeys {p : String → Bool} {m : OrderedMap β} {k : String} :
    k ∈ (m.filterKeys p).keys ↔ k ∈ m.keys ∧ p k = true := by
  simp [keys, filterKeys]

theorem filterKeys_insertFirst {p : String → Bool} (m : OrderedMap β) {key : String} (hp : p key)
    (value : β) : (m.insertFirst key value).filterKeys p = (m.filterKeys p).insertFirst key value := by
  have hkeys : key ∈ (m.filterKeys p).entries.map Prod.fst ↔ key ∈ m.entries.map Prod.fst :=
    mem_keys_filterKeys.trans (and_iff_left hp)
  unfold insertFirst
  by_cases h : key ∈ m.entries.map Prod.fst
  · rw [dif_pos h, dif_pos (hkeys.2 h)]
  · rw [dif_neg h, dif_neg (mt hkeys.1 h)]
    refine ext_entries ?_
    simp [filterKeys, hp]

/-- Values among which that of a key is not are still there without it. -/
theorem filter_values_filterKeys {m : OrderedMap β} {key : String} {q : β → Bool}
    (h : ∀ v, m.get? key = some v → q v = false) :
    (m.filterKeys (· ≠ key)).values.filter q = m.values.filter q := by
  unfold values filterKeys
  rw [List.filter_map, List.filter_map, List.filter_filter]
  refine congrArg _ (List.filter_congr fun e he => ?_)
  by_cases hk : e.1 = key
  · have hq : q e.2 = false := h e.2 (hk ▸ get?_eq_some_iff.2 he)
    simp [hq]
  · simp [hk]

/-- A value that adds nothing to a list may be left out. -/
theorem flatMap_values_filterKeys {γ : Type v} {m : OrderedMap β} {key : String} {g : β → List γ}
    (h : ∀ v, m.get? key = some v → g v = []) :
    (m.filterKeys (· ≠ key)).values.flatMap g = m.values.flatMap g := by
  have hfilter : ∀ vs : List β, vs.flatMap g = (vs.filter fun v => !(g v).isEmpty).flatMap g := by
    intro vs
    induction vs with
    | nil => rfl
    | cons v vs ih => cases hv : g v <;> simp [hv, ih]
  rw [hfilter, hfilter m.values, filter_values_filterKeys]
  intro v hv
  rw [h v hv]
  rfl

/-! ## Another place for one key -/

/-- **The same entries**, of which all but one are in the same order. -/
structure Displaced (key : String) (m m' : OrderedMap β) : Prop where
  value : m.get? key = m'.get? key
  others : m.filterKeys (· ≠ key) = m'.filterKeys (· ≠ key)

namespace Displaced

variable {key : String} {m m' : OrderedMap β}

theorem symm (h : Displaced key m m') : Displaced key m' m := ⟨h.value.symm, h.others.symm⟩

theorem get? (h : Displaced key m m') (k : String) : m.get? k = m'.get? k := by
  by_cases hk : k = key
  · rw [hk, h.value]
  · have hothers := congrArg (OrderedMap.get? · k) h.others
    simpa only [get?_filterKeys, ne_eq, hk, not_false_eq_true, decide_true, if_true] using hothers

theorem mem_values_iff (h : Displaced key m m') {v : β} : v ∈ m.values ↔ v ∈ m'.values := by
  simp only [OrderedMap.mem_values_iff, h.get?]

theorem perm_keys (h : Displaced key m m') : m.keys.Perm m'.keys := by
  refine (List.perm_ext_iff_of_nodup m.nodup m'.nodup).2 fun k => ?_
  change k ∈ m.keys ↔ k ∈ m'.keys
  simp only [mem_keys_iff, h.get?]

/-- Values among which the one that moves is not are listed in the same order. -/
theorem filter_values (h : Displaced key m m') {q : β → Bool}
    (hkey : ∀ v, m.get? key = some v → q v = false) :
    m.values.filter q = m'.values.filter q := by
  have hkey' : ∀ v, m'.get? key = some v → q v = false := h.value ▸ hkey
  rw [← filter_values_filterKeys hkey, ← filter_values_filterKeys hkey', h.others]

end Displaced

/-- **One entry more**: the others are in the same order. -/
structure Adds (key : String) (value : β) (m m' : OrderedMap β) : Prop where
  absent : m.get? key = none
  present : m'.get? key = some value
  others : m.filterKeys (· ≠ key) = m'.filterKeys (· ≠ key)

namespace Adds

variable {key : String} {value : β} {m m' : OrderedMap β}

theorem get?_of_ne (h : Adds key value m m') {k : String} (hk : k ≠ key) :
    m'.get? k = m.get? k := by
  have hothers := congrArg (OrderedMap.get? · k) h.others
  simpa only [get?_filterKeys, ne_eq, hk, not_false_eq_true, decide_true, if_true] using
    hothers.symm

theorem contains_iff (h : Adds key value m m') {k : String} :
    m'.contains k = true ↔ m.contains k = true ∨ k = key := by
  rw [OrderedMap.contains_iff, OrderedMap.contains_iff, mem_keys_iff, mem_keys_iff]
  by_cases hk : k = key
  · rw [hk, h.present]
    simp
  · rw [h.get?_of_ne hk]
    simp [hk]

theorem insertFirst (h : Adds key value m m') {k : String} (hk : k ≠ key) (v : β) :
    Adds key value (m.insertFirst k v) (m'.insertFirst k v) where
  absent := by rw [get?_insertFirst, h.absent, if_neg hk.symm, Option.none_or]
  present := by rw [get?_insertFirst, h.present, Option.some_or]
  others := by
    have hkept : decide (k ≠ key) = true := decide_eq_true hk
    rw [filterKeys_insertFirst m hkept, filterKeys_insertFirst m' hkept, h.others]

end Adds

/-! ## A function of every value -/

variable {γ : Type v} (f : β → γ)

theorem keys_map (m : OrderedMap β) : (m.map f).keys = m.keys := List.map_map

theorem values_map (m : OrderedMap β) : (m.map f).values = m.values.map f := by
  unfold values map
  rw [List.map_map, List.map_map]
  rfl

theorem get?_map (m : OrderedMap β) (k : String) : (m.map f).get? k = (m.get? k).map f := by
  unfold get? map
  rw [List.find?_map, Option.map_map, Option.map_map]
  rfl

theorem put_map (key : String) (value : β) : ∀ entries : List (String × β),
    put key (f value) (entries.map fun e => (e.1, f e.2)) =
      (put key value entries).map fun e => (e.1, f e.2)
  | [] => rfl
  | (k, v) :: rest => by
      by_cases hk : k = key
      · simp [put, hk]
      · simp [put, hk, put_map key value rest]

/-- A value that is entered again changes nothing. -/
theorem insert_get? {m : OrderedMap β} {key : String} {value : β} (h : m.get? key = some value) :
    m.insert key value = m := by
  have hput : ∀ entries : List (String × β),
      (entries.find? fun e => e.1 == key) = some (key, value) → put key value entries = entries := by
    intro entries hfind
    induction entries with
    | nil => exact nomatch hfind
    | cons first rest ih =>
      obtain ⟨k, v⟩ := first
      by_cases hk : k = key
      · rw [List.find?_cons_of_pos (by simpa using hk)] at hfind
        rw [put, if_pos hk, Option.some.inj hfind, hk]
      · rw [List.find?_cons_of_neg (by simpa using hk)] at hfind
        rw [put, if_neg hk, ih hfind]
  refine ext_entries (hput m.entries ?_)
  obtain ⟨⟨k, v⟩, hfind, rfl⟩ := Option.map_eq_some_iff.1 h
  have hk : k = key := by simpa using List.find?_some hfind
  exact hk ▸ hfind

theorem map_insert (m : OrderedMap β) (key : String) (value : β) :
    (m.insert key value).map f = (m.map f).insert key (f value) :=
  ext_entries (put_map f key value m.entries).symm

/-- A change that a function does not see is not there in the images. -/
theorem map_modify {u : β → β} (hu : ∀ v, f (u v) = f v) (m : OrderedMap β) (key : String) :
    (m.modify key u).map f = m.map f := by
  unfold modify
  split
  · rename_i v hv
    rw [map_insert, hu, insert_get? (by rw [get?_map, hv, Option.map_some])]
  · rfl

/-- **Entering the images** of values is taking the images of what is entered. -/
theorem map_extend : ∀ (pairs : List (String × β)) (m : OrderedMap β),
    (m.extend pairs).map f = (m.map f).extend (pairs.map fun e => (e.1, f e.2))
  | [], _ => rfl
  | (key, value) :: rest, m => by
      have ih := map_extend rest (m.insert key value)
      rw [map_insert] at ih
      exact ih

theorem map_ofList (pairs : List (String × β)) :
    (ofList pairs).map f = ofList (pairs.map fun e => (e.1, f e.2)) := map_extend f pairs empty

end FieldFlow.OrderedMap
