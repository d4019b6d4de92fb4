/-!
# OrderedMap — finite maps that remember the order in which keys arrived

Declaration order decides evaluation order, error order and report order, so it belongs to the type.
A key keeps the place of its first arrival; a later value for it replaces the earlier one there.
-/

namespace FieldFlow

/-- A list of named values without a repeated name. -/
structure OrderedMap (β : Type u) where
  entries : List (String × β)
  nodup : (entries.map Prod.fst).Nodup

namespace OrderedMap

variable {β : Type u} {γ : Type v}

/-- Replaces the value of `key`, or adds it at the end. -/
def put (key : String) (value : β) : List (String × β) → List (String × β)
  | [] => [(key, value)]
  | (k, v) :: rest => if k = key then (k, value) :: rest else (k, v) :: put key value rest

theorem mem_keys_put (key : String) (value : β) (k : String) :
    ∀ entries : List (String × β),
      k ∈ (put key value entries).map Prod.fst ↔ k = key ∨ k ∈ entries.map Prod.fst
  | [] => by simp [put]
  | (k', v) :: rest => by
      by_cases h : k' = key
      · subst h
        simp [put]
      · have ih := mem_keys_put key value k rest
        simp only [put, h, if_false, List.map_cons, List.mem_cons, ih]
        constructor
        · rintro (h | h | h) <;> simp [h]
        · rintro (h | h | h) <;> simp [h]

theorem nodup_put (key : String) (value : β) :
    ∀ {entries : List (String × β)}, (entries.map Prod.fst).Nodup →
      ((put key value entries).map Prod.fst).Nodup
  | [], _ => by simp [put]
  | (k, v) :: rest, h => by
      rw [List.map_cons, List.nodup_cons] at h
      by_cases hk : k = key
      · simpa [put, hk] using h
      · simp only [put, hk, if_false, List.map_cons, List.nodup_cons]
        refine ⟨fun hmem => ?_, nodup_put key value h.2⟩
        rcases (mem_keys_put key value k rest).1 hmem with rfl | hrest
        · exact hk rfl
        · exact h.1 hrest

def empty : OrderedMap β := ⟨[], List.nodup_nil⟩

instance : Inhabited (OrderedMap β) := ⟨empty⟩

/-- **Insertion** — a known key keeps its place, a new one goes to the end. -/
def insert (m : OrderedMap β) (key : String) (value : β) : OrderedMap β :=
  ⟨put key value m.entries, nodup_put key value m.nodup⟩

def get? (m : OrderedMap β) (key : String) : Option β :=
  (m.entries.find? fun e => e.1 == key).map Prod.snd

def contains (m : OrderedMap β) (key : String) : Bool := m.entries.any fun e => e.1 == key

def keys (m : OrderedMap β) : List String := m.entries.map Prod.fst

def values (m : OrderedMap β) : List β := m.entries.map Prod.snd

def size (m : OrderedMap β) : Nat := m.entries.length

/-- Inserts pairs one after another. -/
def extend (m : OrderedMap β) (pairs : List (String × β)) : OrderedMap β :=
  pairs.foldl (fun m e => m.insert e.1 e.2) m

def ofList (pairs : List (String × β)) : OrderedMap β := empty.extend pairs

/-- Puts a new key in front of all others; a known key is left as it is. -/
def insertFirst (m : OrderedMap β) (key : String) (value : β) : OrderedMap β :=
  if h : key ∈ m.entries.map Prod.fst then m
  else ⟨(key, value) :: m.entries, by simpa using ⟨by simpa using h, m.nodup⟩⟩

/-- Applies a function to every value. -/
def map (f : β → γ) (m : OrderedMap β) : OrderedMap γ :=
  ⟨m.entries.map fun e => (e.1, f e.2), by
    have h : (m.entries.map fun e => (e.1, f e.2)).map Prod.fst = m.entries.map Prod.fst := by
      rw [List.map_map]
      rfl
    exact h ▸ m.nodup⟩

/-- Changes the value of a key that is present. -/
def modify (m : OrderedMap β) (key : String) (f : β → β) : OrderedMap β :=
  match m.get? key with
  | some value => m.insert key (f value)
  | none => m

/-! ## What a look-up sees -/

theorem find?_put (key : String) (value : β) (k : String) :
    ∀ entries : List (String × β),
      ((put key value entries).find? fun e => e.1 == k) =
        if k = key then some (key, value) else entries.find? fun e => e.1 == k
  | [] => by
      by_cases h : k = key
      · simp [put, h]
      · simp [put, h, Ne.symm h]
  | (k', v) :: rest => by
      have ih := find?_put key value k rest
      by_cases hk : k' = key
      · subst hk
        by_cases h : k = k'
        · simp [put, h]
        · simp [put, h, Ne.symm h]
      · by_cases h : k' = k
        · have hne : k ≠ key := fun heq => hk (h.trans heq)
          simp [put, h, hne]
        · have hb : (k' == k) = false := by simpa using h
          simp only [put, hk, if_false, List.find?_cons, hb, ih]

/-- **A look-up after an insertion** sees the new value under its key and the old ones elsewhere. -/
theorem get?_insert (m : OrderedMap β) (key : String) (value : β) (k : String) :
    (m.insert key value).get? k = if k = key then some value else m.get? k := by
  simp only [get?, insert, find?_put]
  split <;> rfl

@[simp] theorem get?_empty (k : String) : (empty : OrderedMap β).get? k = none := rfl

/-- A change of one value changes what is seen under its key and nowhere else. -/
theorem get?_modify (m : OrderedMap β) (key : String) (f : β → β) (k : String) :
    (m.modify key f).get? k = if k = key then (m.get? key).map f else m.get? k := by
  cases h : m.get? key with
  | none =>
    simp only [modify, h, Option.map_none]
    split
    · rename_i heq
      rw [heq, h]
    · rfl
  | some v => simp only [modify, h, get?_insert, Option.map_some]

end OrderedMap

end FieldFlow
