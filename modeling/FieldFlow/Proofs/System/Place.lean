import FieldFlow.Proofs.Field.Member
import FieldFlow.Proofs.Solver.Pick
import FieldFlow.Proofs.System.Buffers
import Mathlib.Tactic.Ring

/-!
# Proofs/System/Place — where the state of an ensemble holds the state of a member

The flat state lists the dynamic fields one after another, and each of them run by run. A member has
the same fields with one run each, so its state stands in the state of the ensemble in pieces, one
for each field (`place`).
-/

namespace FieldFlow

variable {α : Type}

/-! ## One field -/

namespace Shape

variable {s : Shape} {n x : Nat}

/-- An ensemble of `n` runs has `n` times the elements of a member. -/
theorem size_eq_mul_member (hs : s.runs = n) (hx : x < n) : s.size = n * s.member.size := by
  have hone : s.member.size = 1 * s.regions * s.sectorA * s.sectorB := by
    rw [size, runs_member_of_lt hs hx]
    rfl
  rw [hone, size, hs, Nat.one_mul, Nat.mul_assoc, Nat.mul_assoc, Nat.mul_assoc]

theorem run_lt (hs : s.runs = n) (hx : x < n) {k : Nat} (hk : k < s.member.size) :
    x * s.member.size + k < s.size := by
  rw [size_eq_mul_member hs hx]
  calc x * s.member.size + k < x * s.member.size + s.member.size := Nat.add_lt_add_left hk _
    _ = (x + 1) * s.member.size := (Nat.succ_mul _ _).symm
    _ ≤ n * s.member.size := Nat.mul_le_mul_right _ hx

/-- The elements of a run follow each other. -/
theorem position_eq_member (s : Shape) (x r i j : Nat) (h : s.member.runs = 1) :
    s.position x r i j = x * s.member.size + s.member.position 0 r i j := by
  have hsize : s.member.size = s.regions * s.sectorA * s.sectorB := by
    rw [size, h, Nat.one_mul]
    rfl
  rw [hsize]
  change ((x * s.regions + r) * s.sectorA + i) * s.sectorB + j =
    x * (s.regions * s.sectorA * s.sectorB) + (((0 * s.regions + r) * s.sectorA + i) * s.sectorB + j)
  ring

end Shape

namespace Tensor

variable [Inhabited α] {n x : Nat}

omit [Inhabited α] in
theorem ext_data {t u : Tensor α} (hshape : t.shape = u.shape) (hdata : t.data = u.data) : t = u := by
  obtain ⟨s, d, hd⟩ := t
  obtain ⟨s', d', hd'⟩ := u
  obtain rfl : s = s' := hshape
  obtain rfl : d = d' := hdata
  rfl

theorem getElem?_position {t : Tensor α} {y r i j : Nat} (h : t.shape.Contains y r i j) :
    t.data[t.shape.position y r i j]? = some (t.get y r i j) := by
  have hk : t.shape.position y r i j < t.data.size := by
    rw [t.size_data]
    exact t.shape.position_lt h
  rw [get, Array.getElem?_eq_getElem hk, Option.getD_some]

/-- The elements of a member stand in its run — a member has one run, the first. -/
theorem getElem?_data_member {t : Tensor α} (ht : t.shape.runs = n) (hx : x < n) {k : Nat}
    (hk : k < t.shape.member.size) :
    (t.member x).data[k]? = t.data[x * t.shape.member.size + k]? := by
  have hone := Shape.runs_member_of_lt ht hx
  have hc := t.shape.member.contains_at hk
  have hplace := t.shape.member.position_at k
  have hrun : t.shape.member.runAt k = 0 := by
    have := hc.1
    omega
  rw [hrun] at hc hplace
  generalize t.shape.member.regionAt k = r, t.shape.member.rowAt k = i,
    t.shape.member.columnAt k = j at hc hplace
  obtain ⟨-, hin⟩ := Shape.Contains.of_member (.inr ht) hx hc
  have hget : (t.member x).get 0 r i j = t.get (axisIndex t.shape.runs x) r i j := get_member hin
  rw [ht, axisIndex_of_lt hx] at hin hget
  have hmember : (t.member x).data[t.shape.member.position 0 r i j]? =
      some ((t.member x).get 0 r i j) := getElem?_position hc
  rw [← hplace, hmember, hget, ← t.shape.position_eq_member x r i j hone, getElem?_position hin]

/-- A slice of the state of a member is the member of the slice. -/
theorem ofSlice_member {s : Shape} (hs : s.runs = n) (hx : x < n) {y y' : Array α} {o o' : Nat}
    (h : ∀ k < s.member.size, y'[o' + k]? = y[o + (x * s.member.size + k)]?) :
    ofSlice s.member y' o' = (ofSlice s y o).member x := by
  refine ext_data rfl (Array.ext_getElem? fun k => ?_)
  rcases Nat.lt_or_ge k s.member.size with hk | hk
  · have hin := Shape.run_lt hs hx hk
    have hdata : ((ofSlice s y o).member x).data[k]? =
        (ofSlice s y o).data[x * s.member.size + k]? := getElem?_data_member hs hx hk
    rw [hdata]
    simp only [ofSlice, Array.getElem?_ofFn, hk, hin, dite_true, h k hk]
  · rw [Array.getElem?_eq_none, Array.getElem?_eq_none]
    · rw [((ofSlice s y o).member x).size_data]
      exact hk
    · rw [(ofSlice s.member y' o').size_data]
      exact hk

/-- The elements of a member, one after another. -/
theorem flatTo_member {name : String} {t : Tensor α} {u : Shape} {v : Vector α u.size}
    (hu : u.runs = n) (hx : x < n) (h : t.flatTo name u = .ok v) :
    ∃ v', (t.member x).flatTo name u.member = .ok v' ∧
      ∀ k < u.member.size, v'.toArray[k]? = v.toArray[x * u.member.size + k]? := by
  obtain ⟨hexpands, hv⟩ := flatTo_eq_ok_iff.1 h
  refine ⟨⟨_, ((t.member x).expand u.member).size_data⟩,
    flatTo_eq_ok_iff.2 ⟨Shape.expandsTo_member hexpands, rfl⟩, fun k hk => ?_⟩
  rw [← hv]
  change ((t.member x).expand u.member).data[k]? = _
  rw [expand_member (.inr hu) hx hexpands]
  exact getElem?_data_member (t := t.expand u) hu hx hk

end Tensor

/-! ## All fields -/

/-- The slot of a field in a member. -/
def Slot.member (slot : Slot α) : Slot α := { slot with shape := slot.shape.member }

/-- Several slots in a member. -/
def members (slots : List (Nat × Slot α)) : List (Nat × Slot α) :=
  slots.map fun (i, slot) => (i, slot.member)

/-- Slots of an ensemble of `n` runs. -/
def HaveRuns (n : Nat) (slots : List (Nat × Slot α)) : Prop :=
  ∀ entry ∈ slots, entry.2.shape.runs = n

/-- **Where the state of an ensemble holds** a place of the state of its member at run `x`. -/
def place (x : Nat) : List (Nat × Slot α) → Nat → Nat
  | [], k => k
  | (_, slot) :: rest, k =>
    if k < slot.shape.member.size then x * slot.shape.member.size + k
    else slot.shape.size + place x rest (k - slot.shape.member.size)

variable {n x : Nat}

theorem place_lt (hx : x < n) :
    ∀ {slots : List (Nat × Slot α)} {k : Nat}, HaveRuns n slots → k < stateSize (members slots) →
      place x slots k < stateSize slots
  | [], _, _, hk => hk
  | (i, slot) :: rest, k, hruns, hk => by
      have ⟨hslot, hrest⟩ := List.forall_mem_cons.1 hruns
      have hk : k < slot.shape.member.size + stateSize (members rest) := hk
      rw [place, stateSize]
      split
      · rename_i hin
        have hslot : slot.shape.runs = n := hslot
        have := Shape.run_lt hslot hx hin
        omega
      · have hin : k - slot.shape.member.size < stateSize (members rest) := by omega
        have := place_lt hx hrest hin
        omega

/-- **The state of a member in the state of an ensemble**, from an offset on in either. -/
def Placed (x : Nat) (slots : List (Nat × Slot α)) (y : Array α) (o : Nat) (y' : Array α)
    (o' : Nat) : Prop :=
  ∀ k < stateSize (members slots), y'[o' + k]? = y[o + place x slots k]?

/-- The first field, and the others behind it. -/
theorem Placed.cons {i : Nat} {slot : Slot α} {rest : List (Nat × Slot α)} {y y' : Array α}
    {o o' : Nat} (h : Placed x ((i, slot) :: rest) y o y' o') :
    (∀ k < slot.shape.member.size, y'[o' + k]? = y[o + (x * slot.shape.member.size + k)]?) ∧
      Placed x rest y (o + slot.shape.size) y' (o' + slot.shape.member.size) := by
  constructor
  · intro k hk
    have hlt : k < stateSize (members ((i, slot) :: rest)) := Nat.lt_add_right _ hk
    rw [h k hlt, place, if_pos hk]
  · intro k hk
    have hlt : slot.shape.member.size + k < stateSize (members ((i, slot) :: rest)) :=
      Nat.add_lt_add_left hk _
    have := h _ hlt
    rw [place, if_neg (by omega), Nat.add_sub_cancel_left] at this
    rw [Nat.add_assoc, Nat.add_assoc, this]

/-- What holds of the first field and of the others holds of both. -/
theorem Placed.append {i : Nat} {slot : Slot α} {rest : List (Nat × Slot α)}
    (hslot : slot.shape.runs = n) (hx : x < n) {here : Vector α slot.shape.size}
    {others : Vector α (stateSize rest)} {here' : Vector α slot.shape.member.size}
    {others' : Vector α (stateSize (members rest))}
    (hhere : ∀ k < slot.shape.member.size,
      here'.toArray[k]? = here.toArray[x * slot.shape.member.size + k]?)
    (hothers : Placed x rest others.toArray 0 others'.toArray 0) :
    Placed x ((i, slot) :: rest) (here ++ others).toArray 0 (here' ++ others').toArray 0 := by
  intro k hk
  have hk : k < slot.shape.member.size + stateSize (members rest) := hk
  rw [Nat.zero_add, Nat.zero_add, Vector.toArray_append, Vector.toArray_append, place]
  split
  · rename_i hin
    rw [Array.getElem?_append_left (by simpa using hin),
      Array.getElem?_append_left (by simpa using Shape.run_lt hslot hx hin), hhere k hin]
  · rename_i hout
    have hrest := hothers (k - slot.shape.member.size) (by omega)
    rw [Nat.zero_add, Nat.zero_add] at hrest
    rw [Array.getElem?_append_right (by simpa using Nat.le_of_not_lt hout),
      Array.getElem?_append_right (by simp), Vector.size_toArray, Vector.size_toArray, hrest,
      Nat.add_sub_cancel_left]

end FieldFlow
