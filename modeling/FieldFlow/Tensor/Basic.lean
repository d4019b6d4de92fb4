import FieldFlow.Scalar

/-!
# Tensor/Basic — values over runs, regions and two sector axes

Every field value has four axes: the parallel run, the region, and two sector axes of which a scalar
field uses neither. A tensor is read through `get` and built by `ofFn`; `get_ofFn` and `ext_get` say
that inside the shape nothing else can be observed of it.
-/

namespace FieldFlow

/-- Axis lengths of a field value; an axis may be empty. -/
structure Shape where
  runs : Nat
  regions : Nat
  sectorA : Nat
  sectorB : Nat
deriving DecidableEq, Repr

namespace Shape

/-- A scalar: one run, one region, one sector either way. -/
def unit : Shape := ⟨1, 1, 1, 1⟩

/-- The number of elements. -/
def size (s : Shape) : Nat := s.runs * s.regions * s.sectorA * s.sectorB

def toList (s : Shape) : List Nat := [s.runs, s.regions, s.sectorA, s.sectorB]

/-- Whether an element has a place in the shape. -/
def Contains (s : Shape) (x r i j : Nat) : Prop :=
  x < s.runs ∧ r < s.regions ∧ i < s.sectorA ∧ j < s.sectorB

/-- The place of an element when the last axis runs fastest. -/
def position (s : Shape) (x r i j : Nat) : Nat :=
  ((x * s.regions + r) * s.sectorA + i) * s.sectorB + j

/-- The run of the element at a place. -/
def runAt (s : Shape) (k : Nat) : Nat := k / s.sectorB / s.sectorA / s.regions

/-- The region of the element at a place. -/
def regionAt (s : Shape) (k : Nat) : Nat := k / s.sectorB / s.sectorA % s.regions

/-- The first sector of the element at a place. -/
def rowAt (s : Shape) (k : Nat) : Nat := k / s.sectorB % s.sectorA

/-- The second sector of the element at a place. -/
def columnAt (s : Shape) (k : Nat) : Nat := k % s.sectorB

private theorem place_lt {a b m n : Nat} (ha : a < m) (hb : b < n) : a * n + b < m * n :=
  calc a * n + b < a * n + n := Nat.add_lt_add_left hb _
    _ = (a + 1) * n := (Nat.succ_mul a n).symm
    _ ≤ m * n := Nat.mul_le_mul_right n ha

private theorem place_div {a b n : Nat} (hb : b < n) : (a * n + b) / n = a := by
  rw [Nat.mul_comm, Nat.mul_add_div (Nat.zero_lt_of_lt hb), Nat.div_eq_of_lt hb, Nat.add_zero]

private theorem place_mod {a b n : Nat} (hb : b < n) : (a * n + b) % n = b := by
  rw [Nat.mul_comm, Nat.mul_add_mod, Nat.mod_eq_of_lt hb]

theorem position_lt (s : Shape) {x r i j : Nat} (h : s.Contains x r i j) :
    s.position x r i j < s.size :=
  place_lt (place_lt (place_lt h.1 h.2.1) h.2.2.1) h.2.2.2

theorem runAt_position (s : Shape) {x r i j : Nat} (h : s.Contains x r i j) :
    s.runAt (s.position x r i j) = x := by
  rw [runAt, position, place_div h.2.2.2, place_div h.2.2.1, place_div h.2.1]

theorem regionAt_position (s : Shape) {x r i j : Nat} (h : s.Contains x r i j) :
    s.regionAt (s.position x r i j) = r := by
  rw [regionAt, position, place_div h.2.2.2, place_div h.2.2.1, place_mod h.2.1]

theorem rowAt_position (s : Shape) {x r i j : Nat} (h : s.Contains x r i j) :
    s.rowAt (s.position x r i j) = i := by
  rw [rowAt, position, place_div h.2.2.2, place_mod h.2.2.1]

theorem columnAt_position (s : Shape) {x r i j : Nat} (h : s.Contains x r i j) :
    s.columnAt (s.position x r i j) = j := by
  rw [columnAt, position, place_mod h.2.2.2]

/-- Every place of a shape belongs to an element of it. -/
theorem contains_at (s : Shape) {k : Nat} (h : k < s.size) :
    s.Contains (s.runAt k) (s.regionAt k) (s.rowAt k) (s.columnAt k) := by
  have hb : 0 < s.sectorB := Nat.pos_of_ne_zero fun h0 => by simp [size, h0] at h
  have ha : 0 < s.sectorA := Nat.pos_of_ne_zero fun h0 => by simp [size, h0] at h
  have hr : 0 < s.regions := Nat.pos_of_ne_zero fun h0 => by simp [size, h0] at h
  refine ⟨?_, Nat.mod_lt _ hr, Nat.mod_lt _ ha, Nat.mod_lt _ hb⟩
  rw [runAt, Nat.div_div_eq_div_mul, Nat.div_div_eq_div_mul, Nat.div_lt_iff_lt_mul
    (Nat.mul_pos hb (Nat.mul_pos ha hr))]
  calc k < s.size := h
    _ = s.runs * (s.sectorB * (s.sectorA * s.regions)) := by
      simp only [size, Nat.mul_comm, Nat.mul_left_comm]

/-- …and its position is that place again. -/
theorem position_at (s : Shape) (k : Nat) :
    s.position (s.runAt k) (s.regionAt k) (s.rowAt k) (s.columnAt k) = k := by
  simp only [position, runAt, regionAt, rowAt, columnAt]
  rw [Nat.div_add_mod', Nat.div_add_mod', Nat.div_add_mod']

end Shape

/-- A field value: its elements in order, the last axis fastest. -/
structure Tensor (α : Type) where
  shape : Shape
  data : Array α
  size_data : data.size = shape.size

namespace Tensor

variable {α β : Type}

/-- The tensor of a shape with given elements. -/
def ofFn (s : Shape) (f : Nat → Nat → Nat → Nat → α) : Tensor α where
  shape := s
  data := Array.ofFn fun k : Fin s.size => f (s.runAt k) (s.regionAt k) (s.rowAt k) (s.columnAt k)
  size_data := Array.size_ofFn

/-- One element; outside the shape a fixed default, which nothing in this library reads. -/
def get [Inhabited α] (t : Tensor α) (x r i j : Nat) : α :=
  t.data[t.shape.position x r i j]?.getD default

@[simp] theorem shape_ofFn (s : Shape) (f : Nat → Nat → Nat → Nat → α) :
    (ofFn s f).shape = s := rfl

/-- **Building and reading** — inside the shape a tensor holds what it was built from. -/
theorem get_ofFn [Inhabited α] (s : Shape) (f : Nat → Nat → Nat → Nat → α) {x r i j : Nat}
    (h : s.Contains x r i j) : (ofFn s f).get x r i j = f x r i j := by
  simp only [get, ofFn, Array.getElem?_ofFn, s.position_lt h, dite_true, Option.getD_some,
    s.runAt_position h, s.regionAt_position h, s.rowAt_position h, s.columnAt_position h]

/-- **Extensionality** — tensors of one shape with the same elements are equal. -/
theorem ext_get [Inhabited α] {t u : Tensor α} (hs : t.shape = u.shape)
    (h : ∀ x r i j, t.shape.Contains x r i j → t.get x r i j = u.get x r i j) : t = u := by
  obtain ⟨s, d, hd⟩ := t
  obtain ⟨s', d', hd'⟩ := u
  simp only at hs
  subst hs
  have : d = d' := by
    apply Array.ext (hd.trans hd'.symm)
    intro k hk hk'
    have hc := s.contains_at (hd ▸ hk)
    have := h _ _ _ _ hc
    simpa only [get, s.position_at, Array.getElem?_eq_getElem hk, Array.getElem?_eq_getElem hk',
      Option.getD_some] using this
  subst this
  rfl

/-- The tensor with one value everywhere. -/
def fill (s : Shape) (c : α) : Tensor α where
  shape := s
  data := Array.replicate s.size c
  size_data := Array.size_replicate

/-- A scalar. -/
def scalar (c : α) : Tensor α := fill Shape.unit c

instance [Inhabited α] : Inhabited (Tensor α) := ⟨scalar default⟩

/-- The tensor of a shape whose elements stand in a longer array from a given offset on. -/
def ofSlice [Inhabited α] (s : Shape) (elements : Array α) (offset : Nat) : Tensor α where
  shape := s
  data := Array.ofFn fun k : Fin s.size => elements[offset + k]?.getD default
  size_data := Array.size_ofFn

/-- Elements listed in order, if there are as many as the shape has places. -/
def ofArray? (s : Shape) (data : Array α) : Option (Tensor α) :=
  if h : data.size = s.size then some ⟨s, data, h⟩ else none

/-- Applies a function to every element. -/
def map (f : α → β) (t : Tensor α) : Tensor β where
  shape := t.shape
  data := t.data.map f
  size_data := by rw [Array.size_map, t.size_data]

end Tensor

end FieldFlow
