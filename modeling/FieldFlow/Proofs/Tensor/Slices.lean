import FieldFlow.Proofs.Field.Member
import FieldFlow.Proofs.Tensor.OuterAxes

/-!
# Proofs/Tensor/Slices — one run or one region of a tensor

A slice is a tensor of one run or one region alone, and a tensor is given by its shape and its
slices (`Tensor.ext_slice`). Repeating an axis of length one repeats its only slice
(`Tensor.slice_repeated`).
-/

namespace FieldFlow

/-! ## Outer axes -/

namespace OuterAxis

/-- The length of an outer axis. -/
def length : OuterAxis → Shape → Nat
  | .run, s => s.runs
  | .region, s => s.regions

/-- The shape with another length of an outer axis. -/
def resize : OuterAxis → Shape → Nat → Shape
  | .run, s, n => { s with runs := n }
  | .region, s, n => { s with regions := n }

/-- A run and a region, with another index on one of the two axes. -/
def place : OuterAxis → Nat → Nat → Nat → Nat × Nat
  | .run, k, _, r => (k, r)
  | .region, k, x, _ => (x, k)

@[simp] theorem length_resize (axis : OuterAxis) (s : Shape) (n : Nat) :
    axis.length (axis.resize s n) = n := by
  cases axis <;> rfl

end OuterAxis

namespace Shape

/-- The shape repeated along an outer axis of length one. -/
def repeated (axis : OuterAxis) (n : Nat) (s : Shape) : Shape :=
  axis.resize s (if axis.length s = 1 then n else axis.length s)

theorem length_repeated (axis : OuterAxis) (n : Nat) (s : Shape) :
    axis.length (s.repeated axis n) = if axis.length s = 1 then n else axis.length s :=
  axis.length_resize s _

theorem repeated_of_length_ne {axis : OuterAxis} {n : Nat} {s : Shape} (h : axis.length s ≠ 1) :
    s.repeated axis n = s := by
  rw [repeated, if_neg h]
  cases axis <;> rfl

theorem expandsTo_repeated (axis : OuterAxis) (n : Nat) (s : Shape) :
    s.expandsTo (s.repeated axis n) = true := by
  have haxis : axisExpands (axis.length s) (axis.length (s.repeated axis n)) = true := by
    rw [length_repeated, axisExpands_iff]
    split
    · exact .inr ‹_›
    · exact .inl rfl
  obtain ⟨hruns, hregions, hrows, hcolumns⟩ := expandsTo_iff.1 s.expandsTo_self
  rw [expandsTo_iff]
  cases axis with
  | run => exact ⟨haxis, hregions, hrows, hcolumns⟩
  | region => exact ⟨hruns, haxis, hrows, hcolumns⟩

/-- Where the elements of a slice stand in the whole. -/
theorem Contains.of_slice {axis : OuterAxis} {s : Shape} {k x r i j : Nat}
    (hk : axisIndex (axis.length s) k < axis.length s) (h : (axis.resize s 1).Contains x r i j) :
    s.Contains (axisIndex s.runs (axis.place k x r).1) (axisIndex s.regions (axis.place k x r).2)
      (axisIndex s.sectorA i) (axisIndex s.sectorB j) := by
  have hstay {a i : Nat} (hi : i < a) : axisIndex a i < a := by rwa [axisIndex_of_lt hi]
  cases axis with
  | run => exact ⟨hk, hstay h.2.1, hstay h.2.2.1, hstay h.2.2.2⟩
  | region => exact ⟨hstay h.1, hk, hstay h.2.2.1, hstay h.2.2.2⟩

end Shape

namespace Tensor

section Slices

variable {α : Type} [Inhabited α] {axis : OuterAxis} {t u : Tensor α} {k n : Nat}

/-- **One run or region of a tensor**, as a tensor with it alone; an axis of length one has its only
slice at every index. -/
def slice (axis : OuterAxis) (k : Nat) (t : Tensor α) : Tensor α :=
  ofFn (axis.resize t.shape 1) fun x r i j =>
    t.getExpanded (axis.place k x r).1 (axis.place k x r).2 i j

/-- **The tensor repeated** along an outer axis of length one; any other stays as it is. -/
def repeated (axis : OuterAxis) (n : Nat) (t : Tensor α) : Tensor α :=
  t.expand (t.shape.repeated axis n)

theorem get_slice {x r i j : Nat} (h : (axis.resize t.shape 1).Contains x r i j) :
    (t.slice axis k).get x r i j =
      t.getExpanded (axis.place k x r).1 (axis.place k x r).2 i j := get_ofFn _ _ h

/-- A tensor that is longer, or empty, is not repeated. -/
theorem repeated_of_length_ne (h : axis.length t.shape ≠ 1) : t.repeated axis n = t := by
  rw [repeated, Shape.repeated_of_length_ne h, expand_self]

/-- A slice along the runs is the tensor of that run. -/
theorem slice_run {α : Type} [Scalar α] (k : Nat) (t : Tensor α) : t.slice .run k = t.run k := by
  refine ofFn_congr fun x r i j hc => ?_
  have hr : r < t.shape.regions := hc.2.1
  have hi : i < t.shape.sectorA := hc.2.2.1
  have hj : j < t.shape.sectorB := hc.2.2.2
  dsimp only [getExpanded, OuterAxis.place]
  rw [axisIndex_of_lt hr, axisIndex_of_lt hi, axisIndex_of_lt hj]

/-- A slice along the regions is one along the runs of the exchanged tensor. -/
theorem slice_region (hk : axisIndex t.shape.regions k < t.shape.regions) :
    t.slice .region k = (t.swapOuter.slice .run k).swapOuter := by
  refine ext_get rfl fun x r i j hc => ?_
  have hc : (OuterAxis.region.resize t.shape 1).Contains x r i j := hc
  have hk : axisIndex (OuterAxis.region.length t.shape) k < OuterAxis.region.length t.shape := hk
  have hin := Shape.Contains.of_slice hk hc
  have hslice : (OuterAxis.run.resize t.swapOuter.shape 1).Contains r x i j :=
    ⟨hc.2.1, hc.1, hc.2.2⟩
  rw [get_slice hc, get_swapOuter hslice, get_slice hslice]
  exact (get_swapOuter hin).symm

/-- A slice of a tensor that expands to another is the slice at the same place of that one. -/
theorem slice_axisIndex {c : Nat} (h : axisExpands (axis.length t.shape) c = true) (k : Nat) :
    t.slice axis (axisIndex c k) = t.slice axis k := by
  refine ofFn_congr fun x r i j _ => ?_
  cases axis with
  | run =>
    have h : axisExpands t.shape.runs c = true := h
    dsimp only [OuterAxis.place, getExpanded]
    rw [axisIndex_axisIndex h]
  | region =>
    have h : axisExpands t.shape.regions c = true := h
    dsimp only [OuterAxis.place, getExpanded]
    rw [axisIndex_axisIndex h]

/-- An axis of length one has one slice, the tensor itself. -/
theorem slice_of_length_one (h : axis.length t.shape = 1) (k : Nat) : t.slice axis k = t := by
  have hshape : axis.resize t.shape 1 = t.shape := by
    rw [← h]
    cases axis <;> rfl
  refine Eq.trans ?_ t.expand_self
  rw [slice, hshape]
  refine ofFn_congr fun x r i j _ => ?_
  cases axis with
  | run =>
    have h : t.shape.runs = 1 := h
    simp only [OuterAxis.place, getExpanded, axisIndex, h, if_true]
  | region =>
    have h : t.shape.regions = 1 := h
    simp only [OuterAxis.place, getExpanded, axisIndex, h, if_true]

/-- Tensors of one shape with the same slices are equal. -/
theorem ext_slice (hs : t.shape = u.shape)
    (h : ∀ k < axis.length t.shape, t.slice axis k = u.slice axis k) : t = u := by
  have hsame {k x r i j : Nat} (hk : k < axis.length t.shape)
      (hin : (axis.resize t.shape 1).Contains x r i j) :
      t.getExpanded (axis.place k x r).1 (axis.place k x r).2 i j =
        u.getExpanded (axis.place k x r).1 (axis.place k x r).2 i j := by
    rw [← get_slice hin, h k hk]
    exact get_slice (hs ▸ hin)
  rw [← t.expand_self, ← u.expand_self, ← hs]
  refine ofFn_congr fun x r i j hc => ?_
  cases axis with
  | run => exact hsame (k := x) (x := 0) hc.1 ⟨Nat.one_pos, hc.2⟩
  | region => exact hsame (k := r) (r := 0) hc.2.1 ⟨hc.1, Nat.one_pos, hc.2.2⟩

/-- Reading through a longer shape. -/
theorem getExpanded_expand {s : Shape} (h : t.shape.expandsTo s = true) {x r i j : Nat}
    (hc : s.Contains (axisIndex s.runs x) (axisIndex s.regions r) (axisIndex s.sectorA i)
      (axisIndex s.sectorB j)) : (t.expand s).getExpanded x r i j = t.getExpanded x r i j := by
  obtain ⟨hruns, hregions, hrows, hcolumns⟩ := Shape.expandsTo_iff.1 h
  refine (get_ofFn s t.getExpanded hc).trans ?_
  rw [getExpanded, axisIndex_axisIndex hruns, axisIndex_axisIndex hregions,
    axisIndex_axisIndex hrows, axisIndex_axisIndex hcolumns, getExpanded]

/-- Every slice of a repeated tensor is the slice that was repeated. -/
theorem slice_repeated (hk : axisIndex (axis.length (t.shape.repeated axis n)) k <
    axis.length (t.shape.repeated axis n)) : (t.repeated axis n).slice axis k = t.slice axis k := by
  have hshape : axis.resize (t.shape.repeated axis n) 1 = axis.resize t.shape 1 := by
    cases axis <;> rfl
  refine ext_get hshape fun x r i j hc => ?_
  have hc : (axis.resize (t.repeated axis n).shape 1).Contains x r i j := hc
  have hc' : (axis.resize t.shape 1).Contains x r i j := hshape ▸ hc
  rw [get_slice hc, get_slice hc']
  exact getExpanded_expand (t.shape.expandsTo_repeated axis n) (.of_slice hk hc)

end Slices

end Tensor
end FieldFlow
