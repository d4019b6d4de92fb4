import FieldFlow.Proofs.Scalar.Fraction
import FieldFlow.Proofs.Tensor.ResultShape
import FieldFlow.Proofs.Tensor.Slices

/-!
# Proofs/Tensor/Slicewise — operators work run by run and region by region

An operator with its operands is an `Application`. What it gives at a run is what it gives for that
run of its operands alone (`Application.eval_slice`), and the same holds of the regions for every
operator but the sum over them. With the shape of the result known from the shapes of the operands,
repeating operands along an axis of length one repeats the result, or leaves it as it is
(`Application.slicewise`).
-/

namespace FieldFlow

/-! ## Shapes along an outer axis -/

theorem joinAxis?_repeated {a b c n : Nat} (h : joinAxis? a b = some c) (ha : a = 1 → b = 1 ∨ b = n)
    (hb : b = 1 → a = 1 ∨ a = n) :
    joinAxis? (if a = 1 then n else a) (if b = 1 then n else b) =
      some (if c = 1 then n else c) := by
  rw [joinAxis?_eq_some_iff, axisExpands_iff, axisExpands_iff] at h ⊢
  grind

theorem eq_of_joinAxis?_repeated {a b c d n : Nat} (h : joinAxis? a b = some c)
    (hd : joinAxis? (if a = 1 then n else a) (if b = 1 then n else b) = some d) :
    d = if c = 1 then n else c := by
  rw [joinAxis?_eq_some_iff, axisExpands_iff, axisExpands_iff] at h hd
  grind

section Repeated

variable {axis : OuterAxis} {n : Nat} {s u w d : Shape}

/-- The shape along an axis that the operator does not sum over, and that stays in the result. -/
theorem SectorOp.shape?_repeated {op : SectorOp} (hop : op = .sumRegions → axis = .run)
    (hid : op ≠ .identity) (h : op.shape? s = some w) :
    op.shape? (s.repeated axis n) = some (w.repeated axis n) := by
  cases op with
  | transpose | sumFirst | sumSecond =>
    obtain rfl := Option.some.inj h
    cases axis <;> rfl
  | sumRegions =>
    obtain rfl := Option.some.inj h
    rw [hop rfl]
    rfl
  | identity => exact absurd rfl hid
  | inverse =>
    obtain ⟨hsquare, hs⟩ := Option.ite_none_right_eq_some.1 h
    obtain rfl := Option.some.inj hs
    cases axis <;> exact if_pos hsquare

theorem ProductOp.sectors?_repeated (op : ProductOp) (axis : OuterAxis) (n : Nat) (s u : Shape) :
    op.sectors? (s.repeated axis n) (u.repeated axis n) = op.sectors? s u := by
  cases op <;> cases axis <;> rfl

theorem ProductOp.shape?_repeated {op : ProductOp}
    (hs : axis.length s = 1 → axis.length u = 1 ∨ axis.length u = n)
    (hu : axis.length u = 1 → axis.length s = 1 ∨ axis.length s = n) (h : op.shape? s u = some w) :
    op.shape? (s.repeated axis n) (u.repeated axis n) = some (w.repeated axis n) := by
  obtain ⟨hsectors, hruns, hregions⟩ := shape?_eq_some_iff.1 h
  refine shape?_eq_some_iff.2 ?_
  rw [sectors?_repeated, hsectors]
  cases axis with
  | run => exact ⟨rfl, joinAxis?_repeated hruns hs hu, hregions⟩
  | region => exact ⟨rfl, hruns, joinAxis?_repeated hregions hs hu⟩

theorem ProductOp.eq_of_shape?_repeated {op : ProductOp} (h : op.shape? s u = some w)
    (hd : op.shape? (s.repeated axis n) (u.repeated axis n) = some d) : d = w.repeated axis n := by
  obtain ⟨hsectors, hruns, hregions⟩ := shape?_eq_some_iff.1 h
  obtain ⟨hsectors', hruns', hregions'⟩ := shape?_eq_some_iff.1 hd
  rw [sectors?_repeated, hsectors] at hsectors'
  obtain ⟨runs, regions, a, b⟩ := d
  obtain ⟨rfl, rfl⟩ : w.sectorA = a ∧ w.sectorB = b := Prod.mk.inj (Option.some.inj hsectors')
  cases axis with
  | run =>
    obtain rfl := eq_of_joinAxis?_repeated hruns hruns'
    obtain rfl : w.regions = regions := Option.some.inj (hregions.symm.trans hregions')
    rfl
  | region =>
    obtain rfl := eq_of_joinAxis?_repeated hregions hregions'
    obtain rfl : w.runs = runs := Option.some.inj (hruns.symm.trans hruns')
    rfl

/-- The operands are as long as the result, or stand for its length. -/
theorem ProductOp.expands_of_shape? {op : ProductOp} (axis : OuterAxis)
    (h : op.shape? s u = some w) : axisExpands (axis.length s) (axis.length w) = true ∧
      axisExpands (axis.length u) (axis.length w) = true := by
  obtain ⟨-, hruns, hregions⟩ := shape?_eq_some_iff.1 h
  cases axis with
  | run => exact ⟨(joinAxis?_eq_some_iff.1 hruns).1, (joinAxis?_eq_some_iff.1 hruns).2.1⟩
  | region => exact ⟨(joinAxis?_eq_some_iff.1 hregions).1, (joinAxis?_eq_some_iff.1 hregions).2.1⟩

/-- The operand is as long as the result, where its length stays in it. -/
theorem SectorOp.length_of_shape? {op : SectorOp} (hop : op = .sumRegions → axis = .run)
    (hid : op ≠ .identity) (h : op.shape? s = some w) : axis.length w = axis.length s := by
  cases op with
  | transpose | sumFirst | sumSecond =>
    obtain rfl := Option.some.inj h
    cases axis <;> rfl
  | sumRegions =>
    obtain rfl := Option.some.inj h
    rw [hop rfl]
    rfl
  | identity => exact absurd rfl hid
  | inverse =>
    obtain ⟨-, hs⟩ := Option.ite_none_right_eq_some.1 h
    obtain rfl := Option.some.inj hs
    rfl

end Repeated

/-! ## Applications -/

/-- An operator with its operands. -/
inductive Application (α : Type) where
  | sector (op : SectorOp) (t : Tensor α)
  | product (op : ProductOp) (t u : Tensor α)

namespace Application

section Operands

variable {α : Type}

/-- The same operator with every operand replaced. -/
def map (f : Tensor α → Tensor α) : Application α → Application α
  | sector op t => sector op (f t)
  | product op t u => product op (f t) (f u)

def operands : Application α → List (Tensor α)
  | sector _ t => [t]
  | product _ t u => [t, u]

/-- **Whether the operator keeps the places on an outer axis apart** — all do but the sum over the
regions, which does on the runs only. -/
def WorksAlong (c : Application α) (axis : OuterAxis) : Prop :=
  match c with
  | sector op _ => op = .sumRegions → axis = .run
  | product .. => True

/-- Operands that stay lined up where those of length one are repeated. -/
def Aligned (c : Application α) (axis : OuterAxis) (n : Nat) : Prop :=
  ∀ t ∈ c.operands, ∀ u ∈ c.operands, axis.length t.shape = 1 →
    axis.length u.shape = 1 ∨ axis.length u.shape = n

/-- Whether the operator reads nothing but the size of its operand. -/
def IsIdentity : Application α → Prop
  | sector op _ => op = .identity
  | product .. => False

def shape? : Application α → Option Shape
  | sector op t => op.shape? t.shape
  | product op t u => op.shape? t.shape u.shape

theorem map_map (f g : Tensor α → Tensor α) (c : Application α) :
    (c.map f).map g = c.map (g ∘ f) := by
  cases c <;> rfl

theorem worksAlong_map {f : Tensor α → Tensor α} {c : Application α} {axis : OuterAxis} :
    (c.map f).WorksAlong axis ↔ c.WorksAlong axis := by
  cases c <;> rfl

theorem worksAlong_run (c : Application α) : c.WorksAlong .run := by
  cases c with
  | sector op t => exact fun _ => rfl
  | product op t u => trivial

theorem isIdentity_map {f : Tensor α → Tensor α} {c : Application α} :
    (c.map f).IsIdentity ↔ c.IsIdentity := by
  cases c <;> rfl

theorem operands_map (f : Tensor α → Tensor α) (c : Application α) :
    (c.map f).operands = c.operands.map f := by
  cases c <;> rfl

theorem map_congr {f g : Tensor α → Tensor α} {c : Application α}
    (h : ∀ t ∈ c.operands, f t = g t) : c.map f = c.map g := by
  cases c with
  | sector op t => rw [map, map, h t (by simp [operands])]
  | product op t u => rw [map, map, h t (by simp [operands]), h u (by simp [operands])]

end Operands

variable {α : Type} [Scalar α] {c : Application α} {axis : OuterAxis} {k n : Nat} {v w : Tensor α}
  {s : Shape}

/-- **What the operator gives.** -/
def eval : Application α → Except Fault (Tensor α)
  | sector op t => op.apply t
  | product op t u => op.apply t u

theorem shape?_of_eval (h : c.eval = .ok v) : c.shape? = some v.shape := by
  cases c with
  | sector op t => exact SectorOp.shape?_of_apply h
  | product op t u => exact ProductOp.shape?_of_apply h

theorem eval_settles (h : c.shape? = some s) : Settles c.eval s := by
  cases c with
  | sector op t => exact SectorOp.apply_settles h
  | product op t u => exact ProductOp.apply_settles h

theorem eval_swapOuter (hc : c.WorksAlong .region) (h : c.eval = .ok v) :
    (c.map Tensor.swapOuter).eval = .ok v.swapOuter := by
  cases c with
  | sector op t => exact SectorOp.apply_swapOuter (fun hop => nomatch hc hop) h
  | product op t u => exact ProductOp.apply_swapOuter h

/-! ## Slices -/

theorem expands_of_eval (hc : c.WorksAlong axis) (hid : ¬ c.IsIdentity) (h : c.eval = .ok v) :
    ∀ t ∈ c.operands, axisExpands (axis.length t.shape) (axis.length v.shape) = true := by
  have hshape := shape?_of_eval h
  cases c with
  | sector op t =>
    intro t' ht'
    obtain rfl := List.mem_singleton.1 ht'
    exact axisExpands_iff.2 (.inl (SectorOp.length_of_shape? hc hid hshape).symm)
  | product op t u =>
    obtain ⟨ht, hu⟩ := ProductOp.expands_of_shape? axis hshape
    exact List.forall_mem_cons.2 ⟨ht, List.forall_mem_singleton.2 hu⟩

theorem eval_member {x : Nat} (hs : ∀ t ∈ c.operands, Spans t.shape.runs n) (hx : x < n) :
    Tensor.GivesMember n x c.eval (c.map (·.member x)).eval := by
  cases c with
  | sector op t => exact op.apply_member (hs t (by simp [operands])) hx
  | product op t u =>
    exact op.apply_member (hs t (by simp [operands])) (hs u (by simp [operands])) hx

/-- The identity does not depend on the outer axes of its operand. -/
theorem eval_of_isIdentity (hid : c.IsIdentity) {f : Tensor α → Tensor α}
    (hf : ∀ t, (f t).shape.sectorB = t.shape.sectorB) : (c.map f).eval = c.eval := by
  cases c with
  | sector op t =>
    obtain rfl : op = .identity := hid
    change (f t).identity = t.identity
    rw [Tensor.identity, Tensor.identity, hf]
  | product op t u => exact hid.elim

theorem length_of_isIdentity (hid : c.IsIdentity) (h : c.eval = .ok v) :
    axis.length v.shape = 1 := by
  cases c with
  | sector op t =>
    obtain rfl : op = .identity := hid
    have hshape := Option.some.inj (shape?_of_eval h)
    rw [← hshape]
    cases axis <;> rfl
  | product op t u => exact hid.elim

/-- **What is given at a run** is what the runs of the operands give. -/
theorem eval_slice_run (hid : ¬ c.IsIdentity) (hc : c.WorksAlong .run) (h : c.eval = .ok v)
    (hk : axisIndex v.shape.runs k < v.shape.runs) :
    (c.map (·.slice .run k)).eval = .ok (v.slice .run k) := by
  have hexpands := expands_of_eval hc hid h
  have hmember {t : Tensor α} (ht : axisExpands t.shape.runs v.shape.runs = true) :
      t.slice .run k = t.member (axisIndex v.shape.runs k) := by
    have hpos : 0 < t.shape.runs := Nat.zero_lt_of_lt (axisIndex_lt ht hk)
    have hline : axisExpands (OuterAxis.run.length t.shape) v.shape.runs = true := ht
    rw [Tensor.member_eq_run hpos, ← Tensor.slice_run]
    exact (Tensor.slice_axisIndex hline k).symm
  have hspans : ∀ t ∈ c.operands, Spans t.shape.runs v.shape.runs := fun t ht => by
    have := axisExpands_iff.1 (hexpands t ht)
    unfold Spans
    change t.shape.runs = v.shape.runs ∨ t.shape.runs = 1 at this
    omega
  rw [map_congr fun t ht => hmember (hexpands t ht), hmember (axisExpands_iff.2 (.inl rfl))]
  exact (eval_member hspans hk h).2

/-- **What is given at a run or a region** is what the runs or the regions of the operands give —
regions being the runs of the exchanged operands. -/
theorem eval_slice (hc : c.WorksAlong axis) (h : c.eval = .ok v)
    (hk : k < axis.length v.shape ∨ axis.length v.shape = 1) :
    (c.map (·.slice axis k)).eval = .ok (v.slice axis k) := by
  by_cases hid : c.IsIdentity
  · rw [Tensor.slice_of_length_one (length_of_isIdentity hid h), eval_of_isIdentity hid, h]
    intro t
    cases axis <;> rfl
  · have hk : axisIndex (axis.length v.shape) k < axis.length v.shape := by
      rcases hk with hk | hone
      · rwa [axisIndex_of_lt hk]
      · rw [hone]
        exact Nat.one_pos
    cases axis with
    | run => exact eval_slice_run hid hc h hk
    | region =>
      have hslice {t : Tensor α} (ht : axisExpands t.shape.regions v.shape.regions = true) :
          ((t.swapOuter.slice .run k).swapOuter) = t.slice .region k :=
        (Tensor.slice_region (axisIndex_axisIndex ht k ▸ axisIndex_lt ht hk)).symm
      have hrun : ((c.map Tensor.swapOuter).map (·.slice .run k)).eval =
          .ok (v.swapOuter.slice .run k) :=
        eval_slice_run (mt isIdentity_map.1 hid) (worksAlong_run _) (eval_swapOuter hc h) hk
      have hregion := eval_swapOuter (worksAlong_map.2 (worksAlong_map.2 hc)) hrun
      rw [map_map, map_map] at hregion
      rw [← hslice (axisExpands_iff.2 (.inl rfl)), ← hregion]
      exact congrArg eval (map_congr fun t ht => (hslice (expands_of_eval hc hid h t ht)).symm)

/-! ## Repeated operands -/

/-- Repeated operands give the result repeated, if they give one. -/
theorem eval_repeated (hc : c.WorksAlong axis) (hid : ¬ c.IsIdentity) (h : c.eval = .ok v)
    (hw : (c.map (·.repeated axis n)).eval = .ok w) : w = v.repeated axis n := by
  have hshape : w.shape = v.shape.repeated axis n := by
    have hv := shape?_of_eval h
    have hw := shape?_of_eval hw
    cases c with
    | sector op t =>
      exact Option.some.inj (hw.symm.trans (SectorOp.shape?_repeated hc hid hv))
    | product op t u => exact ProductOp.eq_of_shape?_repeated hv hw
  have hlength := congrArg axis.length hshape
  rw [Shape.length_repeated] at hlength
  refine Tensor.ext_slice hshape fun k (hk : k < axis.length w.shape) => ?_
  have hkv : k < axis.length v.shape ∨ axis.length v.shape = 1 := by
    split at hlength
    · exact .inr ‹_›
    · exact .inl (hlength ▸ hk)
  have hexpands := expands_of_eval (worksAlong_map.2 hc) (mt isIdentity_map.1 hid) hw
  rw [operands_map, List.forall_mem_map] at hexpands
  have hsame : (c.map (·.repeated axis n)).map (·.slice axis k) = c.map (·.slice axis k) :=
    (map_map _ _ c).trans
      (map_congr fun t ht => Tensor.slice_repeated (axisIndex_lt (hexpands t ht) hk))
  have hslices := eval_slice (worksAlong_map.2 hc) hw (.inl hk)
  rw [hsame, eval_slice hc h hkv] at hslices
  rw [← Except.ok.inj hslices]
  refine (Tensor.slice_repeated ?_).symm
  rw [← hshape, axisIndex_of_lt hk]
  exact hk

/-- Repeated operands that stay lined up give a result, short of what is too large. -/
theorem eval_repeated_settles (hc : c.WorksAlong axis) (hid : ¬ c.IsIdentity) (h : c.eval = .ok v)
    (hn : c.Aligned axis n) :
    Settles (c.map (·.repeated axis n)).eval (v.shape.repeated axis n) := by
  have hv := shape?_of_eval h
  refine eval_settles ?_
  cases c with
  | sector op t => exact SectorOp.shape?_repeated hc hid hv
  | product op t u =>
    exact ProductOp.shape?_repeated (hn t (by simp [operands]) u (by simp [operands]))
      (hn u (by simp [operands]) t (by simp [operands])) hv

/-- **Operators work slice by slice.** Where an operator gives a result, it gives each slice of it
for the slices of its operands; and with every operand of length one repeated, it gives the result
as it was or repeated likewise — which it does where the operands stay lined up, if there is
room. -/
theorem slicewise (c : Application α) (axis : OuterAxis) (hc : c.WorksAlong axis) (v : Tensor α)
    (h : c.eval = .ok v) :
    (∀ k, k < axis.length v.shape ∨ axis.length v.shape = 1 →
      (c.map (·.slice axis k)).eval = .ok (v.slice axis k)) ∧
    (∀ n w, (c.map (·.repeated axis n)).eval = .ok w → w = v ∨ w = v.repeated axis n) ∧
    ∀ n, c.Aligned axis n →
      (c.map (·.repeated axis n)).eval = .ok v ∨
        (c.map (·.repeated axis n)).eval = .ok (v.repeated axis n) ∨
          (c.map (·.repeated axis n)).eval = .error .oversized ∧
            ¬ (v.shape.repeated axis n).Roomy := by
  refine ⟨fun k hk => eval_slice hc h hk, ?_⟩
  by_cases hid : c.IsIdentity
  · have hsame (n : Nat) : (c.map (·.repeated axis n)).eval = .ok v := by
      rw [eval_of_isIdentity hid, h]
      intro t
      cases axis <;> rfl
    exact ⟨fun n w hw => .inl (Except.ok.inj (hw.symm.trans (hsame n))), fun n _ => .inl (hsame n)⟩
  · refine ⟨fun n w hw => .inr (eval_repeated hc hid h hw), fun n hn => ?_⟩
    rcases eval_repeated_settles hc hid h hn with ⟨w, hw, -⟩ | hroom
    · exact .inr (.inl (eval_repeated hc hid h hw ▸ hw))
    · exact .inr (.inr hroom)

/-- Two runs of a row, multiplied with the one run of a column. -/
theorem slicewise_matmul :
    ((product .matmul (Tensor.ofFn ⟨2, 1, 1, 2⟩ fun x _ _ k => Fraction.of (x + k))
      (.fill ⟨1, 1, 2, 1⟩ (.of 3))).map (·.slice .run 1)).eval =
        .ok ((Tensor.ofFn ⟨2, 1, 1, 1⟩ fun x _ _ _ => Fraction.of (3 + 6 * x)).slice .run 1) :=
  (slicewise _ .run (worksAlong_run _) _ (by decide +kernel)).1 1 (.inl (by decide))

end Application

end FieldFlow
