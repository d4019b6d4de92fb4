import FieldFlow.Field.Basic
import FieldFlow.Field.Expression
import FieldFlow.Proofs.Field.Value
import FieldFlow.Proofs.Tensor.Inverse

/-!
# Proofs/Field/Member — functions that treat every run alike

An expression without the first element of an input, and without constants for more than one run,
gives for the members of its inputs the member of what it gives for the whole
(`Expression.eval_member`). Given values have members as well.
-/

namespace FieldFlow

variable {α : Type} [Scalar α] {n x : Nat}

/-! ## Inputs -/

namespace Inputs

omit [Scalar α] in
/-- Inputs that can stand in an ensemble of `n` runs. -/
def Spans (inputs : Inputs α) (n : Nat) : Prop :=
  ∀ binding ∈ inputs.bindings, FieldFlow.Spans binding.2.shape.runs n

def member (inputs : Inputs α) (x : Nat) : Inputs α :=
  ⟨inputs.bindings.map fun binding => (binding.1, binding.2.member x)⟩

theorem names_member (inputs : Inputs α) : (inputs.member x).names = inputs.names := by
  unfold names member
  rw [List.map_map]
  rfl

theorem get?_member (inputs : Inputs α) (name : String) :
    (inputs.member x).get? name = (inputs.get? name).map (·.member x) := by
  unfold get? member
  rw [List.find?_map, Option.map_map, Option.map_map]
  rfl

omit [Scalar α] in
theorem Spans.get? {inputs : Inputs α} (h : inputs.Spans n) {name : String} {v : Tensor α}
    (hv : inputs.get? name = some v) : FieldFlow.Spans v.shape.runs n := by
  obtain ⟨binding, hfind, rfl⟩ := Option.map_eq_some_iff.1 hv
  exact h binding (List.mem_of_find?_eq_some hfind)

omit [Scalar α] in
theorem get_eq_ok_iff {inputs : Inputs α} {name : String} {v : Tensor α} :
    inputs.get name = .ok v ↔ inputs.get? name = some v := by
  unfold get
  cases inputs.get? name <;> simp

end Inputs

/-! ## Expressions -/

/-- **Expressions that treat every run alike** — they take no first element, and their constants
have one run at most. -/
def Expression.RunWise : Expression α → Prop
  | .number _ | .input _ | .inputCount => True
  | .scalar _ => False
  | .constant value => value.shape.runs ≤ 1
  | .filled s _ => s.runs ≤ 1
  | .unary _ a | .powInt a _ | .pow a _ | .inputOr _ a | .region a _ | .sector _ a => a.RunWise
  | .binary _ a b | .product _ a b => a.RunWise ∧ b.RunWise

theorem SectorOp.apply_member (op : SectorOp) {t : Tensor α} (ht : Spans t.shape.runs n)
    (hx : x < n) : Tensor.GivesMember n x (op.apply t) (op.apply (t.member x)) := by
  cases op with
  | transpose =>
    obtain ⟨hs, htranspose⟩ := Tensor.transpose_member ht hx
    change Tensor.GivesMember n x (.ok t.transpose) (.ok (t.member x).transpose)
    rw [htranspose]
    exact .ok hs
  | sumFirst => exact Tensor.sumFirst_member ht hx
  | sumSecond => exact Tensor.sumSecond_member ht hx
  | sumRegions => exact Tensor.sumRegions_member ht hx
  | identity => exact Tensor.identity_member hx
  | inverse => exact Tensor.inverse_member ht hx

theorem ProductOp.apply_member (op : ProductOp) {t u : Tensor α} (ht : Spans t.shape.runs n)
    (hu : Spans u.shape.runs n) (hx : x < n) :
    Tensor.GivesMember n x (op.apply t u) (op.apply (t.member x) (u.member x)) := by
  cases op with
  | matmul => exact Tensor.matmul_member ht hu hx
  | sectorProduct => exact Tensor.sectorProduct_member ht hu hx
  | distance => exact Tensor.distance_member ht hu hx

/-- A value of at most one run is its own member. -/
theorem givesMember_of_runs_le {e : Except Fault (Tensor α)}
    (h : ∀ t, e = .ok t → t.shape.runs ≤ 1) : Tensor.GivesMember n x e e := by
  intro t ht
  have hruns := h t ht
  exact ⟨.inl hruns, by rw [Tensor.member_of_runs_le hruns, ht]⟩

theorem Inputs.Spans.get_member {inputs : Inputs α} (hin : inputs.Spans n) (name : String) :
    Tensor.GivesMember n x (inputs.get name) ((inputs.member x).get name) := by
  intro v hv
  have hget := Inputs.get_eq_ok_iff.1 hv
  refine ⟨hin.get? hget, Inputs.get_eq_ok_iff.2 ?_⟩
  rw [Inputs.get?_member, hget, Option.map_some]

/-- **Evaluation takes members to members.** -/
theorem Expression.eval_member {inputs : Inputs α} (hin : inputs.Spans n) (hx : x < n) :
    ∀ {e : Expression α}, e.RunWise →
      Tensor.GivesMember n x (e.eval inputs) (e.eval (inputs.member x))
  | .number _, _ => givesMember_of_runs_le fun t ht => by
      obtain rfl := Except.ok.inj ht
      exact Nat.le_refl 1
  | .input name, _ => hin.get_member name
  | .inputCount, _ => by
      rw [eval, eval, Inputs.names_member]
      refine givesMember_of_runs_le fun t ht => ?_
      obtain rfl := Except.ok.inj ht
      exact Nat.le_refl 1
  | .inputOr name otherwise, h => by
      have hotherwise : otherwise.RunWise := h
      unfold eval
      rw [Inputs.get?_member]
      cases hget : inputs.get? name with
      | some value => exact .ok (hin.get? hget)
      | none => exact eval_member hin hx hotherwise
  | .constant value, h => givesMember_of_runs_le fun t ht => by
      obtain rfl := Except.ok.inj ht
      exact h
  | .filled s c, h => givesMember_of_runs_le fun t ht => by
      rw [Tensor.shape_of_allocateFilled ht]
      exact h
  | .unary op a, h => by
      have ha : a.RunWise := h
      exact (eval_member hin hx ha).map op.apply hx
  | .powInt a m, h => by
      have ha : a.RunWise := h
      exact (eval_member hin hx ha).map (fun c => Scalar.powInt c m) hx
  | .pow a c, h => by
      have ha : a.RunWise := h
      exact (eval_member hin hx ha).map (fun b => Scalar.pow b c) hx
  | .region a r, h => by
      have ha : a.RunWise := h
      exact (eval_member hin hx ha).bind fun t ht => Tensor.region_member ht hx
  | .sector op a, h => by
      have ha : a.RunWise := h
      exact (eval_member hin hx ha).bind fun t ht => op.apply_member ht hx
  | .binary op a b, h => by
      have ⟨ha, hb⟩ : a.RunWise ∧ b.RunWise := h
      refine (eval_member hin hx ha).bind fun t ht => ?_
      exact (eval_member hin hx hb).bind fun u hu => Tensor.zipWith_member op.apply ht hu hx
  | .product op a b, h => by
      have ⟨ha, hb⟩ : a.RunWise ∧ b.RunWise := h
      refine (eval_member hin hx ha).bind fun t ht => ?_
      exact (eval_member hin hx hb).bind fun u hu => op.apply_member ht hu hx

/-! ## Functions -/

/-- **A function that treats every run alike**: for members it gives the member. -/
def Function.RunWise (g : Function α) : Prop :=
  ∀ {n x : Nat} {values : List (Tensor α)}, x < n → (∀ t ∈ values, Spans t.shape.runs n) →
    Tensor.GivesMember n x (g.apply values) (g.apply (values.map (·.member x)))

theorem runWise_toFunction {body : Expression α} (h : body.RunWise) (inputs : List String) :
    (body.toFunction inputs).RunWise := by
  intro n x values hx hvalues
  have hin : Inputs.Spans ⟨inputs.zip values⟩ n := fun binding hbinding =>
    hvalues binding.2 (List.of_mem_zip hbinding).2
  have hmember : (Inputs.member ⟨inputs.zip values⟩ x) = ⟨inputs.zip (values.map (·.member x))⟩ := by
    rw [Inputs.member, List.zip_map_right]
    rfl
  have heval := Expression.eval_member hin hx h
  rwa [hmember] at heval

/-! ## Given values -/

/-- **The member of a value** — of one number for each run the number of that run, and the only one
where there is only one. -/
def Value.member (v : Value α) (x : Nat) : Value α :=
  match v with
  | .runs values => .runs [values.getD (axisIndex values.length x) default]
  | .array t => .array (t.member x)
  | .scalar c => .scalar c
  | .sectors values => .sectors values
  | .matrix rows => .matrix rows

theorem Value.runCount_member {v : Value α} (h : 0 < v.runCount) (x : Nat) :
    (v.member x).runCount = 1 := by
  cases v with
  | array t => exact Nat.min_eq_right h
  | scalar c | runs values | sectors values | matrix rows => rfl

theorem Value.toTensor_member_runs {values : List α} {name : String} {t : Tensor α}
    (h : (Value.runs values).toTensor name = .ok t) (ht : Spans t.shape.runs n) (hx : x < n) :
    ((Value.runs values).member x).toTensor name = .ok (t.member x) := by
  unfold toTensor at h
  dsimp only at h
  split at h
  · exact nomatch h
  rename_i hempty
  obtain rfl := Except.ok.inj h
  have hlength : min values.length 1 = 1 := by
    have : values ≠ [] := by simpa using hempty
    have := List.length_pos_iff.2 this
    omega
  have hshape : Shape.member ⟨values.length, 1, 1, 1⟩ = ⟨1, 1, 1, 1⟩ := by
    rw [Shape.member, hlength]
  have hmember := Tensor.member_ofFn (s := ⟨values.length, 1, 1, 1⟩)
    (f := fun y _ _ _ => Value.element values.toArray y)
    (g := fun y _ _ _ => Value.element #[values.getD (axisIndex values.length x) default] y) ht hx
    fun r i j _ => by simp [Value.element]
  rw [hshape] at hmember
  exact congrArg Except.ok hmember.symm

/-- The array of a member is the member of the array. -/
theorem Value.toTensor_member {v : Value α} {name : String} {t : Tensor α}
    (h : v.toTensor name = .ok t) (ht : Spans t.shape.runs n) (hx : x < n) :
    (v.member x).toTensor name = .ok (t.member x) := by
  have hruns := Value.runs_of_toTensor h
  cases v with
  | array values =>
    obtain rfl := Except.ok.inj h
    rfl
  | runs values => exact Value.toTensor_member_runs h ht hx
  | scalar c | sectors values | matrix rows =>
    rw [Tensor.member_of_runs_le (Nat.le_of_eq hruns)]
    exact h

end FieldFlow
