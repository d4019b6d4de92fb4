import FieldFlow.Field.Value

/-!
# Proofs/Field/Value — which values can be laid out

Whether a value has an array depends on the value alone (`exists_toTensor_iff`): not on the field it
is meant for, and not on its numbers. The array has the runs of the value (`runs_of_toTensor`).
-/

namespace FieldFlow.Value

variable {α : Type}

/-- **Values that can be laid out**: lists and matrices that are not empty, with rows of one
length. -/
def Regular : Value α → Prop
  | .scalar _ | .array _ => True
  | .runs values | .sectors values => values ≠ []
  | .matrix rows => 0 < (rows.headD []).length ∧ ∀ row ∈ rows, row.length = (rows.headD []).length

instance : DecidablePred (Regular (α := α))
  | .scalar _ | .array _ => .isTrue trivial
  | .runs values | .sectors values =>
    match values with
    | [] => .isFalse fun h => h rfl
    | _ :: _ => .isTrue (List.cons_ne_nil _ _)
  | .matrix _ => inferInstanceAs (Decidable (_ ∧ _))

theorem exists_toTensor_iff [Inhabited α] {name : String} {v : Value α} :
    (∃ t, v.toTensor name = .ok t) ↔ v.Regular := by
  cases v with
  | scalar | array => simp [toTensor, Regular]
  | runs values | sectors values =>
    by_cases h : values = [] <;> simp [toTensor, Regular, h]
  | matrix rows =>
    unfold toTensor Regular
    dsimp only
    split
    · rename_i hempty
      simp only [Bool.or_eq_true, List.isEmpty_iff, decide_eq_true_eq] at hempty
      have hzero : (rows.headD []).length = 0 := hempty.elim (fun h => by simp [h]) id
      rw [hzero]
      exact iff_of_false (fun ⟨_, h⟩ => nomatch h) fun h => Nat.lt_irrefl 0 h.1
    rename_i hfull
    simp only [Bool.or_eq_true, decide_eq_true_eq, not_or] at hfull
    split
    · rename_i hragged
      obtain ⟨row, hrow, hne⟩ := List.any_eq_true.1 hragged
      simp only [reduceCtorEq, exists_false, false_iff, not_and]
      exact fun _ hsame => absurd (hsame row hrow) (by simpa using hne)
    · rename_i heven
      refine iff_of_true ⟨_, rfl⟩ ⟨Nat.pos_of_ne_zero hfull.2, fun row hrow => ?_⟩
      exact Decidable.not_not.1 fun hne =>
        heven (List.any_eq_true.2 ⟨row, hrow, decide_eq_true hne⟩)

/-- The array of a value has as many runs as the value. -/
theorem runs_of_toTensor [Inhabited α] {v : Value α} {name : String} {t : Tensor α}
    (h : v.toTensor name = .ok t) : t.shape.runs = v.runCount := by
  unfold toTensor at h
  split at h
  · obtain rfl := Except.ok.inj h
    rfl
  · split at h
    · exact nomatch h
    · obtain rfl := Except.ok.inj h
      rfl
  · split at h
    · exact nomatch h
    · obtain rfl := Except.ok.inj h
      rfl
  · dsimp only at h
    split at h
    · exact nomatch h
    · split at h
      · exact nomatch h
      · obtain rfl := Except.ok.inj h
        rfl
  · obtain rfl := Except.ok.inj h
    rfl

end FieldFlow.Value
