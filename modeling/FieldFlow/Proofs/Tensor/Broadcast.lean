import FieldFlow.Proofs.Outcome
import FieldFlow.Tensor.Broadcast

/-!
# Proofs/Tensor/Broadcast — when broadcasting succeeds, and what it gives

A new tensor is refused only for its shape, and a broadcast only where the axes do not line up. What
succeeds has the shape that was asked for.
-/

namespace FieldFlow

theorem axisExpands_iff {a c : Nat} : axisExpands a c = true ↔ a = c ∨ a = 1 := by
  simp [axisExpands]

theorem axisIndex_of_lt {n x : Nat} (hx : x < n) : axisIndex n x = x := by
  unfold axisIndex
  split
  · omega
  · rfl

theorem Shape.expandsTo_iff {s u : Shape} : s.expandsTo u = true ↔
    axisExpands s.runs u.runs = true ∧ axisExpands s.regions u.regions = true ∧
      axisExpands s.sectorA u.sectorA = true ∧ axisExpands s.sectorB u.sectorB = true := by
  simp only [expandsTo, Bool.and_eq_true, and_assoc]

theorem Shape.expandsTo_self (s : Shape) : s.expandsTo s = true := by
  simp [expandsTo_iff, axisExpands_iff]

namespace Tensor

variable {α : Type} {s : Shape} {f : Nat → Nat → Nat → Nat → α} {c : α} {fault : Fault}
  {name : String} {t v : Tensor α}

/-! ## New tensors -/

theorem allocate_eq_ok_iff : allocate s f = .ok v ↔ s.check = .ok () ∧ ofFn s f = v := by
  unfold allocate
  rw [bind_eq_ok_iff]
  exact ⟨fun ⟨_, hcheck, h⟩ => ⟨hcheck, pure_eq_ok_iff.1 h⟩,
    fun ⟨hcheck, h⟩ => ⟨_, hcheck, pure_eq_ok_iff.2 h⟩⟩

theorem allocateFilled_eq_ok_iff :
    allocateFilled s c = .ok v ↔ s.check = .ok () ∧ fill s c = v := by
  unfold allocateFilled
  rw [bind_eq_ok_iff]
  exact ⟨fun ⟨_, hcheck, h⟩ => ⟨hcheck, pure_eq_ok_iff.1 h⟩,
    fun ⟨hcheck, h⟩ => ⟨_, hcheck, pure_eq_ok_iff.2 h⟩⟩

theorem check_of_allocate_error (h : allocate s f = .error fault) : s.check = .error fault := by
  rcases bind_eq_error_iff.1 h with hcheck | ⟨_, -, h⟩
  · exact hcheck
  · exact absurd h pure_ne_error

theorem check_of_allocateFilled_error (h : allocateFilled s c = .error fault) :
    s.check = .error fault := by
  rcases bind_eq_error_iff.1 h with hcheck | ⟨_, -, h⟩
  · exact hcheck
  · exact absurd h pure_ne_error

theorem shape_of_allocate (h : allocate s f = .ok v) : v.shape = s := by
  obtain ⟨-, rfl⟩ := allocate_eq_ok_iff.1 h
  rfl

theorem shape_of_allocateFilled (h : allocateFilled s c = .ok v) : v.shape = s := by
  obtain ⟨-, rfl⟩ := allocateFilled_eq_ok_iff.1 h
  rfl

/-! ## Broadcasting -/

theorem expandsTo_of_fits (h : t.fits s = true) : t.shape.expandsTo s = true := by
  rw [fits, Bool.and_eq_true] at h
  exact h.1

variable [Inhabited α]

theorem assignTo_eq_ok_iff : t.assignTo name s = .ok v ↔ t.fits s = true ∧ t.expand s = v := by
  unfold assignTo
  split
  · rename_i h
    simp [h]
  · rename_i h
    simp [h]

theorem shape_of_assignTo (h : t.assignTo name s = .ok v) : v.shape = s := by
  obtain ⟨-, rfl⟩ := assignTo_eq_ok_iff.1 h
  rfl

theorem of_assignTo_error {e : Error α} (h : t.assignTo name s = .error e) :
    e = .shapeMismatch name s.toList t.shape.toList := by
  unfold assignTo at h
  split at h
  · exact nomatch h
  · exact (Except.error.inj h).symm

theorem broadcastTo_eq_ok_iff : t.broadcastTo name s = .ok v ↔
    t.fits s = true ∧ allocate s t.getExpanded = .ok v := by
  unfold broadcastTo
  split
  · rename_i h
    simp [h]
  · rename_i h
    simp [h]

theorem flatTo_eq_ok_iff {elements : Vector α s.size} : t.flatTo name s = .ok elements ↔
    t.shape.expandsTo s = true ∧ (t.expand s).data = elements.toArray := by
  unfold flatTo
  split
  · rename_i h
    rw [Except.ok.injEq, ← Vector.toArray_inj]
    exact ⟨fun heq => ⟨h, heq⟩, fun heq => heq.2⟩
  · rename_i h
    simp [h]

theorem of_flatTo_error {e : Error α} (h : t.flatTo name s = .error e) :
    e = .shapeMismatch name s.toList t.shape.toList := by
  unfold flatTo at h
  split at h
  · exact nomatch h
  · exact (Except.error.inj h).symm

/-- One number repeated is that number everywhere. -/
theorem get_expand_scalar {x r i j : Nat} (hin : s.Contains x r i j) :
    ((scalar c).expand s).get x r i j = c := by
  rw [expand, get_ofFn _ _ hin]
  rfl

/-! ## A value in its own shape -/

theorem expand_self (t : Tensor α) : t.expand t.shape = t := by
  refine ext_get rfl fun x r i j hin => ?_
  have hin : t.shape.Contains x r i j := hin
  rw [expand, get_ofFn _ _ hin, getExpanded, axisIndex_of_lt hin.1, axisIndex_of_lt hin.2.1,
    axisIndex_of_lt hin.2.2.1, axisIndex_of_lt hin.2.2.2]

/-- A value that already has the shape is listed as it stands. -/
theorem flatTo_of_data {elements : Vector α t.shape.size} (h : t.data = elements.toArray) :
    t.flatTo name t.shape = .ok elements := by
  refine flatTo_eq_ok_iff.2 ⟨?_, (congrArg data t.expand_self).trans h⟩
  simp [Shape.expandsTo_iff, axisExpands_iff]

end Tensor

end FieldFlow
