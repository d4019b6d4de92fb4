import FieldFlow.Model.Dependency
import FieldFlow.Proofs.OrderedMap
import FieldFlow.Proofs.Outcome

/-!
# Proofs/Model/Reads — what a filed input says about the field that reads it

`partitionInputs` succeeds only when every input is one that the field may read (`MayRead`), and
then files under each kind exactly the inputs that name a field of that kind, in the order of their
declaration (`ofKind_of_partitionInputs`).
-/

namespace FieldFlow

variable {α : Type}

/-- Only a computed field has inputs. -/
theorem Field.isComputed_of_mem_inputs {f : Field α} {input : String} (h : input ∈ f.inputs) :
    f.isComputed = true := by
  cases hf : f.function with
  | none => simp [Field.inputs, hf] at h
  | some g => simp [Field.isComputed, hf]

/-- **The inputs that a field may declare** — itself for a dynamic field, and under another name any
field of the model; a parameter may not read what varies in time. -/
def MayRead (fields : FieldMap α) (field : Field α) (input : String) : Prop :=
  if input = itself then field.kind = .dynamic
  else ¬(input = field.name ∧ field.kind = .dynamic) ∧
    ∃ read, fields.get? input = some read ∧
      (field.kind = .parameter → read.kind.isTimeVarying = false)

/-- Whether an input names a field of a kind; the reserved name names none. -/
def namesKind (fields : FieldMap α) (kind : FieldKind) (input : String) : Bool :=
  input ≠ itself && (fields.get? input).any fun read => read.kind = kind

theorem namesKind_iff {fields : FieldMap α} {kind : FieldKind} {input : String} :
    namesKind fields kind input = true ↔
      input ≠ itself ∧ ∃ read, fields.get? input = some read ∧ read.kind = kind := by
  simp [namesKind, Option.any_eq_true]

theorem InputPartition.ofKind_add (p : InputPartition) (input : String) (found kind : FieldKind) :
    (p.add input found).ofKind kind =
      p.ofKind kind ++ if found = kind then [input] else [] := by
  cases found <;> cases kind <;> simp [InputPartition.add, InputPartition.ofKind]

/-! ## One input -/

/-- An input is filed as the field's own value, or under the kind of the field it names. -/
theorem of_fileInput {fields : FieldMap α} {field : Field α} {p q : InputPartition}
    {input : String} (h : fileInput fields field p input = .ok q) :
    (input = itself ∧ field.kind = .dynamic ∧ q = { p with readsItself := true }) ∨
      (input ≠ itself ∧ ¬(input = field.name ∧ field.kind = .dynamic) ∧
        ∃ read, fields.get? input = some read ∧ q = p.add input read.kind) := by
  unfold fileInput at h
  split at h
  · rename_i hitself
    split at h
    · rename_i hkind
      exact .inl ⟨hitself, hkind, (Except.ok.inj h).symm⟩
    · exact nomatch h
  · rename_i hitself
    split at h
    · exact nomatch h
    · rename_i hown
      split at h
      · exact nomatch h
      · rename_i read hread
        exact .inr ⟨hitself, by simpa using hown, read, hread, (Except.ok.inj h).symm⟩

theorem ofKind_of_fileInput {fields : FieldMap α} {field : Field α} {p q : InputPartition}
    {input : String} (h : fileInput fields field p input = .ok q) (kind : FieldKind) :
    q.ofKind kind = p.ofKind kind ++ [input].filter (namesKind fields kind) := by
  rcases of_fileInput h with ⟨hitself, -, rfl⟩ | ⟨hitself, -, read, hread, rfl⟩
  · cases kind <;> simp [namesKind, hitself, InputPartition.ofKind]
  · rw [InputPartition.ofKind_add]
    by_cases hkind : read.kind = kind
    · simp [namesKind, hitself, hread, hkind]
    · simp [namesKind, hitself, hread, hkind]

/-! ## All inputs -/

theorem ofKind_of_foldlM {fields : FieldMap α} {field : Field α} (kind : FieldKind) :
    ∀ {inputs : List String} {p q : InputPartition},
      inputs.foldlM (fileInput fields field) p = .ok q →
        q.ofKind kind = p.ofKind kind ++ inputs.filter (namesKind fields kind)
  | [], p, q, h => by
      rw [List.foldlM_nil, pure_eq_ok_iff] at h
      simp [h]
  | input :: rest, p, q, h => by
      rw [List.foldlM_cons, bind_eq_ok_iff] at h
      obtain ⟨next, hnext, hrest⟩ := h
      rw [ofKind_of_foldlM kind hrest, ofKind_of_fileInput hnext kind, List.append_assoc,
        ← List.filter_append, List.singleton_append]

/-- The two steps of a partition: every input is filed, and what varies in time is refused to a
parameter. -/
theorem partitionInputs_eq_ok_iff {fields : FieldMap α} {field : Field α} {p : InputPartition} :
    partitionInputs fields field = .ok p ↔
      field.inputs.foldlM (fileInput fields field) {} = .ok p ∧
        ¬(field.kind = .parameter ∧ p.timeVarying ≠ []) := by
  unfold partitionInputs
  rw [bind_eq_ok_iff]
  constructor
  · rintro ⟨q, hq, h⟩
    split at h
    · simp [bind, Except.bind, throw, throwThe, MonadExceptOf.throw] at h
    · rename_i hkind
      obtain rfl : q = p := by simpa using h
      exact ⟨hq, by simpa using hkind⟩
  · rintro ⟨hp, hkind⟩
    refine ⟨p, hp, ?_⟩
    rw [if_neg (by simpa using hkind)]
    rfl

/-- **A partition files each input under the kind of the field it names.** -/
theorem ofKind_of_partitionInputs {fields : FieldMap α} {field : Field α} {p : InputPartition}
    (h : partitionInputs fields field = .ok p) (kind : FieldKind) :
    p.ofKind kind = field.inputs.filter (namesKind fields kind) := by
  rw [ofKind_of_foldlM kind (partitionInputs_eq_ok_iff.1 h).1]
  cases kind <;> rfl

theorem mem_timeVarying_iff {p : InputPartition} {input : String} :
    input ∈ p.timeVarying ↔ input ∈ p.ofKind .dynamic ∨ input ∈ p.ofKind .algebraic :=
  List.mem_append

/-- **A field whose inputs can be filed reads only what it may.** -/
theorem mayRead_of_partitionInputs {fields : FieldMap α} {field : Field α} {p : InputPartition}
    (h : partitionInputs fields field = .ok p) :
    ∀ input ∈ field.inputs, MayRead fields field input := by
  intro input hmem
  have hstep := partitionInputs_eq_ok_iff.1 h
  obtain ⟨p', q', hfile⟩ := exists_ok_of_foldlM_eq_ok hstep.1 input hmem
  unfold MayRead
  rcases of_fileInput hfile with ⟨hitself, hkind, -⟩ | ⟨hitself, hown, read, hread, -⟩
  · rw [if_pos hitself]
    exact hkind
  · rw [if_neg hitself]
    refine ⟨hown, read, hread, fun hparam => ?_⟩
    have hnone : p.timeVarying = [] := by
      by_contra hne
      exact hstep.2 ⟨hparam, hne⟩
    have hfiled : input ∈ p.ofKind read.kind := by
      rw [ofKind_of_partitionInputs h, List.mem_filter, namesKind_iff]
      exact ⟨hmem, hitself, read, hread, rfl⟩
    cases hkind : read.kind with
    | parameter | size => rfl
    | dynamic => exact absurd (mem_timeVarying_iff.2 (.inl (hkind ▸ hfiled))) (by simp [hnone])
    | algebraic => exact absurd (mem_timeVarying_iff.2 (.inr (hkind ▸ hfiled))) (by simp [hnone])

/-- An input that a field may read can be filed. -/
theorem exists_fileInput {fields : FieldMap α} {field : Field α} {input : String}
    (h : MayRead fields field input) (p : InputPartition) :
    ∃ q, fileInput fields field p input = .ok q := by
  unfold MayRead at h
  unfold fileInput
  by_cases hitself : input = itself
  · rw [if_pos hitself] at h
    rw [if_pos hitself, if_pos h]
    exact ⟨_, rfl⟩
  · rw [if_neg hitself] at h
    obtain ⟨hown, read, hread, -⟩ := h
    rw [if_neg hitself, if_neg (by simpa using hown), hread]
    exact ⟨_, rfl⟩

/-- **The inputs of a field can be filed** exactly if it may read each of them — what is filed as
varying in time names a field that does, and a parameter may read no such. -/
theorem exists_partitionInputs_iff {fields : FieldMap α} {field : Field α} :
    (∃ p, partitionInputs fields field = .ok p) ↔
      ∀ input ∈ field.inputs, MayRead fields field input := by
  refine ⟨fun ⟨p, hp⟩ => mayRead_of_partitionInputs hp, fun h => ?_⟩
  obtain ⟨p, hp⟩ := exists_foldlM_eq_ok (fun input hinput => exists_fileInput (h input hinput)) {}
  refine ⟨p, partitionInputs_eq_ok_iff.2 ⟨hp, fun ⟨hparameter, hvaries⟩ => ?_⟩⟩
  obtain ⟨input, hinput⟩ := List.exists_mem_of_ne_nil _ hvaries
  have hnames : ∀ kind, input ∈ p.ofKind kind → kind.isTimeVarying = false := fun kind hfiled => by
    have hnone : ({} : InputPartition).ofKind kind = [] := by cases kind <;> rfl
    rw [ofKind_of_foldlM kind hp, hnone, List.nil_append, List.mem_filter, namesKind_iff] at hfiled
    obtain ⟨hlisted, hitself, read, hread, rfl⟩ := hfiled
    have hmay := h input hlisted
    rw [MayRead, if_neg hitself] at hmay
    obtain ⟨-, read', hread', hsettled⟩ := hmay
    obtain rfl := Option.some.inj (hread.symm.trans hread')
    exact hsettled hparameter
  rcases mem_timeVarying_iff.1 hinput with hdynamic | halgebraic
  · exact Bool.noConfusion (hnames .dynamic hdynamic)
  · exact Bool.noConfusion (hnames .algebraic halgebraic)

end FieldFlow
