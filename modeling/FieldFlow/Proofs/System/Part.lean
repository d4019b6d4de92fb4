import FieldFlow.Proofs.System.Consistency

/-!
# Proofs/System/Part — computing some of the slots of a system

A part of a system has some of its slots, under the same names and with the same functions, laid out
and ordered in its own way (`PartOf`). Whatever a slot of the part reads is in the part, so a call
has there the inputs that it has in the whole. Where the equations of the whole are solved, the part
comes to the same solution in its own order (`PartOf.exists_computeAll`).
-/

namespace FieldFlow

variable {α : Type}

/-- **The same slot** of two systems: all but where its inputs stand. -/
structure Slot.Same (slot slot' : Slot α) : Prop where
  name : slot.name = slot'.name
  kind : slot.kind = slot'.kind
  shape : slot.shape = slot'.shape
  function : slot.function = slot'.function

theorem Slot.Same.inputNames {slot slot' : Slot α} (h : slot.Same slot') :
    slot.inputNames = slot'.inputNames := by
  unfold Slot.inputNames
  rw [h.function]

namespace System

/-- A name belongs to one slot. -/
theorem Wired.eq_of_name_eq {sys : System α} (hw : sys.Wired) {i k : Nat} {slot slot' : Slot α}
    (hi : sys.slots[i]? = some slot) (hk : sys.slots[k]? = some slot')
    (hname : slot.name = slot'.name) : i = k := by
  have hplace : ∀ {j : Nat} {s : Slot α}, sys.slots[j]? = some s →
      (sys.slots.toList.map Slot.name)[j]? = some s.name := fun hs => by
    rw [List.getElem?_map, Array.getElem?_toList, hs, Option.map_some]
  have hlt := (List.getElem?_eq_some_iff.1 (hplace hi)).1
  exact (List.getElem?_inj hlt hw.names).1 ((hplace hi).trans (hname ▸ (hplace hk).symm))

/-- Slot `i` of a part is slot `k` of the whole. -/
def Twin (part whole : System α) (i k : Nat) : Prop :=
  ∃ slot slot', part.slots[i]? = some slot ∧ whole.slots[k]? = some slot' ∧ slot.Same slot'

/-- **A part of a system**: every slot of it is a slot of the whole. -/
structure PartOf (part whole : System α) : Prop where
  wired : part.Wired
  wired_whole : whole.Wired
  twin : ∀ {i : Nat} {slot}, part.slots[i]? = some slot →
    ∃ (k : Nat) (slot' : Slot α), whole.slots[k]? = some slot' ∧ slot.Same slot'

/-- The buffers of a part hold what those of the whole hold. -/
def Agree (part whole : System α) (buffers buffers' : Buffers α) : Prop :=
  ∀ {i k : Nat}, Twin part whole i k → buffers[i]? = buffers'[k]?

namespace PartOf

variable {part whole : System α} {i j k l : Nat}

theorem twin_left (h : PartOf part whole) (hi : Twin part whole i k) (hj : Twin part whole j k) :
    i = j := by
  obtain ⟨s, s', hs, hs', hsame⟩ := hi
  obtain ⟨t, t', ht, ht', hsame'⟩ := hj
  obtain rfl := Option.some.inj (hs'.symm.trans ht')
  exact h.wired.eq_of_name_eq hs ht (hsame.name.trans hsame'.name.symm)

theorem twin_right (h : PartOf part whole) (hk : Twin part whole i k) (hl : Twin part whole i l) :
    k = l := by
  obtain ⟨s, s', hs, hs', hsame⟩ := hk
  obtain ⟨t, t', ht, ht', hsame'⟩ := hl
  obtain rfl := Option.some.inj (hs.symm.trans ht)
  exact h.wired_whole.eq_of_name_eq hs' ht' (hsame.name.symm.trans hsame'.name)

/-- **A slot of the part reads what it reads in the whole.** -/
theorem inputs (h : PartOf part whole) {slot slot' : Slot α} (hslot : part.slots[i]? = some slot)
    (hslot' : whole.slots[k]? = some slot') (hsame : slot.Same slot') :
    List.Forall₂ (Twin part whole) slot.inputs slot'.inputs := by
  have hread := (h.wired.inputs hslot).flip
  have hread' := h.wired_whole.inputs hslot'
  rw [← hsame.inputNames] at hread'
  refine forall₂_comp (fun j name l hj hl => ?_) hread hread'
  unfold Feeds at hj hl
  split at hl
  · rename_i hitself
    rw [if_pos hitself] at hj
    exact hj ▸ hl ▸ ⟨slot, slot', hslot, hslot', hsame⟩
  · rename_i hitself
    rw [if_neg hitself] at hj
    obtain ⟨read, hread, rfl⟩ := hj
    obtain ⟨read', hread', hname⟩ := hl
    obtain ⟨l', twin, htwin, hsame'⟩ := h.twin hread
    obtain rfl := h.wired_whole.eq_of_name_eq htwin hread' (hsame'.name.symm.trans hname.symm)
    exact ⟨read, twin, hread, htwin, hsame'⟩

/-- A call in the part gives what the same call gives in the whole. -/
theorem call [Scalar α] (h : PartOf part whole) {slot slot' : Slot α}
    (hslot : part.slots[i]? = some slot) (hslot' : whole.slots[k]? = some slot')
    (hsame : slot.Same slot') {buffers buffers' : Buffers α}
    (hread : ∀ j ∈ slot.inputs, ∀ l, Twin part whole j l → buffers[j]? = buffers'[l]?)
    {output : Tensor α} (hcall : whole.call buffers' k = .ok output) :
    part.call buffers i = .ok output := by
  obtain ⟨found, g, values, hfound, hg, hvalues, houtput⟩ := call_eq_ok_iff.1 hcall
  obtain rfl := Option.some.inj (hslot'.symm.trans hfound)
  refine call_eq_ok_iff.2 ⟨slot, g, values, hslot, hsame.function.trans hg, ?_, houtput⟩
  have htwin : Twin part whole i k := ⟨slot, slot', hslot, hslot', hsame⟩
  have hinputs := (List.forall₂_and_left _ _).2 ⟨hread, h.inputs hslot hslot' hsame⟩
  refine mapM_eq_ok_iff.2 (forall₂_comp (fun j l v hj hl => ?_) hinputs (mapM_eq_ok_iff.1 hvalues))
  obtain ⟨b, hb, hfresh, hv⟩ := read_eq_ok_iff.1 hl
  refine read_eq_ok_iff.2 ⟨b, (hj.1 l hj.2).trans hb, hfresh.imp_left fun heq => ?_, hv⟩
  exact h.twin_left (heq ▸ hj.2) htwin

/-- A slot of the part comes to the value that solves its equation in the whole. -/
theorem exists_compute [Scalar α] (h : PartOf part whole) {solution buffers : Buffers α}
    (hi : i < part.slots.size) (hsolved : ∀ k, Twin part whole i k → whole.Solved solution k)
    (hread : ∀ slot, part.slots[i]? = some slot → ∀ j ∈ slot.inputs, ∀ l, Twin part whole j l →
      buffers[j]? = solution[l]?) :
    ∃ b, part.compute buffers i = .ok (buffers.setIfInBounds i b) ∧
      ∀ k, Twin part whole i k → solution[k]? = some b := by
  have hslot := Array.getElem?_eq_getElem hi
  obtain ⟨k, slot', hslot', hsame⟩ := h.twin hslot
  have htwin : Twin part whole i k := ⟨_, slot', hslot, hslot', hsame⟩
  obtain ⟨found, output, v, hfound, hcall, hv, hbuffer⟩ := hsolved k htwin
  obtain rfl := Option.some.inj (hslot'.symm.trans hfound)
  have hcall' := h.call hslot hslot' hsame (hread _ hslot) hcall
  refine ⟨⟨v, true⟩, ?_, fun l hl => h.twin_right htwin hl ▸ hbuffer⟩
  exact compute_eq_ok_iff.2 ⟨output, _, v, hcall', hslot, hsame.name ▸ hsame.shape ▸ hv, rfl⟩

/-- **A part comes to the solution of the whole**, in whatever order it computes its slots — the
slot that is computed holds its value then, and no other slot is touched. -/
theorem exists_computeAll [Scalar α] (h : PartOf part whole) {solution : Buffers α} :
    ∀ {slots : List Nat} {buffers : Buffers α}, part.Ordered slots →
      buffers.size = part.slots.size → (∀ i ∈ slots, i < part.slots.size) →
        (∀ i ∈ slots, ∀ k, Twin part whole i k → whole.Solved solution k) →
          (∀ i ∉ slots, ∀ k, Twin part whole i k → buffers[i]? = solution[k]?) →
            ∃ after, part.computeAll slots buffers = (after, .ok ()) ∧
              Agree part whole after solution
  | [], buffers, _, _, _, _, hagree => ⟨buffers, rfl, fun htwin => hagree _ List.not_mem_nil _ htwin⟩
  | i :: rest, buffers, ⟨_, hread, hordered⟩, hsize, hin, hsolved, hagree => by
      rw [List.forall_mem_cons] at hin hsolved
      obtain ⟨b, hnext, hb⟩ := h.exists_compute hin.1 hsolved.1 fun slot hslot j hj =>
        hagree j (hread slot hslot j hj)
      have hagree' : ∀ j ∉ rest, ∀ l, Twin part whole j l →
          (buffers.setIfInBounds i b)[j]? = solution[l]? := by
        intro j hj l hjl
        by_cases heq : i = j
        · subst heq
          rw [Array.getElem?_setIfInBounds_self_of_lt (hsize ▸ hin.1), hb l hjl]
        · rw [Array.getElem?_setIfInBounds_ne heq]
          exact hagree j (fun hmem => hj ((List.mem_cons.1 hmem).resolve_left (Ne.symm heq))) l hjl
      obtain ⟨after, hafter, hsolution⟩ := h.exists_computeAll hordered
        ((Array.size_setIfInBounds).trans hsize) hin.2 hsolved.2 hagree'
      exact ⟨after, computeAll_cons_eq_ok_iff.2 ⟨_, hnext, hafter⟩, hsolution⟩

end PartOf

end System

end FieldFlow
