import FieldFlow.Tensor.History

/-!
# Proofs/Tensor/History — what a history of frames holds

A history built from frames holds at each time point the frame recorded there, and no number where
none was recorded (`get_ofFrames`), so the frames can be read back (`frame_ofFrames`).
-/

namespace FieldFlow.History

variable {α : Type} {steps t : Nat} {s : Shape}

theorem ofFn_congr {f g : Nat → Nat → Nat → Nat → Nat → α}
    (h : ∀ t < steps, ∀ x r i j, s.Contains x r i j → f t x r i j = g t x r i j) :
    ofFn steps s f = ofFn steps s g := by
  unfold ofFn
  congr 1
  refine Array.ext (by rw [Array.size_ofFn, Array.size_ofFn]) fun k hk _ => ?_
  have hk : k < steps * s.size := by simpa using hk
  have hsize : 0 < s.size := Nat.pos_of_ne_zero fun hzero => by simp [hzero] at hk
  have ht : k / s.size < steps := (Nat.div_lt_iff_lt_mul hsize).2 hk
  simp only [Array.getElem_ofFn]
  exact h _ ht _ _ _ _ (s.contains_at (Nat.mod_lt k hsize))

variable [Scalar α] {frames : Array (Tensor α)}

theorem get_ofFrames {x r i j : Nat} (ht : t < steps) (hin : s.Contains x r i j) :
    (ofFrames steps s frames).get t x r i j =
      (frames[t]?.map fun frame => frame.get x r i j).getD Scalar.nan := by
  rw [ofFrames, get_ofFn _ _ _ ht hin]
  cases frames[t]? <;> rfl

/-- Only frames of its own time points count in a history. -/
theorem ofFrames_congr {frames' : Array (Tensor α)}
    (h : ∀ t < steps, frames[t]? = frames'[t]?) :
    ofFrames steps s frames = ofFrames steps s frames' :=
  ofFn_congr fun t ht x r i j _ => by rw [h t ht]

theorem get_frame {h : History α} {x r i j : Nat} (hin : h.shape.Contains x r i j) :
    (h.frame t).get x r i j = h.get t x r i j := Tensor.get_ofFn _ _ hin

/-- **A recorded frame is read back.** -/
theorem frame_ofFrames {frame : Tensor α} (ht : t < steps) (hframe : frames[t]? = some frame)
    (hshape : frame.shape = s) : (ofFrames steps s frames).frame t = frame := by
  refine Tensor.ext_get hshape.symm fun x r i j hin => ?_
  have hin : s.Contains x r i j := hin
  rw [get_frame hin, get_ofFrames ht hin, hframe]
  rfl

end FieldFlow.History
