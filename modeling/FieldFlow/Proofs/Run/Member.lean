import FieldFlow.Proofs.Run.Steps
import FieldFlow.Proofs.System.BindMember

/-!
# Proofs/Run/Member — a run of a member

A run of fixed steps moves the state of a member along with the state of the ensemble. So it records
for one run, from the values at that run, the member of what it records for the ensemble
(`integrate_member`).
-/

namespace FieldFlow

variable {α : Type} [Scalar α] {n x : Nat}

/-! ## Histories -/

namespace History

/-- The member of a history at a run. -/
def member (h : History α) (x : Nat) : History α :=
  ofFn h.steps h.shape.member fun t _ r i j => h.get t (axisIndex h.shape.runs x) r i j

theorem get_member {h : History α} (hruns : h.shape.runs = n) (hx : x < n) {t r i j : Nat}
    (ht : t < h.steps) (hin : h.shape.Contains x r i j) :
    (h.member x).get t 0 r i j = h.get t x r i j := by
  have hget : (h.member x).get t 0 r i j = h.get t (axisIndex h.shape.runs x) r i j :=
    get_ofFn _ _ _ ht hin.member
  rw [hget, hruns, axisIndex_of_lt hx]

/-- The history of members is the member of the history. -/
theorem ofFrames_member {steps : Nat} {s : Shape} {frames : Array (Tensor α)} (hs : s.runs = n)
    (hx : x < n) (hframes : ∀ frame ∈ frames, frame.shape = s) :
    ofFrames steps s.member (frames.map (·.member x)) = (ofFrames steps s frames).member x := by
  refine ofFn_congr fun t ht y r i j hc => ?_
  obtain ⟨rfl, hin⟩ := Shape.Contains.of_member (.inr hs) hx hc
  change _ = (ofFrames steps s frames).get t (axisIndex s.runs x) r i j
  rw [get_ofFrames ht hin, Array.getElem?_map]
  cases hframe : frames[t]? with
  | none => rfl
  | some frame =>
    obtain rfl := hframes frame (Array.mem_of_getElem? hframe)
    exact Tensor.get_member hin

end History

theorem historyOf_member {steps i : Nat} {sys : System α} {slot : Slot α}
    {rows : Array (Buffers α)} (hs : sys.RunWise n) (hx : x < n)
    (hrows : ∀ row ∈ rows, System.Fits sys.slots row) (hslot : sys.slots[i]? = some slot) :
    historyOf steps (rows.map (·.member x)) slot.member i =
      (historyOf steps rows slot i).member x := by
  have hruns := hs.runs hslot
  have hframe : ∀ row ∈ rows, ∃ b, row[i]? = some b ∧ b.value.shape = slot.shape := by
    intro row hrow
    obtain ⟨b, hb⟩ := (hrows row hrow).exists_buffer hslot
    exact ⟨b, hb, (hrows row hrow).shape hslot hb⟩
  unfold historyOf
  rw [Array.map_map]
  refine Eq.trans ?_ (History.ofFrames_member hruns hx ?_)
  · rw [Array.map_map]
    refine congrArg (History.ofFrames _ _) (Array.map_congr_left fun row hrow => ?_)
    obtain ⟨b, hb, -⟩ := hframe row hrow
    simp only [Function.comp_apply, Buffers.getElem?_member, hb, Option.map_some, Option.getD_some]
    rfl
  · intro frame hmem
    obtain ⟨row, hrow, rfl⟩ := Array.mem_map.1 hmem
    obtain ⟨b, hb, hshape⟩ := hframe row hrow
    rw [hb]
    exact hshape

theorem check_history_member {steps : Nat} {s : Shape} (h : History.check steps s = .ok ()) :
    History.check steps s.member = .ok () :=
  checkExtent_of_shrinks (.cons (.refl steps) s.shrinks_member) h

/-! ## Runs -/

theorem sectorLabels_member (m : Model α) (x : Nat) : sectorLabels (m.member x) = sectorLabels m := by
  unfold sectorLabels
  rw [Model.values_member, List.filterMap_map]
  rfl

theorem historiesOf_member {sys : System α} {steps : Nat} {rows : Array (Buffers α)}
    (hs : sys.RunWise n) (hx : x < n) (hrows : ∀ row ∈ rows, System.Fits sys.slots row) :
    historiesOf (sys.member x) steps (rows.map (·.member x)) =
      (historiesOf sys steps rows).map (·.member x) := by
  unfold historiesOf System.member
  rw [OrderedMap.map_ofList, Array.toList_map, List.zipIdx_map, List.map_map, List.map_map]
  refine congrArg OrderedMap.ofList (List.map_congr_left fun (slot, i) hentry => ?_)
  have hslot := getElem?_of_mem_zipIdx hentry
  exact congrArg (slot.name, ·) (historyOf_member hs hx hrows hslot)

/-- **The member of a recording** at a run: it is of one run, and has the members of all
histories. -/
def Recording.member (rec : Recording α) (x : Nat) : Recording α :=
  { rec with axes := { rec.axes with runs := 1 }, fields := rec.fields.map (·.member x) }

/-- **A run of a member** leaves the member of the recording. -/
theorem integrate_member {m : Model α} (hm : m.RunWise) {axes : RunAxes} {timeStep : α}
    {control : StepControl α} {outcome : Outcome α} (hx : x < axes.runs)
    (h : integrate m axes .rk4 timeStep control = .ok outcome) :
    integrate (m.member x) { axes with runs := 1 } .rk4 timeStep control =
      .ok ⟨outcome.recording.member x, outcome.divergence⟩ := by
  obtain ⟨sys, initial, labels, rows, hsetup, hrows, hreached, rfl⟩ := integrate_rk4_eq_ok_iff.1 h
  have hbound := boundFrom_of_bind hsetup.bound
  have hs := hbound.runWise hm
  have hfits := hbound.shaped.toFits
  have hstart : (startOf (m.member x) (pick (System.places hs hx) initial)).state =
      pick (System.places hs hx) (startOf m initial).state := rfl
  obtain ⟨rows', hrows', hsize, hmember⟩ := hrows.exists_pick
    (R := fun row row' => row' = row.member x) (System.rate_member hs hfits hx)
    (fun _ _ hrow => ⟨_, System.snapshot_member hs hfits hx hrow, rfl⟩) hstart
  obtain rfl : rows' = rows.map (·.member x) := by
    refine Array.ext (by rw [hsize, Array.size_map]) fun t ht ht' => ?_
    rw [Array.getElem_map]
    exact hmember t _ _ (Array.getElem?_eq_getElem (hsize ▸ ht)) (Array.getElem?_eq_getElem ht)
  have hsetup' : RunSetup (m.member x) { axes with runs := 1 } .rk4 control (sys.member x)
      (pick (System.places hs hx) initial) labels := {
    settings := hsetup.settings
    steps := hsetup.steps
    bound := bind_member hm hsetup.bound hx
    initial := initialState_member hs hx hsetup.initial
    room := fun slot hslot => by
      obtain ⟨slot, hmem, rfl⟩ := Array.mem_map.1 hslot
      exact check_history_member (hsetup.room slot hmem)
    labels := (sectorLabels_member m x).trans hsetup.labels }
  have hfit : ∀ row ∈ rows, System.Fits sys.slots row := fun row hrow => by
    obtain ⟨t, ht⟩ := Array.mem_iff_getElem?.1 hrow
    obtain ⟨c, -, hsnapshot⟩ := hrows.row ht
    exact hfits.snapshot hsnapshot
  refine integrate_rk4_eq_ok_iff.2 ⟨_, _, labels, _, hsetup', hrows', hsize.trans hreached, ?_⟩
  unfold outcomeOf
  rw [historiesOf_member hs hx hfit, Array.size_map]
  rfl

end FieldFlow
