import FieldFlow.Proofs.Run.Initials
import FieldFlow.Proofs.Run.Start

/-!
# Proofs/Run/Recorder — a run recorded in place

A recorder holds one history for each field, with room for every time point, and writes one time
point of them at a time: of the dynamic fields their stretches of the state, then what an evaluation
at the state gives for the others. After every number of records its histories are those of the rows
recorded so far (`record_historiesOf`, `Records.exists_rows`), so that every state that was recorded
is read back at its time point (`Records.holds`), and a run leaves the histories of such a recorder
(`records_of_integrate`).
-/

namespace FieldFlow

variable {α : Type} [Scalar α]

/-! ## One time point of a history -/

namespace History

/-- The history with another value at one time point. -/
def setFrame (h : History α) (t : Nat) (v : Tensor α) : History α :=
  .ofFn h.steps h.shape fun t' x r i j => if t' = t then v.get x r i j else h.get t' x r i j

/-- A history of frames, with the next one written into it. -/
theorem setFrame_ofFrames {steps : Nat} {s : Shape} (frames : Array (Tensor α)) (v : Tensor α) :
    (ofFrames steps s frames).setFrame frames.size v = ofFrames steps s (frames.push v) := by
  refine ofFn_congr fun t (ht : t < steps) x r i j (hin : s.Contains x r i j) => ?_
  rw [get_ofFrames ht hin, Array.getElem?_push]
  by_cases hnext : t = frames.size
  · simp only [if_pos hnext]
  · simp only [if_neg hnext]
    cases frames[t]? <;> rfl

end History

/-- The next row of a history is written where it is recorded at all. -/
theorem historyOf_push {steps i : Nat} {slot : Slot α} {rows : Array (Buffers α)} {row : Buffers α}
    {b : Buffer α} (hb : row[i]? = some b) : historyOf steps (rows.push row) slot i =
      if rows.size < slot.recordedSteps steps then
        (historyOf steps rows slot i).setFrame rows.size b.value
      else historyOf steps rows slot i := by
  unfold historyOf
  dsimp only
  rw [Array.map_push, hb, Option.map_some, Option.getD_some]
  split
  · rw [← History.setFrame_ofFrames, Array.size_map]
  · rename_i hfull
    refine History.ofFrames_congr fun t ht => ?_
    rw [Array.getElem?_push, Array.size_map, if_neg (by omega)]

/-! ## One time point of every history -/

/-- Writes values at a time point of the histories of fields. -/
def writeFrames (t : Nat) :
    List (String × Tensor α) → OrderedMap (History α) → OrderedMap (History α)
  | [], histories => histories
  | (name, v) :: rest, histories => writeFrames t rest (histories.modify name (·.setFrame t v))

section Frames

variable {name : String} {t : Nat} {v : Tensor α}

@[simp] theorem keys_writeFrames : ∀ (entries : List (String × Tensor α))
    (histories : OrderedMap (History α)), (writeFrames t entries histories).keys = histories.keys
  | [], _ => rfl
  | (name, v) :: rest, histories => by
      rw [writeFrames, keys_writeFrames rest, OrderedMap.keys_modify]

theorem get?_writeFrames_of_notMem :
    ∀ {entries : List (String × Tensor α)} {histories : OrderedMap (History α)},
      name ∉ entries.map Prod.fst →
        (writeFrames t entries histories).get? name = histories.get? name
  | [], _, _ => rfl
  | (name', v') :: rest, histories, h => by
      rw [List.map_cons, List.mem_cons, not_or] at h
      rw [writeFrames, get?_writeFrames_of_notMem h.2, OrderedMap.get?_modify, if_neg h.1]

/-- **A value is written into the history of its field**, whatever is written into others. -/
theorem get?_writeFrames :
    ∀ {entries : List (String × Tensor α)} {histories : OrderedMap (History α)},
      (entries.map Prod.fst).Nodup → (name, v) ∈ entries →
        (writeFrames t entries histories).get? name = (histories.get? name).map (·.setFrame t v)
  | [], _, _, h => absurd h List.not_mem_nil
  | (name', v') :: rest, histories, hnodup, h => by
      rw [List.map_cons, List.nodup_cons] at hnodup
      rw [writeFrames]
      rcases List.mem_cons.1 h with heq | h
      · obtain ⟨rfl, rfl⟩ := Prod.mk.inj heq
        rw [get?_writeFrames_of_notMem hnodup.1, OrderedMap.get?_modify, if_pos rfl]
      · have hne : name ≠ name' := fun heq => hnodup.1 (List.mem_map.2 ⟨_, h, heq⟩)
        rw [get?_writeFrames hnodup.2 h, OrderedMap.get?_modify, if_neg hne]

end Frames

/-! ## One record -/

/-- Whether the value that an evaluation gives is recorded at a time point: a state is recorded as
it stands, and what never changes at the start only. -/
def FieldKind.isValueRecorded (t : Nat) : FieldKind → Bool
  | .dynamic => false
  | .algebraic => true
  | .parameter | .size => t = 0

namespace System

/-- The stretches of a state by field. -/
def stateFrames (sys : System α) (names : List String) (x : Array α) : List (String × Tensor α) :=
  names.filterMap fun name => do
    return (name, .ofSlice (← sys.shape? name) x (← sys.span? name).start)

/-- The values recorded beside the state. -/
def valueFrames (sys : System α) (t : Nat) (buffers : Buffers α) : List (String × Tensor α) :=
  ((sys.valuesIn buffers).filter fun e => e.1.kind.isValueRecorded t).map fun e => (e.1.name, e.2)

/-- **Records a state at a time point**: the dynamic fields, then what is evaluated at it. -/
def record (sys : System α) (dynamics : List String) (t : Nat) (x : Array α)
    (histories : OrderedMap (History α)) (buffers : Buffers α) :
    OrderedMap (History α) × Buffers α × Except (Failure α) Unit :=
  if x.size < sys.dimension then (histories, buffers, .error (.fault .outOfRange))
  else
    let written := writeFrames t (sys.stateFrames dynamics x) histories
    match sys.evaluate x buffers with
    | (after, .ok ()) => (writeFrames t (sys.valueFrames t after) written, after, .ok ())
    | (after, .error e) => (written, after, .error e)

theorem record_eq_ok_iff {sys : System α} {dynamics : List String} {t : Nat} {x : Array α}
    {histories histories' : OrderedMap (History α)} {buffers after : Buffers α} :
    sys.record dynamics t x histories buffers = (histories', after, .ok ()) ↔
      sys.dimension ≤ x.size ∧ sys.evaluate x buffers = (after, .ok ()) ∧
        writeFrames t (sys.valueFrames t after)
          (writeFrames t (sys.stateFrames dynamics x) histories) = histories' := by
  unfold record
  split
  · rename_i hlt
    simp [Nat.not_le.2 hlt]
  · rename_i hle
    rw [and_iff_right (Nat.not_lt.1 hle)]
    rcases sys.evaluate x buffers with ⟨left, _ | ⟨⟩⟩
    · simp
    · simp only [Prod.mk.injEq, and_true]
      constructor
      · rintro ⟨hwritten, rfl⟩
        exact ⟨rfl, hwritten⟩
      · rintro ⟨rfl, hwritten⟩
        exact ⟨hwritten, rfl⟩

end System

section Record

variable {m : Model α} {runs regions : Nat} {sys : System α} {x : Array α}

/-- What is recorded of the state is the stretch of every dynamic slot. -/
theorem stateFrames_eq (hm : m.Evaluable) (hbound : BoundFrom m runs regions sys) :
    sys.stateFrames (m.namesOf .dynamic) x = sys.dynamics.map fun e =>
      (e.2.name, .ofSlice e.2.shape x (sys.start e.2.name)) := by
  have hw := hbound.wired hm
  rw [System.stateFrames, ← hbound.map_name_dynamics, List.filterMap_map, ← List.filterMap_eq_map]
  refine List.filterMap_congr fun ⟨i, slot⟩ hdynamic => ?_
  obtain ⟨span, hspan⟩ := System.exists_span hdynamic
  have hshape := System.shape?_eq_some hw (System.mem_dynamics_iff.1 hdynamic).1
  simp [hshape, System.span?_eq_some hw hspan, System.start_eq hw hspan]

/-- The state is recorded under the names of the dynamic slots… -/
theorem mem_stateFrames_iff (hm : m.Evaluable) (hbound : BoundFrom m runs regions sys) {i : Nat}
    {slot : Slot α} (hslot : sys.slots[i]? = some slot) :
    slot.name ∈ (sys.stateFrames (m.namesOf .dynamic) x).map Prod.fst ↔ slot.kind = .dynamic := by
  rw [stateFrames_eq hm hbound, List.map_map, List.mem_map]
  constructor
  · rintro ⟨⟨k, other⟩, hother, hname⟩
    obtain ⟨hother, hkind⟩ := System.mem_dynamics_iff.1 hother
    obtain rfl := (hbound.wired hm).eq_of_name_eq hother hslot hname
    obtain rfl := Option.some.inj (hother.symm.trans hslot)
    exact hkind
  · exact fun hkind => ⟨(i, slot), System.mem_dynamics_iff.2 ⟨hslot, hkind⟩, rfl⟩

omit [Scalar α] in
/-- …and values under the names of the others. -/
theorem mem_valueFrames_iff (hw : sys.Wired) {t i : Nat} {row : Buffers α} {slot : Slot α}
    {b : Buffer α} (hslot : sys.slots[i]? = some slot) (hb : row[i]? = some b) :
    slot.name ∈ (sys.valueFrames t row).map Prod.fst ↔ slot.kind.isValueRecorded t = true := by
  rw [System.valueFrames, List.map_map, List.mem_map]
  constructor
  · rintro ⟨⟨other, v⟩, hother, hname⟩
    obtain ⟨hother, hkind⟩ := List.mem_filter.1 hother
    obtain ⟨k, hk⟩ := List.mem_iff_getElem?.1 (List.of_mem_zip hother).1
    rw [Array.getElem?_toList] at hk
    obtain rfl := hw.eq_of_name_eq hk hslot hname
    obtain rfl := Option.some.inj (hk.symm.trans hslot)
    exact hkind
  · exact fun hkind => ⟨_, List.mem_filter.2 ⟨System.mem_valuesIn hslot hb, hkind⟩, rfl⟩

theorem nodup_stateFrames (hm : m.Evaluable) (hbound : BoundFrom m runs regions sys) :
    ((sys.stateFrames (m.namesOf .dynamic) x).map Prod.fst).Nodup := by
  rw [stateFrames_eq hm hbound, List.map_map]
  exact hbound.map_name_dynamics ▸ Model.nodup_namesOf hm.named .dynamic

omit [Scalar α] in
theorem nodup_valueFrames (hw : sys.Wired) {t : Nat} {row : Buffers α}
    (hsize : row.size = sys.slots.size) : ((sys.valueFrames t row).map Prod.fst).Nodup := by
  have hnames : ((sys.valuesIn row).map fun e => e.1.name).Nodup :=
    System.map_name_valuesIn hsize ▸ hw.names
  rw [System.valueFrames, List.map_map]
  exact hnames.sublist (List.filter_sublist.map _)

/-- **A record writes every history once**, or leaves it: with what the evaluation left in the
buffer of the field. -/
theorem get?_recorded (hm : m.Evaluable) (hbound : BoundFrom m runs regions sys)
    {buffers row : Buffers α} (hb : sys.Scratch buffers) (hx : sys.dimension ≤ x.size)
    (hrow : sys.evaluate x buffers = (row, .ok ())) {t i : Nat} {slot : Slot α} {b : Buffer α}
    (hslot : sys.slots[i]? = some slot) (hbuffer : row[i]? = some b)
    (histories : OrderedMap (History α)) :
    (writeFrames t (sys.valueFrames t row)
      (writeFrames t (sys.stateFrames (m.namesOf .dynamic) x) histories)).get? slot.name =
      (histories.get? slot.name).map fun h =>
        if slot.kind = .dynamic ∨ slot.kind.isValueRecorded t then h.setFrame t b.value else h := by
  have hw := hbound.wired hm
  have hsize : row.size = sys.slots.size := (hb.of_evaluate hw hrow).size
  by_cases hrecorded : slot.kind.isValueRecorded t = true
  · have hkind : slot.kind ≠ .dynamic := fun heq => by
      rw [heq] at hrecorded
      exact nomatch hrecorded
    simp only [hrecorded, or_true, if_true]
    have hmem : (slot.name, b.value) ∈ sys.valueFrames t row := List.mem_map.2
      ⟨_, List.mem_filter.2 ⟨System.mem_valuesIn hslot hbuffer, hrecorded⟩, rfl⟩
    rw [get?_writeFrames (nodup_valueFrames hw hsize) hmem,
      get?_writeFrames_of_notMem (mt (mem_stateFrames_iff hm hbound hslot).1 hkind)]
  · rw [get?_writeFrames_of_notMem (mt (mem_valueFrames_iff hw hslot hbuffer).1 hrecorded)]
    by_cases hkind : slot.kind = .dynamic
    · have hstretch := getElem?_evaluate_dynamic hw hb hx hslot hkind
      rw [hrow, hbuffer] at hstretch
      obtain rfl := Option.some.inj hstretch
      simp only [hkind, true_or, if_true]
      refine get?_writeFrames (nodup_stateFrames hm hbound) ?_
      rw [stateFrames_eq hm hbound]
      exact List.mem_map.2 ⟨(i, slot), System.mem_dynamics_iff.2 ⟨hslot, hkind⟩, rfl⟩
    · rw [get?_writeFrames_of_notMem (mt (mem_stateFrames_iff hm hbound hslot).1 hkind)]
      simp [hkind, hrecorded]

/-- **A record adds a row** to the histories of the rows recorded so far — it writes to a history
exactly where that has a place for the row. -/
theorem record_historiesOf (hm : m.Evaluable) (hbound : BoundFrom m runs regions sys)
    {buffers row : Buffers α} (hb : sys.Scratch buffers) (hx : sys.dimension ≤ x.size)
    (hrow : sys.evaluate x buffers = (row, .ok ())) {steps : Nat} {rows : Array (Buffers α)}
    (hsteps : rows.size < steps) :
    sys.record (m.namesOf .dynamic) rows.size x (historiesOf sys steps rows) buffers =
      (historiesOf sys steps (rows.push row), row, .ok ()) := by
  have hw := hbound.wired hm
  refine System.record_eq_ok_iff.2 ⟨hx, hrow, ?_⟩
  refine OrderedMap.ext_get? (by simp only [keys_writeFrames, keys_historiesOf hw.names])
    fun name hname => ?_
  simp only [keys_writeFrames, keys_historiesOf hw.names, List.mem_map] at hname
  obtain ⟨slot, hslot, rfl⟩ := hname
  obtain ⟨i, hslot⟩ := List.mem_iff_getElem?.1 hslot
  rw [Array.getElem?_toList] at hslot
  obtain ⟨b, hbuffer⟩ := (hb.of_evaluate hw hrow).exists_buffer hslot
  rw [get?_recorded hm hbound hb hx hrow hslot hbuffer, get?_historiesOf hw.names hslot,
    get?_historiesOf hw.names hslot, historyOf_push hbuffer, Option.map_some]
  have hplace : (slot.kind = .dynamic ∨ slot.kind.isValueRecorded rows.size = true) ↔
      rows.size < slot.recordedSteps steps := by
    unfold Slot.recordedSteps
    cases slot.kind <;> simp [FieldKind.isValueRecorded, FieldKind.isTimeVarying, hsteps]
  simp only [hplace]

/-! ## One record after another -/

/-- **What a recorder holds** after recording states at successive time points, each with whatever
buffers calls have left by then. -/
inductive Records (sys : System α) (dynamics : List String) (steps : Nat) :
    List (Array α) → OrderedMap (History α) → Prop
  | start : Records sys dynamics steps [] (historiesOf sys steps #[])
  | next {states : List (Array α)} {x : Array α} {histories histories' : OrderedMap (History α)}
      {buffers after : Buffers α} : Records sys dynamics steps states histories →
        sys.Reached buffers →
          sys.record dynamics states.length x histories buffers = (histories', after, .ok ()) →
            Records sys dynamics steps (states ++ [x]) histories'

namespace Records

variable {steps : Nat} {states : List (Array α)} {histories : OrderedMap (History α)}

/-- A recorder holds the histories of the rows at the states recorded. -/
theorem exists_rows (hm : m.Evaluable) (hbound : BoundFrom m runs regions sys)
    (h : Records sys (m.namesOf .dynamic) steps states histories) (hsteps : states.length ≤ steps) :
    ∃ rows : Array (Buffers α), rows.size = states.length ∧
      histories = historiesOf sys steps rows ∧
      ∀ (t : Nat) (x : Array α), states[t]? = some x →
        ∃ row, rows[t]? = some row ∧ sys.dimension ≤ x.size ∧
          sys.evaluate x sys.bound = (row, .ok ()) := by
  have hw := hbound.wired hm
  induction h with
  | start => exact ⟨#[], rfl, rfl, fun t x hx => by simp at hx⟩
  | @next states x histories histories' buffers row _ hreached hrecord ih =>
    rw [List.length_append, List.length_singleton] at hsteps
    obtain ⟨rows, hsize, rfl, hrows⟩ := ih (by omega)
    have hb := hreached.scratch hw hbound.shaped
    rw [← hsize] at hrecord
    obtain ⟨hx, hrow, -⟩ := System.record_eq_ok_iff.1 hrecord
    rw [record_historiesOf hm hbound hb hx hrow (by omega)] at hrecord
    refine ⟨rows.push row, by simp [hsize], (congrArg Prod.fst hrecord).symm, fun t x' hx' => ?_⟩
    rw [List.getElem?_append] at hx'
    split at hx'
    · rename_i ht
      obtain ⟨row', hrow', hevaluate⟩ := hrows t x' hx'
      exact ⟨row', by rw [Array.getElem?_push, if_neg (by omega), hrow'], hevaluate⟩
    · rename_i ht
      obtain ⟨hlt, rfl⟩ := List.getElem?_eq_some_iff.1 hx'
      obtain rfl : t = states.length := by
        rw [List.length_singleton] at hlt
        omega
      refine ⟨row, by rw [Array.getElem?_push, if_pos hsize.symm], by simpa using hx, ?_⟩
      have hscratch := System.Reached.bound.scratch hw hbound.shaped
      rw [← hrow, System.evaluate_eq hw hscratch hb (by simpa using hx)]
      simp

/-- **Every state that was recorded is read back** at its time point. -/
theorem holds (hm : m.Evaluable) (hbound : BoundFrom m runs regions sys)
    (h : Records sys (m.namesOf .dynamic) steps states histories) (hsteps : states.length ≤ steps)
    {t : Nat} (hx : states[t]? = some x) :
    Holds m runs regions sys x fun name => (histories.get? name).map (·.frame t) := by
  have hw := hbound.wired hm
  obtain ⟨rows, hsize, rfl, hrows⟩ := h.exists_rows hm hbound hsteps
  obtain ⟨row, hrow, hle, hevaluate⟩ := hrows t x hx
  refine holds_of_slices hm hbound hle fun {i slot} hdynamic => ?_
  obtain ⟨hslot, hkind⟩ := System.mem_dynamics_iff.1 hdynamic
  have hbuffer := getElem?_evaluate_dynamic hw
    (System.Reached.bound.scratch hw hbound.shaped) hle hslot hkind
  rw [hevaluate] at hbuffer
  have ht : t < slot.recordedSteps steps := by
    rw [Slot.recordedSteps, hkind]
    exact (List.getElem?_eq_some_iff.1 hx).1.trans_le hsteps
  rw [get?_historiesOf hw.names hslot, Option.map_some, frame_historyOf ht hrow hbuffer rfl]

/-- The rows at any states are recorded one after another. -/
theorem of_rows (hm : m.Evaluable) (hbound : BoundFrom m runs regions sys)
    (pairs : List (Vector α sys.dimension × Buffers α))
    (hpairs : ∀ p ∈ pairs, sys.snapshot p.1 = .ok p.2) (hsteps : pairs.length ≤ steps) :
    Records sys (m.namesOf .dynamic) steps (pairs.map fun p => p.1.toArray)
      (historiesOf sys steps (pairs.map Prod.snd).toArray) := by
  induction pairs using List.reverseRecOn with
  | nil => exact .start
  | append_singleton pairs p ih =>
    rw [List.length_append, List.length_singleton] at hsteps
    have hrecords := ih (fun q hq => hpairs q (List.mem_append_left _ hq)) (by omega)
    have hscratch := System.Reached.bound.scratch (hbound.wired hm) hbound.shaped
    have hroom : (pairs.map Prod.snd).toArray.size < steps := by
      rw [List.size_toArray, List.length_map]
      omega
    have hrecord := record_historiesOf hm hbound hscratch (Nat.le_of_eq p.1.size_toArray.symm)
      (System.snapshot_eq_ok_iff.1 (hpairs p (by simp))) hroom
    have hlength : (pairs.map fun q => q.1.toArray).length =
        (pairs.map Prod.snd).toArray.size := by simp
    have hrows : ((pairs ++ [p]).map Prod.snd).toArray =
        (pairs.map Prod.snd).toArray.push p.2 := by simp
    rw [List.map_append, hrows]
    exact hrecords.next .bound (hlength ▸ hrecord)

end Records

end Record

/-- **A run leaves what a recorder holds** that records the state after each number of steps. -/
theorem records_of_integrate {m : Model α} {axes : RunAxes} {method : Method} {timeStep : α}
    {control : StepControl α} {outcome : Outcome α} {sys : System α} (hm : m.Evaluable)
    (hbind : m.bind axes.runs axes.regions = .ok sys)
    (h : integrate m axes method timeStep control = .ok outcome) :
    ∃ (initial : Vector α sys.dimension) (states : List (Vector α sys.dimension)),
      sys.initialState m = .ok initial ∧ states.length = outcome.recording.lastValid + 1 ∧
        states.length ≤ axes.steps ∧
        (∀ t < states.length, states[t]? = (stepsFrom (sys.step method control timeStep)
          (startOf m initial) t).map Cursor.state) ∧
        Records sys (m.namesOf .dynamic) axes.steps (states.map Vector.toArray)
          outcome.recording.fields := by
  obtain ⟨sys', initial, labels, track, hsetup, hrows, hends, rfl⟩ := integrate_eq_ok_iff.1 h
  obtain rfl : sys' = sys := Except.ok.inj (hsetup.bound.symm.trans hbind)
  have hrow : ∀ t : Fin track.rows.size, ∃ c,
      stepsFrom (sys'.step method control timeStep) (startOf m initial) t = some c ∧
        sys'.snapshot c.state = .ok track.rows[t] :=
    fun t => hrows.row (Array.getElem?_eq_getElem t.isLt)
  choose c hc hsnapshot using hrow
  have hle := hends.reached_le
  have hrecords : Records sys' (m.namesOf .dynamic) axes.steps _ _ :=
    Records.of_rows hm (boundFrom_of_bind hbind) (List.ofFn fun t => ((c t).state, track.rows[t]))
    (fun p hp => by
      obtain ⟨t, rfl⟩ := List.mem_ofFn.1 hp
      exact hsnapshot t)
    (by simpa using hle)
  refine ⟨initial, List.ofFn fun t => (c t).state, hsetup.initial, ?_, by simpa using hle,
    fun t ht => ?_, ?_⟩
  · rw [List.length_ofFn]
    exact (Nat.sub_add_cancel hrows.pos).symm
  · rw [List.length_ofFn] at ht
    rw [List.getElem?_ofFn, dif_pos ht, hc ⟨t, ht⟩, Option.map_some]
  · have hsnd : ((List.ofFn fun t => ((c t).state, track.rows[t])).map Prod.snd).toArray =
        track.rows := by
      rw [List.map_ofFn]
      refine Array.ext (by simp) fun t ht _ => ?_
      simp
    rw [hsnd, List.map_ofFn] at hrecords
    rw [List.map_ofFn]
    exact hrecords

end FieldFlow
