import FieldFlow.Proofs.Field.Value
import FieldFlow.Proofs.Run.Plan
import FieldFlow.Proofs.Scalar.Fraction
import FieldFlow.Proofs.System.Layout
import FieldFlow.Proofs.Tensor.Broadcast
import FieldFlow.Proofs.Tensor.Extent
import Mathlib.Order.Bounds.Basic

/-!
# Proofs/Run/RunAxis — the number of runs fits whatever is given per run

There is a number of runs exactly if one length serves all values and the setting, and it is then
the greatest of them (`exists_runCount_iff`, `isGreatest_of_runCount`). With that number every
assigned value lines up with its field along the run axis, so whether it can be laid out in the
shape of its field is decided on the other axes, and by whether that shape can be held at all
(`run_axis_expands`).
-/

namespace FieldFlow

variable {α : Type}

/-! ## The number of runs -/

section Count

variable {nx runs : Nat} {lengths lengths' : List (String × Nat)}

/-- **There is a number of runs** exactly if some length serves all — one run will do where nothing
has that length. -/
theorem exists_runCount_iff : (∃ runs, (runCount nx lengths : Except (Error α) Nat) = .ok runs) ↔
    ∃ most, 1 ≤ most ∧ (∀ entry ∈ lengths, entry.2 = 1 ∨ entry.2 = most) ∧
      (nx = 0 ∨ nx = 1 ∨ nx = most) := by
  constructor
  · rintro ⟨runs, h⟩
    obtain ⟨hpos, hfits, hnx, -⟩ := runCount_eq_ok_iff.1 h
    exact ⟨runs, hpos, hfits, by omega⟩
  · rintro ⟨most, hpos, hfits, hnx⟩
    have hset : nx ≤ 1 ∨ nx = most := by omega
    by_cases hused : nx = most ∨ ∃ entry ∈ lengths, entry.2 = most
    · exact ⟨most, runCount_eq_ok_iff.2 ⟨hpos, hfits, hset, fun _ => hused⟩⟩
    · rw [not_or, not_exists] at hused
      have hsingle : ∀ entry ∈ lengths, entry.2 = 1 ∨ entry.2 = 1 := fun entry hentry =>
        .inl ((hfits entry hentry).resolve_right fun heq => hused.2 entry ⟨hentry, heq⟩)
      have hshort : nx ≤ 1 := hset.resolve_right hused.1
      exact ⟨1, runCount_eq_ok_iff.2 ⟨Nat.one_pos, hsingle, .inl hshort,
        fun hmany => absurd hmany (Nat.lt_irrefl 1)⟩⟩

/-- **It is the greatest** of one, the setting and all lengths. -/
theorem isGreatest_of_runCount (h : (runCount nx lengths : Except (Error α) Nat) = .ok runs) :
    IsGreatest {n | n = 1 ∨ n = nx ∨ ∃ entry ∈ lengths, entry.2 = n} runs := by
  obtain ⟨hpos, hfits, hnx, hmost⟩ := runCount_eq_ok_iff.1 h
  constructor
  · rcases Nat.eq_or_lt_of_le hpos with hone | hmany
    · exact .inl hone.symm
    · exact .inr ((hmost hmany).imp_left Eq.symm)
  · rintro n (rfl | rfl | ⟨entry, hentry, rfl⟩)
    · exact hpos
    · omega
    · rcases hfits entry hentry with hone | heq <;> omega

/-- The order of the lengths does not matter. -/
theorem runCount_perm (h : lengths.Perm lengths') :
    (runCount nx lengths : Except (Error α) Nat).toOption =
      (runCount nx lengths' : Except (Error α) Nat).toOption := by
  ext runs
  rw [toOption_eq_some_iff, toOption_eq_some_iff, runCount_eq_ok_iff, runCount_eq_ok_iff]
  simp only [h.mem_iff]

end Count

/-! ## The other axes -/

/-- **The region and sector axes line up**: each is as long as the other one, or of length one. -/
def Shape.LinesUp (s target : Shape) : Prop :=
  (s.regions = target.regions ∨ s.regions = 1) ∧ (s.sectorA = target.sectorA ∨ s.sectorA = 1) ∧
    (s.sectorB = target.sectorB ∨ s.sectorB = 1)

instance (s target : Shape) : Decidable (s.LinesUp target) := inferInstanceAs (Decidable (_ ∧ _))

theorem Shape.expandsTo_iff_linesUp {s target : Shape} (hruns : s.runs = 1 ∨ s.runs = target.runs) :
    s.expandsTo target = true ↔ s.LinesUp target := by
  simp only [expandsTo_iff, axisExpands_iff, LinesUp]
  exact and_iff_right hruns.symm

/-- A shape that can be held can be counted. -/
theorem Shape.isAddressable_of_check {s : Shape} (h : s.check = .ok ()) :
    s.isAddressable = true :=
  (checkExtent_eq_ok_iff.1 h).1

variable [Scalar α]

/-- A tensor that lines up along the run axis is broadcast exactly if it lines up along the others,
and what it is broadcast to can be held. -/
theorem Tensor.exists_broadcastTo_iff {name : String} {t : Tensor α} {s : Shape}
    (hruns : t.shape.runs = 1 ∨ t.shape.runs = s.runs) :
    (∃ u, t.broadcastTo name s = .ok u) ↔ t.shape.LinesUp s ∧ s.check = .ok () := by
  simp only [broadcastTo_eq_ok_iff, allocate_eq_ok_iff, fits, Bool.and_eq_true,
    Shape.expandsTo_iff_linesUp hruns]
  constructor
  · rintro ⟨u, ⟨hlines, -⟩, hcheck, -⟩
    exact ⟨hlines, hcheck⟩
  · rintro ⟨hlines, hcheck⟩
    exact ⟨_, ⟨hlines, Shape.isAddressable_of_check hcheck⟩, hcheck, rfl⟩

theorem Tensor.exists_flatTo_iff {name : String} {t : Tensor α} {s : Shape}
    (hruns : t.shape.runs = 1 ∨ t.shape.runs = s.runs) :
    (∃ elements, t.flatTo name s = .ok elements) ↔ t.shape.LinesUp s := by
  rw [← Shape.expandsTo_iff_linesUp hruns]
  constructor
  · rintro ⟨elements, h⟩
    exact (flatTo_eq_ok_iff.1 h).1
  · intro h
    exact ⟨⟨(t.expand s).data, (t.expand s).size_data⟩, flatTo_eq_ok_iff.2 ⟨h, rfl⟩⟩

/-- A parameter is bound to its value, in the shape of the field. -/
theorem boundValue_of_parameter {f : Field α} {v : Value α} {t : Tensor α}
    (hkind : f.kind = .parameter) (hv : f.assigned = some v) (ht : v.toTensor f.name = .ok t)
    (s : Shape) : boundValue f s = t.broadcastTo f.name s := by
  have hvalue : f.value = some v := by
    rwa [Field.assigned, hkind] at hv
  rw [boundValue, hkind, hvalue]
  dsimp only
  rw [Value.inShape, ht]
  rfl

/-! ## Runs of a simulation -/

/-- An assigned value has one run, or the number of runs. -/
theorem runs_of_assigned {s : Simulation α} {runs : Nat}
    (hruns : (runCount s.runs (Simulation.valueLengths s.model) : Except (Error α) Nat) = .ok runs)
    {name field : String} {f : Field α} {v : Value α} {t : Tensor α}
    (hf : s.model.field? name = some f) (hv : f.assigned = some v)
    (ht : v.toTensor field = .ok t) : t.shape.runs = 1 ∨ t.shape.runs = runs := by
  rw [Value.runs_of_toTensor ht]
  exact (runCount_eq_ok_iff.1 hruns).2.1 _ (mem_valueLengths_iff.2 ⟨name, f, v, hf, hv, rfl⟩)

/-- **The run axis always lines up.** There is a number of runs exactly if one length serves all
values and the setting; it is the greatest of them, in whatever order they are listed. With it every
value of a parameter and every initial value has one run or that number of runs. So a parameter is
bound exactly if its value lines up along the other axes and the shape of the field can be held, and
a state begins with an initial value exactly if that lines up along the other axes. -/
theorem run_axis_expands :
    (∀ nx lengths, ((∃ runs, (runCount nx lengths : Except (Error α) Nat) = .ok runs) ↔
      ∃ most, 1 ≤ most ∧ (∀ entry ∈ lengths, entry.2 = 1 ∨ entry.2 = most) ∧
        (nx = 0 ∨ nx = 1 ∨ nx = most)) ∧
      (∀ runs, (runCount nx lengths : Except (Error α) Nat) = .ok runs →
        IsGreatest {n | n = 1 ∨ n = nx ∨ ∃ entry ∈ lengths, entry.2 = n} runs) ∧
      ∀ lengths', lengths.Perm lengths' →
        (runCount nx lengths : Except (Error α) Nat).toOption =
          (runCount nx lengths' : Except (Error α) Nat).toOption) ∧
    ∀ (s : Simulation α) (runs : Nat),
      (runCount s.runs (Simulation.valueLengths s.model) : Except (Error α) Nat) = .ok runs →
      ∀ (name : String) (f : Field α) (v : Value α) (t : Tensor α),
        s.model.field? name = some f → f.assigned = some v → v.toTensor f.name = .ok t →
          (t.shape.runs = 1 ∨ t.shape.runs = runs) ∧
          ∀ shape, s.model.shapeOf f runs s.regions = .ok shape →
            (f.kind = .parameter → ((∃ bound, boundValue f shape = .ok bound) ↔
              t.shape.LinesUp shape ∧ shape.check = .ok ())) ∧
            (f.kind = .dynamic → ((∃ elements, t.flatTo f.name shape = .ok elements) ↔
              t.shape.LinesUp shape)) := by
  refine ⟨fun nx lengths => ⟨exists_runCount_iff, fun _ => isGreatest_of_runCount,
    fun _ => runCount_perm⟩, ?_⟩
  intro s runs hruns name f v t hf hv ht
  have hone := runs_of_assigned hruns hf hv ht
  refine ⟨hone, fun shape hshape => ?_⟩
  rw [← Model.runs_of_shapeOf hshape] at hone
  refine ⟨fun hkind => ?_, fun _ => Tensor.exists_flatTo_iff hone⟩
  rw [boundValue_of_parameter hkind hv ht]
  exact Tensor.exists_broadcastTo_iff hone

/-! ## Three runs, and too many -/

/-- A parameter with a value for each of three runs. Time is a parameter as well, so nothing is
integrated. -/
def threefold : Description Fraction where
  name := "threefold"
  parameter := .ofList
    [("time", ⟨[("value", .value (.scalar (.of 0)))]⟩),
      ("rate", ⟨[("value", .value (.runs [.of 1, .of 2, .of 3]))]⟩)]

/-- Three runs, to which the time is repeated. -/
theorem threefold_binds : ∃ s f v t shape, Simulation.load .empty threefold 0 = .ok s ∧
    (runCount s.runs (Simulation.valueLengths s.model) : Except (Error Fraction) Nat) = .ok 3 ∧
    s.model.field? "time" = some f ∧ f.assigned = some v ∧ v.toTensor f.name = .ok t ∧
    f.kind = .parameter ∧ s.model.shapeOf f 3 s.regions = .ok shape ∧
    (t.shape.runs = 1 ∨ t.shape.runs = 3) ∧ ∃ bound, boundValue f shape = .ok bound := by
  have hfound : ((Simulation.load .empty threefold 0).toOption.bind fun s =>
      (s.model.field? "time").bind fun f => f.assigned.bind fun v =>
        (v.toTensor f.name).toOption.bind fun t =>
          (s.model.shapeOf f 3 s.regions).toOption.map fun shape =>
            ((runCount s.runs (Simulation.valueLengths s.model) :
              Except (Error Fraction) Nat).toOption, f.kind,
                decide (t.shape.LinesUp shape ∧ shape.check = .ok ()))) =
                  some (some 3, .parameter, true) := by
    decide +kernel
  simp only [Option.bind_eq_some_iff, Option.map_eq_some_iff, Prod.mk.injEq,
    toOption_eq_some_iff, decide_eq_true_eq] at hfound
  obtain ⟨s, hs, f, hf, v, hv, t, ht, shape, hshape, hruns, hkind, hfits⟩ := hfound
  obtain ⟨hone, hall⟩ := run_axis_expands.2 s 3 hruns "time" f v t hf hv ht
  exact ⟨s, f, v, t, shape, hs, hruns, hf, hv, ht, hkind, hshape, hone,
    ((hall shape hshape).1 hkind).2 hfits⟩

/-- A model that has nothing but its time. -/
def still : Description Fraction where
  name := "still"
  parameter := .ofList [("time", ⟨[("value", .value (.scalar (.of 0)))]⟩)]

/-- A number of runs that an array of values cannot have: half of what a machine word counts. -/
def tooManyRuns : Nat := 9223372036854775808

/-- A registry that asks for that many. -/
def crowded : Registry Fraction :=
  Registry.empty.insert "nx" { value := some (.of tooManyRuns) }

/-- **More runs than can be counted**: the time lines up along all axes and is refused, although a
number of runs was found. -/
theorem still_refused : ∃ s f v t shape, Simulation.load crowded still 0 = .ok s ∧
    (runCount s.runs (Simulation.valueLengths s.model) : Except (Error Fraction) Nat) =
      .ok tooManyRuns ∧
    s.model.field? "time" = some f ∧ f.kind = .parameter ∧ f.assigned = some v ∧
    v.toTensor f.name = .ok t ∧ s.model.shapeOf f tooManyRuns s.regions = .ok shape ∧
    t.shape.runs = 1 ∧ t.shape.LinesUp shape ∧
    boundValue f shape =
      .error (.error (.shapeMismatch "time" [tooManyRuns, 1, 1, 1] [1, 1, 1, 1])) := by
  have hfound : ((Simulation.load crowded still 0).toOption.bind fun s =>
      (s.model.field? "time").bind fun f => f.assigned.bind fun v =>
        (v.toTensor f.name).toOption.bind fun t =>
          (s.model.shapeOf f tooManyRuns s.regions).toOption.map fun shape =>
            ((runCount s.runs (Simulation.valueLengths s.model) :
              Except (Error Fraction) Nat).toOption, f.kind, f.name, t.shape, shape,
                t.fits shape)) =
                  some (some tooManyRuns, .parameter, "time", ⟨1, 1, 1, 1⟩,
                    ⟨tooManyRuns, 1, 1, 1⟩, false) := by
    decide +kernel
  simp only [Option.bind_eq_some_iff, Option.map_eq_some_iff, Prod.mk.injEq,
    toOption_eq_some_iff] at hfound
  obtain ⟨s, hs, f, hf, v, hv, t, ht, shape, hshape, hruns, hkind, hname, hone, rfl, hfits⟩ := hfound
  refine ⟨s, f, v, t, _, hs, hruns, hf, hkind, hv, ht, hshape, by rw [hone], ?_, ?_⟩
  · rw [hone]
    decide
  · rw [boundValue_of_parameter hkind hv ht, Tensor.broadcastTo, hfits, hone, hname]
    rfl

end FieldFlow
