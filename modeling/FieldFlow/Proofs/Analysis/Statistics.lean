import FieldFlow.Analysis.Cycle
import FieldFlow.Proofs.Analysis.Figures
import FieldFlow.Proofs.Tensor.Extent
import FieldFlow.Proofs.Tensor.History

/-!
# Proofs/Analysis/Statistics — statistics across the parallel runs

At every time, region and sector the statistics of a history are the figures of the values that its
runs have there (`History.statistics_eq`). So they have what figures of numbers have, and a cycle
over the same values has the same ones (`History.statistics_describe`).
-/

namespace FieldFlow

variable {K : Type} [FieldOfNumbers K]

/-- The figures at one time, region and sector. -/
def RunStatistics.at {α : Type} [Inhabited α] (s : RunStatistics α) (t r i j : Nat) : Summary α where
  mean := s.mean.get t 0 r i j
  deviation := s.deviation.get t 0 r i j
  least := s.least.get t 0 r i j
  greatest := s.greatest.get t 0 r i j
  median := s.median.get t 0 r i j

def RunStatistics.histories {α : Type} (s : RunStatistics α) : List (History α) :=
  [s.mean, s.deviation, s.least, s.greatest, s.median]

namespace History

variable {α : Type}

/-- A time, a region and a sector of a history. -/
def Has (h : History α) (t r i j : Nat) : Prop :=
  t < h.steps ∧ r < h.shape.regions ∧ i < h.shape.sectorA ∧ j < h.shape.sectorB

/-- The values that the runs have at one time, region and sector. -/
def acrossRuns [Inhabited α] (h : History α) (t r i j : Nat) : List α :=
  (List.range h.shape.runs).map fun x => h.get t x r i j

/-- Two histories with the same axes whose runs, at every time, region and sector, have the same
values in some order. -/
structure Shuffled [Inhabited α] (h h' : History α) : Prop where
  steps : h'.steps = h.steps
  shape : h'.shape = h.shape
  perm : ∀ {t r i j}, h.Has t r i j → (h'.acrossRuns t r i j).Perm (h.acrossRuns t r i j)

variable {h h' : History α} {t r i j : Nat}

theorem acrossRuns_ne_nil [Inhabited α] (hruns : 0 < h.shape.runs) : h.acrossRuns t r i j ≠ [] := by
  simpa [acrossRuns] using hruns.ne'

/-- What is read within a history is one of its values. -/
theorem get_mem [Inhabited α] {x : Nat} (ht : t < h.steps) (hin : h.shape.Contains x r i j) :
    h.get t x r i j ∈ h.data := by
  have hlt : t * h.shape.size + h.shape.position x r i j < h.data.size := by
    rw [h.size_data]
    calc t * h.shape.size + h.shape.position x r i j
      _ < t * h.shape.size + h.shape.size := Nat.add_lt_add_left (h.shape.position_lt hin) _
      _ = (t + 1) * h.shape.size := (Nat.succ_mul _ _).symm
      _ ≤ h.steps * h.shape.size := Nat.mul_le_mul_right _ ht
  rw [get, Array.getElem?_eq_getElem hlt, Option.getD_some]
  exact Array.getElem_mem hlt

theorem mem_of_acrossRuns [Inhabited α] (hin : h.Has t r i j) {v : α}
    (hv : v ∈ h.acrossRuns t r i j) : v ∈ h.data := by
  obtain ⟨x, hx, rfl⟩ := List.mem_map.1 hv
  exact get_mem hin.1 ⟨List.mem_range.1 hx, hin.2⟩

variable [Scalar α]

/-- A figure at every time, region and sector. -/
def figure (h : History α) (f : List α → α) : History α :=
  .ofFn h.steps { h.shape with runs := 1 } fun t _ r i j => f (h.acrossRuns t r i j)

theorem get_figure (f : List α → α) (hin : h.Has t r i j) :
    (h.figure f).get t 0 r i j = f (h.acrossRuns t r i j) :=
  get_ofFn _ _ _ hin.1 ⟨Nat.one_pos, hin.2⟩

/-- All figures at every time, region and sector. -/
def figures (h : History α) : RunStatistics α where
  mean := h.figure Summary.meanOf
  deviation := h.figure fun values => Scalar.sqrt (Summary.varianceOf values)
  least := h.figure Summary.leastOf
  greatest := h.figure Summary.greatestOf
  median := h.figure Summary.medianOf

/-- **The statistics of a history with runs** are the figures at every time, region and sector. -/
theorem statistics_eq (hroom : check h.steps h.shape = .ok ()) (hruns : 0 < h.shape.runs) :
    h.statistics = .ok h.figures := by
  have hshrinks : List.Forall₂ Shrinks (h.steps :: Shape.toList { h.shape with runs := 1 })
      (h.steps :: h.shape.toList) :=
    .cons (.refl _) (.cons ⟨hruns, nofun⟩
      (.cons (.refl _) (.cons (.refl _) (.cons (.refl _) .nil))))
  have hcollapsed : check h.steps { h.shape with runs := 1 } = .ok () :=
    checkExtent_of_shrinks hshrinks hroom
  rw [statistics, hcollapsed]
  rfl

theorem at_figures (hin : h.Has t r i j) :
    h.figures.at t r i j = .ofList (h.acrossRuns t r i j) := by
  simp only [RunStatistics.at, figures, get_figure _ hin, Summary.ofList]

theorem axes_of_mem_figures {g : History α} (hg : g ∈ h.figures.histories) :
    g.steps = h.steps ∧ g.shape = { h.shape with runs := 1 } := by
  simp only [RunStatistics.histories, figures, List.mem_cons, List.not_mem_nil, or_false] at hg
  rcases hg with rfl | rfl | rfl | rfl | rfl <;> exact ⟨rfl, rfl⟩

/-- A figure that depends on the runs at no time, region and sector. -/
theorem figure_congr {f : List α → α} (hsteps : h'.steps = h.steps) (hshape : h'.shape = h.shape)
    (hf : ∀ {t r i j}, h.Has t r i j → f (h'.acrossRuns t r i j) = f (h.acrossRuns t r i j)) :
    h'.figure f = h.figure f := by
  rw [figure, figure, hsteps, hshape]
  exact ofFn_congr fun t ht x r i j hin => hf ⟨ht, hin.2⟩

/-- Histories with the same figures everywhere have the same statistics. -/
theorem figures_congr (hsteps : h'.steps = h.steps) (hshape : h'.shape = h.shape)
    (hf : ∀ {t r i j}, h.Has t r i j →
      Summary.ofList (h'.acrossRuns t r i j) = Summary.ofList (h.acrossRuns t r i j)) :
    h'.figures = h.figures := by
  simp only [figures, RunStatistics.mk.injEq]
  exact ⟨figure_congr hsteps hshape fun hin => congrArg Summary.mean (hf hin),
    figure_congr hsteps hshape fun hin => congrArg Summary.deviation (hf hin),
    figure_congr hsteps hshape fun hin => congrArg Summary.least (hf hin),
    figure_congr hsteps hshape fun hin => congrArg Summary.greatest (hf hin),
    figure_congr hsteps hshape fun hin => congrArg Summary.median (hf hin)⟩

end History

section Numbers

open Extended

variable [LinearOrder K] [IsStrictOrderedRing K] [FloorRing K] [Elementary K]
  {h : History (Extended K)}

/-- **Statistics across the runs describe the runs** — they have one run, all other axes are kept,
and a cycle with the values of the runs has the same figures. Of finite values they are figures of
numbers, and it does not matter which run has which. -/
theorem History.statistics_describe (hroom : check h.steps h.shape = .ok ())
    (hruns : 0 < h.shape.runs) : ∃ s, h.statistics = .ok s ∧
      (∀ g ∈ s.histories, g.steps = h.steps ∧ g.shape = { h.shape with runs := 1 }) ∧
      (∀ t r i j, h.Has t r i j → ∀ (values times : Array (Extended K)) (start stop : Nat),
        (values.extract start stop).toList = h.acrossRuns t r i j →
        (describeCycle values times start stop).summary = s.at t r i j) ∧
      ((∀ v ∈ h.data, Scalar.isFinite v = true) →
        (∀ h', h.Shuffled h' → h'.statistics = .ok s) ∧
        ∀ t r i j, h.Has t r i j → ∃ (xs : List K) (f : Figures K),
          h.acrossRuns t r i j = xs.map number ∧ s.at t r i j = f.summary ∧ f.Describe xs) := by
  have hnumbers (hfinite : ∀ v ∈ h.data, Scalar.isFinite v = true) {t r i j : Nat}
      (hin : h.Has t r i j) : ∃ xs : List K, h.acrossRuns t r i j = xs.map number :=
    exists_map_number fun v hv => hfinite v (mem_of_acrossRuns hin hv)
  refine ⟨h.figures, statistics_eq hroom hruns, fun g => axes_of_mem_figures, ?_, fun hfinite =>
    ⟨fun h' hshuffled => ?_, fun t r i j hin => ?_⟩⟩
  · intro t r i j hin values times start stop hwindow
    have hne : (values.extract start stop).toList ≠ [] := hwindow ▸ acrossRuns_ne_nil hruns
    rw [at_figures hin, ← hwindow, ← Cycle.figuresOf_eq hne]
    rfl
  · have hsame : h'.figures = h.figures := by
      refine figures_congr hshuffled.steps hshuffled.shape fun hin => ?_
      obtain ⟨xs, hxs⟩ := hnumbers hfinite hin
      have hperm := hshuffled.perm hin
      rw [hxs] at hperm
      obtain ⟨ys, hys⟩ := exists_map_number fun v hv =>
        hfinite v (mem_of_acrossRuns hin (hxs ▸ hperm.mem_iff.1 hv))
      rw [hys] at hperm ⊢
      rw [hxs]
      exact Summary.ofList_perm ((List.map_perm_map_iff number_injective).1 hperm)
    rw [← hsame]
    exact statistics_eq (by rw [hshuffled.steps, hshuffled.shape, hroom])
      (hshuffled.shape ▸ hruns)
  · obtain ⟨xs, hxs⟩ := hnumbers hfinite hin
    have hne : xs ≠ [] := fun hnil => acrossRuns_ne_nil hruns (by rw [hxs, hnil, List.map_nil])
    obtain ⟨f, hf, hdescribe⟩ := Summary.exists_figures hne
    exact ⟨xs, f, hxs, (at_figures hin).trans (hxs ▸ hf), hdescribe⟩

/-- Four runs at one time. -/
def fourRuns : History (Extended ℚ) :=
  .ofFn 1 ⟨4, 1, 1, 1⟩ fun _ x _ _ _ => number ([1, 3, 2, 6][x]?.getD 0)

/-- The statistics of the four runs describe their values, and a cycle with these values has them
too. -/
theorem History.statistics_fourRuns : ∃ (s : RunStatistics (Extended ℚ)) (f : Figures ℚ),
    fourRuns.statistics = .ok s ∧ s.at 0 0 0 0 = f.summary ∧ f.Describe [1, 3, 2, 6] ∧
    (describeCycle #[number 0, number 1, number 3, number 2, number 6, number 0] #[] 1 5).summary =
      s.at 0 0 0 0 := by
  obtain ⟨s, hs, -, hcycle, hnumbers⟩ :=
    History.statistics_describe (h := fourRuns) rfl (by decide)
  have hin : fourRuns.Has 0 0 0 0 := ⟨Nat.one_pos, Nat.one_pos, Nat.one_pos, Nat.one_pos⟩
  have hvalues : fourRuns.acrossRuns 0 0 0 0 = [1, 3, 2, 6].map number := by decide +kernel
  obtain ⟨-, hfigures⟩ := hnumbers (by decide +kernel)
  obtain ⟨xs, f, hxs, hat, hf⟩ := hfigures 0 0 0 0 hin
  obtain rfl := List.map_injective_iff.2 number_injective (hvalues.symm.trans hxs)
  exact ⟨s, f, hs, hat, hf, hcycle 0 0 0 0 hin _ _ 1 5 (by decide +kernel)⟩

end Numbers

end FieldFlow
