import FieldFlow.Error
import FieldFlow.OrderedMap
import FieldFlow.Run.Grid
import FieldFlow.Tensor.History
import FieldFlow.Tensor.Index

/-!
# Run/Recording — the recorded history of one run
-/

namespace FieldFlow

/-- **What a run leaves.** Parameters and sizes have one time point, all other fields one for each
point of the grid. -/
structure Recording (α : Type) where
  timeStep : α
  axes : RunAxes
  /-- The labels of every size field; counted sectors are numbered from `0`. -/
  sectorLabels : OrderedMap (List String)
  /-- The name of the integration method. -/
  method : String
  /-- The last time index that holds valid values. -/
  lastValid : Nat
  fields : OrderedMap (History α)

namespace Recording

variable {α : Type}

/-- The number of time points that hold valid values, counted by a machine word. -/
def validPoints (rec : Recording α) : Nat := (rec.lastValid + 1) % wordEnd

/-- Whether the run reached the end of its grid. -/
def isComplete (rec : Recording α) : Bool := rec.validPoints = rec.axes.steps

def field? (rec : Recording α) (name : String) : Option (History α) := rec.fields.get? name

/-- A history read at one run, one region and the first sector, up to the cut at `points`. -/
def seriesOf [Inhabited α] (h : History α) (points run region : Nat) : Except Fault (List α) :=
  match cut? h.steps points, place? h.shape.regions region with
  | some length, some r =>
    if run < h.shape.runs && 0 < h.shape.sectorA && 0 < h.shape.sectorB then
      .ok ((List.range length).map fun t => h.get t run r 0 0)
    else .error .outOfRange
  | _, _ => .error .outOfRange

/-- The recorded times of the first run, if time was recorded. -/
def times [Inhabited α] (rec : Recording α) : Except Fault (Option (List α)) :=
  match rec.field? "time" with
  | none => .ok none
  | some h => (seriesOf h h.steps 0 0).map some

end Recording

end FieldFlow
