import FieldFlow.Field.Basic
import FieldFlow.OrderedMap

/-!
# Registry — defaults for well-known field names

A model may leave out the units, the comment or the value of a field that the registry knows, and
may read parameters that it never declares. The settings of the run itself are entries like any
other.
-/

namespace FieldFlow

/-- What the registry knows of a field. -/
structure Defaults (α : Type) where
  value : Option α := none
  initial : Option α := none
  metadata : Metadata := {}

/-- Defaults by field name. -/
structure Registry (α : Type) where
  entries : OrderedMap (Defaults α)

namespace Registry

variable {α : Type}

def empty : Registry α := ⟨.empty⟩

/-- Adds or replaces an entry. -/
def insert (r : Registry α) (name : String) (d : Defaults α) : Registry α :=
  ⟨r.entries.insert name d⟩

def get? (r : Registry α) (name : String) : Option (Defaults α) := r.entries.get? name

/-- The default value of a setting. -/
def number? (r : Registry α) (name : String) : Option α := (r.get? name).bind Defaults.value

/-- Adds or replaces several entries. -/
def extend (r : Registry α) (more : OrderedMap (Defaults α)) : Registry α :=
  ⟨r.entries.extend more.entries⟩

/-- The group of the fields that configure the run. -/
def settingsGroup : String := "Numerical"

section Standard

variable [Scalar α]

private def setting (value : α) (units definition : String) : Defaults α :=
  { value := some value
    metadata := { units := units, definition := definition, group := settingsGroup } }

private def parameter (value : α) (units definition group : String) : Defaults α :=
  { value := some value
    metadata := { units := units, definition := definition, group := group } }

/-- **The standard registry** — the settings of a run and common macro-economic parameters. -/
def standard : Registry α :=
  ⟨.ofList
    [("Tini", setting (Scalar.ofNat 0) "y" "Initial time"),
      ("Tmax", setting (Scalar.ofNat 100) "y" "Total simulated time"),
      ("dt", setting (Scalar.ofQuot 1 100) "y" "Time between two steps"),
      ("nx", setting (Scalar.ofNat 1) "" "Number of parallel runs"),
      ("nr", setting (Scalar.ofNat 1) "" "Number of regions"),
      ("time",
        { initial := some (Scalar.ofNat 0)
          metadata :=
            { units := "y", definition := "Time vector", comment := "dtime/dt = 1",
              group := settingsGroup } }),
      ("alpha",
        parameter (Scalar.ofQuot 2 100) "y^\x7b-1\x7d" "Rate of productivity increase"
          "Productivity"),
      ("n",
        parameter (Scalar.ofQuot 25 1000) "y^\x7b-1\x7d" "Rate of population growth" "Population"),
      ("delta",
        parameter (Scalar.ofQuot 5 1000) "y^\x7b-1\x7d" "Rate of capital depletion" "Capital"),
      ("nu", parameter (Scalar.ofNat 3) "" "Capital to output ratio" "Capital"),
      ("phinull",
        parameter (Scalar.ofQuot 4 100) "" "Unemployment rate with no salary increase"
          "Salary Negociation"),
      ("r", parameter (Scalar.ofQuot 3 100) "y^\x7b-1\x7d" "Interest on debt" "Banks"),
      ("k0",
        parameter (Scalar.ofQuot (-65) 10000) "" "Percent of GDP invested when profit is zero"
          "Investment"),
      ("k1",
        parameter (Scalar.exp (Scalar.ofQuot (-5) 1)) "" "Investment slope" "Investment"),
      ("k2", parameter (Scalar.ofNat 20) "" "Investment power in kappa" "Investment")]⟩

end Standard

end Registry

end FieldFlow
