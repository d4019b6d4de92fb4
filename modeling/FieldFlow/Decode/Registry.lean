import FieldFlow.Decode.Record
import FieldFlow.Registry

/-!
# Decode/Registry — registry entries written as JSON

An entry is an object. Its further keys are ignored, but their values are read in full, so a number
that is too large or a nesting that is too deep is refused in them too.
-/

namespace FieldFlow

open Json

/-- Nesting of arrays and objects that is still read. -/
def maxNesting : Nat := 127

/-- The text under a key of an entry. -/
def entryText? (members : List (String × Json)) (key : String) : Option String := do
  match ← member? members key with
  | some j => j.text?
  | none => some ""

/-- The number under a key of an entry; `null` is the same as leaving it out. -/
def entryNumber? (members : List (String × Json)) (key : String) : Option (Option Double) := do
  match ← member? members key with
  | some j => nullable? float? j
  | none => some none

/-- An entry that stands at the given depth of nesting. -/
def Defaults.ofJson? (nesting : Nat) (j : Json) : Option (Defaults Double) := do
  let members ← j.members?
  let value ← entryNumber? members "value"
  let initial ← entryNumber? members "initial"
  if members.any fun m => !m.2.isSound || maxNesting < nesting + m.2.depth then none
  let metadata : Metadata := {
    units := ← entryText? members "units"
    definition := ← entryText? members "definition"
    comment := ← entryText? members "com"
    symbol := ← entryText? members "symbol"
    group := ← entryText? members "group" }
  return ⟨value, initial, metadata⟩

/-- A whole registry: a record with its entries under `fields`. -/
def Registry.ofJson? (j : Json) : Option (Registry Double) := do
  let fields ← j.record? ["fields"]
  return ⟨← required (map? (Defaults.ofJson? 3)) fields 0⟩

/-- Why a text of registry entries was refused. -/
inductive EntriesDefect where
  | unreadable
  | emptyName
  | valueAndInitial (name : String)
deriving DecidableEq, Repr

def EntriesDefect.message : EntriesDefect → String
  | .unreadable => "Failed to parse field registry JSON."
  | .emptyName => "Field registry JSON contains an empty field name."
  | .valueAndInitial name =>
    "Registry entry `" ++ name ++ "` declares both `value` and `initial`."

/-- The first entry that cannot stand in a registry. -/
def entryDefect? (name : String) (d : Defaults Double) : Option EntriesDefect :=
  if name.isEmpty then some .emptyName
  else if d.value.isSome && d.initial.isSome then some (.valueAndInitial name)
  else none

/-- **Extending a registry** by entries written as a JSON object; existing entries are replaced. The
number of entries read comes with the result. -/
def Registry.extendFromText (r : Registry Double) (text : String) :
    Except EntriesDefect (Registry Double × Nat) :=
  match (read? text).bind (map? (Defaults.ofJson? 2)) with
  | none => .error .unreadable
  | some entries =>
    match entries.entries.findSome? fun (name, d) => entryDefect? name d with
    | some defect => .error defect
    | none => .ok (r.extend entries, entries.size)

end FieldFlow
