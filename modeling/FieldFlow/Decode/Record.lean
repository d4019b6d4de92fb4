import FieldFlow.Json.Reader
import FieldFlow.OrderedMap
import FieldFlow.Scalar.Double

/-!
# Decode/Record — the common forms in which data is written as JSON

A record is an object, or a list of its members in their order. An object may have further keys,
whose values nobody looks at, but no known key twice; a list may not be too long. A choice is an
object with the name of the choice as its only key.
-/

namespace FieldFlow.Json

def float? : Json → Option Double
  | .number n => n.toFloat?.map Double.ofFloat
  | _ => none

def natural? : Json → Option Nat
  | .number n => n.toNat?
  | _ => none

def text? : Json → Option String
  | .string text => text
  | _ => none

def items? : Json → Option (List Json)
  | .array items => some items
  | _ => none

def list? {β : Type} (f : Json → Option β) (j : Json) : Option (List β) := do
  (← j.items?).mapM f

/-- Something that may be left open by `null`. -/
def nullable? {β : Type} (f : Json → Option β) : Json → Option (Option β)
  | .null => some none
  | j => (f j).map some

/-- The members of an object, if every key is a string. -/
def members? : Json → Option (List (String × Json))
  | .object members => members.mapM fun (key, value) => key.map fun key => (key, value)
  | _ => none

/-- A map from names to values; a name that is repeated keeps its place and has its last value. -/
def map? {β : Type} (f : Json → Option β) (j : Json) : Option (OrderedMap β) := do
  let entries ← (← j.members?).mapM fun (key, value) => (f value).map fun v => (key, v)
  return .ofList entries

/-- The value under a key that may not be repeated; the inner result says whether it is there. -/
def member? (members : List (String × Json)) (key : String) : Option (Option Json) :=
  match members.filter fun m => m.1 == key with
  | [] => some none
  | [m] => some (some m.2)
  | _ => none

/-- The members of a record, each with whether it is there. -/
def record? (keys : List String) (j : Json) : Option (List (Option Json)) :=
  match j with
  | .array items =>
    if items.length ≤ keys.length then
      some (items.map some ++ List.replicate (keys.length - items.length) none)
    else none
  | j => do
    let members ← j.members?
    keys.mapM (member? members)

/-- A member of a record that must be there. -/
def required {β : Type} (f : Json → Option β) (fields : List (Option Json)) (i : Nat) :
    Option β := do
  f (← (fields[i]?).join)

/-- A member of a record with a default. -/
def defaulted {β : Type} (f : Json → Option β) (fields : List (Option Json)) (i : Nat)
    (otherwise : β) : Option β :=
  match (fields[i]?).join with
  | some j => f j
  | none => some otherwise

/-- The name and the content of a choice that has one. -/
def choice? : Json → Option (String × Json)
  | .object [(some name, content)] => some (name, content)
  | _ => none

/-- The name of a choice without content: a string, or the only key of an object that says nothing
more. -/
def word? : Json → Option String
  | .string text => text
  | .object [(some name, .null)] => some name
  | _ => none

end FieldFlow.Json
