import FieldFlow.Json.Number

/-!
# Json/Value — JSON documents as they are written

A document keeps what its text says — the digits of a number, the order and the repetition of keys —
because what is acceptable depends on who reads it: a reader that skips a value does not mind a
number that is too large for any float.
-/

namespace FieldFlow

/-- A JSON document. A text with half a surrogate pair in it stands for no string and is `none`. -/
inductive Json where
  | null
  | bool (b : Bool)
  | number (n : NumberLiteral)
  | string (text : Option String)
  | array (items : List Json)
  | object (members : List (Option String × Json))

namespace Json

mutual

/-- How deeply arrays and objects are nested. -/
def depth : Json → Nat
  | .array items => depthOfItems items + 1
  | .object members => depthOfMembers members + 1
  | _ => 0

def depthOfItems : List Json → Nat
  | [] => 0
  | item :: rest => max item.depth (depthOfItems rest)

def depthOfMembers : List (Option String × Json) → Nat
  | [] => 0
  | (_, value) :: rest => max value.depth (depthOfMembers rest)

end

mutual

/-- Whether every number fits a float and every text is a string. -/
def isSound : Json → Bool
  | .number n => n.toFloat?.isSome
  | .string text => text.isSome
  | .array items => areSound items
  | .object members => membersAreSound members
  | .null | .bool _ => true

def areSound : List Json → Bool
  | [] => true
  | item :: rest => item.isSound && areSound rest

def membersAreSound : List (Option String × Json) → Bool
  | [] => true
  | (key, value) :: rest => key.isSome && value.isSound && membersAreSound rest

end

end Json

end FieldFlow
