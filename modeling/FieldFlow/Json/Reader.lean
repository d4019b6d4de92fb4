import FieldFlow.Json.Value

/-!
# Json/Reader — reading JSON text

The grammar is the strict one: no comments, no trailing commas, no control characters in strings, no
leading zeros, nothing but blanks around the document. Every reader takes a value from the front of
a text and returns what is left.
-/

namespace FieldFlow.Json

def isBlank (c : Char) : Bool := c = ' ' || c = '\t' || c = '\n' || c = '\r'

def skipBlanks (cs : List Char) : List Char := cs.dropWhile isBlank

/-! ## Numbers -/

/-- One or more digits. -/
def readDigits? (cs : List Char) : Option (List Nat × List Char) :=
  match cs.span Char.isDigit with
  | ([], _) => none
  | (digits, rest) => some (digits.map fun c => c.toNat - '0'.toNat, rest)

/-- The fraction of a number, which may be absent. -/
def readFraction? : List Char → Option (List Nat × List Char)
  | '.' :: cs => readDigits? cs
  | cs => some ([], cs)

/-- The exponent of a number, which may be absent. -/
def readExponent? : List Char → Option (Option Int × List Char)
  | c :: cs =>
    if c = 'e' || c = 'E' then
      match cs with
      | '-' :: rest => (readDigits? rest).map fun (ds, rest) => (some (-(digitsValue ds : Int)), rest)
      | '+' :: rest => (readDigits? rest).map fun (ds, rest) => (some (digitsValue ds : Int), rest)
      | rest => (readDigits? rest).map fun (ds, rest) => (some (digitsValue ds : Int), rest)
    else some (none, c :: cs)
  | [] => some (none, [])

/-- The digits before the point: `0`, or digits that do not begin with it. -/
def readInteger? : List Char → Option (List Nat × List Char)
  | '0' :: c :: cs => if c.isDigit then none else some ([0], c :: cs)
  | cs => readDigits? cs

/-- A number after its sign. -/
def readNumber? (negative : Bool) (cs : List Char) : Option (Json × List Char) := do
  let (integer, cs) ← readInteger? cs
  let (fraction, cs) ← readFraction? cs
  let (exponent, cs) ← readExponent? cs
  return (.number ⟨negative, integer, fraction, exponent⟩, cs)

/-! ## Strings -/

def hexDigit? (c : Char) : Option Nat :=
  if c.isDigit then some (c.toNat - '0'.toNat)
  else if 'a' ≤ c && c ≤ 'f' then some (c.toNat - 'a'.toNat + 10)
  else if 'A' ≤ c && c ≤ 'F' then some (c.toNat - 'A'.toNat + 10)
  else none

def hexValue? (a b c d : Char) : Option Nat := do
  return (((← hexDigit? a) * 16 + (← hexDigit? b)) * 16 + (← hexDigit? c)) * 16 + (← hexDigit? d)

/-- The character of a one-letter escape. -/
def simpleEscape? : Char → Option Char
  | '"' => some '"'
  | '\\' => some '\\'
  | '/' => some '/'
  | 'b' => some '\x08'
  | 'f' => some '\x0c'
  | 'n' => some '\n'
  | 'r' => some '\r'
  | 't' => some '\t'
  | _ => none

/-- What a string has said so far: its characters, last one first, unless half a surrogate pair
stood in it. -/
abbrev Scanned := Option (List Char)

/-- A code unit after a possible first half of a surrogate pair, which waits in `high`. -/
def addUnit (high : Option Nat) (scanned : Scanned) (unit : Nat) : Option Nat × Scanned :=
  match high with
  | some h =>
    if 0xDC00 ≤ unit && unit ≤ 0xDFFF then
      (none, scanned.map (Char.ofNat (0x10000 + (h - 0xD800) * 0x400 + (unit - 0xDC00)) :: ·))
    else (none, none)
  | none =>
    if 0xD800 ≤ unit && unit ≤ 0xDBFF then (some unit, scanned)
    else if 0xDC00 ≤ unit && unit ≤ 0xDFFF then (none, none)
    else (none, scanned.map (Char.ofNat unit :: ·))

/-- An ordinary character after a possible first half of a surrogate pair. -/
def addChar (high : Option Nat) (scanned : Scanned) (c : Char) : Scanned :=
  if high.isSome then none else scanned.map (c :: ·)

/-- The rest of a string after its opening quote. -/
def readText? (high : Option Nat) (scanned : Scanned) :
    List Char → Option (Option String × List Char)
  | [] => none
  | '"' :: cs =>
    let complete := if high.isSome then none else scanned
    some (complete.map fun chars => String.ofList chars.reverse, cs)
  | '\\' :: 'u' :: a :: b :: c :: d :: cs =>
    match hexValue? a b c d with
    | none => none
    | some unit =>
      let next := addUnit high scanned unit
      readText? next.1 next.2 cs
  | '\\' :: e :: cs =>
    match simpleEscape? e with
    | none => none
    | some c => readText? none (addChar high scanned c) cs
  | c :: cs =>
    if c.toNat < 0x20 || c = '\\' then none else readText? none (addChar high scanned c) cs

/-- The text of a string after its opening quote. -/
def readString? (cs : List Char) : Option (Option String × List Char) := readText? none (some []) cs

/-! ## Documents -/

mutual

/-- One value; the depth of the recursion is bounded by `fuel`. -/
def readValue? (fuel : Nat) (cs : List Char) : Option (Json × List Char) :=
  match fuel with
  | 0 => none
  | fuel + 1 =>
    match skipBlanks cs with
    | 'n' :: 'u' :: 'l' :: 'l' :: rest => some (.null, rest)
    | 't' :: 'r' :: 'u' :: 'e' :: rest => some (.bool true, rest)
    | 'f' :: 'a' :: 'l' :: 's' :: 'e' :: rest => some (.bool false, rest)
    | '"' :: rest => (readString? rest).map fun (text, rest) => (.string text, rest)
    | '[' :: rest =>
      match skipBlanks rest with
      | ']' :: rest => some (.array [], rest)
      | rest => readItems? fuel [] rest
    | '{' :: rest =>
      match skipBlanks rest with
      | '}' :: rest => some (.object [], rest)
      | rest => readMembers? fuel [] rest
    | '-' :: rest => readNumber? true rest
    | rest => readNumber? false rest

/-- The items of an array, up to its closing bracket. -/
def readItems? (fuel : Nat) (found : List Json) (cs : List Char) : Option (Json × List Char) :=
  match fuel with
  | 0 => none
  | fuel + 1 =>
    match readValue? fuel cs with
    | none => none
    | some (item, rest) =>
      match skipBlanks rest with
      | ',' :: rest => readItems? fuel (item :: found) rest
      | ']' :: rest => some (.array (item :: found).reverse, rest)
      | _ => none

/-- The members of an object, up to its closing brace. -/
def readMembers? (fuel : Nat) (found : List (Option String × Json)) (cs : List Char) :
    Option (Json × List Char) :=
  match fuel with
  | 0 => none
  | fuel + 1 =>
    match skipBlanks cs with
    | '"' :: rest =>
      match readString? rest with
      | none => none
      | some (key, rest) =>
        match skipBlanks rest with
        | ':' :: rest =>
          match readValue? fuel rest with
          | none => none
          | some (value, rest) =>
            match skipBlanks rest with
            | ',' :: rest => readMembers? fuel ((key, value) :: found) rest
            | '}' :: rest => some (.object ((key, value) :: found).reverse, rest)
            | _ => none
        | _ => none
    | _ => none

end

/-- **Reading a document.** Every value and every item takes at least one character, so twice the
length of the text bounds the recursion. -/
def read? (text : String) : Option Json :=
  let cs := text.toList
  match readValue? (2 * cs.length + 2) cs with
  | some (value, rest) => if (skipBlanks rest).isEmpty then some value else none
  | none => none

end FieldFlow.Json
