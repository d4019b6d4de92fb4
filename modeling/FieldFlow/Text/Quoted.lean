import FieldFlow.Text.Printable

/-!
# Text/Quoted — names and sizes in brackets, as messages list them

A name stands in double quotes, so that a name with a comma or a blank in it cannot be taken for
two; what could not be read off the message is escaped.
-/

namespace FieldFlow.Text

/-- A number in lower-case hexadecimal. -/
def hexadecimal (n : Nat) : String := String.ofList (Nat.toDigits 16 n)

/-- One character of a quoted text. -/
def escape (c : Char) : String :=
  match c with
  | '\x00' => "\\0"
  | '\t' => "\\t"
  | '\r' => "\\r"
  | '\n' => "\\n"
  | '"' => "\\\""
  | '\\' => "\\\\"
  | c => if isShown c then c.toString else "\\u\x7b" ++ hexadecimal c.toNat ++ "\x7d"

def quote (text : String) : String :=
  "\"" ++ String.join (text.toList.map escape) ++ "\""

/-- Items in square brackets, with a comma and a blank between them. -/
def bracketed (items : List String) : String := "[" ++ ", ".intercalate items ++ "]"

/-- A list of names. -/
def quotedList (names : List String) : String := bracketed (names.map quote)

/-- A list of sizes. -/
def sizeList (sizes : List Nat) : String := bracketed (sizes.map toString)

end FieldFlow.Text
