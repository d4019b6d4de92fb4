/-!
# Field/Kind — the words that classify fields and what is written about them
-/

namespace FieldFlow

/-- What a field is to a run. -/
inductive FieldKind where
  /-- Integrated through its own derivative. -/
  | dynamic
  /-- Recomputed from other fields at every evaluation. -/
  | algebraic
  /-- Fixed for the run, perhaps computed once from other parameters. -/
  | parameter
  /-- The length of a sector axis. -/
  | size
deriving DecidableEq, Repr

namespace FieldKind

/-- The word for a kind in messages. -/
def label : FieldKind → String
  | .dynamic => "differential"
  | .algebraic => "statevar"
  | .parameter => "parameter"
  | .size => "size"

/-- Whether values of this kind change in the course of a run. -/
def isTimeVarying : FieldKind → Bool
  | .dynamic | .algebraic => true
  | .parameter | .size => false

end FieldKind

/-- The part of a declaration that a field was written under. -/
inductive Category where
  | differential
  | statevar
  | parameter
  | size
  /-- The part whose fields are classified by what they carry. -/
  | unclassified
deriving DecidableEq, Repr

/-- The word for a category in messages. -/
def Category.label : Category → String
  | .differential => "differential"
  | .statevar => "statevar"
  | .parameter => "parameter"
  | .size => "size"
  | .unclassified => "fields"

/-- The four sorts of thing that an attribute of a field can hold. -/
inductive AttributeSort where
  | function
  | value
  | text
  | nameList
deriving DecidableEq, Repr

/-- The word for a sort of attribute in messages. -/
def AttributeSort.label : AttributeSort → String
  | .function => "function"
  | .value => "value"
  | .text => "text"
  | .nameList => "name list"

/-- The input through which a dynamic field reads its own current value. -/
def itself : String := "itself"

/-- The name of the sector axis of length one, which every field has without declaring it. -/
def unitAxis : String := "__ONE__"

end FieldFlow
