import EntityGraph.Condition.Basic
import EntityGraph.Schema.Declaration

/-!
# Filter operators

The operators that a filter may apply to an attribute, and which of them the attribute's type has.
-/

namespace EntityGraph

/-- An operator on an attribute. -/
inductive Operator
  | equals
  | notEquals
  | isIn
  | isNull
  | lt
  | lte
  | gt
  | gte
  | contains
  | startsWith
  | endsWith
deriving DecidableEq, Repr

namespace Operator

def name : Operator → String
  | .equals => "equals"
  | .notEquals => "notEquals"
  | .isIn => "in"
  | .isNull => "isNull"
  | .lt => "lt"
  | .lte => "lte"
  | .gt => "gt"
  | .gte => "gte"
  | .contains => "contains"
  | .startsWith => "startsWith"
  | .endsWith => "endsWith"

/-- The operators that test for equality. -/
def equality : List Operator := [.equals, .notEquals, .isIn, .isNull]

/-- The operators on numbers. -/
def numeric : List Operator := equality ++ [.lt, .lte, .gt, .gte]

/-- The operators on text, which are all there are. -/
def text : List Operator := numeric ++ [.contains, .startsWith, .endsWith]

/-- The operators on truth values. -/
def boolean : List Operator := [.equals, .notEquals, .isNull]

def ofName? (name : String) : Option Operator := text.find? fun op => op.name == name

/-- The comparison with a single value that the operator makes. -/
def comparison? : Operator → Option Comparison
  | .equals => some .eq
  | .notEquals => some .neq
  | .lt => some .lt
  | .lte => some .lte
  | .gt => some .gt
  | .gte => some .gte
  | .contains => some .contains
  | .startsWith => some .startsWith
  | .endsWith => some .endsWith
  | .isIn => none
  | .isNull => none

end Operator

/-- The operators that filters have on attributes of a type. -/
def AttributeType.operators? : AttributeType → Option (List Operator)
  | .string => some Operator.text
  | .int => some Operator.numeric
  | .float => some Operator.numeric
  | .id => some Operator.equality
  | .boolean => some Operator.boolean
  | .other _ => none

end EntityGraph
