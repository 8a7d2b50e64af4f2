import EntityGraph.Json.Writer
import EntityGraph.Text.Literal

/-!
# Values

A `Value` is what an attribute of an entity holds and what a filter compares it with. Integers and floating-point numbers
compare as numbers, across the two types; null equals nothing, not even itself, and values of different types have no order.
-/

namespace EntityGraph

/-- A scalar value. -/
inductive Value
  | null
  | bool (value : Bool)
  | int (value : Int64)
  | float (value : Binary64)
  | string (value : String)
deriving DecidableEq, Repr

namespace Value

def isNull : Value → Bool
  | .null => true
  | _ => false

/-- The characters of a string. -/
def string? : Value → Option String
  | .string s => some s
  | _ => none

def typeName : Value → String
  | .null => "null"
  | .bool _ => "boolean"
  | .int _ => "int"
  | .float _ => "float"
  | .string _ => "string"

/-- Whether two values are of one type and the same. Numbers of floating point are the same if they are numerically equal. -/
def same : Value → Value → Bool
  | .null, .null => true
  | .bool a, .bool b => a == b
  | .int a, .int b => a == b
  | .float a, .float b => a.numEq b
  | .string a, .string b => a == b
  | _, _ => false

/-- Equality as filters see it: an integer equals a floating-point number if its rounded value does, and null equals nothing. -/
def looseEq : Value → Value → Bool
  | .int a, .float b => (Binary64.ofInt a.toInt).numEq b
  | .float a, .int b => (Binary64.ofInt b.toInt).numEq a
  | .null, _ => false
  | _, .null => false
  | a, b => a.same b

/-- The order of two numbers or of two strings. Strings are ordered by their characters' code points. -/
def compare? : Value → Value → Option Ordering
  | .int a, .int b => some (compare a.toInt b.toInt)
  | .float a, .float b => a.compare? b
  | .int a, .float b => (Binary64.ofInt a.toInt).compare? b
  | .float a, .int b => a.compare? (Binary64.ofInt b.toInt)
  | .string a, .string b => some (compare a b)
  | _, _ => none

/-! ## Text -/

/-- Numbers in conditions are written with the fewest digits that identify them, without exponent from `0.0001` up to `10^16`. -/
def numberLayout : DecimalNotation where
  plainFrom := -4
  plainBelow := 16
  exponentPlus := false
  tie := .up

def floatText (x : Binary64) : String :=
  if x.isNaN then "NaN" else if x.isFinite then numberLayout.render x else if x.isNegative then "-inf" else "inf"

/-- The text of a value in a condition. -/
def render : Value → String
  | .null => "NULL"
  | .bool b => if b then "true" else "false"
  | .int n => toString n.toInt
  | .float x => floatText x
  | .string s => Text.Literal.render s

/-! ## JSON -/

def toJson : Value → Json
  | .null => .null
  | .bool b => .bool b
  | .int n => .int n.toInt
  | .float x => .float x
  | .string s => .string s

/-- The value that a JSON scalar stands for. An integer beyond 64 signed bits becomes a floating-point number. -/
def ofJson? : Json → Option Value
  | .null => some .null
  | .bool b => some (.bool b)
  | .int n => some (if Json.fitsInt64 n then .int (Int64.ofInt n) else .float (Binary64.ofInt n))
  | .float x => some (.float x)
  | .string s => some (.string s)
  | .list _ => none
  | .object _ => none

end Value

end EntityGraph
