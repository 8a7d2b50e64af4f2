import EntityGraph.Number.Decimal
import Std.Data.ExtTreeMap

/-!
# JSON values

`Json` keeps integers and floating-point numbers apart, and the members of an object in the order they were given.
`Json.normalize` puts the members of every object in key order, each key once.
-/

namespace EntityGraph

/-- A JSON value. An `int` is a number that was written without fraction and exponent and fits 64 bits, signed or unsigned. -/
inductive Json
  | null
  | bool (value : Bool)
  | int (value : Int)
  | float (value : Binary64)
  | string (value : String)
  | list (items : List Json)
  | object (members : List (String × Json))

namespace Json

/-- Whether an integer fits 64 bits with a sign. -/
def fitsInt64 (n : Int) : Bool := Int64.minValue.toInt ≤ n && n ≤ Int64.maxValue.toInt

/-- The name of the sort of value, as messages show it. -/
def typeName : Json → String
  | .null => "null"
  | .bool _ => "boolean"
  | .int _ => "int"
  | .float _ => "float"
  | .string _ => "string"
  | .list _ => "list"
  | .object _ => "object"

def string? : Json → Option String
  | .string s => some s
  | _ => none

def list? : Json → Option (List Json)
  | .list items => some items
  | _ => none

def bool? : Json → Option Bool
  | .bool b => some b
  | _ => none

/-- The value of the last member with the given name. -/
def get? (name : String) : Json → Option Json
  | .object members => members.reverse.lookup name
  | _ => none

/-- A value that may be absent. -/
def ofOption (value? : Option Json) : Json := value?.getD .null

def ofStrings (texts : List String) : Json := .list (texts.map .string)

mutual

/-- The same value with the members of every object in key order; of members with one key the last counts. -/
def normalize : Json → Json
  | .list items => .list (normalizeItems items)
  | .object members => .object (Std.ExtTreeMap.ofList (normalizeMembers members) compare).toList
  | j => j

def normalizeItems : List Json → List Json
  | [] => []
  | j :: js => j.normalize :: normalizeItems js

def normalizeMembers : List (String × Json) → List (String × Json)
  | [] => []
  | (key, j) :: rest => (key, j.normalize) :: normalizeMembers rest

end

end Json

end EntityGraph
