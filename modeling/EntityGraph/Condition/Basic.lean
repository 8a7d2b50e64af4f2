import EntityGraph.Direction
import EntityGraph.Value
import EntityGraph.Variable

/-!
# Conditions

A `Condition` is a boolean formula over pattern variables. It compares attributes of the nodes that variables stand for, and a
quantified condition brings in a variable of its own, which stands for each of the nodes that a pattern relates to another one.
-/

namespace EntityGraph

/-- The edges with a label between the nodes that two variables stand for, seen from the root. -/
structure EdgePattern where
  root : Variable
  related : Variable
  label : String
  direction : Direction
deriving DecidableEq, Repr

/-- How an attribute is compared with a value. -/
inductive Comparison
  | eq
  | neq
  | lt
  | lte
  | gt
  | gte
  | contains
  | startsWith
  | endsWith
deriving DecidableEq, Repr

namespace Comparison

def all : List Comparison := [.eq, .neq, .lt, .lte, .gt, .gte, .contains, .startsWith, .endsWith]

/-- The name in the JSON form of conditions. -/
def name : Comparison → String
  | .eq => "eq"
  | .neq => "neq"
  | .lt => "lt"
  | .lte => "lte"
  | .gt => "gt"
  | .gte => "gte"
  | .contains => "contains"
  | .startsWith => "starts_with"
  | .endsWith => "ends_with"

def ofName? (name : String) : Option Comparison := all.find? fun op => op.name == name

/-- The operator in the text of conditions. -/
def symbol : Comparison → String
  | .eq => "="
  | .neq => "<>"
  | .lt => "<"
  | .lte => "<="
  | .gt => ">"
  | .gte => ">="
  | .contains => "CONTAINS"
  | .startsWith => "STARTS WITH"
  | .endsWith => "ENDS WITH"

end Comparison

/-- Of how many related nodes a condition is asked. -/
inductive Quantifier
  | all
  | some
  | none
deriving DecidableEq, Repr

namespace Quantifier

def every : List Quantifier := [.all, .some, .none]

def name : Quantifier → String
  | .all => "all"
  | .some => "some"
  | .none => "none"

def ofName? (name : String) : Option Quantifier := every.find? fun q => q.name == name

def description (q : Quantifier) : String :=
  "Filters for nodes where " ++ q.name ++ " of the related nodes match this filter"

/-- The function that stands for the quantifier in the text of conditions. -/
def function : Quantifier → String
  | .all => "all"
  | .some => "any"
  | .none => "none"

end Quantifier

/-- A boolean formula over the nodes that variables stand for. -/
inductive Condition
  | true
  | false
  | compare (subject : Variable) (attr : String) (op : Comparison) (value : Value)
  | isIn (subject : Variable) (attr : String) (values : List Value)
  | isNull (subject : Variable) (attr : String)
  | and (conditions : List Condition)
  | or (conditions : List Condition)
  | not (condition : Condition)
  | quantified (quantifier : Quantifier) (pattern : EdgePattern) (predicate : Condition)

namespace Condition

/-- The conjunction of conditions; a single one stands for itself. -/
def allOf : List Condition → Condition
  | [] => .true
  | [c] => c
  | cs => .and cs

/-- The disjunction of conditions; a single one stands for itself. -/
def anyOf : List Condition → Condition
  | [] => .false
  | [c] => c
  | cs => .or cs

end Condition

end EntityGraph
