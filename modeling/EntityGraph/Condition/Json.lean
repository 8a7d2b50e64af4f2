import EntityGraph.Condition.Basic
import EntityGraph.Json.Record

/-!
# Conditions in JSON

Every form of a condition is a variant named for it. `Condition.toJson` writes a condition; `Condition.ofJson?` reads one back
and refuses what has another shape.
-/

namespace EntityGraph

def Variable.ofJson? (j : Json) : Option Variable := j.string?.map Variable.mk

def Comparison.ofJson? (j : Json) : Option Comparison := j.unitVariant?.bind Comparison.ofName?

def Quantifier.ofJson? (j : Json) : Option Quantifier := j.unitVariant?.bind Quantifier.ofName?

namespace EdgePattern

def toJson (pattern : EdgePattern) : Json :=
  .object [("root", .string pattern.root.name), ("related", .string pattern.related.name), ("label", .string pattern.label),
    ("direction", .string pattern.direction.name)]

def ofJson? (j : Json) : Option EdgePattern :=
  match j.record? ["root", "related", "label", "direction"] with
  | some [some root, some related, some label, some direction] => do
    return ⟨← Variable.ofJson? root, ← Variable.ofJson? related, ← label.string?, ← Direction.ofJson? direction⟩
  | _ => none

end EdgePattern

namespace Condition

mutual

/-- The JSON form of a condition. -/
def toJson : Condition → Json
  | .true => .string "true"
  | .false => .string "false"
  | .compare v attr op value =>
    .object [("compare", .object [("variable", .string v.name), ("attribute", .string attr), ("op", .string op.name),
      ("value", value.toJson)])]
  | .isIn v attr values =>
    .object [("in", .object [("variable", .string v.name), ("attribute", .string attr),
      ("values", .list (values.map Value.toJson))])]
  | .isNull v attr =>
    .object [("is_null", .object [("variable", .string v.name), ("attribute", .string attr)])]
  | .and conditions => .object [("and", .list (toJsonAll conditions))]
  | .or conditions => .object [("or", .list (toJsonAll conditions))]
  | .not condition => .object [("not", condition.toJson)]
  | .quantified quantifier pattern predicate =>
    .object [("quantified", .object [("quantifier", .string quantifier.name), ("pattern", pattern.toJson),
      ("predicate", predicate.toJson)])]

def toJsonAll : List Condition → List Json
  | [] => []
  | c :: cs => c.toJson :: toJsonAll cs

end

/-- The fields of a form that is an object, in the order of their names. -/
def fields? (names : List String) : Json → Option (List (Option Json))
  | .object members => names.mapM (Json.field? members)
  | _ => none

/-- The condition that a form without conditions inside stands for. -/
def ofLeaf? (name : String) (content : Json) : Option Condition :=
  if name = "compare" then
    match fields? ["variable", "attribute", "op", "value"] content with
    | some [some v, some attr, some op, some value] => do
      return .compare (← Variable.ofJson? v) (← attr.string?) (← Comparison.ofJson? op) (← Value.ofJson? value)
    | _ => none
  else if name = "in" then
    match fields? ["variable", "attribute", "values"] content with
    | some [some v, some attr, some values] => do
      return .isIn (← Variable.ofJson? v) (← attr.string?) (← values.listOf? Value.ofJson?)
    | _ => none
  else if name = "is_null" then
    match fields? ["variable", "attribute"] content with
    | some [some v, some attr] => do return .isNull (← Variable.ofJson? v) (← attr.string?)
    | _ => none
  else none

mutual

/-- The condition that a JSON value stands for. -/
def ofJson? : Json → Option Condition
  | .string name => if name = "true" then some .true else if name = "false" then some .false else none
  | .object [(name, content)] =>
    if name = "true" then (match content with | .null => some .true | _ => none)
    else if name = "false" then (match content with | .null => some .false | _ => none)
    else if name = "and" then (ofList? content).map .and
    else if name = "or" then (ofList? content).map .or
    else if name = "not" then (ofJson? content).map .not
    else if name = "quantified" then ofQuantified? content
    else ofLeaf? name content
  | _ => none

/-- The conditions that a JSON list stands for. -/
def ofList? : Json → Option (List Condition)
  | .list items => ofItems? items
  | _ => none

def ofItems? : List Json → Option (List Condition)
  | [] => some []
  | j :: js => do return (← ofJson? j) :: (← ofItems? js)

/-- The quantified condition whose fields an object holds. -/
def ofQuantified? : Json → Option Condition
  | .object members =>
    match Json.field? members "quantifier", Json.field? members "pattern", predicate? members with
    | some (some quantifier), some (some pattern), some predicate => do
      return .quantified (← Quantifier.ofJson? quantifier) (← EdgePattern.ofJson? pattern) predicate
    | _, _, _ => none
  | _ => none

/-- The condition under the key of the predicate, which is given once. -/
def predicate? : List (String × Json) → Option Condition
  | [] => none
  | (key, j) :: rest =>
    if key = "predicate" then (if rest.any (fun member => member.1 == "predicate") then none else ofJson? j)
    else predicate? rest

end

end Condition

end EntityGraph
