import EntityGraph.Condition.Basic

/-!
# The text of conditions

Conditions are rendered as the boolean part of a graph query. Conjunctions and disjunctions stand in parentheses, also with a
single member, and without members as the truth value they have.
-/

namespace EntityGraph

def EdgePattern.render (pattern : EdgePattern) : String :=
  let edge := "[:" ++ pattern.label ++ "]"
  let arrow := match pattern.direction with
    | .outgoing => "-" ++ edge ++ "->"
    | .incoming => "<-" ++ edge ++ "-"
  "(" ++ pattern.root.name ++ ")" ++ arrow ++ "(" ++ pattern.related.name ++ ")"

namespace Condition

/-- The members of a conjunction or disjunction with the word between them. -/
def joined (word empty : String) (parts : List String) : String :=
  if parts.isEmpty then empty else "(" ++ word.intercalate parts ++ ")"

mutual

/-- The text of a condition. -/
def render : Condition → String
  | .true => "true"
  | .false => "false"
  | .compare v attr op value => v.name ++ "." ++ attr ++ " " ++ op.symbol ++ " " ++ value.render
  | .isIn v attr values => v.name ++ "." ++ attr ++ " IN [" ++ ", ".intercalate (values.map Value.render) ++ "]"
  | .isNull v attr => v.name ++ "." ++ attr ++ " IS NULL"
  | .and conditions => joined " AND " "true" (renderAll conditions)
  | .or conditions => joined " OR " "false" (renderAll conditions)
  | .not condition => "NOT (" ++ condition.render ++ ")"
  | .quantified quantifier pattern predicate =>
    quantifier.function ++ "(" ++ pattern.related.name ++ " IN [" ++ pattern.render ++ " | " ++ pattern.related.name ++
      "] WHERE " ++ predicate.render ++ ")"

def renderAll : List Condition → List String
  | [] => []
  | c :: cs => c.render :: renderAll cs

end

end Condition

end EntityGraph
