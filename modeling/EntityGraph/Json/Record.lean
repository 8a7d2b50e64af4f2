import EntityGraph.Json.Basic

/-!
# Records and variants in JSON

How structured data is laid out in JSON. A record is an object with a member per field, or the list of the fields' values in
their declared order; unknown members count for nothing, a field given twice is refused, and so is a list that is too long. A
variant is its name, or an object whose only member is the name with what the variant holds.
-/

namespace EntityGraph.Json

/-- The value of the field with the given name, if it is given; nothing if it is given twice. -/
def field? (members : List (String × Json)) (name : String) : Option (Option Json) :=
  match members.filter fun member => member.1 == name with
  | [] => some none
  | [member] => some (some member.2)
  | _ => none

/-- The values of a record's fields, in the order of their names. -/
def record? (names : List String) : Json → Option (List (Option Json))
  | .object members => names.mapM (field? members)
  | .list items =>
    if items.length ≤ names.length then
      some (items.map some ++ List.replicate (names.length - items.length) none)
    else none
  | _ => none

/-- The name of a variant, with what it holds. -/
def variant? : Json → Option (String × Option Json)
  | .string name => some (name, none)
  | .object [(name, content)] => some (name, some content)
  | _ => none

/-- The name of a variant that holds nothing. -/
def unitVariant? (j : Json) : Option String :=
  match j.variant? with
  | some (name, none) => some name
  | some (name, some .null) => some name
  | _ => none

/-- Reads every item of a list. -/
def listOf? {α : Type} (read? : Json → Option α) : Json → Option (List α)
  | .list items => items.mapM read?
  | _ => none

end EntityGraph.Json
