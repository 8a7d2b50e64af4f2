import EntityGraph.Json.Shape

/-!
# Records and variants in TOML

Structured data is laid out in TOML as in JSON, with two liberties. A record that is a list may have items beyond its fields, which
count for nothing, and a variant that holds nothing may be a table whose only key is its name, with an empty list or table.
`Toml.arrange` takes both away, so that what remains is laid out as in JSON.
-/

namespace EntityGraph.Toml

mutual

/-- The value with its records and variants laid out as in JSON; the shape tells where they are. -/
def arrange : Json.Shape → Json → Json
  | .list item, .list items => .list (arrangeItems item items)
  | .record fields, .list items => .list (arrangeFields (fields.map Prod.snd) items)
  | .record fields, .object members => .object (arrangeMembers fields members)
  | .variant, .object [(name, .list [])] => .string name
  | .variant, .object [(name, .object [])] => .string name
  | _, j => j

def arrangeItems (item : Json.Shape) : List Json → List Json
  | [] => []
  | j :: js => arrange item j :: arrangeItems item js

/-- The items of a record that is a list, as far as there are fields. -/
def arrangeFields : List Json.Shape → List Json → List Json
  | shape :: shapes, j :: js => arrange shape j :: arrangeFields shapes js
  | _, _ => []

def arrangeMembers (fields : List (String × Json.Shape)) : List (String × Json) → List (String × Json)
  | [] => []
  | (key, j) :: rest => (key, arrange ((fields.lookup key).getD .whole) j) :: arrangeMembers fields rest

end

end EntityGraph.Toml
