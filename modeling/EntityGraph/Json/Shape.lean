import EntityGraph.Json.Basic

/-!
# Shapes

A `Shape` tells which parts of a value count for a reader. A record names its fields; whatever else is written at its place counts
for nothing.
-/

namespace EntityGraph.Json

/-- The parts of a value that count. -/
inductive Shape
  /-- The value as a whole. -/
  | whole
  /-- The items of a list. -/
  | list (item : Shape)
  /-- The fields of a record, in their declared order. -/
  | record (fields : List (String × Shape))
  /-- The name of a variant that holds nothing. -/
  | variant

end EntityGraph.Json
