import EntityGraph.Command.Basic
import EntityGraph.Condition.Json
import EntityGraph.Condition.Text

/-!
# Reports

What the commands print, as lines of text or as JSON.
-/

namespace EntityGraph

/-- Every line with its end. -/
def linesText (lines : List String) : String := String.join (lines.map (· ++ "\n"))

namespace Relationship

/-- A relationship in JSON, without the kind that has it. -/
def summary (r : Relationship) : Json :=
  .object [("field", .string r.field), ("related_kind", .string r.relatedKind), ("label", .string r.label),
    ("direction", .string r.direction.name), ("cardinality", .string r.cardinality.name),
    ("mirror", .ofOption (r.mirror.map .string))]

/-- An arrow along the edges of a relationship. -/
def arrow (r : Relationship) : String :=
  match r.direction with
  | .outgoing => "-[:" ++ r.label ++ "]->"
  | .incoming => "<-[:" ++ r.label ++ "]-"

def line (r : Relationship) : String :=
  let mirror := match r.mirror with
    | some field => " (mirror: " ++ r.relatedKind ++ "." ++ field ++ ")"
    | none => ""
  "  " ++ r.field ++ " " ++ r.arrow ++ " " ++ r.relatedKind ++ " [" ++ r.cardinality.name ++ "]" ++ mirror

end Relationship

namespace EntityKind

def summary (kind : EntityKind) : Json :=
  .object [("name", .string kind.name), ("attributes", .list (kind.attributes.map AttributeDecl.toJson)),
    ("relationships", .list (kind.relationships.map Relationship.summary))]

def lines (kind : EntityKind) : List String :=
  kind.name :: (kind.attributes.map fun a => "  " ++ a.name ++ ": " ++ a.type.name) ++ kind.relationships.map Relationship.line

end EntityKind

namespace Schema

def summary (schema : Schema) : Json := .list (schema.kindList.map EntityKind.summary)

/-- The kinds, each after an empty line, below their number. -/
def lines (schema : Schema) : List String :=
  ("Schema OK: " ++ toString schema.kindList.length ++ " kinds") :: schema.kindList.flatMap fun kind => "" :: kind.lines

end Schema

namespace FieldDescription

def lines : FieldDescription → List String
  | .scalar name type _ operators => ["  " ++ name ++ ": " ++ type ++ " [" ++ ", ".intercalate operators ++ "]"]
  | .relationship name relatedKind _ _ quantifiers =>
    ("  " ++ name ++ ": " ++ relatedKind) :: quantifiers.map fun q => "    " ++ q.1 ++ ": " ++ q.2

end FieldDescription

namespace FilterDescription

def lines (d : FilterDescription) : List String :=
  [d.kind ++ " (" ++ d.typeName ++ ")", "  combinators: " ++ ", ".intercalate d.combinators] ++
    d.fields.flatMap FieldDescription.lines

/-- Several descriptions, with an empty line between them. -/
def allLines (ds : List FilterDescription) : List String := (ds.map lines).intersperse [""] |>.flatten

end FilterDescription

/-- A compiled filter in JSON. -/
def compiledJson (kind : String) (subject : Variable) (condition : Condition) : Json :=
  .object [("kind", .string kind), ("variable", .string subject.name), ("cypher", .string condition.render),
    ("condition", condition.toJson)]

/-- A node of a result: its id and its attributes. -/
def DatasetNode.line (node : DatasetNode) : String :=
  node.id ++ " " ++ " ".intercalate (node.attributes.toList.map fun (name, value) => name ++ "=" ++ value.render)

/-- The nodes of a kind that a query found. That there are none is said, unless it is to be quiet. -/
def resultLines (kind : String) (quiet : Bool) (nodes : List DatasetNode) : List String :=
  if nodes.isEmpty && !quiet then ["No " ++ kind ++ " nodes matched"] else nodes.map DatasetNode.line

end EntityGraph
