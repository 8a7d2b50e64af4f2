import EntityGraph.Direction
import EntityGraph.Json.Shape

/-!
# Declarations

A schema is declared as a list of kinds of entities, each with its attributes and its relationships to other kinds. The JSON
form of a declaration leaves out attributes, relationships and cardinalities that have their default.
-/

namespace EntityGraph

/-- The declared type of an attribute. -/
inductive AttributeType
  | string
  | int
  | float
  | boolean
  | id
  /-- A type that filters know nothing about. -/
  | other (name : String)
deriving DecidableEq, Repr

namespace AttributeType

def name : AttributeType → String
  | .string => "string"
  | .int => "int"
  | .float => "float"
  | .boolean => "boolean"
  | .id => "id"
  | .other name => name

/-- The type with a name, in capital or small letters. Letters of ASCII are all that matters: the one other character whose small
form is a letter of ASCII gives a `k`, which no name of a type has. -/
def ofName (name : String) : AttributeType :=
  let small := name.map Char.toLower
  if small = "string" ∨ small = "text" then .string
  else if small = "int" ∨ small = "integer" then .int
  else if small = "float" ∨ small = "double" then .float
  else if small = "boolean" ∨ small = "bool" then .boolean
  else if small = "id" then .id
  else .other name

end AttributeType

/-- A declared attribute. -/
structure AttributeDecl where
  name : String
  type : AttributeType
deriving DecidableEq, Repr

/-- A declared relationship of a kind. -/
structure RelationshipDecl where
  field : String
  /-- The kind of the related nodes. -/
  kind : String
  /-- The label of the edges it follows. -/
  label : String
  direction : Direction
  cardinality : Cardinality
deriving DecidableEq, Repr

/-- A declared kind of entities. -/
structure KindDecl where
  name : String
  attributes : List AttributeDecl
  relationships : List RelationshipDecl
deriving DecidableEq, Repr

/-! ## JSON -/

namespace AttributeDecl

def toJson (decl : AttributeDecl) : Json := .object [("name", .string decl.name), ("type", .string decl.type.name)]

def ofJson? (j : Json) : Option AttributeDecl :=
  match j.record? ["name", "type"] with
  | some [some name, some type] => do return ⟨← name.string?, AttributeType.ofName (← type.string?)⟩
  | _ => none

def shape : Json.Shape := .record [("name", .whole), ("type", .whole)]

end AttributeDecl

namespace RelationshipDecl

def toJson (decl : RelationshipDecl) : Json :=
  .object [("field", .string decl.field), ("kind", .string decl.kind), ("label", .string decl.label),
    ("direction", .string decl.direction.name), ("cardinality", .string decl.cardinality.name)]

def ofJson? (j : Json) : Option RelationshipDecl :=
  match j.record? ["field", "kind", "label", "direction", "cardinality"] with
  | some [some field, some kind, some label, some direction, cardinality?] => do
    return ⟨← field.string?, ← kind.string?, ← label.string?, ← Direction.ofJson? direction,
      ← (cardinality?.map Cardinality.ofJson?).getD (some .many)⟩
  | _ => none

def shape : Json.Shape :=
  .record [("field", .whole), ("kind", .whole), ("label", .whole), ("direction", .variant), ("cardinality", .variant)]

end RelationshipDecl

namespace KindDecl

def toJson (decl : KindDecl) : Json :=
  .object [("name", .string decl.name), ("attributes", .list (decl.attributes.map AttributeDecl.toJson)),
    ("relationships", .list (decl.relationships.map RelationshipDecl.toJson))]

def ofJson? (j : Json) : Option KindDecl :=
  match j.record? ["name", "attributes", "relationships"] with
  | some [some name, attributes?, relationships?] => do
    return ⟨← name.string?, ← (attributes?.map (Json.listOf? AttributeDecl.ofJson?)).getD (some []),
      ← (relationships?.map (Json.listOf? RelationshipDecl.ofJson?)).getD (some [])⟩
  | _ => none

def shape : Json.Shape :=
  .record [("name", .whole), ("attributes", .list AttributeDecl.shape), ("relationships", .list RelationshipDecl.shape)]

/-- The names of all fields, attributes first, in declared order. -/
def fieldNames (decl : KindDecl) : List String :=
  decl.attributes.map AttributeDecl.name ++ decl.relationships.map RelationshipDecl.field

end KindDecl

end EntityGraph
