import EntityGraph.Condition.Basic
import EntityGraph.Schema.Declaration
import EntityGraph.Text.Quoted
import Std.Data.ExtTreeMap

/-!
# Schemas

A `Schema` holds the kinds of entities by name. A `Relationship` of a kind knows the field of the related kind that sees the
same edges from the other end, its mirror, if there is one. `SchemaError` lists what can be wrong with declarations and with
references to kinds and fields.
-/

namespace EntityGraph

/-- What is wrong with a declaration, or with a reference to a kind or a relationship. -/
inductive SchemaError
  | duplicateKind (kind : String)
  | duplicateField (kind field : String)
  /-- The name of a field that filters use for a combinator. -/
  | reservedFieldName (kind field : String)
  | unknownKind (kind : String)
  /-- Several fields of the related kind see the edges of a relationship from the other end. -/
  | ambiguousMirror (kind field relatedKind label : String) (candidates : List String)
  | unknownRelationship (kind field : String)
deriving DecidableEq, Repr

def SchemaError.message : SchemaError → String
  | .duplicateKind kind => "Entity kind declared twice: " ++ kind
  | .duplicateField kind field => "Field declared twice on " ++ kind ++ ": " ++ field
  | .reservedFieldName kind field => "Field name is reserved for filter combinators on " ++ kind ++ ": " ++ field
  | .unknownKind kind => "Unknown entity kind: " ++ kind
  | .ambiguousMirror kind field relatedKind label candidates =>
    "Ambiguous mirror for " ++ kind ++ "." ++ field ++ ": " ++ relatedKind ++ " has several opposite properties labelled " ++
      label ++ " (" ++ Text.Quoted.renderList candidates ++ ")"
  | .unknownRelationship kind field => "Unknown relationship " ++ kind ++ "." ++ field

/-- A relationship of a kind. -/
structure Relationship where
  /-- The kind that has it. -/
  kind : String
  field : String
  relatedKind : String
  label : String
  direction : Direction
  cardinality : Cardinality
  /-- The field of the related kind that sees the same edges from the other end. -/
  mirror : Option String
deriving DecidableEq, Repr

namespace Relationship

def ofDecl (kind : String) (decl : RelationshipDecl) (mirror : Option String) : Relationship :=
  ⟨kind, decl.field, decl.kind, decl.label, decl.direction, decl.cardinality, mirror⟩

/-- The pattern of the edges between two variables that the relationship follows. -/
def pattern (r : Relationship) (root related : Variable) : EdgePattern := ⟨root, related, r.label, r.direction⟩

end Relationship

/-- A kind of entities. -/
structure EntityKind where
  name : String
  attributes : List AttributeDecl
  relationships : List Relationship
deriving DecidableEq, Repr

namespace EntityKind

def attribute? (kind : EntityKind) (name : String) : Option AttributeDecl := kind.attributes.find? fun a => a.name == name

def relationship? (kind : EntityKind) (field : String) : Option Relationship :=
  kind.relationships.find? fun r => r.field == field

end EntityKind

/-- The kinds of entities, by name. -/
structure Schema where
  kinds : Std.ExtTreeMap String EntityKind
deriving DecidableEq

namespace Schema

/-- The kinds in the order of their names. -/
def kindList (schema : Schema) : List EntityKind := schema.kinds.toList.map Prod.snd

def kind (schema : Schema) (name : String) : Except SchemaError EntityKind :=
  match schema.kinds[name]? with
  | some kind => .ok kind
  | none => .error (.unknownKind name)

def relationship (schema : Schema) (kind field : String) : Except SchemaError Relationship := do
  match (← schema.kind kind).relationship? field with
  | some r => return r
  | none => throw (.unknownRelationship kind field)

end Schema

end EntityGraph
