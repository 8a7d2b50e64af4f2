import EntityGraph.Filter.Definition

/-!
# Descriptions of filter definitions

What a filter on a kind may hold, as data that can be shown: its combinators, and for each field the operators or quantifiers
that it takes.
-/

namespace EntityGraph

/-- A filter field, described. -/
inductive FieldDescription
  | scalar (name type typeName : String) (operators : List String)
  | relationship (name relatedKind typeName description : String) (quantifiers : List (String × String))
deriving DecidableEq, Repr

/-- The filters on a kind, described. -/
structure FilterDescription where
  kind : String
  typeName : String
  combinators : List String
  fields : List FieldDescription
deriving DecidableEq, Repr

namespace FieldDescription

def ofField : FilterField → FieldDescription
  | .scalar decl operators =>
    .scalar decl.name decl.type.name (FilterField.scalar decl operators).typeName (operators.map Operator.name)
  | .related r =>
    .relationship r.field r.relatedKind (FilterField.related r).typeName
      ("Filters " ++ r.relatedKind ++ " nodes related through " ++ r.field)
      (Quantifier.every.map fun q => (q.name, q.description))

def toJson : FieldDescription → Json
  | .scalar name type typeName operators =>
    .object [("field_type", .string "scalar"), ("name", .string name), ("type", .string type), ("type_name", .string typeName),
      ("operators", .ofStrings operators)]
  | .relationship name relatedKind typeName description quantifiers =>
    .object [("field_type", .string "relationship"), ("name", .string name), ("related_kind", .string relatedKind),
      ("type_name", .string typeName), ("description", .string description),
      ("quantifiers", .list (quantifiers.map fun q => .object [("name", .string q.1), ("description", .string q.2)]))]

end FieldDescription

namespace FilterDescription

def ofDefinition (definition : FilterDefinition) : FilterDescription :=
  ⟨definition.kind, definition.typeName, EntityGraph.combinators,
    definition.fields.toList.map fun field => FieldDescription.ofField field.2⟩

def toJson (d : FilterDescription) : Json :=
  .object [("kind", .string d.kind), ("type_name", .string d.typeName), ("combinators", .ofStrings d.combinators),
    ("fields", .list (d.fields.map FieldDescription.toJson))]

end FilterDescription

namespace FilterSchema

def describe (filters : FilterSchema) (kind : String) : Except FilterError FilterDescription :=
  return .ofDefinition (← filters.definition kind)

/-- The descriptions of all kinds, in the order of their names. -/
def describeAll (filters : FilterSchema) : List FilterDescription := filters.definitionList.map .ofDefinition

end FilterSchema

end EntityGraph
