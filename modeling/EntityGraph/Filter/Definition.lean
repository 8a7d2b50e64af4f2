import EntityGraph.Filter.Operator
import EntityGraph.Schema.Basic

/-!
# Filter definitions

Which fields a filter on a kind may have: one per attribute, with the operators of its type, and one per relationship, whose
filters are those of the related kind. `FilterSchema.build` makes the definition of every kind of a schema. It fails at the
first attribute whose type has no operators, when kinds are visited in the order of their names, each followed at once by the
kinds it is related to.
-/

namespace EntityGraph

/-- Why a filter is refused, or why a kind cannot be filtered. -/
inductive FilterError
  | unmappedAttributeType (kind attr type : String)
  /-- A key that the definition does not offer at its place. -/
  | unknownField (field definition path : String)
  | invalidValue (path expected found : String)
  | unknownKind (kind : String)
deriving DecidableEq, Repr

def FilterError.message : FilterError → String
  | .unmappedAttributeType kind attr type =>
    "Attribute " ++ kind ++ "." ++ attr ++ " has type '" ++ type ++ "' which has no filter operators"
  | .unknownField field definition path => "Unknown filter field '" ++ field ++ "' on " ++ definition ++ " at " ++ path
  | .invalidValue path expected found =>
    "Invalid filter value at " ++ path ++ ": expected " ++ expected ++ ", found " ++ found
  | .unknownKind kind => "No filter definition for kind " ++ kind

/-- The keys of a filter that combine filters of the same kind. -/
def combinators : List String := ["and", "or", "not"]

/-- What a field of a filter applies to. -/
inductive FilterField
  | scalar (decl : AttributeDecl) (operators : List Operator)
  | related (relationship : Relationship)
deriving DecidableEq, Repr

namespace FilterField

def name : FilterField → String
  | .scalar decl _ => decl.name
  | .related relationship => relationship.field

/-- The name of the type of filter that the field takes. -/
def typeName : FilterField → String
  | .scalar decl _ => decl.type.name.capitalize ++ "FilterInput"
  | .related relationship => relationship.relatedKind ++ "ListFilterInput"

end FilterField

/-- The filter fields of a kind, by name. -/
structure FilterDefinition where
  kind : String
  fields : Std.ExtTreeMap String FilterField
deriving DecidableEq

namespace FilterDefinition

def typeName (definition : FilterDefinition) : String := definition.kind ++ "FilterInput"

/-- The field of an attribute. -/
def scalarField (kind : String) (decl : AttributeDecl) : Except FilterError FilterField :=
  match decl.type.operators? with
  | some operators => return .scalar decl operators
  | none => throw (.unmappedAttributeType kind decl.name decl.type.name)

/-- The definition of a kind. -/
def ofKind (kind : EntityKind) : Except FilterError FilterDefinition := do
  let scalars ← kind.attributes.mapM (scalarField kind.name)
  let fields := scalars ++ kind.relationships.map .related
  return ⟨kind.name, .ofList (fields.map fun field => (field.name, field)) compare⟩

end FilterDefinition

/-- The filter definitions of all kinds of a schema, by the kind's name. -/
structure FilterSchema where
  definitions : Std.ExtTreeMap String FilterDefinition
deriving DecidableEq

namespace FilterSchema

/-- The first of the awaited kinds that is still to be visited, and the names awaited after it. -/
def nextKind? (unvisited : List EntityKind) : List String → Option (EntityKind × List String)
  | [] => none
  | name :: awaited =>
    match unvisited.find? fun kind => kind.name == name with
    | some kind => some (kind, awaited)
    | none => nextKind? unvisited awaited

/-- Visits the awaited kinds depth first: after each kind those it is related to, before the ones awaited so far. There are at
most as many steps as kinds. -/
def visit : Nat → List EntityKind → List String → List EntityKind
  | 0, _, _ => []
  | steps + 1, unvisited, awaited =>
    match nextKind? unvisited awaited with
    | none => []
    | some (kind, awaited) =>
      kind :: visit steps (unvisited.filter fun other => other.name != kind.name)
        (kind.relationships.map Relationship.relatedKind ++ awaited)

/-- The kinds of a schema, depth first from each kind in the order of names. -/
def depthFirst (schema : Schema) : List EntityKind :=
  visit schema.kindList.length schema.kindList (schema.kindList.map EntityKind.name)

def build (schema : Schema) : Except FilterError FilterSchema := do
  let definitions ← (depthFirst schema).mapM FilterDefinition.ofKind
  return ⟨.ofList (definitions.map fun definition => (definition.kind, definition)) compare⟩

def definition (filters : FilterSchema) (kind : String) : Except FilterError FilterDefinition :=
  match filters.definitions[kind]? with
  | some definition => .ok definition
  | none => .error (.unknownKind kind)

/-- The definitions in the order of their kinds' names. -/
def definitionList (filters : FilterSchema) : List FilterDefinition := filters.definitions.toList.map Prod.snd

end FilterSchema

end EntityGraph
