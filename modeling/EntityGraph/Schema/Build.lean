import EntityGraph.Schema.Basic

/-!
# Building a schema

`Schema.build` checks declarations and resolves the mirror of every relationship: the one field of the related kind that
follows edges with the same label in the opposite direction. The first thing wrong is reported: kinds in declared order, within
a kind its attributes before its relationships; then related kinds that are missing; then mirrors.
-/

namespace EntityGraph

/-- The names that filters use for combinators. -/
def reservedFieldNames : List String := ["and", "or", "not"]

namespace KindDecl

/-- Checks the names of fields against each other and against the reserved ones. -/
def checkNames (kind : String) (seen : List String) : List String → Except SchemaError Unit
  | [] => return ()
  | field :: rest =>
    if field ∈ reservedFieldNames then throw (.reservedFieldName kind field)
    else if field ∈ seen then throw (.duplicateField kind field)
    else checkNames kind (field :: seen) rest

def checkFields (decl : KindDecl) : Except SchemaError Unit := checkNames decl.name [] decl.fieldNames

end KindDecl

namespace Schema

/-- Checks each kind's fields, and the names of the kinds against each other. -/
def checkKinds (seen : List String) : List KindDecl → Except SchemaError Unit
  | [] => return ()
  | decl :: rest => do
    if decl.name ∈ seen then throw (.duplicateKind decl.name)
    decl.checkFields
    checkKinds (decl.name :: seen) rest

/-- Checks that the kind at the other end of every relationship is declared. -/
def checkRelatedKinds (decls : List KindDecl) : Except SchemaError Unit :=
  decls.forM fun decl => decl.relationships.forM fun r =>
    if decls.any fun other => other.name == r.kind then return () else throw (.unknownKind r.kind)

/-- The fields of a kind that follow edges with the given label in the given direction, in declared order. -/
def fieldsAlong (decls : List KindDecl) (kind label : String) (direction : Direction) : List String :=
  decls.flatMap fun decl =>
    if decl.name = kind then
      (decl.relationships.filter fun r => r.label == label && r.direction == direction).map RelationshipDecl.field
    else []

/-- Resolves the mirror of a declared relationship. -/
def resolve (decls : List KindDecl) (kind : String) (decl : RelationshipDecl) : Except SchemaError Relationship :=
  match fieldsAlong decls decl.kind decl.label decl.direction.opposite with
  | [] => return .ofDecl kind decl none
  | [field] => return .ofDecl kind decl (some field)
  | candidates => throw (.ambiguousMirror kind decl.field decl.kind decl.label candidates)

def buildKind (decls : List KindDecl) (decl : KindDecl) : Except SchemaError EntityKind := do
  return ⟨decl.name, decl.attributes, ← decl.relationships.mapM (resolve decls decl.name)⟩

/-- The schema that declarations describe. -/
def build (decls : List KindDecl) : Except SchemaError Schema := do
  checkKinds [] decls
  checkRelatedKinds decls
  let kinds ← decls.mapM (buildKind decls)
  return ⟨.ofList (kinds.map fun kind => (kind.name, kind)) compare⟩

end Schema

end EntityGraph
