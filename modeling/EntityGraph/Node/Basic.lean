import EntityGraph.Node.Edit
import EntityGraph.Node.RelatedSet
import EntityGraph.Value

/-!
# Nodes

A `Node` is an entity in memory: its key, its kind, the id that a store knows it by once it was saved, its attributes, and for
each relationship of its kind the related nodes. When the related nodes of a node were queried, `Relationship.register` notes
them at both ends.
-/

namespace EntityGraph

/-- An entity with its attributes and its related nodes. -/
structure Node where
  key : NodeKey
  kind : String
  /-- The id in the store; there is none before the first save. -/
  id : Option String
  attributes : Std.ExtTreeMap String Value
  /-- The related nodes by field. -/
  related : Std.ExtTreeMap String RelatedSet
deriving DecidableEq

namespace Node

/-- A node that was not saved yet, with nothing known of its relationships. -/
def new (key : NodeKey) (kind : EntityKind) : Node where
  key := key
  kind := kind.name
  id := none
  attributes := ∅
  related := .ofList (kind.relationships.map fun r => (r.field, .empty r.field r.cardinality)) compare

def withId (node : Node) (id : String) : Node := { node with id := some id }

def setAttribute (node : Node) (name : String) (value : Value) : Node :=
  { node with attributes := node.attributes.insert name value }

/-- The related nodes of a field. -/
def relatedSet (node : Node) (field : String) : Except SchemaError RelatedSet :=
  match node.related[field]? with
  | some s => .ok s
  | none => .error (.unknownRelationship node.kind field)

/-- Changes the related nodes of a field; fails if the node has no such field. -/
def edit (field : String) (f : RelatedSet → RelatedSet) : Edit Node := fun node =>
  match node.relatedSet field with
  | .ok s => ({ node with related := node.related.insert field (f s) }, none)
  | .error e => (node, some e)

/-- Whether some relationship has changes that were not saved. -/
def hasChanges (node : Node) : Bool := node.related.toList.any fun (_, s) => s.hasChanges

/-- Takes the changes of all relationships of a kind over into what is loaded. -/
def commit (kind : EntityKind) : Edit Node := .inOrder (kind.relationships.map fun r => edit r.field RelatedSet.commit)

end Node

namespace Relationship

/-- Notes the result of a query for the nodes related to a node: the node has them all, and each of them has the node in the
mirror field, so that the other end need not be queried. -/
def register (r : Relationship) : Edit (Node × List Node) := fun (node, related) =>
  match Node.edit r.field (·.load (.ofList (related.map Node.key) compare)) node with
  | (node, some e) => ((node, related), some e)
  | (node, none) =>
    match r.mirror with
    | none => ((node, related), none)
    | some field => (Edit.onSecond (Node.edit field (·.loadOne node.key))).onEach (node, related)

end Relationship

end EntityGraph
