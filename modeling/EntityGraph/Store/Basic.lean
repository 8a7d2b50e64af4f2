import EntityGraph.Graph.Evaluation
import EntityGraph.Node.Basic

/-!
# The store

A `Store` keeps a graph of nodes of a schema. It hands nodes out on queries, by id, and along relationships, and it remembers
under which id it knows the nodes that it handed out or saved, so that changes of relationships can refer to them by key. It
also issues the keys of new nodes.
-/

namespace EntityGraph

/-- Why the store cannot do what it is asked to. -/
inductive StoreError
  | nodeNotFound (id : String)
  /-- The node with an id is of another kind than expected. -/
  | kindMismatch (id expected found : String)
  | schema (error : SchemaError)
  | changes (error : ChangesError)
deriving DecidableEq, Repr

namespace StoreError

/-- The text of an error, with keys written as stated. -/
def message (showKey : NodeKey → String) : StoreError → String
  | .nodeNotFound id => "Node not found: " ++ id
  | .kindMismatch id expected found => "Node " ++ id ++ " is a " ++ found ++ ", expected " ++ expected
  | .schema e => e.message
  | .changes e => e.message showKey

instance : MonadLift (Except SchemaError) (Except StoreError) := ⟨Except.mapError .schema⟩

instance : MonadLift (Except ChangesError) (Except StoreError) := ⟨Except.mapError .changes⟩

end StoreError

/-- A graph of nodes of a schema, and what is known of the nodes in memory. -/
structure Store where
  schema : Schema
  graph : Graph
  /-- The ids of the nodes that were handed out or saved. -/
  known : Std.ExtTreeMap NodeKey String
  /-- The next key to be issued. -/
  nextKey : Nat
deriving DecidableEq

namespace Store

/-- The store without nodes. -/
def empty (schema : Schema) : Store := ⟨schema, .empty, ∅, 0⟩

/-- A key that was not issued before. -/
def issueKey (store : Store) : NodeKey × Store := (⟨store.nextKey⟩, { store with nextKey := store.nextKey + 1 })

/-- A new node of a kind. -/
def newNode (store : Store) (kind : EntityKind) : Node × Store :=
  let (key, store) := store.issueKey
  (.new key kind, store)

/-- Remembers the ids of nodes. -/
def remember (store : Store) (nodes : List Node) : Store :=
  { store with known := nodes.foldl (fun known node =>
      match node.id with
      | some id => known.insert node.key id
      | none => known) store.known }

/-- The nodes in memory for stored nodes, each with a key of its own. -/
def materialize (store : Store) : List (String × StoredNode) → Except SchemaError (List Node × Store)
  | [] => return ([], store)
  | (id, stored) :: rows => do
    let kind ← store.schema.kind stored.kind
    let (node, store) := store.newNode kind
    let (nodes, store) ← store.materialize rows
    return ({ node with id := some id, attributes := stored.attributes } :: nodes, store)

/-! ## Reading

A request that fails leaves the store as it is.
-/

/-- The nodes of a kind that satisfy a condition on a variable, in the order of their ids. -/
def query (store : Store) (kind : String) (subject : Variable) (condition : Condition) :
    Except StoreError (List Node × Store) := do
  let _ ← store.schema.kind kind
  let rows := store.graph.nodes.toList.filter fun (id, stored) =>
    stored.kind == kind && store.graph.satisfies subject id condition
  let (nodes, store) ← store.materialize rows
  return (nodes, store.remember nodes)

/-- The node with an id, if there is one; it must be of the given kind. -/
def get (store : Store) (kind id : String) : Except StoreError (Option Node × Store) := do
  match store.graph.nodes[id]? with
  | none => return (none, store)
  | some stored =>
    if stored.kind ≠ kind then throw (.kindMismatch id kind stored.kind)
    let (nodes, store) ← store.materialize [(id, stored)]
    return (nodes.head?, store.remember nodes)

/-- The stored nodes that a relationship leads to from a node, in the order of their ids. -/
def relatedRows (store : Store) (r : Relationship) (id : String) : List (String × StoredNode) :=
  (store.graph.neighbors id r.label r.direction).filterMap fun other =>
    match store.graph.nodes[other]? with
    | some stored => if stored.kind = r.relatedKind then some (other, stored) else none
    | none => none

/-- A relationship of a node, with the nodes it leads to; to none for a node that was never saved. -/
def fetch (store : Store) (node : Node) (field : String) : Except StoreError (Relationship × List Node × Store) := do
  let r ← store.schema.relationship node.kind field
  let rows ← match node.id with
    | none => pure []
    | some id => do
      if !store.graph.nodes.contains id then throw (StoreError.nodeNotFound id)
      pure (store.relatedRows r id)
  let (related, store) ← store.materialize rows
  return (r, related, store)

/-- Loads the nodes related to a node. They are noted at both ends and returned. -/
def load (store : Store) (node : Node) (field : String) : (Store × Node) × Except StoreError (List Node) :=
  match store.fetch node field with
  | .error e => ((store, node), .error e)
  | .ok (r, related, store) =>
    match r.register (node, related) with
    | ((node, _), some e) => ((store, node), .error (.schema e))
    | ((node, related), none) => ((store.remember (node :: related), node), .ok related)

end Store

end EntityGraph
