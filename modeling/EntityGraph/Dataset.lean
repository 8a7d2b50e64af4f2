import EntityGraph.Json.Reader
import EntityGraph.Store.Save

/-!
# Datasets

A `Dataset` lists nodes by id and the edges between them, each named by a relationship field of the node it starts at. Loading it
(`Dataset.load`) saves all nodes to an empty store at once.
-/

namespace EntityGraph

/-- A node of a dataset. -/
structure DatasetNode where
  id : String
  kind : String
  attributes : Std.ExtTreeMap String Value
deriving DecidableEq

/-- An edge of a dataset: the relationship field of one node that holds another. -/
structure DatasetEdge where
  source : String
  field : String
  target : String
deriving DecidableEq, Repr

/-- Nodes and edges to be loaded into a store. -/
structure Dataset where
  nodes : List DatasetNode
  edges : List DatasetEdge
deriving DecidableEq

/-- Why a dataset cannot be loaded. -/
inductive DatasetError
  | duplicateNode (id : String)
  | unknownSource (id : String)
  | unknownTarget (id : String)
  | schema (error : SchemaError)
  | store (error : StoreError)
deriving DecidableEq, Repr

namespace DatasetError

def message : DatasetError → String
  | .duplicateNode id => "Duplicate node id in dataset: " ++ id
  | .unknownSource id => "Edge from unknown node " ++ id
  | .unknownTarget id => "Edge to unknown node " ++ id
  | .schema e => e.message
  | .store e => e.message NodeKey.text

instance : MonadLift (Except SchemaError) (Except DatasetError) := ⟨Except.mapError .schema⟩

end DatasetError

namespace DatasetNode

def ofNode (node : Node) : DatasetNode := ⟨node.id.getD "", node.kind, node.attributes⟩

def toJson (node : DatasetNode) : Json :=
  .object [("id", .string node.id), ("kind", .string node.kind),
    ("attributes", .object (node.attributes.toList.map fun (name, value) => (name, value.toJson)))]

/-- Attributes by name; of several with one name the last counts. -/
def attributesOfJson? : Json → Option (Std.ExtTreeMap String Value)
  | .object members => do return .ofList (← members.mapM fun (name, j) => return (name, ← Value.ofJson? j)) compare
  | _ => none

def ofJson? (j : Json) : Option DatasetNode :=
  match j.record? ["id", "kind", "attributes"] with
  | some [some id, some kind, attributes?] => do
    return ⟨← id.string?, ← kind.string?, ← (attributes?.map attributesOfJson?).getD (some ∅)⟩
  | _ => none

def shape : Json.Shape := .record [("id", .whole), ("kind", .whole), ("attributes", .whole)]

end DatasetNode

namespace DatasetEdge

def ofJson? (j : Json) : Option DatasetEdge :=
  match j.record? ["from", "field", "to"] with
  | some [some source, some field, some target] => do return ⟨← source.string?, ← field.string?, ← target.string?⟩
  | _ => none

def shape : Json.Shape := .record [("from", .whole), ("field", .whole), ("to", .whole)]

end DatasetEdge

namespace Dataset

def ofJson? (j : Json) : Option Dataset :=
  match j.record? ["nodes", "edges"] with
  | some [nodes?, edges?] => do
    return ⟨← (nodes?.map (Json.listOf? DatasetNode.ofJson?)).getD (some []),
      ← (edges?.map (Json.listOf? DatasetEdge.ofJson?)).getD (some [])⟩
  | _ => none

def shape : Json.Shape := .record [("nodes", .list DatasetNode.shape), ("edges", .list DatasetEdge.shape)]

/-- The dataset that a text writes. What is no part of a dataset need only be well formed. -/
def read? (text : String) : Option Dataset := (Json.readParts? shape text).bind ofJson?

/-- The nodes in memory for the nodes of a dataset, after those made so far. No id may be given twice. -/
def makeNodes (store : Store) (made : List Node) : List DatasetNode → Except DatasetError (Store × List Node)
  | [] => return (store, made)
  | declared :: rest => do
    let kind ← store.schema.kind declared.kind
    if made.any fun node => node.id == some declared.id then throw (.duplicateNode declared.id)
    let (node, store) := store.newNode kind
    makeNodes store (made ++ [{ node with id := some declared.id, attributes := declared.attributes }]) rest

/-- Relates two nodes as an edge states. -/
def addEdge (nodes : List Node) (edge : DatasetEdge) : Except DatasetError (List Node) := do
  if !nodes.any fun node => node.id == some edge.source then throw (.unknownSource edge.source)
  match nodes.find? fun node => node.id == some edge.target with
  | none => throw (.unknownTarget edge.target)
  | some target =>
    nodes.mapM fun node =>
      if node.id == some edge.source then
        match Node.edit edge.field (·.add target.key) node with
        | (node, none) => return node
        | (_, some e) => throw (.schema e)
      else return node

/-- The store that holds the nodes and edges of a dataset and nothing else. The ranks make no difference to the store. -/
def load (dataset : Dataset) (schema : Schema) : Except DatasetError Store := do
  let (store, nodes) ← makeNodes (.empty schema) [] dataset.nodes
  let nodes ← dataset.edges.foldlM addEdge nodes
  match store.save NodeKey.text NodeKey.val nodes with
  | ((store, _), .ok _) => return store
  | (_, .error e) => throw (.store e)

end Dataset

end EntityGraph
