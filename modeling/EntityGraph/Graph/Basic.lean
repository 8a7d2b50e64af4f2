import EntityGraph.Graph.Edge
import EntityGraph.Value

/-!
# Graphs

A `Graph` holds nodes by id and the labelled edges between them. `Graph.neighbors` sees the edges from a node in one direction;
`Graph.apply` carries out an edge write.
-/

namespace EntityGraph

/-- What a graph holds of a node besides its id. -/
structure StoredNode where
  kind : String
  attributes : Std.ExtTreeMap String Value
deriving DecidableEq

/-- Nodes by id, and the edges between them. -/
structure Graph where
  nodes : Std.ExtTreeMap String StoredNode
  edges : Std.ExtTreeSet Edge
deriving DecidableEq

namespace Graph

def empty : Graph := ⟨∅, ∅⟩

def kindOf? (g : Graph) (id : String) : Option String := g.nodes[id]?.map StoredNode.kind

/-- The node at the other end of an edge with the given label, seen from a node in the given direction. -/
def otherEnd? (id label : String) (direction : Direction) (edge : Edge) : Option String :=
  if edge.label = label then
    match direction with
    | .outgoing => if edge.source = id then some edge.target else none
    | .incoming => if edge.target = id then some edge.source else none
  else none

/-- The nodes that edges with the given label lead to from a node, or from which they lead to it, in the order of their ids. -/
def neighbors (g : Graph) (id label : String) (direction : Direction) : List String :=
  g.edges.toList.filterMap (otherEnd? id label direction)

/-- Carries out a write. Creating an edge that exists and deleting one that does not have no effect. -/
def apply (g : Graph) : EdgeWrite → Graph
  | .create edge => { g with edges := g.edges.insert edge }
  | .delete edge => { g with edges := g.edges.erase edge }

def applyAll (g : Graph) (writes : List EdgeWrite) : Graph := writes.foldl apply g

end Graph

/-- A set of writes in the order in which it is carried out: the deletions first, so that an edge both deleted and created is
there in the end. -/
def writeOrder (writes : Std.ExtTreeSet EdgeWrite) : List EdgeWrite :=
  writes.toList.filter (!·.isCreate) ++ writes.toList.filter (·.isCreate)

end EntityGraph
