import EntityGraph.Store.Plan

/-!
# Saving

`Store.save` saves a batch of nodes with the changes of their relationships. It makes a plan first; then it writes the nodes and
the edges, takes the changes of each node over into what is loaded, and brings the related nodes of the batch in line with the
edges written, those at the other end included. The state reached is returned with the result, also when there is an error.
-/

namespace EntityGraph

namespace SavePlan

/-- Writes the nodes of the batch and the planned edges to the graph. -/
def write (plan : SavePlan) (nodes : List Node) (graph : Graph) : Graph :=
  let stored := nodes.foldl (fun stored node => stored.insert (plan.idOf node) ⟨node.kind, node.attributes⟩) graph.nodes
  Graph.applyAll ⟨stored, graph.edges⟩ (writeOrder plan.writes)

/-- Gives a node its id, remembers it, and takes over the changes of its relationships. -/
def commit (plan : SavePlan) : Edit (Store × Node) := fun (store, node) =>
  let id := plan.idOf node
  let store := { store with known := store.known.insert node.key id }
  Edit.onSecond (Edit.withValue (store.schema.kind node.kind) Node.commit) (store, node.withId id)

end SavePlan

namespace Store

/-- Takes a key for the id that it is remembered with, unless the key taken before has a higher rank. -/
def takeKey (rank : NodeKey → Nat) (keys : Std.ExtTreeMap String NodeKey) (entry : NodeKey × String) :
    Std.ExtTreeMap String NodeKey :=
  if keys[entry.2]?.any fun taken => rank entry.1 < rank taken then keys else keys.insert entry.2 entry.1

/-- A node in memory for each id that one is known for: one of the batch where there is one. Which of several others is taken is
not laid down; it depends on the order in which they come, so their ranks are a parameter as the ids that are made up are. -/
def keysById (store : Store) (rank : NodeKey → Nat) (nodes : List Node) : Std.ExtTreeMap String NodeKey :=
  (nodes.filterMap fun node => node.id.map fun id => (id, node.key)).foldl (fun keys (id, key) => keys.insert id key)
    (store.known.toList.foldl (takeKey rank) ∅)

/-- Brings the related nodes of a field in line with the write of an edge to another node. A created edge adds a node in memory
for the other one, unless there is one; a deleted edge takes away every one there is. -/
def noteWrite (store : Store) (keys : Std.ExtTreeMap String NodeKey) (isCreate : Bool) (other : String) (s : RelatedSet) :
    RelatedSet :=
  let present := s.current.toList.filter fun key => store.known[key]? == some other
  if !isCreate then present.foldl RelatedSet.unload s
  else if present.isEmpty then
    match keys[other]? with
    | some key => s.loadOne key
    | none => s
  else s

/-- Brings a node in line with the write of an edge, seen from one end in the given direction. -/
def noteWriteAt (store : Store) (keys : Std.ExtTreeMap String NodeKey) (write : EdgeWrite) (kind : EntityKind)
    (id? : Option String) (this other : String) (direction : Direction) : Edit Node :=
  match store.graph.kindOf? other with
  | some otherKind =>
    if id? = some this then
      .inOrder ((kind.relationships.filter fun r =>
          r.label = write.edge.label ∧ r.direction = direction ∧ r.relatedKind = otherKind).map
        fun r => Node.edit r.field (store.noteWrite keys write.isCreate other))
    else .done
  | none => .done

/-- Brings a node in line with the write of an edge, which it may be at either end of. -/
def noteWriteOn (store : Store) (keys : Std.ExtTreeMap String NodeKey) (write : EdgeWrite) : Edit Node := fun node =>
  Edit.withValue (store.schema.kind node.kind) (fun kind =>
    (store.noteWriteAt keys write kind node.id write.edge.source write.edge.target .outgoing).andThen
      (store.noteWriteAt keys write kind node.id write.edge.target write.edge.source .incoming)) node

/-- Brings the nodes of a batch in line with the edges written. -/
def noteWrites (rank : NodeKey → Nat) (writes : Std.ExtTreeSet EdgeWrite) : Edit (Store × List Node) := fun (store, nodes) =>
  let keys := store.keysById rank nodes
  Edit.inOrder ((writeOrder writes).map fun write => Edit.onEach (Edit.onSecond (store.noteWriteOn keys write))) (store, nodes)

/-- Carries out a plan. -/
def carryOut (rank : NodeKey → Nat) (plan : SavePlan) : Edit (Store × List Node) := fun (store, nodes) =>
  let store := { store with graph := plan.write nodes store.graph }
  (Edit.onEach plan.commit).andThen (noteWrites rank plan.writes) (store, nodes)

/-- Saves a batch of nodes, with made-up ids for those that have none, and returns the edge writes. Of several nodes in memory
that are known by one id, outside of the batch, the one of the highest rank stands for it. -/
def save (store : Store) (makeId : NodeKey → String) (rank : NodeKey → Nat) (nodes : List Node) :
    (Store × List Node) × Except StoreError (List EdgeWrite) :=
  match store.plan makeId nodes with
  | .error e => ((store, nodes), .error e)
  | .ok plan =>
    match carryOut rank plan (store, nodes) with
    | (reached, some e) => (reached, .error (.schema e))
    | (reached, none) => (reached, .ok plan.writes.toList)

end Store

end EntityGraph
