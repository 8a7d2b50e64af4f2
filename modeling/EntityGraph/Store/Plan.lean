import EntityGraph.Store.Basic

/-!
# Planning a save

Before a batch of nodes is saved, a `SavePlan` is made: the ids that the nodes are saved under, and the edge writes that carry
out the changes of their relationships. All that can be wrong with a batch is found here, where nothing has been written yet.
-/

namespace EntityGraph

/-- What saving a batch of nodes will do. -/
structure SavePlan where
  /-- The ids of the nodes of the batch. -/
  ids : Std.ExtTreeMap NodeKey String
  writes : Std.ExtTreeSet EdgeWrite
deriving DecidableEq

namespace SavePlan

/-- The id of a node of the batch; each has one. -/
def idOf (plan : SavePlan) (node : Node) : String := plan.ids.getD node.key ""

end SavePlan

namespace Store

/-- The id that a node is saved under: its own, or one that is made up. A stored node with that id must be of its kind. -/
def assignId (store : Store) (makeId : NodeKey → String) (node : Node) : Except StoreError String := do
  let _ ← store.schema.kind node.kind
  match node.id with
  | none => return makeId node.key
  | some id =>
    match store.graph.kindOf? id with
    | some found => if found = node.kind then return id else throw (.kindMismatch id node.kind found)
    | none => return id

/-- The ids that the nodes of a batch are saved under. -/
def assignIds (store : Store) (makeId : NodeKey → String) (nodes : List Node) :
    Except StoreError (Std.ExtTreeMap NodeKey String) :=
  nodes.foldlM (fun ids node => return ids.insert node.key (← store.assignId makeId node)) ∅

/-- The deletions that leave one node in the mirror of a relationship, where the mirror holds one node: a node that is related to
another one in this way is taken from the one it was related to before. -/
def displaced (store : Store) (r : Relationship) (changes : EdgeChanges) : Except StoreError (List EdgeWrite) := do
  match r.mirror with
  | none => return []
  | some field =>
    let mirror ← store.schema.relationship r.relatedKind field
    if mirror.cardinality ≠ .one then return []
    let previous (pair : IdPair) : List IdPair :=
      (store.graph.neighbors pair.owner mirror.label mirror.direction).filterMap fun id =>
        if id ≠ pair.related ∧ store.graph.kindOf? id = some mirror.relatedKind then some ⟨pair.owner, id⟩ else none
    return mirror.writes (.ofLists [] (changes.mirrored.add.toList.flatMap previous))

/-- The writes for one relationship of a node. Every node that was added to it must have an id. -/
def relationshipWrites (store : Store) (ids : Std.ExtTreeMap NodeKey String) (node : Node) (r : Relationship) :
    Except StoreError (List EdgeWrite) := do
  let idOf (key : NodeKey) : Option String := ids[key]? <|> store.known[key]?
  let s ← node.relatedSet r.field
  s.added.toList.forM fun key => do
    if (idOf key).isNone then throw (StoreError.changes (.unresolved r.field key))
  let changes ← s.changes node.key idOf
  return r.writes changes ++ (← store.displaced r changes)

/-- The writes for all relationships of a node. -/
def nodeWrites (store : Store) (ids : Std.ExtTreeMap NodeKey String) (node : Node) : Except StoreError (List EdgeWrite) := do
  let kind ← store.schema.kind node.kind
  return (← kind.relationships.mapM (store.relationshipWrites ids node)).flatten

/-- Checks that every edge to be created leads from and to a node that is stored or in the batch. -/
def checkEnds (store : Store) (plan : SavePlan) : Except StoreError Unit :=
  let saved := plan.ids.toList.map Prod.snd
  plan.writes.toList.forM fun write =>
    if write.isCreate then
      [write.edge.source, write.edge.target].forM fun id =>
        if saved.contains id || store.graph.nodes.contains id then return else throw (.nodeNotFound id)
    else return

/-- The kind that a node will have after the save, by its id. -/
def futureKind? (store : Store) (plan : SavePlan) (nodes : List Node) : String → Option String :=
  let kinds : Std.ExtTreeMap String String := nodes.foldl (fun kinds node => kinds.insert (plan.idOf node) node.kind) ∅
  fun id => kinds[id]? <|> store.graph.kindOf? id

/-- Checks that a node does not have several nodes in a relationship to one node that follows the given edges. -/
def checkOneAt (schema : Schema) (graph : Graph) (kindOf? : String → Option String) (id label : String)
    (direction : Direction) : Except StoreError Unit := do
  match kindOf? id with
  | none => return
  | some name =>
    let kind ← schema.kind name
    kind.relationships.forM fun r =>
      if r.cardinality = .one ∧ r.label = label ∧ r.direction = direction then
        let count := ((graph.neighbors id label direction).filter fun other => kindOf? other == some r.relatedKind).length
        if 1 < count then throw (StoreError.changes (.tooMany r.field count)) else return
      else return

/-- Checks that the writes leave no relationship to one node with several, at both ends of every edge that is created. -/
def checkToOne (store : Store) (plan : SavePlan) (nodes : List Node) : Except StoreError Unit :=
  let kindOf? := store.futureKind? plan nodes
  let graph := store.graph.applyAll (writeOrder plan.writes)
  plan.writes.toList.forM fun write =>
    if write.isCreate then do
      checkOneAt store.schema graph kindOf? write.edge.source write.edge.label .outgoing
      checkOneAt store.schema graph kindOf? write.edge.target write.edge.label .incoming
    else return

/-- The plan for saving a batch of nodes, with made-up ids for those that have none. -/
def plan (store : Store) (makeId : NodeKey → String) (nodes : List Node) : Except StoreError SavePlan := do
  let ids ← store.assignIds makeId nodes
  let writes := (← nodes.mapM (store.nodeWrites ids)).flatten
  let plan : SavePlan := ⟨ids, .ofList writes compare⟩
  store.checkEnds plan
  store.checkToOne plan nodes
  return plan

end Store

end EntityGraph
