import EntityGraph.Direction
import EntityGraph.Node.Changes
import EntityGraph.Node.Key

/-!
# Related nodes, as a node knows them

A `RelatedSet` is what a node knows of one of its relationships: the nodes it was last seen to be related to in the store, and
the local changes since then. `RelatedSet.current` is the view that clients have of it. What was loaded is complete if the
relationship itself was loaded, and partial if it is only known from the nodes at the other end.
-/

namespace EntityGraph

/-- Why the changes of a relationship cannot be expressed by ids. -/
inductive ChangesError
  /-- A node has no id. -/
  | unresolved (field : String) (node : NodeKey)
  /-- A relationship to one node holds several. -/
  | tooMany (field : String) (count : Nat)
deriving DecidableEq, Repr

/-- The text of an error, with keys written as stated. -/
def ChangesError.message (showKey : NodeKey → String) : ChangesError → String
  | .unresolved field node => "Relationship " ++ field ++ " references node " ++ showKey node ++ " which has no resolvable id"
  | .tooMany field count => "Relationship " ++ field ++ " holds one node, got " ++ toString count

/-- The nodes that one field of a node relates it to. -/
structure RelatedSet where
  field : String
  cardinality : Cardinality
  /-- The related nodes last seen in the store, if any were. -/
  loaded : Option KeySet
  /-- Whether `loaded` holds all the store had, and not only what was seen from the other end. -/
  complete : Bool
  /-- Nodes related locally since then. -/
  added : KeySet
  /-- Nodes unrelated locally since then. -/
  removed : KeySet
deriving DecidableEq

namespace RelatedSet

/-- A relationship of which nothing is known. -/
def empty (field : String) (cardinality : Cardinality) : RelatedSet := ⟨field, cardinality, none, false, ∅, ∅⟩

/-- The nodes seen in the store. -/
def known (s : RelatedSet) : KeySet := s.loaded.getD ∅

def isLoaded (s : RelatedSet) : Bool := s.loaded.isSome && s.complete

def hasChanges (s : RelatedSet) : Bool := !s.added.isEmpty || !s.removed.isEmpty

/-- The related nodes, local changes included. -/
def current (s : RelatedSet) : KeySet := (s.known.filter fun key => !s.removed.contains key) ∪ s.added

def contains (s : RelatedSet) (key : NodeKey) : Bool :=
  s.added.contains key || (!s.removed.contains key && s.known.contains key)

/-- The related node of a relationship to one node. -/
def get? (s : RelatedSet) : Option NodeKey := s.current.min?

/-! ## Local changes -/

/-- Relates a node. This takes back a removal of the node that is pending. -/
def add (s : RelatedSet) (key : NodeKey) : RelatedSet :=
  if s.removed.contains key then { s with removed := s.removed.erase key }
  else if s.known.contains key then s
  else { s with added := s.added.insert key }

/-- Unrelates a node. This takes back an addition of the node that is pending. -/
def remove (s : RelatedSet) (key : NodeKey) : RelatedSet :=
  if s.added.contains key then { s with added := s.added.erase key }
  else if s.known.contains key then { s with removed := s.removed.insert key }
  else s

/-- Relates the given node, or none, in place of all others. -/
def set (s : RelatedSet) (key? : Option NodeKey) : RelatedSet :=
  let others := s.current.toList.filter fun key => some key ≠ key?
  let cleared := others.foldl remove s
  match key? with
  | some key => cleared.add key
  | none => cleared

/-! ## What the store shows -/

/-- Takes over the related nodes that the store has. Changes that the store has already are no longer pending. -/
def load (s : RelatedSet) (keys : KeySet) : RelatedSet :=
  { s with
    loaded := some keys
    complete := true
    added := s.added.filter fun key => !keys.contains key
    removed := s.removed.filter fun key => keys.contains key }

/-- Takes over that the store relates a node, seen from that node. A relationship to one node is then known completely, and a
pending value replaces the one seen. -/
def loadOne (s : RelatedSet) (key : NodeKey) : RelatedSet :=
  let added := s.added.erase key
  match s.cardinality with
  | .one =>
    let replaced := s.removed.contains key || !added.isEmpty
    { s with
      loaded := some {key}
      complete := true
      added := added
      removed := if replaced then {key} else ∅ }
  | .many => { s with loaded := some (s.known.insert key), added := added }

/-- Drops a node because the edge to it was deleted from its end. -/
def unload (s : RelatedSet) (key : NodeKey) : RelatedSet :=
  let loaded := s.loaded.map fun keys => keys.erase key
  { s with
    loaded := if !s.complete && loaded.any (·.isEmpty) then none else loaded
    added := s.added.erase key
    removed := s.removed.erase key }

/-- Takes the local changes over into what is loaded, after they were saved. -/
def commit (s : RelatedSet) : RelatedSet :=
  let current := s.current
  { s with
    loaded := if s.isLoaded || !current.isEmpty then some current else none
    added := ∅
    removed := ∅ }

/-! ## Changes by id -/

/-- The id of a node, or the error that it has none. -/
def resolve (s : RelatedSet) (idOf : NodeKey → Option String) (key : NodeKey) : Except ChangesError String :=
  match idOf key with
  | some id => return id
  | none => throw (.unresolved s.field key)

/-- The pairs of an owner with the nodes of a set that have an id. -/
def pairs (idOf : NodeKey → Option String) (owner : String) (keys : KeySet) : List IdPair :=
  keys.toList.filterMap fun key => (idOf key).map fun id => ⟨owner, id⟩

/-- The edges to add and to remove for the node with the given key. It and every node that is loaded, added or removed must have
an id, in this order, and a relationship to one node must not hold several. -/
def changes (s : RelatedSet) (owner : NodeKey) (idOf : NodeKey → Option String) : Except ChangesError EdgeChanges := do
  if s.cardinality = .one ∧ 1 < s.current.size then throw (.tooMany s.field s.current.size)
  let ownerId ← s.resolve idOf owner
  (s.known.toList ++ s.added.toList ++ s.removed.toList).forM fun key => do
    let _ ← s.resolve idOf key
  return .ofLists (pairs idOf ownerId (s.added.filter fun key => !s.known.contains key))
    (pairs idOf ownerId (s.removed.filter fun key => s.known.contains key))

end RelatedSet

end EntityGraph
