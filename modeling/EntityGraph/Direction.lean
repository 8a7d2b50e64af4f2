import EntityGraph.Json.Record

/-!
# Directions and cardinalities

A relationship follows edges in one direction and relates a node to one node or to many.
-/

namespace EntityGraph

/-- The direction in which a relationship follows its edges, seen from the node that has it. -/
inductive Direction
  | outgoing
  | incoming
deriving DecidableEq, Repr

namespace Direction

def opposite : Direction → Direction
  | .outgoing => .incoming
  | .incoming => .outgoing

def name : Direction → String
  | .outgoing => "outgoing"
  | .incoming => "incoming"

/-- A direction may be named in small or in capital letters. -/
def ofName? (name : String) : Option Direction :=
  if name = "outgoing" ∨ name = "OUTGOING" then some .outgoing
  else if name = "incoming" ∨ name = "INCOMING" then some .incoming
  else none

def ofJson? (j : Json) : Option Direction := j.unitVariant?.bind ofName?

end Direction

/-- How many nodes a relationship relates a node to. -/
inductive Cardinality
  | one
  | many
deriving DecidableEq, Repr

namespace Cardinality

def name : Cardinality → String
  | .one => "one"
  | .many => "many"

def ofName? (name : String) : Option Cardinality :=
  if name = "one" then some .one else if name = "many" then some .many else none

def ofJson? (j : Json) : Option Cardinality := j.unitVariant?.bind ofName?

end Cardinality

end EntityGraph
