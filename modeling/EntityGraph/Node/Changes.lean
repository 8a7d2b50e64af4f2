import EntityGraph.Json.Basic
import Std.Data.ExtTreeSet

/-!
# Changes of edges

`EdgeChanges` are the edges to add and to remove for one relationship of one node, by the ids of the nodes at both ends. A set
of pairs is in the order of the owner's id and then of the related node's.
-/

namespace EntityGraph

/-- The ids of a node and of a node related to it. -/
structure IdPair where
  owner : String
  related : String
deriving DecidableEq, Repr

namespace IdPair

instance : Ord IdPair := ⟨compareLex (compareOn owner) (compareOn related)⟩

instance : Std.TransOrd IdPair := inferInstanceAs (Std.TransCmp (compareLex (compareOn owner) (compareOn related)))

instance : Std.LawfulEqOrd IdPair where
  eq_of_compare {a b} h := by
    obtain ⟨ho, hr⟩ := Ordering.then_eq_eq.mp h
    cases a
    cases b
    simp only [mk.injEq]
    exact ⟨Std.LawfulEqOrd.eq_of_compare ho, Std.LawfulEqOrd.eq_of_compare hr⟩

/-- The same pair seen from the other node. -/
def swap (pair : IdPair) : IdPair := ⟨pair.related, pair.owner⟩

def toJson (pair : IdPair) : Json := .object [("local", .string pair.owner), ("related", .string pair.related)]

end IdPair

/-- The edges to add and to remove for one relationship. -/
structure EdgeChanges where
  add : Std.ExtTreeSet IdPair
  remove : Std.ExtTreeSet IdPair
deriving DecidableEq

namespace EdgeChanges

def ofLists (add remove : List IdPair) : EdgeChanges := ⟨.ofList add compare, .ofList remove compare⟩

def isEmpty (changes : EdgeChanges) : Bool := changes.add.isEmpty && changes.remove.isEmpty

/-- The same changes seen from the related nodes. -/
def mirrored (changes : EdgeChanges) : EdgeChanges :=
  ofLists (changes.add.toList.map IdPair.swap) (changes.remove.toList.map IdPair.swap)

def toJson (changes : EdgeChanges) : Json :=
  .object [("edges_to_add", .list (changes.add.toList.map IdPair.toJson)),
    ("edges_to_remove", .list (changes.remove.toList.map IdPair.toJson))]

end EdgeChanges

end EntityGraph
