import EntityGraph.Node.Changes
import EntityGraph.Schema.Basic

/-!
# Edges and edge writes

An `Edge` leads from one node to another and has a label. An `EdgeWrite` creates or deletes an edge. A relationship orients the
pairs of its changes by its direction (`Relationship.writes`), so that both ends of an edge write the same edge.
-/

namespace EntityGraph

/-- A labelled edge between two nodes, named by their ids. -/
structure Edge where
  source : String
  label : String
  target : String
deriving DecidableEq, Repr

namespace Edge

/-- Edges are ordered by source, label and target. -/
instance : Ord Edge := ⟨compareLex (compareLex (compareOn source) (compareOn label)) (compareOn target)⟩

instance : Std.TransOrd Edge :=
  inferInstanceAs (Std.TransCmp (compareLex (compareLex (compareOn source) (compareOn label)) (compareOn target)))

instance : Std.LawfulEqOrd Edge where
  eq_of_compare {a b} h := by
    obtain ⟨hsl, ht⟩ := Ordering.then_eq_eq.mp h
    obtain ⟨hs, hl⟩ := Ordering.then_eq_eq.mp hsl
    cases a
    cases b
    simp only [mk.injEq]
    exact ⟨Std.LawfulEqOrd.eq_of_compare hs, Std.LawfulEqOrd.eq_of_compare hl, Std.LawfulEqOrd.eq_of_compare ht⟩

end Edge

/-- A change of one edge in a graph. -/
inductive EdgeWrite
  | create (edge : Edge)
  | delete (edge : Edge)
deriving DecidableEq, Repr

namespace EdgeWrite

def edge : EdgeWrite → Edge
  | .create edge => edge
  | .delete edge => edge

def isCreate : EdgeWrite → Bool
  | .create _ => true
  | .delete _ => false

def name : EdgeWrite → String
  | .create _ => "create"
  | .delete _ => "delete"

/-- The place of a write among the kinds of writes: creations come before deletions. -/
def rank : EdgeWrite → Nat
  | .create _ => 0
  | .delete _ => 1

/-- Writes are ordered by kind, source, target and label. -/
instance : Ord EdgeWrite :=
  ⟨compareLex (compareLex (compareOn rank) (compareOn (·.edge.source)))
    (compareLex (compareOn (·.edge.target)) (compareOn (·.edge.label)))⟩

instance : Std.TransOrd EdgeWrite :=
  inferInstanceAs (Std.TransCmp (compareLex (compareLex (compareOn rank) (compareOn (·.edge.source)))
    (compareLex (compareOn (·.edge.target)) (compareOn (·.edge.label)))))

instance : Std.LawfulEqOrd EdgeWrite where
  eq_of_compare {a b} h := by
    obtain ⟨hrs, htl⟩ := Ordering.then_eq_eq.mp h
    obtain ⟨hr, hs⟩ := Ordering.then_eq_eq.mp hrs
    obtain ⟨ht, hl⟩ := Ordering.then_eq_eq.mp htl
    have hr : a.rank = b.rank := Std.LawfulEqOrd.eq_of_compare hr
    have hs : a.edge.source = b.edge.source := Std.LawfulEqOrd.eq_of_compare hs
    have ht : a.edge.target = b.edge.target := Std.LawfulEqOrd.eq_of_compare ht
    have hl : a.edge.label = b.edge.label := Std.LawfulEqOrd.eq_of_compare hl
    rcases a with ⟨_, _, _⟩ | ⟨_, _, _⟩ <;> rcases b with ⟨_, _, _⟩ | ⟨_, _, _⟩ <;> simp_all [rank, edge]

def toJson (write : EdgeWrite) : Json :=
  .object [("op", .string write.name), ("from", .string write.edge.source), ("to", .string write.edge.target),
    ("label", .string write.edge.label)]

end EdgeWrite

namespace Relationship

/-- The edge that relates two nodes through a relationship. -/
def edge (r : Relationship) (pair : IdPair) : Edge :=
  match r.direction with
  | .outgoing => ⟨pair.owner, r.label, pair.related⟩
  | .incoming => ⟨pair.related, r.label, pair.owner⟩

/-- The writes that carry out changes of a relationship: the creations, then the deletions. -/
def writes (r : Relationship) (changes : EdgeChanges) : List EdgeWrite :=
  (changes.add.toList.map fun pair => .create (r.edge pair)) ++ changes.remove.toList.map fun pair => .delete (r.edge pair)

end Relationship

end EntityGraph
