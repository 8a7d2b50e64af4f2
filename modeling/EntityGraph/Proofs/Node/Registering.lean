import EntityGraph.Proofs.Node.Edit
import EntityGraph.Proofs.Store.Reachable

/-!
# Registrations that fail

A registration notes the result of a query at both ends, first at the node that was asked for and then at the related nodes one by
one, and stops at the first node without the field. `Relationship.registration_stopped_iff` says when it stops and what was noted
until then: all of the result at the node, and the node at the related nodes before the one that stopped it.
-/

namespace EntityGraph

/-- The result of a query was noted in a field of a node, which has the field; nothing else of the node was changed. -/
def Node.LoadedIn (field : String) (keys : KeySet) (a b : Node) : Prop :=
  ∃ s, a.related[field]? = some s ∧ b = { a with related := a.related.insert field (s.load keys) }

/-- Another node was noted by its key in a field of a node, which has the field; nothing else of the node was changed. -/
def Node.NotedIn (field : String) (key : NodeKey) (a b : Node) : Prop :=
  ∃ s, a.related[field]? = some s ∧ b = { a with related := a.related.insert field (s.loadOne key) }

namespace Relationship

variable {r : Relationship} {node node' : Node} {related related' : List Node} {e : SchemaError}

/-- A registration that fails stops at the node itself, and changes nothing then, or at a related node without the mirror field: the
node has the result and the related nodes before that one have the node; it and those after it are as they were. -/
theorem registration_stopped_iff : r.register (node, related) = ((node', related'), some e) ↔
    (node.related[r.field]? = none ∧ e = .unknownRelationship node.kind r.field ∧ node' = node ∧ related' = related) ∨
    ∃ mirror before stopped after noted, r.mirror = some mirror ∧ related = before ++ stopped :: after ∧
      stopped.related[mirror]? = none ∧ e = .unknownRelationship stopped.kind mirror ∧
      node.LoadedIn r.field (.ofList (related.map Node.key) compare) node' ∧
      List.Forall₂ (Node.NotedIn mirror node.key) before noted ∧ related' = noted ++ stopped :: after := by
  have hnoted : ∀ mirror, Node.NotedIn mirror node.key = fun a b => Node.edit mirror (·.loadOne node.key) a = (b, none) :=
    fun mirror => funext₂ fun _ _ => propext Node.edit_eq_none_iff.symm
  rw [register, Node.LoadedIn, ← Node.edit_eq_none_iff]
  simp only [hnoted]
  rcases hfirst : Node.edit r.field (·.load (.ofList (related.map Node.key) compare)) node with ⟨t, _ | stop⟩
  · obtain ⟨s, hs, ht⟩ := Node.edit_eq_none_iff.mp hfirst
    have hkey : t.key = node.key := by rw [ht]
    simp only [hs, reduceCtorEq, false_and, false_or, Prod.mk.injEq, and_true]
    cases r.mirror with
    | none => simp
    | some mirror =>
      simp only [Edit.onEach_onSecond_eq_some_iff, hkey, Node.edit_eq_some_iff]
      constructor
      · rintro ⟨rfl, before, stopped, after, noted, _, hrelated, hbefore, ⟨hnone, rfl, rfl⟩, rfl⟩
        exact ⟨mirror, before, _, after, noted, rfl, hrelated, hnone, rfl, rfl, hbefore, rfl⟩
      · rintro ⟨_, before, stopped, after, noted, hm, hrelated, hnone, rfl, rfl, hbefore, rfl⟩
        obtain rfl := Option.some.inj hm
        exact ⟨rfl, before, stopped, after, noted, stopped, hrelated, hbefore, ⟨hnone, rfl, rfl⟩, rfl⟩
  · obtain ⟨hnone, rfl, rfl⟩ := Node.edit_eq_some_iff.mp hfirst
    simp only [hnone, true_and, Prod.mk.injEq, Option.some.injEq, reduceCtorEq, and_false, false_and, exists_false, or_false]
    constructor
    · rintro ⟨⟨rfl, rfl⟩, rfl⟩
      exact ⟨rfl, rfl, rfl⟩
    · rintro ⟨rfl, rfl, rfl⟩
      exact ⟨⟨rfl, rfl⟩, rfl⟩

namespace Example

/-- A project that was asked for its issues. -/
def owner : Node := .new ⟨0⟩ Store.Example.projectKind

def issue : Node := .new ⟨1⟩ Store.Example.issueKind

/-- Another project, which has no project itself. -/
def stranger : Node := .new ⟨2⟩ Store.Example.projectKind

end Example

/-- A registration that fails at its second related node has changed the node and the first related one. -/
theorem failed_registration_traced : ∃ owner issue,
    Store.Example.issues.register (Example.owner, [Example.issue, Example.stranger]) =
        ((owner, [issue, Example.stranger]), some (.unknownRelationship "Project" "project")) ∧
      owner ≠ Example.owner ∧ issue ≠ Example.issue := by
  refine ⟨_, _, rfl, ?_, ?_⟩
  · decide
  · decide

end Relationship

end EntityGraph
