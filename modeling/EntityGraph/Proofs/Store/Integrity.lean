import EntityGraph.Proofs.Store.Failing
import Mathlib.Logic.Relation

/-!
# Referential integrity

Whatever clients request, edges lead from and to stored nodes, stored nodes are of kinds of the schema, and what is remembered is
stored (`Store.Sound`). A node that is stored once stays stored and keeps its kind, and no save fails because a node is missing.
-/

namespace EntityGraph

namespace Store

/-! ## Stored nodes stay -/

/-- No step takes a stored node away or changes its kind. -/
theorem Step.kindOf?_eq {store after : Store} (h : store.Step after) {id kind : String}
    (hk : store.graph.kindOf? id = some kind) : after.graph.kindOf? id = some kind := by
  rcases h.cases with hread | ⟨makeId, nodes, plan, hf, hp, hw⟩
  · rw [hread.graph]
    exact hk
  · rw [hw.graph]
    exact hp.kindOf?_write_of_kindOf? hf hk

/-- In all states that are reached later, a stored node is stored, with the same kind. -/
theorem kindOf?_eq_of_steps {store after : Store} (h : Relation.ReflTransGen Step store after) {id kind : String}
    (hk : store.graph.kindOf? id = some kind) : after.graph.kindOf? id = some kind := by
  induction h with
  | refl => exact hk
  | tail _ hstep ih => exact hstep.kindOf?_eq ih

/-! ## The invariant -/

/-- While a store is sound, no save fails because a node is missing. -/
theorem Sound.save_ne_nodeNotFound {store : Store} (hs : store.Sound) (makeId : NodeKey → String) (rank : NodeKey → Nat)
    (nodes : List Node) (id : String) : (store.save makeId rank nodes).2 ≠ .error (.nodeNotFound id) :=
  fun h => hs.failsWith_plan _ (plan_of_save_error h)

/-- In every reachable state, the ends of all edges are stored, the kinds of all stored nodes are kinds of the schema, and all
ids that are remembered are those of stored nodes. A stored node stays stored in all later states, with the same kind; and no
save of any batch fails because a node is missing. -/
theorem referential_integrity {schema : Schema} {store : Store} (h : Reachable schema store) :
    (∀ e ∈ store.graph.edges, ∀ id, id = e.source ∨ id = e.target → ∃ stored, store.graph.nodes[id]? = some stored) ∧
      (∀ (id : String) stored, store.graph.nodes[id]? = some stored → ∃ kind, schema.kinds[stored.kind]? = some kind) ∧
      (∀ (key : NodeKey) id, store.known[key]? = some id → ∃ stored, store.graph.nodes[id]? = some stored) ∧
      (∀ after, Relation.ReflTransGen Step store after → ∀ id kind, store.graph.kindOf? id = some kind →
        after.graph.kindOf? id = some kind) ∧
      ∀ makeId rank nodes id, (store.save makeId rank nodes).2 ≠ .error (.nodeNotFound id) := by
  have hs := h.sound
  refine ⟨fun e he id hid => hs.ends he hid, fun id stored hstored => ?_, fun key id hid => hs.known hid,
    fun after hafter id kind hk => kindOf?_eq_of_steps hafter hk, hs.save_ne_nodeNotFound⟩
  rw [← h.schema_eq]
  exact hs.kinds hstored

/-- The project that was saved with its issue stays a project, and saves that refer to it never miss a node. -/
theorem saved_project_stays :
    (∀ after, Relation.ReflTransGen Step Example.saved after → after.graph.kindOf? "p" = some "Project") ∧
      ∀ makeId rank nodes id, (Example.saved.save makeId rank nodes).2 ≠ .error (.nodeNotFound id) := by
  obtain ⟨_, _, _, hkept, hsave⟩ := referential_integrity Example.reachable_saved
  exact ⟨fun after hafter => hkept after hafter "p" "Project" Example.kindOf?_saved, hsave⟩

end Store

end EntityGraph
