import EntityGraph.Proofs.Store.Reachable

/-!
# Relationships to one node

A relationship to one node leads from a stored node to at most one node of its related kind, whatever was saved. A save checks
this only at the ends of the edges it creates; at every other node the edges and the kinds are those of before, or fewer.
-/

namespace EntityGraph

namespace Store

/-- No relationship to one node leads to two nodes of its related kind. -/
def ToOne (store : Store) : Prop :=
  ∀ {id name : String} {kind : EntityKind} {r : Relationship} {a b : String},
    store.graph.kindOf? id = some name → store.schema.kinds[name]? = some kind → r ∈ kind.relationships →
    r.cardinality = .one →
    r.edge ⟨id, a⟩ ∈ store.graph.edges → store.graph.kindOf? a = some r.relatedKind →
    r.edge ⟨id, b⟩ ∈ store.graph.edges → store.graph.kindOf? b = some r.relatedKind → a = b

theorem ToOne.empty (schema : Schema) : (Store.empty schema).ToOne := by
  intro id name kind r a b _ _ _ _ ha
  simp [Store.empty, Graph.empty] at ha

theorem ReadsOnly.toOne {store after : Store} (h : store.ReadsOnly after) (hone : store.ToOne) : after.ToOne := by
  unfold ToOne
  rw [h.schema, h.graph]
  exact hone

/-! ## The invariant -/

theorem Planned.toOne {store after : Store} {makeId : NodeKey → String} {nodes : List Node} {plan : SavePlan}
    (hp : store.Planned makeId nodes plan) (hf : store.MakesFresh makeId) (hw : store.Written plan nodes after)
    (hs : store.Sound) (hone : store.ToOne) : after.ToOne := by
  intro id name kind r a b hn hk hr hcard ha hak hb hbk
  rw [hw.schema] at hk
  rw [hw.graph] at hn ha hak hb hbk
  rcases SavePlan.mem_edges_write_iff.mp ha with hc | ⟨hoa, _⟩
  · exact hp.create_toOne hc hn hk hr hcard ha hak hb hbk
  · rcases SavePlan.mem_edges_write_iff.mp hb with hc | ⟨hob, _⟩
    · exact hp.create_toOne hc hn hk hr hcard ha hak hb hbk
    · -- Neither edge was created, so that nothing here is new to the save.
      exact hone (hp.kindOf?_of_end hf hs hoa r.owner_end hn) hk hr hcard
        hoa (hp.kindOf?_of_end hf hs hoa r.related_end hak)
        hob (hp.kindOf?_of_end hf hs hob r.related_end hbk)

theorem Step.toOne {store after : Store} (h : store.Step after) (hs : store.Sound) (hone : store.ToOne) : after.ToOne := by
  rcases h.cases with hread | ⟨_, _, _, hf, hp, hw⟩
  · exact hread.toOne hone
  · exact hp.toOne hf hw hs hone

theorem Reachable.toOne {schema : Schema} {store : Store} (h : Reachable schema store) : store.ToOne := by
  induction h with
  | empty => exact ToOne.empty schema
  | step hreach hstep ih => exact hstep.toOne hreach.sound ih

/-- In every reachable state, a relationship to one node leads from a stored node to at most one node of its related kind. -/
theorem at_most_one_related {schema : Schema} {store : Store} (h : Reachable schema store) {id : String} {stored : StoredNode}
    (hs : store.graph.nodes[id]? = some stored) {kind : EntityKind} (hk : schema.kinds[stored.kind]? = some kind)
    {r : Relationship} (hr : r ∈ kind.relationships) (hone : r.cardinality = .one) {a b : String}
    (ha : a ∈ store.graph.neighbors id r.label r.direction) (hak : store.graph.kindOf? a = some r.relatedKind)
    (hb : b ∈ store.graph.neighbors id r.label r.direction) (hbk : store.graph.kindOf? b = some r.relatedKind) : a = b := by
  rw [← h.schema_eq] at hk
  exact h.toOne (Graph.kindOf?_eq_some_iff.mpr ⟨stored, hs, rfl⟩) hk hr hone
    (Graph.mem_neighbors_iff.mp ha) hak (Graph.mem_neighbors_iff.mp hb) hbk

/-- The project that an issue was saved with is its only one. -/
theorem one_project_of_issue :
    Example.saved.graph.neighbors "i" Example.project.label Example.project.direction = ["p"] ∧
      ∀ a ∈ Example.saved.graph.neighbors "i" Example.project.label Example.project.direction,
        Example.saved.graph.kindOf? a = some "Project" → a = "p" := by
  have hi : Example.saved.graph.nodes["i"]? = some ⟨"Issue", .ofList [("title", .string "crash")] compare⟩ := by
    rw [Example.saved_eq]
    rfl
  have hp : "p" ∈ Example.saved.graph.neighbors "i" Example.project.label Example.project.direction := by
    rw [Example.neighbors_saved]
    exact List.mem_singleton.mpr rfl
  refine ⟨Example.neighbors_saved, fun a ha hak => ?_⟩
  exact at_most_one_related Example.reachable_saved hi (rfl : Example.schema.kinds["Issue"]? = some Example.issueKind)
    (List.mem_singleton.mpr rfl) rfl ha hak hp Example.kindOf?_saved

end Store

end EntityGraph
