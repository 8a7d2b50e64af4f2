import EntityGraph.Proofs.Filter.Meaning
import EntityGraph.Proofs.Store.Reachable

/-!
# Queries with filters

A query with the condition of a filter hands out just the stored nodes of its kind at which the filter holds, in the order of
their ids. The variable that the condition is about makes no difference.
-/

namespace EntityGraph

namespace Store

/-- The stored nodes of a kind at which a filter holds. -/
def filteredRows (store : Store) (kind : String) (filter : Filter) : List (String × StoredNode) :=
  store.graph.nodes.toList.filter fun row => row.2.kind == kind && filter.holds store.graph row.1

theorem mem_filteredRows_iff {store : Store} {kind : String} {filter : Filter} {row : String × StoredNode} :
    row ∈ store.filteredRows kind filter ↔
      store.graph.nodes[row.1]? = some row.2 ∧ row.2.kind = kind ∧ filter.holds store.graph row.1 = true := by
  obtain ⟨id, stored⟩ := row
  simp [filteredRows, Std.ExtTreeMap.mem_toList_iff_getElem?_eq_some]

/-- A query with the condition of a filter hands out the stored nodes at which the filter holds. -/
theorem query_condition (store : Store) (hs : store.schema.WellFormed) {kind : String} {k : EntityKind}
    (hk : store.schema.kinds[kind]? = some k) (filter : Filter) :
    ∃ nodes after, (∀ subject, store.query kind subject (filter.condition subject) = .ok (nodes, after)) ∧
      nodes.map shown = (store.filteredRows kind filter).map fun row => (some row.1, row.2.kind, row.2.attributes) := by
  have hkinds : ∀ row ∈ store.filteredRows kind filter, ∃ kind, store.schema.kinds[row.2.kind]? = some kind := by
    intro row hrow
    rw [(mem_filteredRows_iff.mp hrow).2.1]
    exact ⟨k, hk⟩
  obtain ⟨nodes, hm, hshown⟩ := exists_materialize store hs hkinds
  have hquery : ∀ subject, (store.graph.nodes.toList.filter fun row =>
      row.2.kind == kind && store.graph.satisfies subject row.1 (filter.condition subject)) = store.filteredRows kind filter := by
    intro subject
    simp only [Graph.satisfies_condition, filteredRows]
  refine ⟨nodes, remember { store with nextKey := store.nextKey + (store.filteredRows kind filter).length } nodes,
    fun subject => ?_, hshown⟩
  rw [← hquery subject] at hm
  exact query_eq_ok_iff.mpr ⟨⟨k, hk⟩, _, hm, by rw [hquery]⟩

/-- Compiling a filter preserves its meaning: whatever the variable, the condition holds of a node exactly when the filter does,
and a query with it hands out just the stored nodes of the kind at which the filter holds. -/
theorem condition_preserves_meaning {decls : List KindDecl} {store : Store} (hb : Schema.build decls = .ok store.schema)
    (filter : Filter) :
    (∀ (g : Graph) (subject : Variable) (id : String),
        g.satisfies subject id (filter.condition subject) = filter.holds g id) ∧
      ∀ kind k, store.schema.kinds[kind]? = some k → ∃ nodes after,
        (∀ subject, store.query kind subject (filter.condition subject) = .ok (nodes, after)) ∧
          nodes.map shown = (store.filteredRows kind filter).map fun row => (some row.1, row.2.kind, row.2.attributes) :=
  ⟨fun g subject id => g.satisfies_condition subject id filter,
    fun _ _ hk => store.query_condition (Schema.wellFormed_of_build hb) hk filter⟩

/-- The filter on projects that some issue has a title. -/
def Example.withCrash : Filter := [.quantified .some Example.issues [.scalar "title" [.compare .eq (.string "crash")]]]

theorem Example.build_saved : Schema.build Example.decls = .ok Example.saved.schema := by
  rw [Example.reachable_saved.schema_eq]
  exact Example.build_decls

/-- The project is found by the title of its issue, under every variable. -/
theorem project_found_by_issue : ∃ nodes after,
    (∀ subject, Example.saved.query "Project" subject (Example.withCrash.condition subject) = .ok (nodes, after)) ∧
      nodes.map shown = [(some "p", "Project", ∅)] := by
  have hk : Example.saved.schema.kinds["Project"]? = some Example.projectKind := by
    rw [Example.saved_eq]
    rfl
  obtain ⟨nodes, after, hquery, hshown⟩ := (condition_preserves_meaning Example.build_saved Example.withCrash).2 _ _ hk
  refine ⟨nodes, after, hquery, hshown.trans ?_⟩
  rw [Example.saved_eq]
  rfl

end Store

end EntityGraph
