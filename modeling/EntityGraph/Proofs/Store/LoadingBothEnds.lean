import EntityGraph.Proofs.Store.Reloading
import EntityGraph.Proofs.Store.Serving

/-!
# What loading shows at both ends

When a relationship is loaded for a node that a store handed out, the node has loaded just what the store holds, and every node
that is returned knows of the node that it was loaded for, and of nothing else (`Store.Loads`). Where the mirror holds one node,
this is all there is to it, since the store holds one node there; where it holds several, others may be missing.
-/

namespace EntityGraph

namespace RelatedSet

/-- A field of a new node in which another one was seen holds that one, and is known completely if it is a field for one node. -/
theorem loadOne_empty (field : String) (cardinality : Cardinality) (key : NodeKey) :
    ((RelatedSet.empty field cardinality).loadOne key).loaded = some {key} ∧
      (((RelatedSet.empty field cardinality).loadOne key).isLoaded = true ↔ cardinality = .one) := by
  cases cardinality <;> simp [loadOne, RelatedSet.empty, known, isLoaded]

theorem hasChanges_empty (field : String) (cardinality : Cardinality) : (RelatedSet.empty field cardinality).hasChanges = false :=
  hasChanges_eq_false_iff.mpr ⟨rfl, rfl⟩

end RelatedSet

namespace Store

/-- What loading a relationship does of a node that is stored under an id: the node has loaded what the store holds, and the rows
know of the node, and of nothing else. -/
structure Loads (store after : Store) (r : Relationship) (id : String) (node node' : Node) (rows : List Node) : Prop where
  graph : after.graph = store.graph
  /-- There is one row for each node that the relationship holds, in the order of the ids. -/
  ids : ∃ ids : List String, rows.map Node.id = ids.map some ∧ ids.Pairwise (· < ·) ∧
    ∀ other, other ∈ ids ↔ r.Holds store.graph id other
  stored : ∀ row ∈ rows, ∃ other, row.id = some other ∧ store.graph.nodes[other]? = some ⟨row.kind, row.attributes⟩
  /-- The node and the rows can be told by their keys, which are remembered. -/
  keys : (node.key :: rows.map Node.key).Nodup
  known : after.known[node.key]? = some id ∧ ∀ row ∈ rows, after.known[row.key]? = row.id
  /-- The field has loaded the rows, and all else of the node is as it was. -/
  own : ∃ s, node' = { node with related := node.related.insert r.field s } ∧ s.isLoaded = true ∧
    s.loaded = some (.ofList (rows.map Node.key) compare)
  /-- In each row the mirror has loaded the node, which it leads to indeed; if it holds one node, there is no other. -/
  mirror : ∀ g, store.schema.Mirrors r g → ∀ row ∈ rows, ∃ other s, row.id = some other ∧ row.related[g.field]? = some s ∧
    s.loaded = some {node.key} ∧ (s.isLoaded = true ↔ g.cardinality = .one) ∧ g.Holds store.graph other id ∧
    (g.cardinality = .one → ∀ owner, g.Holds store.graph other owner ↔ owner = id)
  /-- No other field of a row has anything loaded. -/
  rest : ∀ row ∈ rows, ∀ (field : String) (s : RelatedSet), row.related[field]? = some s → r.mirror ≠ some field →
    s.loaded = none
  unchanged : node'.hasChanges = false ∧ ∀ row ∈ rows, row.hasChanges = false

variable {store after : Store} {r g : Relationship} {id other : String} {node made noted : Node} {kind : EntityKind}
  {row : String × StoredNode}

/-! ## The rows -/

/-- Nodes that are made in memory for stored ones are remembered with their ids besides the node that they were made for, as they
are under keys of their own. -/
theorem known_materialized {rows : List (String × StoredNode)} {nodes : List Node} {read : Store}
    (hm : store.materialize rows = .ok (nodes, read)) (hkey : node.key.val < store.nextKey) (hid : node.id = some id) :
    (node.key :: nodes.map Node.key).Nodup ∧ (read.remember (node :: nodes)).known[node.key]? = some id ∧
      ∀ made ∈ nodes, (read.remember (node :: nodes)).known[made.key]? = made.id := by
  obtain ⟨hnodup, hrange⟩ := materialize_new hm
  obtain ⟨_, _, hout⟩ := materialize_eq_ok hm
  have hapart : ∀ made ∈ nodes, made.key ≠ node.key := by
    intro made hmade hsame
    have hnew := (hrange made hmade).1
    rw [hsame] at hnew
    omega
  refine ⟨List.nodup_cons.mpr ⟨fun hmem => ?_, hnodup⟩, ?_, fun made hmade => ?_⟩
  · obtain ⟨made, hmade, hsame⟩ := List.mem_map.mp hmem
    exact hapart made hmade hsame
  · refine known_remember (fun other ho hsame => ?_) (Or.inl ⟨node, List.mem_cons_self, rfl⟩)
    rcases List.mem_cons.mp ho with rfl | ho
    · exact hid
    · exact absurd hsame (hapart other ho)
  · obtain ⟨row, _, hrow⟩ := hout made hmade
    rw [hrow.id_eq]
    refine known_remember (fun other ho hsame => ?_) (Or.inl ⟨made, List.mem_cons_of_mem _ hmade, rfl⟩)
    rcases List.mem_cons.mp ho with rfl | ho
    · exact absurd hsame.symm (hapart made hmade)
    · rw [List.inj_on_of_nodup_map hnodup ho hmade hsame, hrow.id_eq]

/-- The related rows are those of the nodes that the relationship holds. -/
theorem mem_ids_relatedRows_iff : other ∈ (store.relatedRows r id).map Prod.fst ↔ r.Holds store.graph id other := by
  rw [List.mem_map]
  constructor
  · rintro ⟨source, hsource, rfl⟩
    obtain ⟨hneighbor, hstored, hkind⟩ := mem_relatedRows_iff.mp hsource
    exact ⟨Graph.mem_neighbors_iff.mp hneighbor, Graph.kindOf?_eq_some_iff.mpr ⟨_, hstored, hkind⟩⟩
  · rintro ⟨hedge, hkind⟩
    obtain ⟨found, hstored, hfound⟩ := Graph.kindOf?_eq_some_iff.mp hkind
    exact ⟨(other, found), mem_relatedRows_iff.mpr ⟨Graph.mem_neighbors_iff.mpr hedge, hstored, hfound⟩, rfl⟩

/-- The fields of a node that was made in memory, after another node was noted in it: they are those of a new node, but for the one
that the other node was noted in. -/
theorem HandedOut.related_noted (h : store.HandedOut row made) {field? : Option String} {key : NodeKey}
    (hnotes : Node.Notes field? key made noted) :
    ∃ kind own, store.schema.kinds[row.2.kind]? = some kind ∧ ∀ field : String, noted.related[field]? =
      if field? = some field then (Node.new own kind).related[field]?.map (·.loadOne key)
      else (Node.new own kind).related[field]? := by
  obtain ⟨kind, own, hk, _, rfl⟩ := h
  obtain ⟨sets, rfl, hsets⟩ := hnotes
  exact ⟨kind, own, hk, hsets⟩

/-- A field that no node was noted in is empty, and the other one has seen the one that was noted. -/
theorem HandedOut.related_cases (h : store.HandedOut row made) {field? : Option String} {key : NodeKey}
    (hnotes : Node.Notes field? key made noted) {field : String} {s : RelatedSet} (hset : noted.related[field]? = some s) :
    ∃ cardinality, (field? = some field ∧ s = (RelatedSet.empty field cardinality).loadOne key) ∨
      field? ≠ some field ∧ s = .empty field cardinality := by
  obtain ⟨kind, own, _, hfields⟩ := h.related_noted hnotes
  rw [hfields] at hset
  split at hset
  · next hfield =>
    obtain ⟨old, hold, rfl⟩ := Option.map_eq_some_iff.mp hset
    obtain ⟨m, _, rfl, rfl⟩ := Node.exists_of_related_new hold
    exact ⟨m.cardinality, Or.inl ⟨hfield, rfl⟩⟩
  · next hfield =>
    obtain ⟨m, _, rfl, rfl⟩ := Node.exists_of_related_new hset
    exact ⟨m.cardinality, Or.inr ⟨hfield, rfl⟩⟩

/-- Nothing is pending in a node that was made in memory, also after another node was noted in it. -/
theorem HandedOut.unchanged_noted (h : store.HandedOut row made) {field? : Option String} {key : NodeKey}
    (hnotes : Node.Notes field? key made noted) : noted.hasChanges = false := by
  refine Node.hasChanges_eq_false_iff.mpr fun field s hset => ?_
  obtain ⟨cardinality, ⟨_, rfl⟩ | ⟨_, rfl⟩⟩ := h.related_cases hnotes hset
  · exact RelatedSet.hasChanges_loadOne (RelatedSet.hasChanges_empty field cardinality) _
  · exact RelatedSet.hasChanges_empty field cardinality

/-- The mirror of a relationship is a field of the nodes that were made in memory for its rows, and has seen the node that was
noted. -/
theorem HandedOut.related_mirror (hs : store.schema.WellFormed) (h : store.HandedOut row made) (hkind : row.2.kind = r.relatedKind)
    (hmirror : store.schema.Mirrors r g) {key : NodeKey} (hnotes : Node.Notes r.mirror key made noted) :
    noted.related[g.field]? = some ((RelatedSet.empty g.field g.cardinality).loadOne key) := by
  obtain ⟨found, own, hfound, hfields⟩ := h.related_noted hnotes
  obtain ⟨related, hrelated, hg⟩ := hmirror.mem
  rw [hkind, hrelated] at hfound
  obtain rfl := Option.some.inj hfound
  rw [hfields, if_pos hmirror.field, related_new own (hs.relationshipFields hrelated) hg]
  rfl

/-- The mirror leads from a related row back to the node, and to no other one if it holds one node. -/
theorem holds_mirror (hs : store.schema.WellFormed) (hone : store.ToOne) (hstored : store.graph.kindOf? id = some node.kind)
    (hk : store.schema.kinds[node.kind]? = some kind) (hr : r ∈ kind.relationships) (hmirror : store.schema.Mirrors r g)
    (hback : g.relatedKind = node.kind) (hholds : r.Holds store.graph id other) :
    g.Holds store.graph other id ∧ (g.cardinality = .one → ∀ owner, g.Holds store.graph other owner ↔ owner = id) := by
  obtain ⟨related, hrelated, hg⟩ := hmirror.mem
  have hleads : g.Holds store.graph other id := by
    rw [Relationship.Holds, hmirror.edge_eq hs hk hr, hback]
    exact ⟨hholds.1, hstored⟩
  refine ⟨hleads, fun hcard owner => ⟨fun howner => ?_, fun hsame => hsame ▸ hleads⟩⟩
  exact hone hholds.2 hrelated hg hcard howner.1 howner.2 hleads.1 hleads.2

/-! ## Loading -/

/-- A relationship of a node without changes is loaded when the node is stored under its id. -/
theorem exists_loads (hs : store.schema.WellFormed) (hone : store.ToOne) (hid : node.id = some id)
    (hstored : store.graph.kindOf? id = some node.kind) (hissued : node.key.val < store.nextKey)
    (hk : store.schema.kinds[node.kind]? = some kind) (hmade : node.MadeOf kind) (hun : node.hasChanges = false)
    (hr : r ∈ kind.relationships) (hback : ∀ g, store.schema.Mirrors r g → g.relatedKind = node.kind) :
    ∃ after node' rows, store.load node r.field = ((after, node'), .ok rows) ∧ store.Loads after r id node node' rows := by
  obtain ⟨s, hset, _⟩ := hmade.set r hr
  obtain ⟨stored, hnode, _⟩ := Graph.kindOf?_eq_some_iff.mp hstored
  obtain ⟨rows, hok, hshown⟩ := exists_load hs hid hnode hk hr hset
  obtain ⟨after, node', hload⟩ : ∃ after node', store.load node r.field = ((after, node'), .ok rows) :=
    ⟨_, _, Prod.ext rfl hok⟩
  obtain ⟨r', related, read, s', hfound, hm, hafter, hset', rfl, hnoted⟩ := load_eq_ok hid hload
  obtain rfl := Except.ok.inj ((relationship_of_mem hs hk hr).symm.trans hfound)
  obtain rfl := Option.some.inj (hset.symm.trans hset')
  obtain ⟨hdistinct, hown, hknown⟩ := known_materialized hm hissued hid
  obtain ⟨hread, _, hout⟩ := materialize_eq_ok hm
  have hkeys : rows.map Node.key = related.map Node.key :=
    map_eq_of_forall₂ hnoted fun _ _ ⟨_, hrow, _⟩ => by rw [hrow]
  -- A row is made in memory for a related row, and the node is noted in it.
  have hrows : ∀ row ∈ rows, ∃ made ∈ related, Node.Notes r.mirror node.key made row ∧
      ∃ source ∈ store.relatedRows r id, store.HandedOut source made ∧ row.id = some source.1 := by
    intro row hrow
    obtain ⟨made, hmem, hnotes⟩ := exists_of_forall₂ hnoted row hrow
    obtain ⟨source, hsource, hmadeOf⟩ := hout made hmem
    refine ⟨made, hmem, hnotes, source, hsource, hmadeOf, ?_⟩
    obtain ⟨_, rfl, _⟩ := hnotes
    exact hmadeOf.id_eq
  refine ⟨after, _, rows, hload, ?_⟩
  constructor
  case graph =>
    rw [hafter, hread]
    rfl
  case ids =>
    refine ⟨(store.relatedRows r id).map Prod.fst, ?_, store.pairwise_relatedRows r id, fun _ => mem_ids_relatedRows_iff⟩
    have hids := congrArg (List.map Prod.fst) hshown
    simpa [shown, Function.comp_def] using hids
  case stored =>
    intro row hrow
    obtain ⟨source, hsource, hsame⟩ := List.mem_map.mp (hshown ▸ List.mem_map_of_mem (f := shown) hrow)
    obtain ⟨hsid, hrest⟩ := Prod.mk.inj hsame
    obtain ⟨hskind, hsattributes⟩ := Prod.mk.inj hrest
    refine ⟨source.1, hsid.symm, ?_⟩
    rw [← hskind, ← hsattributes]
    exact (mem_relatedRows_iff.mp hsource).2.1
  case keys => exact hkeys ▸ hdistinct
  case known =>
    rw [hafter]
    refine ⟨hown, fun row hrow => ?_⟩
    obtain ⟨made, hmem, ⟨_, rfl, _⟩, _⟩ := hrows row hrow
    exact hknown made hmem
  case own => exact ⟨_, rfl, rfl, by rw [hkeys]; rfl⟩
  case mirror =>
    intro g hmirror row hrow
    obtain ⟨made, _, hnotes, source, hsource, hmadeOf, hrid⟩ := hrows row hrow
    obtain ⟨hloaded, hcomplete⟩ := RelatedSet.loadOne_empty g.field g.cardinality node.key
    have hfield := hmadeOf.related_mirror hs (mem_relatedRows_iff.mp hsource).2.2 hmirror hnotes
    have hholds := mem_ids_relatedRows_iff.mp (List.mem_map_of_mem (f := Prod.fst) hsource)
    exact ⟨source.1, _, hrid, hfield, hloaded, hcomplete, holds_mirror hs hone hstored hk hr hmirror (hback g hmirror) hholds⟩
  case rest =>
    intro row hrow field t ht hfield
    obtain ⟨made, _, hnotes, _, _, hmadeOf, _⟩ := hrows row hrow
    obtain ⟨_, ⟨hnoted, _⟩ | ⟨_, rfl⟩⟩ := hmadeOf.related_cases hnotes ht
    · exact absurd hnoted hfield
    · rfl
  case unchanged =>
    refine ⟨Node.hasChanges_eq_false_iff.mpr fun field t ht => ?_, fun row hrow => ?_⟩
    · rw [Std.ExtTreeMap.getElem?_insert] at ht
      split at ht
      · obtain rfl := Option.some.inj ht
        exact RelatedSet.hasChanges_load (Node.hasChanges_eq_false_iff.mp hun r.field s hset) _
      · exact Node.hasChanges_eq_false_iff.mp hun field t ht
    · obtain ⟨made, _, hnotes, _, _, hmadeOf, _⟩ := hrows row hrow
      exact hmadeOf.unchanged_noted hnotes

/-- Whatever a store holds, and whatever happened since it handed a node out, a relationship of the node is loaded for a copy of it
without pending changes, if the mirror of the relationship leads back to the kind of the node. The rows are the nodes that the store
holds for the relationship, as they are stored and in the order of their ids. The field has loaded just the rows, and the mirror
field of each row just the node, which the row is related to indeed; it is known completely if it is a field for one node, and then
the row is related to no other. Nothing else is loaded, and nothing is pending. -/
theorem loaded_at_both_ends {decls : List KindDecl} {schema : Schema} (hb : Schema.build decls = .ok schema) {held : List Held}
    (hserving : Serving schema store held) {entry : Held} (hentry : entry ∈ held) (hflag : entry.stored = true)
    (hkey : node.key = entry.node.key) (hid : node.id = entry.node.id) (hkind : node.kind = entry.node.kind)
    (hk : schema.kinds[node.kind]? = some kind) (hmade : node.MadeOf kind) (hun : node.hasChanges = false)
    (hr : r ∈ kind.relationships) (hback : ∀ g, schema.Mirrors r g → g.relatedKind = node.kind) :
    ∃ id after node' rows, node.id = some id ∧ store.load node r.field = ((after, node'), .ok rows) ∧
      store.Loads after r id node node' rows := by
  have hschema := Schema.wellFormed_of_build hb
  have hreach := hserving.reachable
  have hkeeps := (hserving.tracks hschema).keeps
  obtain rfl := hreach.schema_eq
  obtain ⟨id, hgiven, hstored⟩ := (hkeeps.stored entry hentry hflag).stored
  rw [← hid] at hgiven
  rw [← hkind] at hstored
  have hissued : node.key.val < store.nextKey := by
    rw [hkey]
    exact (hkeeps.made entry hentry).issued
  obtain ⟨after, node', rows, hload, hloads⟩ :=
    exists_loads hschema hreach.toOne hgiven hstored hissued hk hmade hun hr hback
  exact ⟨id, after, node', rows, hgiven, hload, hloads⟩

namespace Example

theorem serving_soleProject : Serving schema (keptWith [(⟨2⟩, "p")]) [⟨soleProject, true⟩] := by
  have hkept : Serving schema (keptWith []) [] := serving_of_reachable reachable_kept
  exact .get hkept get_soleProject

theorem madeOf_soleProject : soleProject.MadeOf projectKind := by
  have hheld := (serving_soleProject.tracks (Schema.wellFormed_of_build build_decls)).keeps.made _ (List.mem_singleton.mpr rfl)
  exact hheld.madeOf rfl

end Example

/-- The issues of a project are loaded, and the issue knows its project. -/
theorem issues_loaded_at_both_ends : ∃ after node' rows,
    (Example.keptWith [(⟨2⟩, "p")]).load Example.soleProject "issues" = ((after, node'), .ok rows) ∧
      (Example.keptWith [(⟨2⟩, "p")]).Loads after Example.issues "p" Example.soleProject node' rows := by
  have hback : ∀ g, Example.schema.Mirrors Example.issues g → g.relatedKind = Example.soleProject.kind := by
    rintro g ⟨_, related, hrelated, hg⟩
    obtain rfl := Option.some.inj ((rfl : Example.schema.kinds["Issue"]? = some Example.issueKind).symm.trans hrelated)
    rw [List.mem_singleton.mp hg]
    rfl
  obtain ⟨id, after, node', rows, hid, hload, hloads⟩ := loaded_at_both_ends Example.build_decls Example.serving_soleProject
    (List.mem_singleton.mpr rfl) rfl rfl rfl rfl (rfl : Example.schema.kinds["Project"]? = some Example.projectKind)
    Example.madeOf_soleProject (by decide +kernel) (List.mem_singleton.mpr rfl) hback
  obtain rfl := Option.some.inj ((rfl : Example.soleProject.id = some "p").symm.trans hid)
  exact ⟨after, node', rows, hload, hloads⟩

end Store

end EntityGraph
