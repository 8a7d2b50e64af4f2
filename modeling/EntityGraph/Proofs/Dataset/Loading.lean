import EntityGraph.Proofs.Dataset.Drafting
import EntityGraph.Proofs.Store.BatchOrder

/-!
# What a dataset is loaded as

The store that a dataset is loaded into holds the declared nodes, and the edges that the edges of the dataset stand for
(`Dataset.Draws`), each oriented by the direction of its field (`Dataset.loadedAs_of_ok`). Where every edge leads to a node of the
related kind of its field, a dataset whose nodes and edges can be taken into memory is loaded unless a field for one node would
hold several, whichever end their edges were stated from (`Dataset.exists_load_iff`).
-/

namespace EntityGraph

/-- The edge of a graph that an edge of a dataset stands for. -/
def DatasetEdge.Draws (schema : Schema) (declared : List DatasetNode) (edge : DatasetEdge) (e : Edge) : Prop :=
  ∃ source ∈ declared, source.id = edge.source ∧
    ∃ r, schema.relationship source.kind edge.field = .ok r ∧ e = r.edge ⟨edge.source, edge.target⟩

/-- An edge leads to a node of the related kind of its field, if its ends are declared and the field is there. -/
def DatasetEdge.Typed (schema : Schema) (declared : List DatasetNode) (edge : DatasetEdge) : Prop :=
  ∀ source ∈ declared, source.id = edge.source → ∀ target ∈ declared, target.id = edge.target →
    ∀ r, schema.relationship source.kind edge.field = .ok r → target.kind = r.relatedKind

namespace Dataset

/-- The edges of a graph that a dataset stands for. -/
def Draws (schema : Schema) (dataset : Dataset) (e : Edge) : Prop := ∃ edge ∈ dataset.edges, edge.Draws schema dataset.nodes e

/-- Every edge leads to a node of the related kind of its field, if its ends are declared and the field is there. -/
def Typed (schema : Schema) (dataset : Dataset) : Prop := ∀ edge ∈ dataset.edges, edge.Typed schema dataset.nodes

/-- The edges of a dataset lead from no field for one node to several nodes of its related kind. -/
def ToOne (schema : Schema) (dataset : Dataset) : Prop :=
  ∀ owner ∈ dataset.nodes, ∀ kind, schema.kinds[owner.kind]? = some kind → ∀ r ∈ kind.relationships, r.cardinality = .one →
    ∀ a ∈ dataset.nodes, a.kind = r.relatedKind → dataset.Draws schema (r.edge ⟨owner.id, a.id⟩) →
      ∀ b ∈ dataset.nodes, b.kind = r.relatedKind → dataset.Draws schema (r.edge ⟨owner.id, b.id⟩) → a.id = b.id

/-- The nodes in memory for a dataset, with its edges, are ready to be saved to an empty store. -/
structure Ready (dataset : Dataset) (store : Store) (nodes : List Node) : Prop where
  wellFormed : store.schema.WellFormed
  drafted : dataset.Drafted store.schema
  batch : Batch store.schema dataset.nodes dataset.edges nodes
  graph : store.graph = .empty
  known : store.known = ∅

section

variable {dataset : Dataset} {store : Store} {nodes : List Node} {node : Node} {ids : Std.ExtTreeMap NodeKey String}
  {plan : SavePlan} {id : String}

/-! ## Ids -/

/-- The ids that are planned for a batch are those of the nodes. -/
def Identifies (store : Store) (nodes : List Node) (ids : Std.ExtTreeMap NodeKey String) : Prop :=
  ∀ key id, store.lookup ids key = some id ↔ ∃ node ∈ nodes, node.key = key ∧ node.id = some id

theorem Identifies.owner (h : Identifies store nodes ids) (hn : node ∈ nodes) (hid : node.id = some id) :
    store.lookup ids node.key = some id := (h node.key id).mpr ⟨node, hn, rfl, hid⟩

theorem Ready.exists_id (h : dataset.Ready store nodes) (hn : node ∈ nodes) : ∃ id, node.id = some id := by
  obtain ⟨declared, -, hid, -⟩ := h.batch.exists_declared hn
  exact ⟨_, hid⟩

theorem Ready.lookup_eq (h : dataset.Ready store nodes) (key : NodeKey) : store.lookup ids key = ids[key]? := by
  simp [Store.lookup, h.known]

/-- In an empty store a node is saved under its own id. -/
theorem Ready.assignId_iff (h : dataset.Ready store nodes) (hn : node ∈ nodes) :
    store.assignId NodeKey.text node = .ok id ↔ node.id = some id := by
  obtain ⟨given, hid⟩ := h.exists_id hn
  have hnone : ∀ other, store.graph.kindOf? other = none := by
    intro other
    rw [h.graph]
    simp [Graph.kindOf?, Graph.empty]
  rw [Store.assignId_eq_ok_iff, and_iff_right (h.batch.filled node hn).kind]
  simp [hid, hnone]

theorem Ready.identifies (h : dataset.Ready store nodes) (hids : ∀ key, ids[key]? =
    (lastWith Node.key nodes key).bind fun node => (store.assignId NodeKey.text node).toOption) : Identifies store nodes ids := by
  intro key id
  rw [h.lookup_eq, hids, Option.bind_eq_some_iff]
  simp only [lastWith_eq_some_iff h.batch.keys, toOption_eq_some_iff, and_assoc]
  exact exists_congr fun node => and_congr_right fun hn => and_congr_right fun _ => h.assignId_iff hn

theorem Ready.id_eq (h : dataset.Ready store nodes) (hids : Identifies store nodes plan.ids) (hn : node ∈ nodes) :
    node.id = some (plan.idOf node) := by
  obtain ⟨id, hid⟩ := h.exists_id hn
  have hget := hids.owner hn hid
  rw [h.lookup_eq] at hget
  rw [hid, SavePlan.idOf, Std.ExtTreeMap.getD_eq_getD_getElem?, hget, Option.getD_some]

/-! ## Edges to be created -/

/-- A field holds the nodes that the edges from it lead to. -/
theorem Ready.exists_set (h : dataset.Ready store nodes) (hn : node ∈ nodes) (hid : node.id = some id) {kind : EntityKind}
    (hk : store.schema.kinds[node.kind]? = some kind) {r : Relationship} (hr : r ∈ kind.relationships) :
    ∃ added : KeySet, node.related[r.field]? = some { RelatedSet.empty r.field r.cardinality with added := added } ∧
      ∀ key, key ∈ added ↔ ∃ target ∈ nodes, target.key = key ∧
        ∃ other, target.id = some other ∧ ⟨id, r.field, other⟩ ∈ dataset.edges := by
  obtain ⟨added, hset, hmem⟩ := (h.batch.filled node hn).set (Store.relationship_of_mem h.wellFormed hk hr)
  refine ⟨added, hset, fun key => (hmem key).trans ?_⟩
  rw [hid]
  constructor
  · rintro ⟨⟨source, field, other⟩, hedge, hsource, rfl, target, htarget, htid, hkey⟩
    obtain rfl := Option.some.inj hsource
    exact ⟨target, htarget, hkey, other, htid, hedge⟩
  · rintro ⟨target, htarget, hkey, other, htid, hedge⟩
    exact ⟨_, hedge, rfl, rfl, target, htarget, htid, hkey⟩

/-- A field of a node in memory draws the edges that are stated from it. -/
theorem Ready.draws (h : dataset.Ready store nodes) (hn : node ∈ nodes) (hid : node.id = some id) {kind : EntityKind}
    (hk : store.schema.kinds[node.kind]? = some kind) {r : Relationship} (hr : r ∈ kind.relationships) {other : String}
    (hedge : ⟨id, r.field, other⟩ ∈ dataset.edges) : dataset.Draws store.schema (r.edge ⟨id, other⟩) := by
  obtain ⟨declared, hdeclared, hdid, hdkind, -⟩ := h.batch.exists_declared hn
  refine ⟨_, hedge, declared, hdeclared, Option.some.inj (hdid.symm.trans hid), r, ?_, rfl⟩
  rw [← hdkind]
  exact Store.relationship_of_mem h.wellFormed hk hr

/-- The relationships of a batch create the edges that the dataset stands for. -/
theorem Ready.create_iff_draws (h : dataset.Ready store nodes) (hids : Identifies store nodes ids)
    (heach : ∀ node ∈ nodes, ∀ kind, store.schema.kinds[node.kind]? = some kind → ∀ r ∈ kind.relationships,
      ∃ writes, store.relationshipWrites ids node r = .ok writes) {e : Edge} :
    (∃ node ∈ nodes, ∃ kind, store.schema.kinds[node.kind]? = some kind ∧ ∃ r ∈ kind.relationships,
      ∃ writes, store.relationshipWrites ids node r = .ok writes ∧ .create e ∈ writes) ↔ dataset.Draws store.schema e := by
  constructor
  · rintro ⟨node, hn, kind, hk, r, hr, writes, hwrites, hcreate⟩
    obtain ⟨id, hid⟩ := h.exists_id hn
    obtain ⟨s, hset, key, hkey, -, other, hother, rfl⟩ :=
      (Store.create_mem_relationshipWrites_iff hwrites (hids.owner hn hid)).mp hcreate
    obtain ⟨added, hfilled, hmem⟩ := h.exists_set hn hid hk hr
    obtain rfl := Option.some.inj (hset.symm.trans hfilled)
    obtain ⟨target, htarget, rfl, given, hgiven, hedge⟩ := (hmem key).mp hkey
    obtain rfl := Option.some.inj (hother.symm.trans (hids.owner htarget hgiven))
    exact h.draws hn hid hk hr hedge
  · rintro ⟨⟨source, field, other⟩, hedge, declared, hdeclared, rfl, r, hfound, rfl⟩
    obtain ⟨node, hn, hid, hkind, -⟩ := h.batch.exists_node hdeclared
    obtain ⟨-, related, hrelated, rfl⟩ := h.drafted.fits _ hedge
    obtain ⟨target, htarget, htid, -⟩ := h.batch.exists_node hrelated
    rw [← hkind] at hfound
    obtain ⟨kind, hk, hfind⟩ := Store.relationship_eq_ok_iff.mp hfound
    have hr := List.mem_of_find?_eq_some hfind
    obtain rfl : r.field = field := by simpa using List.find?_some hfind
    obtain ⟨added, hset, hmem⟩ := h.exists_set hn hid hk hr
    obtain ⟨writes, hwrites⟩ := heach node hn kind hk r hr
    refine ⟨node, hn, kind, hk, r, hr, writes, hwrites,
      (Store.create_mem_relationshipWrites_iff hwrites (hids.owner hn hid)).mpr ⟨_, hset, target.key, ?_, ?_, related.id,
        hids.owner htarget htid, rfl⟩⟩
    · exact (hmem target.key).mpr ⟨target, htarget, rfl, related.id, htid, hedge⟩
    · simp [RelatedSet.known, RelatedSet.empty]

/-! ## What is written -/

/-- The declared nodes are written. -/
theorem Ready.nodes_write (h : dataset.Ready store nodes) (hids : Identifies store nodes plan.ids) {stored : StoredNode} :
    (plan.write nodes store.graph).nodes[id]? = some stored ↔ ∃ node ∈ dataset.nodes, node.row = (id, stored) := by
  have hnodup : (nodes.map plan.idOf).Nodup := by
    have hsome : (nodes.map plan.idOf).map some = (dataset.nodes.map DatasetNode.id).map some := by
      rw [← h.batch.nodeIds, List.map_map]
      exact List.map_congr_left fun node hn => (h.id_eq hids hn).symm
    rw [List.map_injective_iff.mpr (fun _ _ => Option.some.inj) hsome]
    exact h.batch.ids
  rw [SavePlan.nodes_write, h.graph]
  simp only [Graph.empty, Std.ExtTreeMap.getElem?_empty, Option.or_none, Option.map_eq_some_iff, lastWith_eq_some_iff hnodup,
    and_assoc]
  constructor
  · rintro ⟨node, hn, rfl, rfl⟩
    obtain ⟨declared, hdeclared, hid, hkind, hattributes⟩ := h.batch.exists_declared hn
    rw [h.id_eq hids hn] at hid
    exact ⟨declared, hdeclared, by rw [DatasetNode.row, ← Option.some.inj hid, hkind, hattributes]⟩
  · rintro ⟨declared, hdeclared, hrow⟩
    obtain ⟨rfl, rfl⟩ := Prod.mk.inj hrow
    obtain ⟨node, hn, hid, hkind, hattributes⟩ := h.batch.exists_node hdeclared
    rw [h.id_eq hids hn] at hid
    exact ⟨node, hn, Option.some.inj hid, by rw [hkind, hattributes]⟩

theorem Ready.kindOf?_write (h : dataset.Ready store nodes) (hids : Identifies store nodes plan.ids) {kind : String} :
    (plan.write nodes store.graph).kindOf? id = some kind ↔ ∃ node ∈ dataset.nodes, node.id = id ∧ node.kind = kind := by
  rw [Graph.kindOf?_eq_some_iff]
  simp only [h.nodes_write hids, DatasetNode.row, Prod.mk.injEq]
  constructor
  · rintro ⟨_, ⟨node, hn, rfl, rfl⟩, rfl⟩
    exact ⟨node, hn, rfl, rfl⟩
  · rintro ⟨node, hn, rfl, rfl⟩
    exact ⟨_, ⟨node, hn, rfl, rfl⟩, rfl⟩

theorem Ready.create_iff (h : dataset.Ready store nodes) (hp : store.Planned NodeKey.text nodes plan) {e : Edge} :
    EdgeWrite.create e ∈ plan.writes ↔ dataset.Draws store.schema e :=
  (hp.writes _).trans (h.create_iff_draws (h.identifies hp.ids) hp.each)

/-- The edges that the dataset stands for are written. -/
theorem Ready.mem_edges_write_iff (h : dataset.Ready store nodes) (hp : store.Planned NodeKey.text nodes plan) {e : Edge} :
    e ∈ (plan.write nodes store.graph).edges ↔ dataset.Draws store.schema e := by
  rw [SavePlan.mem_edges_write_iff, h.create_iff hp, h.graph]
  simp [Graph.empty]

/-! ## When it is written -/

/-- Where a plan is made, no field for one node would hold several. -/
theorem Ready.toOne_of_planned (h : dataset.Ready store nodes) (hp : store.Planned NodeKey.text nodes plan) :
    dataset.ToOne store.schema := by
  intro owner ho kind hk r hr hone a ha hak hdrawsa b hb hbk hdrawsb
  have hkindOf : ∀ node ∈ dataset.nodes, (plan.write nodes store.graph).kindOf? node.id = some node.kind := fun node hn =>
    (h.kindOf?_write (h.identifies hp.ids)).mpr ⟨node, hn, rfl, rfl⟩
  exact hp.create_toOne ((h.create_iff hp).mpr hdrawsa) (hkindOf owner ho) hk hr hone
    ((h.mem_edges_write_iff hp).mpr hdrawsa) (by rw [hkindOf a ha, hak])
    ((h.mem_edges_write_iff hp).mpr hdrawsb) (by rw [hkindOf b hb, hbk])

/-- From a field for one node edges lead to one node at most, where they lead to nodes of the related kinds. -/
theorem Ready.eq_of_edges (h : dataset.Ready store nodes) (hone : dataset.ToOne store.schema)
    (htyped : dataset.Typed store.schema) (hn : node ∈ nodes) (hid : node.id = some id) {kind : EntityKind}
    (hk : store.schema.kinds[node.kind]? = some kind) {r : Relationship} (hr : r ∈ kind.relationships)
    (hcard : r.cardinality = .one) {a b : String} (ha : ⟨id, r.field, a⟩ ∈ dataset.edges) (hb : ⟨id, r.field, b⟩ ∈ dataset.edges) :
    a = b := by
  obtain ⟨owner, ho, hoid, hokind, -⟩ := h.batch.exists_declared hn
  obtain rfl := Option.some.inj (hid.symm.trans hoid)
  have hfound := Store.relationship_of_mem h.wellFormed hk hr
  have htarget : ∀ other : String, ⟨owner.id, r.field, other⟩ ∈ dataset.edges →
      ∃ target ∈ dataset.nodes, target.id = other ∧ target.kind = r.relatedKind := by
    intro other hedge
    obtain ⟨-, target, ht, htid⟩ := h.drafted.fits _ hedge
    exact ⟨target, ht, htid, htyped _ hedge owner ho rfl target ht htid r (hokind ▸ hfound)⟩
  obtain ⟨first, hfirst, rfl, hfirstKind⟩ := htarget a ha
  obtain ⟨second, hsecond, rfl, hsecondKind⟩ := htarget b hb
  exact hone owner ho kind (hokind ▸ hk) r hr hcard first hfirst hfirstKind (h.draws hn hid hk hr ha) second hsecond hsecondKind
    (h.draws hn hid hk hr hb)

/-- The writes of every relationship can be planned. -/
theorem Ready.exists_relationshipWrites (h : dataset.Ready store nodes) (hids : Identifies store nodes ids)
    (hone : dataset.ToOne store.schema) (htyped : dataset.Typed store.schema) (hn : node ∈ nodes) {kind : EntityKind}
    (hk : store.schema.kinds[node.kind]? = some kind) {r : Relationship} (hr : r ∈ kind.relationships) :
    ∃ writes, store.relationshipWrites ids node r = .ok writes := by
  obtain ⟨id, hid⟩ := h.exists_id hn
  obtain ⟨added, hset, hmem⟩ := h.exists_set hn hid hk hr
  refine Store.exists_relationshipWrites h.wellFormed hk hr (hids.owner hn hid) hset (fun hcard => ?_) fun key hkey => ?_
  · -- The field counts nodes of any kind, unlike the checks of a plan; as the edges are typed, there are none of other kinds.
    refine size_le_one_of_forall_eq fun a ha b hb => ?_
    have hadded : ∀ key, key ∈ (({ RelatedSet.empty r.field r.cardinality with added := added } : RelatedSet).current) →
        key ∈ added := by simp [RelatedSet.current, RelatedSet.known, RelatedSet.empty]
    obtain ⟨first, hfirst, rfl, other, hother, hedge⟩ := (hmem a).mp (hadded a ha)
    obtain ⟨second, hsecond, rfl, other', hother', hedge'⟩ := (hmem b).mp (hadded b hb)
    obtain rfl := h.eq_of_edges hone htyped hn hid hk hr hcard hedge hedge'
    rw [h.batch.eq_of_id hfirst hsecond (hother.trans hother'.symm)]
  · have hadded : key ∈ added := by simpa [RelatedSet.known, RelatedSet.empty] using hkey
    obtain ⟨target, htarget, rfl, other, hother, -⟩ := (hmem key).mp hadded
    exact ⟨other, hids.owner htarget hother⟩

/-- At a declared node the edges pass the checks when no field for one node would hold several. -/
theorem Ready.checkOneAt_eq_ok (h : dataset.Ready store nodes) (hids : Identifies store nodes plan.ids)
    (hcreate : ∀ e, .create e ∈ plan.writes ↔ dataset.Draws store.schema e) (hone : dataset.ToOne store.schema)
    {declared : DatasetNode} (hd : declared ∈ dataset.nodes) (label : String) (direction : Direction) :
    Store.checkOneAt store.schema (store.graph.applyAll (writeOrder plan.writes)) (store.futureKind? plan nodes) declared.id label
      direction = .ok () := by
  have hdrawn : ∀ e, e ∈ (store.graph.applyAll (writeOrder plan.writes)).edges → dataset.Draws store.schema e := by
    intro e he
    rw [Graph.mem_edges_applyAll_writeOrder_iff, h.graph] at he
    simpa [Graph.empty, hcreate] using he
  obtain ⟨kind, hk⟩ := h.drafted.kinds declared hd
  rw [store.futureKind?_eq plan nodes]
  refine Store.checkOneAt_of_forall_eq ((h.kindOf?_write hids).mpr ⟨declared, hd, rfl, rfl⟩) hk
    fun r hr hcard _ _ a b ha hak hb hbk => ?_
  obtain ⟨first, hfirst, rfl, hfirstKind⟩ := (h.kindOf?_write hids).mp hak
  obtain ⟨second, hsecond, rfl, hsecondKind⟩ := (h.kindOf?_write hids).mp hbk
  exact hone declared hd kind hk r hr hcard first hfirst hfirstKind (hdrawn _ ha) second hsecond hsecondKind (hdrawn _ hb)

/-- A plan is made when no field for one node would hold several, where edges lead to nodes of the related kinds. -/
theorem Ready.exists_plan (h : dataset.Ready store nodes) (hone : dataset.ToOne store.schema)
    (htyped : dataset.Typed store.schema) : ∃ plan, store.Planned NodeKey.text nodes plan := by
  have hassigned : ∀ node ∈ nodes, ∃ id, store.assignId NodeKey.text node = .ok id := fun node hn =>
    (h.exists_id hn).imp fun id hid => (h.assignId_iff hn).mpr hid
  obtain ⟨plan, hp⟩ := Store.exists_unchecked hassigned fun ids hget node hn kind hk r hr =>
    h.exists_relationshipWrites (h.identifies hget) hone htyped hn hk hr
  have hids := h.identifies hp.ids
  have hcreate : ∀ e, .create e ∈ plan.writes ↔ dataset.Draws store.schema e := fun e =>
    (hp.writes _).trans (h.create_iff_draws hids hp.each)
  -- Both ends of an edge that is drawn are declared.
  have hends : ∀ e, .create e ∈ plan.writes → ∀ id : String, id = e.source ∨ id = e.target →
      ∃ node ∈ dataset.nodes, node.id = id := by
    intro e he id hid
    obtain ⟨edge, hedge, source, hsource, hsid, r, -, rfl⟩ := (hcreate e).mp he
    rcases Relationship.mem_ends_iff.mp hid with rfl | rfl
    · exact ⟨source, hsource, hsid⟩
    · exact (h.drafted.fits edge hedge).2
  refine ⟨plan, hp.assigned, hp.ids, hp.each, hp.writes, fun e he id hid => Or.inl ?_, fun e he => ?_⟩
  · obtain ⟨declared, hd, rfl⟩ := hends e he id hid
    obtain ⟨node, hn, hnid, -⟩ := h.batch.exists_node hd
    exact ⟨node.key, (h.lookup_eq node.key).symm.trans (hids.owner hn hnid)⟩
  · obtain ⟨source, hsource, hsid⟩ := hends e he e.source (Or.inl rfl)
    obtain ⟨target, htarget, htid⟩ := hends e he e.target (Or.inr rfl)
    rw [← hsid, ← htid]
    exact ⟨h.checkOneAt_eq_ok hids hcreate hone hsource _ _, h.checkOneAt_eq_ok hids hcreate hone htarget _ _⟩

end

/-! ## Loading -/

variable {schema : Schema} {dataset : Dataset}

/-- A store holds what a dataset stands for, and nothing else. -/
structure LoadedAs (schema : Schema) (dataset : Dataset) (store : Store) : Prop where
  schema_eq : store.schema = schema
  nodes : ∀ id stored, store.graph.nodes[id]? = some stored ↔ ∃ node ∈ dataset.nodes, node.row = (id, stored)
  edges : ∀ e, e ∈ store.graph.edges ↔ dataset.Draws schema e

/-- A dataset is loaded by one save, in whatever order what is remembered is gone through. -/
theorem load_eq_ok_iff (rank : NodeKey → Nat) {after : Store} :
    dataset.load schema = .ok after ↔ ∃ store made nodes reached writes,
      makeNodes (.empty schema) [] dataset.nodes = .ok (store, made) ∧ dataset.edges.foldlM addEdge made = .ok nodes ∧
        store.save NodeKey.text rank nodes = ((after, reached), .ok writes) := by
  simp only [load, bind_eq_ok_iff, Prod.exists, ← exists_and_left]
  refine exists_congr fun store => exists_congr fun made => exists_congr fun nodes => ?_
  obtain ⟨batch, hsave⟩ := store.save_rank NodeKey.text rank NodeKey.val nodes
  rw [hsave]
  rcases store.save NodeKey.text rank nodes with ⟨⟨saved, batch⟩, _ | writes⟩ <;> simp [pure, Except.pure]

/-- The two passes leave a batch that is ready to be saved. -/
theorem ready_of_ok (hs : schema.WellFormed) {store : Store} {made nodes : List Node}
    (hmake : makeNodes (.empty schema) [] dataset.nodes = .ok (store, made))
    (hadd : dataset.edges.foldlM addEdge made = .ok nodes) : store.schema = schema ∧ dataset.Ready store nodes := by
  obtain ⟨hd, rfl, hgraph, hknown, hb⟩ := batch_of_ok hs hmake hadd
  exact ⟨rfl, hs, hd, hb, hgraph, hknown⟩

/-- A dataset is loaded as what it stands for. -/
theorem loadedAs_of_ok (hs : schema.WellFormed) {after : Store} (h : dataset.load schema = .ok after) :
    dataset.LoadedAs schema after := by
  obtain ⟨store, made, nodes, reached, writes, hmake, hadd, hsave⟩ := (load_eq_ok_iff NodeKey.val).mp h
  obtain ⟨rfl, hready⟩ := ready_of_ok hs hmake hadd
  obtain ⟨plan, hp, hw, -⟩ := Store.planned_of_save hsave
  refine ⟨hw.schema, fun id stored => ?_, fun e => ?_⟩
  · rw [hw.graph]
    exact hready.nodes_write (hready.identifies hp.ids)
  · rw [hw.graph]
    exact hready.mem_edges_write_iff hp

/-- A dataset that is loaded can be taken into memory. -/
theorem drafted_of_load (hs : schema.WellFormed) {after : Store} (h : dataset.load schema = .ok after) :
    dataset.Drafted schema := by
  obtain ⟨store, made, nodes, -, -, hmake, hadd, -⟩ := (load_eq_ok_iff NodeKey.val).mp h
  exact (batch_of_ok hs hmake hadd).1

/-- Where every edge leads to a node of the related kind of its field, a dataset is loaded when it can be taken into memory and no
field for one node would hold several, and only then. -/
theorem exists_load_iff (hs : schema.WellFormed) (htyped : dataset.Typed schema) :
    (∃ store, dataset.load schema = .ok store) ↔ dataset.Drafted schema ∧ dataset.ToOne schema := by
  simp only [load_eq_ok_iff NodeKey.val]
  constructor
  · rintro ⟨_, store, made, nodes, reached, writes, hmake, hadd, hsave⟩
    obtain ⟨rfl, hready⟩ := ready_of_ok hs hmake hadd
    obtain ⟨plan, hp, -⟩ := Store.planned_of_save hsave
    exact ⟨hready.drafted, hready.toOne_of_planned hp⟩
  · rintro ⟨hd, hone⟩
    obtain ⟨store, made, nodes, hmake, hadd⟩ := hd.exists_batch hs
    obtain ⟨rfl, hready⟩ := ready_of_ok hs hmake hadd
    obtain ⟨plan, hp⟩ := hready.exists_plan hone htyped
    obtain ⟨⟨after, reached⟩, hsave, -⟩ := Store.exists_save NodeKey.val (Store.plan_eq_ok_iff.mpr hp) hp.complete
    exact ⟨after, store, made, nodes, reached, _, hmake, hadd, hsave⟩

end Dataset

end EntityGraph
