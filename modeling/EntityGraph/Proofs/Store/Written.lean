import EntityGraph.Proofs.Store.Plan

/-!
# The graph that a plan writes

After a plan was written, a node of the batch is stored under its id, as the last one of those that share the id, and every other
node is as it was; the edges are those to be created and those that were there and are not to be deleted. When made-up ids are
not those of stored nodes, no stored node changes its kind.
-/

namespace EntityGraph

namespace SavePlan

theorem nodes_write (plan : SavePlan) (nodes : List Node) (graph : Graph) (id : String) :
    (plan.write nodes graph).nodes[id]? =
      ((lastWith plan.idOf nodes id).map fun node => (⟨node.kind, node.attributes⟩ : StoredNode)).or graph.nodes[id]? := by
  rw [write, Graph.nodes_applyAll]
  exact getElem?_foldl_insert ..

theorem mem_edges_write_iff {plan : SavePlan} {nodes : List Node} {graph : Graph} {e : Edge} :
    e ∈ (plan.write nodes graph).edges ↔
      EdgeWrite.create e ∈ plan.writes ∨ e ∈ graph.edges ∧ EdgeWrite.delete e ∉ plan.writes :=
  Graph.mem_edges_applyAll_writeOrder_iff

theorem kindOf?_write (plan : SavePlan) (nodes : List Node) (graph : Graph) (id : String) :
    (plan.write nodes graph).kindOf? id = ((lastWith plan.idOf nodes id).map Node.kind).or (graph.kindOf? id) := by
  rw [Graph.kindOf?, nodes_write, Graph.kindOf?]
  cases lastWith plan.idOf nodes id <;> rfl

end SavePlan

namespace Store

/-- The kinds that are checked before anything is written are those that are written. -/
theorem futureKind?_eq (store : Store) (plan : SavePlan) (nodes : List Node) :
    store.futureKind? plan nodes = (plan.write nodes store.graph).kindOf? := by
  funext id
  rw [SavePlan.kindOf?_write]
  simp only [futureKind?, getElem?_foldl_insert, Std.ExtTreeMap.getElem?_empty, Option.or_none]
  exact Option.orElse_eq_or

/-- Made-up ids are not those of stored nodes. -/
def MakesFresh (store : Store) (makeId : NodeKey → String) : Prop := ∀ key, store.graph.nodes[makeId key]? = none

namespace Unchecked

variable {store : Store} {makeId : NodeKey → String} {nodes : List Node} {plan : SavePlan}

/-! ## Ids -/

theorem ids_eq_some_iff (h : store.Unchecked makeId nodes plan) {key : NodeKey} {id : String} :
    plan.ids[key]? = some id ↔ ∃ node, lastWith Node.key nodes key = some node ∧ store.assignId makeId node = .ok id := by
  rw [h.ids, Option.bind_eq_some_iff]
  refine exists_congr fun node => and_congr_right fun _ => ?_
  cases store.assignId makeId node <;> simp [Except.toOption]

/-- Every node of the batch has an id in the plan. -/
theorem ids_key (h : store.Unchecked makeId nodes plan) {node : Node} (hn : node ∈ nodes) :
    plan.ids[node.key]? = some (plan.idOf node) := by
  obtain ⟨last, hl⟩ := lastWith_isSome Node.key hn
  obtain ⟨id, hid⟩ := h.assigned last (lastWith_some hl).1
  have hget := h.ids_eq_some_iff.mpr ⟨last, hl, hid⟩
  rw [hget, SavePlan.idOf, Std.ExtTreeMap.getD_eq_getD_getElem?, hget]
  rfl

/-- Every id in the plan is that of a node of the batch. -/
theorem exists_of_ids (h : store.Unchecked makeId nodes plan) {key : NodeKey} {id : String} (hid : plan.ids[key]? = some id) :
    ∃ node ∈ nodes, node.key = key ∧ plan.idOf node = id := by
  obtain ⟨node, hl, _⟩ := h.ids_eq_some_iff.mp hid
  obtain ⟨hn, rfl⟩ := lastWith_some hl
  exact ⟨node, hn, rfl, Option.some.inj ((h.ids_key hn).symm.trans hid)⟩

/-- The node that is stored under an id was given this id itself, not another node with its key. -/
theorem assignId_last (h : store.Unchecked makeId nodes plan) {id : String} {node : Node}
    (hl : lastWith plan.idOf nodes id = some node) : store.assignId makeId node = .ok id := by
  obtain ⟨hn, rfl⟩ := lastWith_some hl
  obtain ⟨last, hlast, hid⟩ := h.ids_eq_some_iff.mp (h.ids_key hn)
  obtain ⟨hln, hlk⟩ := lastWith_some hlast
  have hsame : plan.idOf last = plan.idOf node := by rw [SavePlan.idOf, SavePlan.idOf, hlk]
  have : node = last := find?_eq_of_both hl hlast (by simp) (by simpa using hsame)
  rw [this] at hid ⊢
  exact hid

theorem lookup_idOf (h : store.Unchecked makeId nodes plan) {node : Node} (hn : node ∈ nodes) :
    store.lookup plan.ids node.key = some (plan.idOf node) := by
  rw [lookup, h.ids_key hn, Option.some_or]

/-! ## Kinds -/

/-- A stored node keeps its kind. -/
theorem kindOf?_write_of_stored (h : store.Unchecked makeId nodes plan) (hf : store.MakesFresh makeId) {id : String}
    {stored : StoredNode} (hs : store.graph.nodes[id]? = some stored) :
    (plan.write nodes store.graph).kindOf? id = some stored.kind := by
  rw [SavePlan.kindOf?_write]
  have hk : store.graph.kindOf? id = some stored.kind := Graph.kindOf?_eq_some_iff.mpr ⟨stored, hs, rfl⟩
  cases hl : lastWith plan.idOf nodes id with
  | none => rw [hk]; rfl
  | some node =>
    obtain ⟨_, ⟨_, rfl⟩ | ⟨_, hkind⟩⟩ := assignId_eq_ok_iff.mp (h.assignId_last hl)
    · rw [hf] at hs
      cases hs
    · rw [hkind _ hk]
      rfl

/-- A node that was stored as one of a kind is stored as one of the same kind. -/
theorem kindOf?_write_of_kindOf? (h : store.Unchecked makeId nodes plan) (hf : store.MakesFresh makeId) {id kind : String}
    (hk : store.graph.kindOf? id = some kind) : (plan.write nodes store.graph).kindOf? id = some kind := by
  obtain ⟨stored, hstored, rfl⟩ := Graph.kindOf?_eq_some_iff.mp hk
  exact h.kindOf?_write_of_stored hf hstored

/-! ## Edges -/

/-- The edges to be created are those of the pending additions. -/
theorem create_mem_iff (h : store.Unchecked makeId nodes plan) {e : Edge} :
    EdgeWrite.create e ∈ plan.writes ↔ ∃ node ∈ nodes, ∃ kind, store.schema.kinds[node.kind]? = some kind ∧
      ∃ r ∈ kind.relationships, ∃ s, node.related[r.field]? = some s ∧ ∃ key ∈ s.added, key ∉ s.known ∧
        ∃ other, store.lookup plan.ids key = some other ∧ e = r.edge ⟨plan.idOf node, other⟩ := by
  rw [h.writes]
  refine exists_congr fun node => and_congr_right fun hn => exists_congr fun kind => and_congr_right fun hk =>
    exists_congr fun r => and_congr_right fun hr => ?_
  obtain ⟨ws, hws⟩ := h.each node hn kind hk r hr
  simp only [hws, Except.ok.injEq, exists_eq_left']
  exact create_mem_relationshipWrites_iff hws (h.lookup_idOf hn)

end Unchecked

namespace Planned

variable {store : Store} {makeId : NodeKey → String} {nodes : List Node} {plan : SavePlan}

/-! ## Ids -/

theorem ids_eq_some_iff (h : store.Planned makeId nodes plan) {key : NodeKey} {id : String} :
    plan.ids[key]? = some id ↔ ∃ node, lastWith Node.key nodes key = some node ∧ store.assignId makeId node = .ok id :=
  h.unchecked.ids_eq_some_iff

theorem ids_key (h : store.Planned makeId nodes plan) {node : Node} (hn : node ∈ nodes) :
    plan.ids[node.key]? = some (plan.idOf node) := h.unchecked.ids_key hn

theorem exists_of_ids (h : store.Planned makeId nodes plan) {key : NodeKey} {id : String} (hid : plan.ids[key]? = some id) :
    ∃ node ∈ nodes, node.key = key ∧ plan.idOf node = id := h.unchecked.exists_of_ids hid

theorem lookup_idOf (h : store.Planned makeId nodes plan) {node : Node} (hn : node ∈ nodes) :
    store.lookup plan.ids node.key = some (plan.idOf node) := h.unchecked.lookup_idOf hn

/-! ## Kinds -/

theorem kindOf?_write_of_stored (h : store.Planned makeId nodes plan) (hf : store.MakesFresh makeId) {id : String}
    {stored : StoredNode} (hs : store.graph.nodes[id]? = some stored) :
    (plan.write nodes store.graph).kindOf? id = some stored.kind := h.unchecked.kindOf?_write_of_stored hf hs

theorem kindOf?_write_of_kindOf? (h : store.Planned makeId nodes plan) (hf : store.MakesFresh makeId) {id kind : String}
    (hk : store.graph.kindOf? id = some kind) : (plan.write nodes store.graph).kindOf? id = some kind :=
  h.unchecked.kindOf?_write_of_kindOf? hf hk

/-- A stored node stays stored. -/
theorem exists_write_of_stored {id : String} {stored : StoredNode} (hs : store.graph.nodes[id]? = some stored) :
    ∃ after, (plan.write nodes store.graph).nodes[id]? = some after := by
  rw [SavePlan.nodes_write, hs]
  cases lastWith plan.idOf nodes id <;> simp

/-- A node of the batch is stored under its id. -/
theorem exists_write_of_mem {node : Node} (hn : node ∈ nodes) :
    ∃ after, (plan.write nodes store.graph).nodes[plan.idOf node]? = some after := by
  obtain ⟨last, hl⟩ := lastWith_isSome plan.idOf hn
  rw [SavePlan.nodes_write, hl]
  exact ⟨_, rfl⟩

/-- Where the nodes of the batch that share an id are of one kind, a node of the batch is stored as one of its kind. -/
theorem kindOf?_write_of_mem {node : Node} (hn : node ∈ nodes)
    (hsame : ∀ other ∈ nodes, plan.idOf other = plan.idOf node → other.kind = node.kind) :
    (plan.write nodes store.graph).kindOf? (plan.idOf node) = some node.kind := by
  obtain ⟨last, hl⟩ := lastWith_isSome plan.idOf hn
  obtain ⟨hln, hli⟩ := lastWith_some hl
  rw [SavePlan.kindOf?_write, hl]
  exact congrArg some (hsame last hln hli)

/-- A node after the save was stored before or is of the batch; it has the kind of one of them. -/
theorem kindOf?_write_cases (h : store.Planned makeId nodes plan) {id kind : String}
    (hk : (plan.write nodes store.graph).kindOf? id = some kind) :
    store.graph.kindOf? id = some kind ∨ ∃ node ∈ nodes, store.assignId makeId node = .ok id ∧ node.kind = kind := by
  rw [SavePlan.kindOf?_write] at hk
  cases hl : lastWith plan.idOf nodes id with
  | none =>
    rw [hl] at hk
    exact Or.inl hk
  | some node =>
    rw [hl] at hk
    exact Or.inr ⟨node, (lastWith_some hl).1, h.unchecked.assignId_last hl, Option.some.inj hk⟩

/-! ## Edges -/

theorem create_mem_iff (h : store.Planned makeId nodes plan) {e : Edge} :
    EdgeWrite.create e ∈ plan.writes ↔ ∃ node ∈ nodes, ∃ kind, store.schema.kinds[node.kind]? = some kind ∧
      ∃ r ∈ kind.relationships, ∃ s, node.related[r.field]? = some s ∧ ∃ key ∈ s.added, key ∉ s.known ∧
        ∃ other, store.lookup plan.ids key = some other ∧ e = r.edge ⟨plan.idOf node, other⟩ :=
  h.unchecked.create_mem_iff

/-- A pending removal deletes its edge. -/
theorem delete_mem (h : store.Planned makeId nodes plan) {node : Node} (hn : node ∈ nodes) {kind : EntityKind}
    (hk : store.schema.kinds[node.kind]? = some kind) {r : Relationship} (hr : r ∈ kind.relationships) {s : RelatedSet}
    (hs : node.related[r.field]? = some s) {key : NodeKey} (hkey : key ∈ s.removed) (hknown : key ∈ s.known) {other : String}
    (hl : store.lookup plan.ids key = some other) : EdgeWrite.delete (r.edge ⟨plan.idOf node, other⟩) ∈ plan.writes := by
  obtain ⟨ws, hws⟩ := h.each node hn kind hk r hr
  refine (h.writes _).mpr ⟨node, hn, kind, hk, r, hr, ws, hws, ?_⟩
  obtain ⟨s', changes, displaced, hs', hc, _, rfl⟩ := relationshipWrites_eq_ok hws
  obtain rfl := Option.some.inj (hs.symm.trans hs')
  obtain ⟨ownerId, ho, _, _, hremove⟩ := RelatedSet.changes_eq_ok hc
  rw [lookup, h.ids_key hn] at ho
  obtain rfl := Option.some.inj ho
  refine List.mem_append_left _ (Relationship.delete_mem_writes_iff.mpr ⟨⟨plan.idOf node, other⟩, ?_, rfl⟩)
  exact (hremove _).mpr ⟨key, hkey, hknown, hl, rfl⟩

/-- Every node that a saved relationship refers to has an id. -/
theorem lookup_isSome (h : store.Planned makeId nodes plan) {node : Node} (hn : node ∈ nodes) {kind : EntityKind}
    (hk : store.schema.kinds[node.kind]? = some kind) {r : Relationship} (hr : r ∈ kind.relationships) {s : RelatedSet}
    (hs : node.related[r.field]? = some s) {key : NodeKey} (hkey : key ∈ s.known ∨ key ∈ s.added ∨ key ∈ s.removed) :
    ∃ id, store.lookup plan.ids key = some id := by
  obtain ⟨ws, hws⟩ := h.each node hn kind hk r hr
  obtain ⟨s', changes, displaced, hs', hc, _, rfl⟩ := relationshipWrites_eq_ok hws
  obtain rfl := Option.some.inj (hs.symm.trans hs')
  obtain ⟨_, _, hall, _, _⟩ := RelatedSet.changes_eq_ok hc
  exact hall key hkey

/-- Both ends of a created edge are stored afterwards. -/
theorem create_ends (h : store.Planned makeId nodes plan) {e : Edge} (he : EdgeWrite.create e ∈ plan.writes) {id : String}
    (hid : id = e.source ∨ id = e.target) : ∃ after, (plan.write nodes store.graph).nodes[id]? = some after := by
  rcases h.ends e he id hid with ⟨key, hkey⟩ | ⟨stored, hs⟩
  · obtain ⟨node, hn, _, rfl⟩ := h.exists_of_ids hkey
    exact exists_write_of_mem hn
  · exact exists_write_of_stored hs

/-- Where an edge is created, a relationship to one node leads to at most one node afterwards. -/
theorem create_toOne (h : store.Planned makeId nodes plan) {id other name : String} {kind : EntityKind} {r : Relationship}
    (he : EdgeWrite.create (r.edge ⟨id, other⟩) ∈ plan.writes)
    (hn : (plan.write nodes store.graph).kindOf? id = some name) (hk : store.schema.kinds[name]? = some kind)
    (hr : r ∈ kind.relationships) (hone : r.cardinality = .one) {a b : String}
    (ha : r.edge ⟨id, a⟩ ∈ (plan.write nodes store.graph).edges)
    (hak : (plan.write nodes store.graph).kindOf? a = some r.relatedKind)
    (hb : r.edge ⟨id, b⟩ ∈ (plan.write nodes store.graph).edges)
    (hbk : (plan.write nodes store.graph).kindOf? b = some r.relatedKind) : a = b := by
  obtain ⟨hsource, htarget⟩ := h.oneAt _ he
  rw [store.futureKind?_eq plan nodes, Relationship.edge_label] at hsource htarget
  have hcheck : checkOneAt store.schema (store.graph.applyAll (writeOrder plan.writes))
      (plan.write nodes store.graph).kindOf? id r.label r.direction = .ok () := by
    cases hd : r.direction with
    | outgoing => simpa [Relationship.edge, hd] using hsource
    | incoming => simpa [Relationship.edge, hd] using htarget
  rw [SavePlan.mem_edges_write_iff, ← Graph.mem_edges_applyAll_writeOrder_iff] at ha hb
  exact checkOneAt_eq_ok hcheck hn hk hr hone ha hak hb hbk

end Planned

end Store

end EntityGraph
