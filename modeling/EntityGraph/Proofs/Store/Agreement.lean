import EntityGraph.Proofs.Store.Carrying
import EntityGraph.Proofs.Store.Reachable

/-!
# Nodes in memory agree with the store

A node in memory agrees with a store when what its fields have loaded is what the store holds (`Node.Agrees`). A batch whose
nodes agree with the store, up to their local changes, agrees with it again after it was saved, and has no changes left: the
changes that were taken over are brought in line with all that the save wrote, at both ends of every edge.
-/

namespace EntityGraph

/-- A node has just the fields of a kind, each with related nodes that come from local changes and from what stores showed. -/
structure Node.MadeOf (kind : EntityKind) (node : Node) : Prop where
  set : ∀ r ∈ kind.relationships, ∃ s, node.related[r.field]? = some s ∧ RelatedSet.Reachable r.field r.cardinality s
  only : ∀ (field : String) (s : RelatedSet), node.related[field]? = some s → field ∈ kind.relationships.map Relationship.field

section

variable {kind : EntityKind} {f : Relationship → RelatedSet → RelatedSet} {node node' : Node}

theorem Node.MadeOf.reachable (h : node.MadeOf kind) {r : Relationship} (hr : r ∈ kind.relationships) {s : RelatedSet}
    (hset : node.related[r.field]? = some s) : RelatedSet.Reachable r.field r.cardinality s := by
  obtain ⟨own, hown, hreach⟩ := h.set r hr
  obtain rfl := Option.some.inj (hset.symm.trans hown)
  exact hreach

/-- What holds of every field of a kind after an edit holds of all fields of a node that is made of them. -/
theorem Node.EditedBy.forall_related (h : Node.EditedBy kind f node node') (hmade : node.MadeOf kind) {P : RelatedSet → Prop}
    (hP : ∀ r ∈ kind.relationships, ∀ s, node.related[r.field]? = some s → P (f r s)) :
    ∀ (field : String) (t : RelatedSet), node'.related[field]? = some t → P t := by
  obtain ⟨related, rfl, hfield, hother⟩ := h
  intro field t hset
  have hset : related[field]? = some t := hset
  by_cases hin : field ∈ kind.relationships.map Relationship.field
  · obtain ⟨r, hr, rfl⟩ := List.mem_map.mp hin
    rw [hfield r hr, Option.map_eq_some_iff] at hset
    obtain ⟨s, hs, rfl⟩ := hset
    exact hP r hr s hs
  · rw [hother field hin] at hset
    exact absurd (hmade.only field t hset) hin

/-- A node that is made of the fields of a kind is still made of them after an edit that leaves them as stores and clients can. -/
theorem Node.EditedBy.madeOf (h : Node.EditedBy kind f node node') (hmade : node.MadeOf kind)
    (hf : ∀ r ∈ kind.relationships, ∀ s, node.related[r.field]? = some s →
      RelatedSet.Reachable r.field r.cardinality (f r s)) : node'.MadeOf kind := by
  obtain ⟨related, rfl, hfield, hother⟩ := h
  refine ⟨fun r hr => ?_, fun field t hset => ?_⟩
  · obtain ⟨s, hs, _⟩ := hmade.set r hr
    exact ⟨f r s, by rw [hfield r hr, hs]; rfl, hf r hr s hs⟩
  · by_contra hin
    have hset : related[field]? = some t := hset
    rw [hother field hin] at hset
    exact hin (hmade.only field t hset)

end

/-- What a field of the node with an id has loaded is what the store holds: a loaded node is remembered with the id of a
neighbour of the related kind, and where all is loaded, every such neighbour is. -/
structure RelatedSet.Agrees (store : Store) (r : Relationship) (id : String) (s : RelatedSet) : Prop where
  known : ∀ key ∈ s.known, ∃ other, store.known[key]? = some other ∧
    other ∈ store.graph.neighbors id r.label r.direction ∧ store.graph.kindOf? other = some r.relatedKind
  complete : s.isLoaded = true → ∀ other ∈ store.graph.neighbors id r.label r.direction,
    store.graph.kindOf? other = some r.relatedKind → ∃ key ∈ s.known, store.known[key]? = some other

/-- A node with an id agrees with the store in all fields of its kind. -/
def Node.Agrees (store : Store) (node : Node) : Prop :=
  ∃ id, node.id = some id ∧ ∀ kind, store.schema.kinds[node.kind]? = some kind → ∀ r ∈ kind.relationships,
    ∀ s, node.related[r.field]? = some s → s.Agrees store r id

namespace Store

/-- Made-up ids are new: no stored node and no node of the batch has one, and nodes with different keys get different ones. -/
structure Fresh (store : Store) (makeId : NodeKey → String) (nodes : List Node) : Prop where
  stored : store.MakesFresh makeId
  given : ∀ node ∈ nodes, ∀ other ∈ nodes, node.id ≠ some (makeId other.key)
  different : ∀ node ∈ nodes, ∀ other ∈ nodes, makeId node.key = makeId other.key → node.key = other.key

/-- A batch that is in step with the store up to its local changes, as far as each of its nodes shows; `held` are the nodes that
are in memory. -/
structure InStep (store : Store) (held nodes : List Node) : Prop where
  /-- The nodes are made for the schema of the store. -/
  made : ∀ node ∈ nodes, ∃ kind, store.schema.kinds[node.kind]? = some kind ∧ node.MadeOf kind
  /-- A node with an id agrees with the store. -/
  agrees : ∀ node ∈ nodes, node.id ≠ none → node.Agrees store
  /-- A node without an id has nothing loaded. -/
  unloaded : ∀ node ∈ nodes, node.id = none → ∀ (field : String) (s : RelatedSet), node.related[field]? = some s → s.known = ∅
  /-- What was added to a relationship is a node of its related kind, of the batch or remembered. -/
  added : ∀ node ∈ nodes, ∀ kind, store.schema.kinds[node.kind]? = some kind → ∀ r ∈ kind.relationships,
    ∀ s, node.related[r.field]? = some s → ∀ key ∈ s.added,
      (∃ other ∈ nodes, other.key = key ∧ other.kind = r.relatedKind) ∨
        ∃ other ∈ held, other.key = key ∧ other.kind = r.relatedKind ∧ ∃ id, store.known[key]? = some id
  /-- Nodes with one id are of one kind. -/
  kinds : ∀ node ∈ nodes, ∀ other ∈ nodes, ∀ id, node.id = some id → other.id = some id → node.kind = other.kind
  /-- No node has another id than the one that is remembered for its key. -/
  remembered : ∀ node ∈ nodes, ∀ own id, node.id = some own → store.known[node.key]? = some id → own = id

/-- A store recognizes nodes by their keys: a key stands for one node, which has one kind and one id. -/
structure Recognizes (store : Store) (held nodes : List Node) : Prop where
  /-- A node in memory that is remembered is of the kind of the node that is stored under the id. -/
  stored : ∀ node ∈ held, ∀ id, store.known[node.key]? = some id → store.graph.kindOf? id = some node.kind
  /-- Copies of a node in the batch have one id and one kind. -/
  copies : ∀ node ∈ nodes, ∀ other ∈ nodes, node.key = other.key → node.id = other.id ∧ node.kind = other.kind
  /-- A node of the batch without an id is not remembered. -/
  unknown : ∀ node ∈ nodes, node.id = none → store.known[node.key]? = none

/-- A batch of nodes that agree with the store, up to their local changes, and are told apart by their keys. -/
structure Consistent (store : Store) (nodes : List Node) : Prop where
  /-- The nodes are made for the schema of the store. -/
  made : ∀ node ∈ nodes, ∃ kind, store.schema.kinds[node.kind]? = some kind ∧ node.MadeOf kind
  /-- A node that was saved agrees with the store. -/
  agrees : ∀ node ∈ nodes, node.id ≠ none → node.Agrees store
  /-- A node that was not saved has nothing loaded. -/
  unloaded : ∀ node ∈ nodes, node.id = none → ∀ (field : String) (s : RelatedSet), node.related[field]? = some s → s.known = ∅
  /-- A node that was added to a relationship is of its related kind. -/
  added : ∀ node ∈ nodes, ∀ kind, store.schema.kinds[node.kind]? = some kind → ∀ r ∈ kind.relationships,
    ∀ s, node.related[r.field]? = some s → ∀ key ∈ s.added,
      (∃ other ∈ nodes, other.key = key ∧ other.kind = r.relatedKind) ∨
        ∃ id, store.known[key]? = some id ∧ store.graph.kindOf? id = some r.relatedKind
  /-- Nodes with one id are of one kind. -/
  kinds : ∀ node ∈ nodes, ∀ other ∈ nodes, ∀ id, node.id = some id → other.id = some id → node.kind = other.kind
  /-- A node whose key is remembered has the id that is remembered. -/
  remembered : ∀ node ∈ nodes, ∀ id, store.known[node.key]? = some id → node.id = some id
  /-- A key is the identity of a node: nodes with one key have one id and one kind. -/
  keys : ∀ node ∈ nodes, ∀ other ∈ nodes, node.key = other.key → node.id = other.id ∧ node.kind = other.kind

/-- A batch that is in step with a store that recognizes its nodes. -/
theorem InStep.consistent {store : Store} {held nodes : List Node} (h : store.InStep held nodes)
    (hr : store.Recognizes held nodes) : store.Consistent nodes where
  made := h.made
  agrees := h.agrees
  unloaded := h.unloaded
  added node hn kind hk r hmem s hset key hkey :=
    (h.added node hn kind hk r hmem s hset key hkey).imp_right fun ⟨other, ho, hok, hkind, id, hid⟩ =>
      ⟨id, hid, hkind ▸ hr.stored other ho id (hok ▸ hid)⟩
  kinds := h.kinds
  remembered node hn id hid := by
    cases hown : node.id with
    | none => simp [hr.unknown node hn hown] at hid
    | some own => rw [h.remembered node hn own id hown hid]
  keys := hr.copies

namespace Planned

variable {store : Store} {makeId : NodeKey → String} {rank : NodeKey → Nat} {nodes : List Node} {plan : SavePlan}

/-! ## Ids of a consistent batch -/

/-- A node is saved under its own id, or under the one made up for it. -/
theorem idOf_cases (hp : store.Planned makeId nodes plan) (hc : store.Consistent nodes) {node : Node} (hn : node ∈ nodes) :
    node.id = none ∧ plan.idOf node = makeId node.key ∨ node.id = some (plan.idOf node) := by
  obtain ⟨last, hl, hid⟩ := hp.ids_eq_some_iff.mp (hp.ids_key hn)
  obtain ⟨hln, hkey⟩ := lastWith_some hl
  rw [← (hc.keys last hln node hn hkey).1]
  rcases (assignId_eq_ok_iff.mp hid).2 with ⟨hnone, hmade⟩ | ⟨hgiven, _⟩
  · exact Or.inl ⟨hnone, hkey ▸ hmade⟩
  · exact Or.inr hgiven

/-- Nodes that are saved under one id are of one kind. -/
theorem kind_of_idOf (hp : store.Planned makeId nodes plan) (hc : store.Consistent nodes) (hf : store.Fresh makeId nodes)
    {node other : Node} (hn : node ∈ nodes) (ho : other ∈ nodes) (h : plan.idOf other = plan.idOf node) :
    other.kind = node.kind := by
  rcases hp.idOf_cases hc hn with ⟨_, hmade⟩ | hgiven <;> rcases hp.idOf_cases hc ho with ⟨_, hmade'⟩ | hgiven'
  · rw [hmade, hmade'] at h
    exact (hc.keys other ho node hn (hf.different other ho node hn h)).2
  · rw [h, hmade] at hgiven'
    exact absurd hgiven' (hf.given other ho node hn)
  · rw [← h, hmade'] at hgiven
    exact absurd hgiven (hf.given node hn other ho)
  · rw [h] at hgiven'
    exact hc.kinds other ho node hn _ hgiven' hgiven

/-- Where no two nodes of the batch were given one id, nodes that are saved under one id have one key. -/
theorem key_of_idOf (hp : store.Planned makeId nodes plan) (hids : (nodes.filterMap Node.id).Nodup)
    (hf : store.Fresh makeId nodes) {node other : Node} (hn : node ∈ nodes) (ho : other ∈ nodes)
    (h : plan.idOf other = plan.idOf node) : other.key = node.key := by
  obtain ⟨first, hfirst, hid⟩ := hp.ids_eq_some_iff.mp (hp.ids_key hn)
  obtain ⟨second, hsecond, hid'⟩ := hp.ids_eq_some_iff.mp (hp.ids_key ho)
  obtain ⟨hfn, hfkey⟩ := lastWith_some hfirst
  obtain ⟨hsn, hskey⟩ := lastWith_some hsecond
  rw [h] at hid'
  rw [← hfkey, ← hskey]
  rcases (assignId_eq_ok_iff.mp hid).2 with ⟨_, hmade⟩ | ⟨hgiven, _⟩ <;>
    rcases (assignId_eq_ok_iff.mp hid').2 with ⟨_, hmade'⟩ | ⟨hgiven', _⟩
  · exact hf.different second hsn first hfn (hmade'.symm.trans hmade)
  · rw [hmade] at hgiven'
    exact absurd hgiven' (hf.given second hsn first hfn)
  · rw [hmade'] at hgiven
    exact absurd hgiven (hf.given first hfn second hsn)
  · rw [eq_of_nodup_filterMap hids hsn hfn hgiven' hgiven]

theorem kindOf?_idOf (hp : store.Planned makeId nodes plan) (hc : store.Consistent nodes) (hf : store.Fresh makeId nodes)
    {node : Node} (hn : node ∈ nodes) : (plan.write nodes store.graph).kindOf? (plan.idOf node) = some node.kind :=
  kindOf?_write_of_mem hn fun _ ho h => hp.kind_of_idOf hc hf hn ho h

/-- What is remembered before the save is remembered after it. -/
theorem lookup_of_known (hp : store.Planned makeId nodes plan) (hc : store.Consistent nodes) {key : NodeKey} {id : String}
    (h : store.known[key]? = some id) : store.lookup plan.ids key = some id := by
  rw [lookup, h]
  cases hids : plan.ids[key]? with
  | none => rfl
  | some given =>
    obtain ⟨node, hn, rfl, rfl⟩ := hp.exists_of_ids hids
    have hid := hc.remembered node hn id h
    rcases hp.idOf_cases hc hn with ⟨hnone, _⟩ | hgiven
    · rw [hnone] at hid
      cases hid
    · rw [Option.some_or, ← hgiven, hid]

/-- The ends of an edge that is created are those of a pending addition, which have ids. -/
theorem lookup_of_create (hp : store.Planned makeId nodes plan) {e : Edge} (he : .create e ∈ plan.writes) {id : String}
    (hid : id = e.source ∨ id = e.target) : ∃ key, store.lookup plan.ids key = some id := by
  obtain ⟨owner, ho, _, _, r, _, _, _, key, _, _, added, hadded, rfl⟩ := hp.create_mem_iff.mp he
  rcases Relationship.mem_ends_iff.mp hid with rfl | rfl
  · exact ⟨owner.key, hp.lookup_idOf ho⟩
  · exact ⟨key, hadded⟩

/-- After the save, a key is remembered with the id that the save saw it under. -/
theorem known_eq_lookup (hp : store.Planned makeId nodes plan) {after : Store}
    (h : after.known = nodes.foldl (fun known node => known.insert node.key (plan.idOf node)) store.known) (key : NodeKey) :
    after.known[key]? = store.lookup plan.ids key := by
  rw [known_committed h, lookup]
  cases hl : lastWith Node.key nodes key with
  | none => rw [hp.ids, hl]; rfl
  | some last =>
    obtain ⟨hn, rfl⟩ := lastWith_some hl
    rw [hp.ids_key hn]
    rfl

end Planned

/-! ## A field while the writes are noted -/

/-- The plan of a batch that agreed with the store was carried out, and there is a node in memory for every id that is
remembered. -/
structure Saving (store : Store) (makeId : NodeKey → String) (nodes : List Node) (plan : SavePlan) (after : Store)
    (keys : Std.ExtTreeMap String NodeKey) : Prop where
  planned : store.Planned makeId nodes plan
  consistent : store.Consistent nodes
  fresh : store.Fresh makeId nodes
  sound : store.Sound
  schema : after.schema = store.schema
  graph : after.graph = plan.write nodes store.graph
  /-- A key is remembered with the id that the plan saw it under. -/
  lookup : ∀ key : NodeKey, after.known[key]? = store.lookup plan.ids key
  inMemory : ∀ (key : NodeKey) (other : String), after.known[key]? = some other →
    ∃ found, keys[other]? = some found ∧ after.known[found]? = some other

namespace Saving

variable {store after : Store} {makeId : NodeKey → String} {rank : NodeKey → Nat} {nodes : List Node} {plan : SavePlan}
  {keys : Std.ExtTreeMap String NodeKey} {node : Node} {kind : EntityKind} {r : Relationship} {s : RelatedSet} {key : NodeKey}
  {id other name : String}

theorem known_of_before (h : store.Saving makeId nodes plan after keys) (hid : store.known[key]? = some id) :
    after.known[key]? = some id :=
  (h.lookup key).trans (h.planned.lookup_of_known h.consistent hid)

theorem known_node (h : store.Saving makeId nodes plan after keys) (hn : node ∈ nodes) :
    after.known[node.key]? = some (plan.idOf node) :=
  (h.lookup node.key).trans (h.planned.lookup_idOf hn)

theorem kindOf?_of_before (h : store.Saving makeId nodes plan after keys) (hk : store.graph.kindOf? id = some name) :
    after.graph.kindOf? id = some name := by
  rw [h.graph]
  exact h.planned.kindOf?_write_of_kindOf? h.fresh.stored hk

theorem kindOf?_node (h : store.Saving makeId nodes plan after keys) (hn : node ∈ nodes) :
    after.graph.kindOf? (plan.idOf node) = some node.kind := by
  rw [h.graph]
  exact h.planned.kindOf?_idOf h.consistent h.fresh hn

/-- What was added to a field is of its related kind. -/
theorem kindOf?_added (h : store.Saving makeId nodes plan after keys) (hn : node ∈ nodes)
    (hk : store.schema.kinds[node.kind]? = some kind) (hr : r ∈ kind.relationships) (hset : node.related[r.field]? = some s)
    (hadded : key ∈ s.added) (hother : after.known[key]? = some other) : after.graph.kindOf? other = some r.relatedKind := by
  rcases h.consistent.added node hn kind hk r hr s hset key hadded with ⟨added, ha, rfl, hkind⟩ | ⟨id, hid, hkind⟩
  · obtain rfl := Option.some.inj ((h.known_node ha).symm.trans hother)
    rw [h.kindOf?_node ha, hkind]
  · obtain rfl := Option.some.inj ((h.known_of_before hid).symm.trans hother)
    exact h.kindOf?_of_before hkind

/-- What a node has loaded before the save is what the store holds for the id that the node is saved under. -/
theorem agrees_before (h : store.Saving makeId nodes plan after keys) (hn : node ∈ nodes)
    (hk : store.schema.kinds[node.kind]? = some kind) (hr : r ∈ kind.relationships) (hset : node.related[r.field]? = some s) :
    s.Agrees store r (plan.idOf node) := by
  rcases h.planned.idOf_cases h.consistent hn with ⟨hnone, hmade⟩ | hgiven
  · have hknown := h.consistent.unloaded node hn hnone _ _ hset
    refine ⟨fun key hkey => by simp [hknown] at hkey, fun _ other hneighbor _ => ?_⟩
    -- No edge is at an id that was made up.
    obtain ⟨stored, hstored⟩ := h.sound.ends (Graph.mem_neighbors_iff.mp hneighbor) r.owner_end
    rw [hmade, h.fresh.stored] at hstored
    cases hstored
  · obtain ⟨id, hid, hall⟩ := h.consistent.agrees node hn (by simp [hgiven])
    obtain rfl := Option.some.inj (hgiven.symm.trans hid)
    exact hall kind hk r hr s hset

/-- The writes of the plan can be noted in the fields of the batch. -/
theorem notable (h : store.Saving makeId nodes plan after keys) (hn : node ∈ nodes)
    (hk : store.schema.kinds[node.kind]? = some kind) (hr : r ∈ kind.relationships) :
    after.Notable keys r (plan.idOf node) store.graph (writeOrder plan.writes) := by
  refine ⟨?_, fun other hcreate => ?_, fun hone a b hcreate hak hbe hbk => ?_⟩
  · rw [h.graph]
    exact Std.ExtTreeSet.ext_mem fun e => Graph.mem_edges_applyAll_writeOrder_iff.trans SavePlan.mem_edges_write_iff.symm
  · obtain ⟨key, hkey⟩ := h.planned.lookup_of_create (mem_writeOrder_iff.mp hcreate) r.related_end
    exact h.inMemory key other ((h.lookup key).trans hkey)
  · have hcreate := mem_writeOrder_iff.mp hcreate
    have hnode := h.kindOf?_node hn
    rw [h.graph] at hak hbe hbk hnode
    exact (h.planned.create_toOne hcreate hnode hk hr hone
      (SavePlan.mem_edges_write_iff.mpr (Or.inl hcreate)) hak hbe hbk).symm

/-- A node that is loaded when the changes were taken over was loaded before, or an edge to it is created. -/
theorem known_commit (h : store.Saving makeId nodes plan after keys) (hn : node ∈ nodes)
    (hk : store.schema.kinds[node.kind]? = some kind) (hr : r ∈ kind.relationships) (hset : node.related[r.field]? = some s)
    (hcanonical : s.Canonical) (hkey : key ∈ s.commit.known) :
    ∃ other, after.known[key]? = some other ∧ after.graph.kindOf? other = some r.relatedKind ∧
      (r.edge ⟨plan.idOf node, other⟩ ∈ store.graph.edges ∨
        .create (r.edge ⟨plan.idOf node, other⟩) ∈ writeOrder plan.writes) := by
  rw [RelatedSet.known_commit] at hkey
  rcases RelatedSet.mem_current_iff.mp hkey with ⟨hold, _⟩ | hadded
  · obtain ⟨other, hother, hneighbor, hkind⟩ := (h.agrees_before hn hk hr hset).known key hold
    exact ⟨other, h.known_of_before hother, h.kindOf?_of_before hkind, Or.inl (Graph.mem_neighbors_iff.mp hneighbor)⟩
  · obtain ⟨other, hlookup⟩ := h.planned.lookup_isSome hn hk hr hset (Or.inr (Or.inl hadded))
    have hother := (h.lookup key).trans hlookup
    have hcreate := h.planned.create_mem_iff.mpr
      ⟨node, hn, kind, hk, r, hr, s, hset, key, hadded, hcanonical.added_new key hadded, other, hlookup, rfl⟩
    exact ⟨other, hother, h.kindOf?_added hn hk hr hset hadded hother, Or.inr (mem_writeOrder_iff.mpr hcreate)⟩

/-- Where all is loaded when the changes were taken over, a neighbour is loaded, or the edge to it is deleted. -/
theorem complete_commit (h : store.Saving makeId nodes plan after keys) (hn : node ∈ nodes)
    (hk : store.schema.kinds[node.kind]? = some kind) (hr : r ∈ kind.relationships) (hset : node.related[r.field]? = some s)
    (hcanonical : s.Canonical) (hl : s.commit.isLoaded = true) (hkind : after.graph.kindOf? other = some r.relatedKind)
    (he : r.edge ⟨plan.idOf node, other⟩ ∈ store.graph.edges) :
    (∃ key ∈ s.commit.known, after.known[key]? = some other) ∨
      .delete (r.edge ⟨plan.idOf node, other⟩) ∈ writeOrder plan.writes := by
  have hcomplete : s.complete = true := by
    rw [hcanonical.commit.isLoaded_eq] at hl
    exact hl
  rw [h.graph] at hkind
  have hbefore := h.planned.kindOf?_of_end h.fresh.stored h.sound he r.related_end hkind
  obtain ⟨key, hkey, hid⟩ := (h.agrees_before hn hk hr hset).complete (hcanonical.isLoaded_eq.trans hcomplete) other
    (Graph.mem_neighbors_iff.mpr he) hbefore
  by_cases hremoved : key ∈ s.removed
  · have hlookup := h.planned.lookup_of_known h.consistent hid
    exact Or.inr (mem_writeOrder_iff.mpr (h.planned.delete_mem hn hk hr hset hremoved hkey hlookup))
  · refine Or.inl ⟨key, ?_, h.known_of_before hid⟩
    rw [RelatedSet.known_commit]
    exact RelatedSet.mem_current_iff.mpr (Or.inl ⟨hkey, hremoved⟩)

/-- What is loaded when the changes were taken over is as the edges of before the save demand, or as a write of the plan will. -/
theorem following_commit (h : store.Saving makeId nodes plan after keys) (hn : node ∈ nodes)
    (hk : store.schema.kinds[node.kind]? = some kind) (hr : r ∈ kind.relationships) (hset : node.related[r.field]? = some s)
    (hreach : RelatedSet.Reachable r.field r.cardinality s) :
    after.Following r (plan.idOf node) store.graph (writeOrder plan.writes) s.commit where
  canonical := hreach.canonical.commit
  cardinality := hreach.shape.2
  unchanged := RelatedSet.hasChanges_commit s
  known := fun _ hkey => h.known_commit hn hk hr hset hreach.canonical hkey
  complete := fun hl _ hkind he => h.complete_commit hn hk hr hset hreach.canonical hl hkind he

end Saving

/-- When all writes were noted, what a field has loaded is what the store holds. -/
theorem Following.agrees {store : Store} {r : Relationship} {id : String} {g : Graph} {s : RelatedSet}
    (h : store.Following r id g [] s) (hedges : g.edges = store.graph.edges) : s.Agrees store r id := by
  refine ⟨fun key hkey => ?_, fun hl other hneighbor hk => ?_⟩
  · obtain ⟨other, hother, hk, he⟩ := h.known key hkey
    rw [hedges] at he
    exact ⟨other, hother, Graph.mem_neighbors_iff.mpr (he.resolve_right (by simp)), hk⟩
  · have he := Graph.mem_neighbors_iff.mp hneighbor
    rw [← hedges] at he
    exact (h.complete hl other hk he).resolve_right (by simp)

/-! ## Saving -/

/-- A node of the batch, with its changes taken over and the writes of the plan noted, agrees with the store and has no changes. -/
theorem Saving.agrees {store after : Store} {makeId : NodeKey → String} {nodes : List Node} {plan : SavePlan}
    {keys : Std.ExtTreeMap String NodeKey} (h : store.Saving makeId nodes plan after keys) {node node' : Node}
    (hn : node ∈ nodes) {kind : EntityKind} (hk : store.schema.kinds[node.kind]? = some kind)
    (hedit : Node.EditedBy kind (fun r s => (writeOrder plan.writes).foldl (after.noteField keys r (plan.idOf node)) s.commit)
      (node.withId (plan.idOf node)) node') : node'.Agrees after ∧ node'.hasChanges = false := by
  obtain ⟨found, hfound, hmade⟩ := h.consistent.made node hn
  obtain rfl := Option.some.inj (hk.symm.trans hfound)
  have hfinal : ∀ r ∈ kind.relationships, ∀ s, node.related[r.field]? = some s →
      after.Following r (plan.idOf node) (store.graph.applyAll (writeOrder plan.writes)) []
        ((writeOrder plan.writes).foldl (after.noteField keys r (plan.idOf node)) s.commit) := by
    intro r hr s hset
    exact (h.following_commit hn hk hr hset (hmade.reachable hr hset)).run (h.notable hn hk hr)
  refine ⟨?_, ?_⟩
  · obtain ⟨related, rfl, hfield, _⟩ := hedit
    refine ⟨plan.idOf node, rfl, fun kind' hk' r hr s hset => ?_⟩
    rw [h.schema] at hk'
    obtain rfl := Option.some.inj (hk.symm.trans hk')
    have hset : related[r.field]? = some s := hset
    rw [hfield r hr, Option.map_eq_some_iff] at hset
    obtain ⟨before, hbefore, rfl⟩ := hset
    exact (hfinal r hr before hbefore).agrees (h.notable hn hk hr).edges
  · have hmade' : (node.withId (plan.idOf node)).MadeOf kind := ⟨hmade.set, hmade.only⟩
    exact Node.hasChanges_eq_false_iff.mpr (hedit.forall_related hmade' fun r hr s hset => (hfinal r hr s hset).unchanged)

theorem save_eq_ok {store after : Store} {makeId : NodeKey → String} {rank : NodeKey → Nat} {nodes nodes' : List Node}
    {writes : List EdgeWrite} (h : store.save makeId rank nodes = ((after, nodes'), .ok writes)) :
    ∃ plan, store.plan makeId nodes = .ok plan ∧ carryOut rank plan (store, nodes) = ((after, nodes'), none) := by
  unfold save at h
  split at h
  · simp at h
  · next plan hp =>
    split at h
    · simp at h
    · next reached hcarry =>
      simp only [Prod.mk.injEq] at h
      exact ⟨plan, hp, hcarry.trans (by rw [h.1])⟩

/-- A batch that is in step with the store, where the store recognizes nodes by their keys, agrees with the store after it was
saved, and has no changes left. -/
theorem saved_batch_agrees {decls : List KindDecl} {schema : Schema} (hb : Schema.build decls = .ok schema) {store : Store}
    (hreach : Reachable schema store) {makeId : NodeKey → String} {rank : NodeKey → Nat} {nodes : List Node}
    (hf : store.Fresh makeId nodes) {held : List Node} (hin : store.InStep held nodes) (hrec : store.Recognizes held nodes)
    {after : Store} {nodes' : List Node} {writes : List EdgeWrite}
    (h : store.save makeId rank nodes = ((after, nodes'), .ok writes)) :
    nodes'.map Node.key = nodes.map Node.key ∧ ∀ node ∈ nodes', node.Agrees after ∧ node.hasChanges = false := by
  obtain ⟨plan, hplan, hcarry⟩ := save_eq_ok h
  have hp := plan_eq_ok hplan
  have hschema : store.schema.WellFormed := hreach.schema_eq ▸ Schema.wellFormed_of_build hb
  obtain ⟨hafter, keys, hkeys, hall⟩ := carryOut_eq_none hschema hcarry
  have hsaving : store.Saving makeId nodes plan after keys :=
    ⟨hp, hin.consistent hrec, hf, hreach.sound, by rw [hafter], by rw [hafter],
      hp.known_eq_lookup (congrArg Store.known hafter), hkeys⟩
  refine ⟨?_, fun node' hn' => ?_⟩
  · refine map_eq_of_forall₂ hall fun node node' ⟨kind, _, hedit⟩ => ?_
    obtain ⟨_, rfl, _⟩ := hedit
    rfl
  · obtain ⟨node, hn, kind, hk, hedit⟩ := exists_of_forall₂ hall node' hn'
    exact hsaving.agrees hn hk hedit

namespace Example

/-- A node has one field, which is in step with the store. -/
structure OneField (store : Store) (held nodes : List Node) (kind : EntityKind) (r : Relationship) (s : RelatedSet)
    (node : Node) : Prop where
  ofKind : store.schema.kinds[node.kind]? = some kind
  single : kind.relationships = [r]
  related : node.related = .ofList [(r.field, s)] compare
  reachable : RelatedSet.Reachable r.field r.cardinality s
  agrees : ∀ id, node.id = some id → s.Agrees store r id
  unloaded : node.id = none → s.known = ∅
  added : ∀ key ∈ s.added, (∃ other ∈ nodes, other.key = key ∧ other.kind = r.relatedKind) ∨
    ∃ other ∈ held, other.key = key ∧ other.kind = r.relatedKind ∧ ∃ id, store.known[key]? = some id

section

variable {store : Store} {held nodes : List Node} {kind : EntityKind} {r : Relationship} {s : RelatedSet} {node : Node}

theorem OneField.related_iff (h : OneField store held nodes kind r s node) {field : String} {t : RelatedSet} :
    node.related[field]? = some t ↔ field = r.field ∧ t = s := by
  rw [h.related, Std.ExtTreeMap.ofList_singleton, Std.ExtTreeMap.getElem?_insert]
  by_cases hf : r.field = field
  · simp [hf, eq_comm]
  · simp [hf, Ne.symm hf]

theorem forall_mem_of_eq_empty {keys : KeySet} (h : keys = ∅) {P : NodeKey → Prop} : ∀ key ∈ keys, P key := by
  simp [h]

/-- Nodes with one field each are in step with the store. -/
theorem inStep_of_oneField (h : ∀ node ∈ nodes, ∃ kind r s, OneField store held nodes kind r s node)
    (hkinds : ∀ node ∈ nodes, ∀ other ∈ nodes, ∀ id, node.id = some id → other.id = some id → node.kind = other.kind)
    (hids : ∀ node ∈ nodes, ∀ own id, node.id = some own → store.known[node.key]? = some id → own = id) :
    store.InStep held nodes where
  made node hn := by
    obtain ⟨kind, r, s, hone⟩ := h node hn
    refine ⟨kind, hone.ofKind, ?_, fun field t hset => ?_⟩ <;> rw [hone.single]
    · exact List.forall_mem_singleton.mpr ⟨s, hone.related_iff.mpr ⟨rfl, rfl⟩, hone.reachable⟩
    · exact List.mem_singleton.mpr (hone.related_iff.mp hset).1
  agrees node hn hid := by
    obtain ⟨kind, r, s, hone⟩ := h node hn
    obtain ⟨id, hid⟩ := Option.ne_none_iff_exists'.mp hid
    refine ⟨id, hid, fun kind' hk r' hr t hset => ?_⟩
    obtain rfl := Option.some.inj (hone.ofKind.symm.trans hk)
    rw [hone.single, List.mem_singleton] at hr
    obtain ⟨_, rfl⟩ := hone.related_iff.mp hset
    exact hr ▸ hone.agrees id hid
  unloaded node hn hid field t hset := by
    obtain ⟨kind, r, s, hone⟩ := h node hn
    obtain ⟨_, rfl⟩ := hone.related_iff.mp hset
    exact hone.unloaded hid
  added node hn kind' hk r' hr t hset key hkey := by
    obtain ⟨kind, r, s, hone⟩ := h node hn
    obtain rfl := Option.some.inj (hone.ofKind.symm.trans hk)
    rw [hone.single, List.mem_singleton] at hr
    obtain ⟨_, rfl⟩ := hone.related_iff.mp hset
    exact hr ▸ hone.added key hkey
  kinds := hkinds
  remembered := hids

end

/-- The project of the issue that was saved agrees with the store, and the issues of the project. -/
theorem agrees_project {s : RelatedSet} (h : s.known = {⟨0⟩}) : s.Agrees saved project "i" := by
  have hkey : saved.known[(⟨0⟩ : NodeKey)]? = some "p" := by
    rw [saved_eq]
    rfl
  refine ⟨fun key hmem => ⟨"p", ?_, by simp [neighbors_saved], kindOf?_saved⟩, fun _ other ho _ => ⟨⟨0⟩, ?_, ?_⟩⟩
  · rw [h, mem_singleton_iff] at hmem
    rw [hmem, hkey]
  · rw [h, mem_singleton_iff]
  · rw [neighbors_saved, List.mem_singleton] at ho
    rw [ho, hkey]

theorem agrees_issues {s : RelatedSet} (h : s.known = {⟨1⟩}) : s.Agrees saved issues "p" := by
  have hkey : saved.known[(⟨1⟩ : NodeKey)]? = some "i" := by
    rw [saved_eq]
    rfl
  have hneighbors : saved.graph.neighbors "p" issues.label issues.direction = ["i"] := by
    rw [saved_eq]
    rfl
  have hkind : saved.graph.kindOf? "i" = some "Issue" := by
    rw [saved_eq]
    rfl
  refine ⟨fun key hmem => ⟨"i", ?_, by simp [hneighbors], hkind⟩, fun _ other ho _ => ⟨⟨1⟩, ?_, ?_⟩⟩
  · rw [h, mem_singleton_iff] at hmem
    rw [hmem, hkey]
  · rw [h, mem_singleton_iff]
  · rw [hneighbors, List.mem_singleton] at ho
    rw [ho, hkey]

/-- The issue as it was saved with its project, and then taken from it. -/
def detachedIssue : Node :=
  { newIssue.withId "i" with
    related := .ofList [("project", ((RelatedSet.empty "project" .one).commit.loadOne ⟨0⟩).remove ⟨0⟩)] compare }

theorem kind_issue : saved.schema.kinds["Issue"]? = some issueKind := by
  rw [saved_eq]
  rfl

theorem kind_project : saved.schema.kinds["Project"]? = some projectKind := by
  rw [saved_eq]
  rfl

theorem inStep_detached : saved.InStep [] [detachedIssue] := by
  refine inStep_of_oneField (List.forall_mem_singleton.mpr ⟨issueKind, project, _, kind_issue, rfl, rfl,
    .remove ⟨0⟩ (.loadOne ⟨0⟩ (.commit .empty)), fun id hid => ?_, (by cases ·), forall_mem_of_eq_empty rfl⟩) ?_ ?_
  · obtain rfl := Option.some.inj hid
    exact agrees_project rfl
  · simp
  · have hkey : saved.known[detachedIssue.key]? = some "i" := by
      rw [saved_eq]
      rfl
    refine List.forall_mem_singleton.mpr fun own id hown hid => ?_
    exact (Option.some.inj hown).symm.trans (Option.some.inj (hkey.symm.trans hid))

theorem recognizes_detached : saved.Recognizes [] [detachedIssue] := by
  refine ⟨by simp, by simp, ?_⟩
  exact List.forall_mem_singleton.mpr fun hid => by cases hid

theorem fresh_saved : saved.Fresh (fun _ => "x") [detachedIssue] := by
  refine ⟨fun _ => by rw [saved_eq]; rfl, ?_, ?_⟩ <;> simp only [List.mem_singleton, forall_eq]
  · decide
  · exact fun _ => trivial

end Example

/-- An issue that was taken from its project agrees with the store after it was saved. -/
theorem detached_issue_agrees :
    (Example.saved.save (fun _ => "x") NodeKey.val [Example.detachedIssue]).2.toOption = some [.delete ⟨"p", "HAS_ISSUE", "i"⟩] ∧
      ∀ node ∈ (Example.saved.save (fun _ => "x") NodeKey.val [Example.detachedIssue]).1.2,
        node.Agrees (Example.saved.save (fun _ => "x") NodeKey.val [Example.detachedIssue]).1.1 ∧ node.hasChanges = false := by
  have hwrites : (Example.saved.save (fun _ => "x") NodeKey.val [Example.detachedIssue]).2.toOption =
      some [.delete ⟨"p", "HAS_ISSUE", "i"⟩] := by decide +kernel
  refine ⟨hwrites, ?_⟩
  exact (saved_batch_agrees Example.build_decls Example.reachable_saved Example.fresh_saved Example.inStep_detached
    Example.recognizes_detached (Prod.ext rfl (toOption_eq_some_iff.mp hwrites))).2

namespace Example

/-- Ids that are made up for new nodes. -/
def spareId (key : NodeKey) : String := if key = ⟨0⟩ then "y" else "x"

/-- A batch is in step with a reachable state, and yet one of its nodes does not agree with the store after it was saved. -/
def Strays (store : Store) (held nodes : List Node) : Prop :=
  Reachable schema store ∧ store.Fresh spareId nodes ∧ store.InStep held nodes ∧
    ∃ after nodes' writes, store.save spareId NodeKey.val nodes = ((after, nodes'), .ok writes) ∧
      ∃ node ∈ nodes', ¬node.Agrees after

/-- An issue and a project with what their field holds. -/
def issueWith (key : NodeKey) (id? : Option String) (s : RelatedSet) : Node :=
  { Node.new key issueKind with id := id?, related := .ofList [(project.field, s)] compare }

def projectWith (key : NodeKey) (id? : Option String) (s : RelatedSet) : Node :=
  { Node.new key projectKind with id := id?, related := .ofList [(issues.field, s)] compare }

/-- A node does not agree with a store that holds none of what a field has loaded for it. -/
theorem not_agrees {store : Store} {node : Node} (id other : String) (kind : EntityKind) (r : Relationship) (s : RelatedSet)
    (key : NodeKey) (hid : node.id = some id) (hk : store.schema.kinds[node.kind]? = some kind) (hr : r ∈ kind.relationships)
    (hset : node.related[r.field]? = some s) (hkey : key ∈ s.known) (hother : store.known[key]? = some other)
    (h : other ∈ store.graph.neighbors id r.label r.direction → store.graph.kindOf? other ≠ some r.relatedKind) :
    ¬node.Agrees store := by
  rintro ⟨own, hown, hall⟩
  obtain rfl := Option.some.inj (hid.symm.trans hown)
  obtain ⟨found, hfound, hneighbor, hkind⟩ := (hall kind hk r hr s hset).known key hkey
  obtain rfl := Option.some.inj (hother.symm.trans hfound)
  exact h hneighbor hkind

theorem makesFresh_saved : saved.MakesFresh spareId := by
  have hx : saved.graph.nodes["x"]? = none := by decide +kernel
  have hy : saved.graph.nodes["y"]? = none := by decide +kernel
  intro key
  unfold spareId
  split
  · exact hy
  · exact hx

/-- Two copies of an issue, one of which was given the id of the saved one and shown its project. -/
def copies : List Node :=
  [issueWith ⟨7⟩ (some "i") ((RelatedSet.empty "project" .one).loadOne ⟨0⟩), issueWith ⟨7⟩ none (.empty "project" .one)]

theorem strays_copies : Strays saved [] copies := by
  have hwrites : (saved.save spareId NodeKey.val copies).2.toOption = some [] := by decide +kernel
  have hids : ∀ node ∈ copies, saved.known[node.key]? = none := by decide +kernel
  refine ⟨reachable_saved, ⟨makesFresh_saved, by decide, by decide⟩, inStep_of_oneField ?_ (by decide) ?_, _, _, _,
    Prod.ext rfl (toOption_eq_some_iff.mp hwrites),
    issueWith ⟨7⟩ (some "x") ((RelatedSet.empty "project" .one).loadOne ⟨0⟩), by decide +kernel, ?_⟩
  · refine List.forall_mem_cons.mpr ⟨⟨issueKind, project, _, kind_issue, rfl, rfl, .loadOne ⟨0⟩ .empty, fun id hid => ?_,
        (by cases ·), forall_mem_of_eq_empty rfl⟩,
      List.forall_mem_singleton.mpr ⟨issueKind, project, _, kind_issue, rfl, rfl, .empty, (nofun), fun _ => rfl,
        forall_mem_of_eq_empty rfl⟩⟩
    obtain rfl := Option.some.inj hid
    exact agrees_project rfl
  · exact fun node hn own id _ hid => by simp [hids node hn] at hid
  · exact not_agrees "x" "p" issueKind project ((RelatedSet.empty "project" .one).loadOne ⟨0⟩) ⟨0⟩ rfl (by decide +kernel)
      (List.mem_singleton.mpr rfl) rfl (by decide +kernel) (by decide +kernel) fun h => absurd h (by decide +kernel)

/-- The project as it was saved with its issue, and a copy of the issue from before it was saved. -/
def forgotten : List Node :=
  [projectWith ⟨0⟩ (some "p") ((RelatedSet.empty "issues" .many).loadOne ⟨1⟩), issueWith ⟨1⟩ none (.empty "project" .one)]

theorem strays_forgotten : Strays saved [] forgotten := by
  have hwrites : (saved.save spareId NodeKey.val forgotten).2.toOption = some [] := by decide +kernel
  have hids : saved.known[(⟨0⟩ : NodeKey)]? = some "p" := by decide +kernel
  refine ⟨reachable_saved, ⟨makesFresh_saved, by decide, by decide⟩, inStep_of_oneField ?_ (by decide) ?_, _, _, _,
    Prod.ext rfl (toOption_eq_some_iff.mp hwrites),
    projectWith ⟨0⟩ (some "p") ((RelatedSet.empty "issues" .many).loadOne ⟨1⟩), by decide +kernel, ?_⟩
  · refine List.forall_mem_cons.mpr ⟨⟨projectKind, issues, _, kind_project, rfl, rfl, .loadOne ⟨1⟩ .empty, fun id hid => ?_,
        (by cases ·), forall_mem_of_eq_empty rfl⟩,
      List.forall_mem_singleton.mpr ⟨issueKind, project, _, kind_issue, rfl, rfl, .empty, (nofun), fun _ => rfl,
        forall_mem_of_eq_empty rfl⟩⟩
    obtain rfl := Option.some.inj hid
    exact agrees_issues rfl
  · refine List.forall_mem_cons.mpr ⟨fun own id hown hid => ?_, by simp [issueWith]⟩
    exact (Option.some.inj hown).symm.trans (Option.some.inj (hids.symm.trans hid))
  · exact not_agrees "p" "x" projectKind issues ((RelatedSet.empty "issues" .many).loadOne ⟨1⟩) ⟨1⟩ rfl (by decide +kernel)
      (List.mem_singleton.mpr rfl) rfl (by decide +kernel) (by decide +kernel) fun h => absurd h (by decide +kernel)

/-- A project that was given the id of the issue. -/
def misnamed : Node := projectWith ⟨2⟩ (some "i") (.empty "issues" .many)

/-- The state after the issues of that project were loaded: there are none, but the project is remembered with the id. -/
def misled : Store := (saved.load misnamed "issues").1.1

/-- A new issue of that project. -/
def misledIssue : Node := issueWith ⟨3⟩ none ((RelatedSet.empty "project" .one).set (some ⟨2⟩))

theorem strays_misled : Strays misled [misnamed] [misledIssue] := by
  have hwrites : (misled.save spareId NodeKey.val [misledIssue]).2.toOption = some [.create ⟨"i", "HAS_ISSUE", "x"⟩] := by
    decide +kernel
  have hids : misled.known[(⟨2⟩ : NodeKey)]? = some "i" := by decide +kernel
  have hadded : ((RelatedSet.empty "project" .one).set (some ⟨2⟩)).added = {⟨2⟩} := rfl
  refine ⟨.step reachable_saved (.load misnamed "issues"), ⟨?_, by decide, by decide⟩, inStep_of_oneField ?_ (by decide) ?_,
    _, _, _, Prod.ext rfl (toOption_eq_some_iff.mp hwrites),
    issueWith ⟨3⟩ (some "x") ((RelatedSet.empty "project" .one).set (some ⟨2⟩)).commit, by decide +kernel, ?_⟩
  · have hgraph : misled.graph = saved.graph := by decide +kernel
    intro key
    rw [hgraph]
    exact makesFresh_saved key
  · refine List.forall_mem_singleton.mpr ⟨issueKind, project, _, by decide +kernel, rfl, rfl, .set (some ⟨2⟩) .empty, (nofun),
      fun _ => rfl, fun key hkey => Or.inr ⟨misnamed, List.mem_singleton.mpr rfl, ?_, rfl, "i", ?_⟩⟩ <;>
      rw [hadded, mem_singleton_iff] at hkey <;> subst hkey
    · rfl
    · exact hids
  · simp [misledIssue, issueWith]
  · exact not_agrees "x" "i" issueKind project ((RelatedSet.empty "project" .one).set (some ⟨2⟩)).commit ⟨2⟩ rfl
      (by decide +kernel) (List.mem_singleton.mpr rfl) rfl (by decide +kernel) (by decide +kernel)
      fun _ h => absurd h (by decide +kernel)

end Example

/-- Each part of what is meant by recognizing nodes is needed: copies of a node that have different ids are saved under one of
them; a copy without an id takes the id that is remembered for the key from the other nodes that have loaded it; and an id that
was given to a node of another kind is remembered for the key of that node. -/
theorem unrecognized_batches_stray : Example.Strays Example.saved [] Example.copies ∧
    Example.Strays Example.saved [] Example.forgotten ∧ Example.Strays Example.misled [Example.misnamed] [Example.misledIssue] :=
  ⟨Example.strays_copies, Example.strays_forgotten, Example.strays_misled⟩

end Store

end EntityGraph
