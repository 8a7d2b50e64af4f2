import EntityGraph.Proofs.Graph.Ends
import EntityGraph.Proofs.Node.Changes
import EntityGraph.Store.Save

/-!
# What a plan says

`Store.Planned` states what is known of a plan once it was made: the id that every node is saved under, the writes of every
relationship of every node, and what was checked of the edges to be created. `SavePlan.write` is described by the nodes and the
edges that the graph holds afterwards.
-/

namespace EntityGraph

namespace StoreError

theorem liftSchema_eq_ok_iff {α : Type} {x : Except SchemaError α} {a : α} :
    (liftM x : Except StoreError α) = .ok a ↔ x = .ok a := mapError_eq_ok_iff

theorem liftChanges_eq_ok_iff {α : Type} {x : Except ChangesError α} {a : α} :
    (liftM x : Except StoreError α) = .ok a ↔ x = .ok a := mapError_eq_ok_iff

end StoreError

theorem Schema.kind_eq_ok_iff {schema : Schema} {name : String} {kind : EntityKind} :
    schema.kind name = .ok kind ↔ schema.kinds[name]? = some kind := by
  rw [Schema.kind]
  cases schema.kinds[name]? <;> simp

theorem Node.relatedSet_eq_ok_iff {node : Node} {field : String} {s : RelatedSet} :
    node.relatedSet field = .ok s ↔ node.related[field]? = some s := by
  rw [Node.relatedSet]
  cases node.related[field]? <;> simp

namespace Store

open StoreError

/-! ## Ids of the batch -/

theorem assignId_eq_ok_iff {store : Store} {makeId : NodeKey → String} {node : Node} {id : String} :
    store.assignId makeId node = .ok id ↔ (∃ kind, store.schema.kinds[node.kind]? = some kind) ∧
      (node.id = none ∧ id = makeId node.key ∨
        node.id = some id ∧ ∀ found, store.graph.kindOf? id = some found → found = node.kind) := by
  simp only [assignId, bind_eq_ok_iff, liftSchema_eq_ok_iff, Schema.kind_eq_ok_iff, ← exists_and_right]
  refine exists_congr fun kind => and_congr_right fun _ => ?_
  cases node.id with
  | none => simp
  | some given =>
    have hsame : (given = id ∧ ∀ found, store.graph.kindOf? id = some found → found = node.kind) ↔
        id = given ∧ ∀ found, store.graph.kindOf? given = some found → found = node.kind := by
      rw [eq_comm]
      exact and_congr_right fun h => by rw [h]
    simp only [reduceCtorEq, false_and, false_or, Option.some.injEq, hsame]
    cases store.graph.kindOf? given with
    | none => simp
    | some found => by_cases hf : found = node.kind <;> simp [hf]

/-! ## Writes of a relationship -/

/-- The id of a node as a save sees it: the one it is saved under, else the one that is remembered. -/
def lookup (store : Store) (ids : Std.ExtTreeMap NodeKey String) (key : NodeKey) : Option String := ids[key]?.or store.known[key]?

/-- What is remembered has an id in every save. -/
theorem exists_lookup {store : Store} (ids : Std.ExtTreeMap NodeKey String) {key : NodeKey} {id : String}
    (h : store.known[key]? = some id) : ∃ given, store.lookup ids key = some given := by
  rw [lookup, h]
  cases ids[key]? with
  | none => exact ⟨id, rfl⟩
  | some given => exact ⟨given, rfl⟩

theorem relationship_eq_ok_iff {schema : Schema} {kind field : String} {r : Relationship} :
    schema.relationship kind field = .ok r ↔ ∃ k, schema.kinds[kind]? = some k ∧ k.relationship? field = some r := by
  simp only [Schema.relationship, bind_eq_ok_iff, Schema.kind_eq_ok_iff]
  refine exists_congr fun k => and_congr_right fun _ => ?_
  cases k.relationship? field with
  | none => simp
  | some other => simpa using eq_comm

/-- The deletions that make room: where the mirror of a relationship holds one node, the edges to the nodes of its related kind
that it held before, at the other end of every edge that is added. -/
theorem mem_displaced_iff {store : Store} {r : Relationship} {changes : EdgeChanges} {writes : List EdgeWrite}
    (h : store.displaced r changes = .ok writes) {write : EdgeWrite} :
    write ∈ writes ↔ ∃ field m, r.mirror = some field ∧ store.schema.relationship r.relatedKind field = .ok m ∧
      m.cardinality = .one ∧ ∃ pair ∈ changes.add, ∃ id, m.edge ⟨pair.related, id⟩ ∈ store.graph.edges ∧ id ≠ pair.owner ∧
        store.graph.kindOf? id = some m.relatedKind ∧ write = .delete (m.edge ⟨pair.related, id⟩) := by
  unfold displaced at h
  split at h
  · next hm =>
    obtain rfl := Except.ok.inj h
    simp [hm]
  · next field hm =>
    obtain ⟨m, hrel, h⟩ := bind_eq_ok_iff.mp h
    rw [liftSchema_eq_ok_iff] at hrel
    split at h
    · next hc =>
      obtain rfl := Except.ok.inj h
      simp [hm, hrel, hc]
    · next hc =>
      obtain rfl := Except.ok.inj h
      simp only [ne_eq, Decidable.not_not] at hc
      simp only [hm, Option.some.injEq, exists_and_left, exists_eq_left', hrel, Except.ok.injEq, hc, true_and]
      simp only [Relationship.writes, EdgeChanges.ofLists, Std.ExtTreeSet.ofList_nil, List.mem_append, List.mem_map,
        Std.ExtTreeSet.mem_toList, Std.ExtTreeSet.not_mem_empty, false_and, exists_false, false_or,
        Std.ExtTreeSet.mem_ofList, List.contains_iff_mem, List.mem_flatMap, EdgeChanges.mem_add_mirrored_iff,
        List.mem_filterMap, Graph.mem_neighbors_iff, Option.ite_none_right_eq_some, Option.some.injEq]
      constructor
      · rintro ⟨_, ⟨pair, hp, id, hn, ⟨hne, hk⟩, rfl⟩, rfl⟩
        exact ⟨pair.swap, hp, id, hn, hne, hk, rfl⟩
      · rintro ⟨pair, hp, id, hn, hne, hk, rfl⟩
        exact ⟨⟨pair.related, id⟩, ⟨pair.swap, hp, id, hn, ⟨hne, hk⟩, rfl⟩, rfl⟩

/-- The writes of a relationship are those of its changes, and the deletions that make room for them. -/
theorem relationshipWrites_eq_ok {store : Store} {ids : Std.ExtTreeMap NodeKey String} {node : Node} {r : Relationship}
    {writes : List EdgeWrite} (h : store.relationshipWrites ids node r = .ok writes) :
    ∃ s changes displaced, node.related[r.field]? = some s ∧ s.changes node.key (store.lookup ids) = .ok changes ∧
      store.displaced r changes = .ok displaced ∧ writes = r.writes changes ++ displaced := by
  simp only [relationshipWrites, bind_eq_ok_iff, liftSchema_eq_ok_iff, liftChanges_eq_ok_iff,
    Node.relatedSet_eq_ok_iff] at h
  obtain ⟨s, hs, _, _, changes, hc, displaced, hd, hw⟩ := h
  have hlookup : (fun key : NodeKey => ids[key]? <|> store.known[key]?) = store.lookup ids := by
    funext key
    exact Option.orElse_eq_or
  rw [hlookup] at hc
  exact ⟨s, changes, displaced, hs, hc, hd, (Except.ok.inj hw).symm⟩

/-- The edges that a relationship creates are those of its pending additions. -/
theorem create_mem_relationshipWrites_iff {store : Store} {ids : Std.ExtTreeMap NodeKey String} {node : Node}
    {r : Relationship} {writes : List EdgeWrite} (h : store.relationshipWrites ids node r = .ok writes) {owner : String}
    (ho : store.lookup ids node.key = some owner) {e : Edge} :
    EdgeWrite.create e ∈ writes ↔ ∃ s, node.related[r.field]? = some s ∧ ∃ key ∈ s.added, key ∉ s.known ∧
      ∃ other, store.lookup ids key = some other ∧ e = r.edge ⟨owner, other⟩ := by
  obtain ⟨s, changes, displaced, hs, hc, hd, rfl⟩ := relationshipWrites_eq_ok h
  obtain ⟨ownerId, hown, _, hadd, _⟩ := RelatedSet.changes_eq_ok hc
  obtain rfl := Option.some.inj (ho.symm.trans hown)
  have hdisplaced : EdgeWrite.create e ∉ displaced := by
    intro hm
    obtain ⟨_, _, _, _, _, _, _, _, _, _, _, hw⟩ := (mem_displaced_iff hd).mp hm
    cases hw
  simp only [List.mem_append, hdisplaced, or_false, Relationship.create_mem_writes_iff, hadd, hs, Option.some.injEq,
    exists_eq_left']
  constructor
  · rintro ⟨⟨_, other⟩, ⟨key, hk, hnew, hl, rfl⟩, rfl⟩
    exact ⟨key, hk, hnew, other, hl, rfl⟩
  · rintro ⟨key, hk, hnew, other, hl, rfl⟩
    exact ⟨⟨owner, other⟩, ⟨key, hk, hnew, hl, rfl⟩, rfl⟩

/-! ## The checks of a plan -/

theorem eq_of_length_le_one {α : Type} {l : List α} (h : l.length ≤ 1) {a b : α} (ha : a ∈ l) (hb : b ∈ l) : a = b := by
  match l with
  | [] => simp at ha
  | [c] => rw [List.mem_singleton.mp ha, List.mem_singleton.mp hb]
  | _ :: _ :: _ => simp at h

/-- Where the check passes, a relationship to one node that follows the given edges leads to at most one. -/
theorem checkOneAt_eq_ok {schema : Schema} {graph : Graph} {kindOf? : String → Option String} {id name : String}
    {kind : EntityKind} {r : Relationship} (h : checkOneAt schema graph kindOf? id r.label r.direction = .ok ())
    (hn : kindOf? id = some name) (hk : schema.kinds[name]? = some kind) (hr : r ∈ kind.relationships)
    (hone : r.cardinality = .one) {a b : String} (ha : r.edge ⟨id, a⟩ ∈ graph.edges) (hak : kindOf? a = some r.relatedKind)
    (hb : r.edge ⟨id, b⟩ ∈ graph.edges) (hbk : kindOf? b = some r.relatedKind) : a = b := by
  rw [checkOneAt, hn] at h
  simp only [bind_eq_ok_iff, liftSchema_eq_ok_iff, Schema.kind_eq_ok_iff] at h
  obtain ⟨found, hfound, hall⟩ := h
  obtain rfl := Option.some.inj (hk.symm.trans hfound)
  have hcheck := forM_eq_ok_iff.mp hall r hr
  rw [if_pos ⟨hone, rfl, rfl⟩] at hcheck
  split at hcheck
  · exact absurd hcheck throw_ne_ok
  · next hcount =>
    refine eq_of_length_le_one (Nat.le_of_not_lt hcount) ?_ ?_
    · simpa [Graph.mem_neighbors_iff, hak] using ha
    · simpa [Graph.mem_neighbors_iff, hbk] using hb

/-- What is known of a plan that was made. -/
structure Planned (store : Store) (makeId : NodeKey → String) (nodes : List Node) (plan : SavePlan) : Prop where
  /-- Every node of the batch has an id to be saved under. -/
  assigned : ∀ node ∈ nodes, ∃ id, store.assignId makeId node = .ok id
  /-- The id of a key is that of the last node with the key. -/
  ids : ∀ key, plan.ids[key]? = (lastWith Node.key nodes key).bind fun node => (store.assignId makeId node).toOption
  each : ∀ node ∈ nodes, ∀ kind, store.schema.kinds[node.kind]? = some kind → ∀ r ∈ kind.relationships,
    ∃ writes, store.relationshipWrites plan.ids node r = .ok writes
  writes : ∀ write, write ∈ plan.writes ↔ ∃ node ∈ nodes, ∃ kind, store.schema.kinds[node.kind]? = some kind ∧
    ∃ r ∈ kind.relationships, ∃ writes, store.relationshipWrites plan.ids node r = .ok writes ∧ write ∈ writes
  /-- The edges to be created lead from and to nodes that are stored or in the batch. -/
  ends : ∀ e, .create e ∈ plan.writes → ∀ id : String, id = e.source ∨ id = e.target →
    (∃ key : NodeKey, plan.ids[key]? = some id) ∨ ∃ stored, store.graph.nodes[id]? = some stored
  /-- At both ends of an edge to be created, relationships to one node will lead to at most one. -/
  oneAt : ∀ e, .create e ∈ plan.writes →
    checkOneAt store.schema (store.graph.applyAll (writeOrder plan.writes)) (store.futureKind? plan nodes)
        e.source e.label .outgoing = .ok () ∧
      checkOneAt store.schema (store.graph.applyAll (writeOrder plan.writes)) (store.futureKind? plan nodes)
        e.target e.label .incoming = .ok ()

/-- What is known of a plan before its edges are checked. -/
structure Unchecked (store : Store) (makeId : NodeKey → String) (nodes : List Node) (plan : SavePlan) : Prop where
  /-- Every node of the batch has an id to be saved under. -/
  assigned : ∀ node ∈ nodes, ∃ id, store.assignId makeId node = .ok id
  /-- The id of a key is that of the last node with the key. -/
  ids : ∀ key, plan.ids[key]? = (lastWith Node.key nodes key).bind fun node => (store.assignId makeId node).toOption
  each : ∀ node ∈ nodes, ∀ kind, store.schema.kinds[node.kind]? = some kind → ∀ r ∈ kind.relationships,
    ∃ writes, store.relationshipWrites plan.ids node r = .ok writes
  writes : ∀ write, write ∈ plan.writes ↔ ∃ node ∈ nodes, ∃ kind, store.schema.kinds[node.kind]? = some kind ∧
    ∃ r ∈ kind.relationships, ∃ writes, store.relationshipWrites plan.ids node r = .ok writes ∧ write ∈ writes

theorem Planned.unchecked {store : Store} {makeId : NodeKey → String} {nodes : List Node} {plan : SavePlan}
    (h : store.Planned makeId nodes plan) : store.Unchecked makeId nodes plan := ⟨h.assigned, h.ids, h.each, h.writes⟩

theorem assignIds_eq_ok {store : Store} {makeId : NodeKey → String} {nodes : List Node}
    {ids : Std.ExtTreeMap NodeKey String} (h : store.assignIds makeId nodes = .ok ids) :
    (∀ node ∈ nodes, ∃ id, store.assignId makeId node = .ok id) ∧
      ∀ key, ids[key]? = (lastWith Node.key nodes key).bind fun node => (store.assignId makeId node).toOption := by
  obtain ⟨hall, hget⟩ := getElem?_foldlM_insert h
  refine ⟨hall, fun key => ?_⟩
  rw [hget, Std.ExtTreeMap.getElem?_empty, Option.or_none]

theorem mem_nodeWrites_iff {store : Store} {ids : Std.ExtTreeMap NodeKey String} {node : Node} {writes : List EdgeWrite}
    (h : store.nodeWrites ids node = .ok writes) {write : EdgeWrite} :
    write ∈ writes ↔ ∃ kind, store.schema.kinds[node.kind]? = some kind ∧ ∃ r ∈ kind.relationships,
      ∃ ws, store.relationshipWrites ids node r = .ok ws ∧ write ∈ ws := by
  simp only [nodeWrites, bind_eq_ok_iff, liftSchema_eq_ok_iff, Schema.kind_eq_ok_iff] at h
  obtain ⟨kind, hk, lists, hm, hw⟩ := h
  obtain rfl := Except.ok.inj hw
  simp only [List.mem_flatten, hk, Option.some.injEq, exists_eq_left']
  constructor
  · rintro ⟨ws, hws, hmem⟩
    obtain ⟨r, hr, hrw⟩ := (mapM_ok_mem_iff hm).mp hws
    exact ⟨r, hr, ws, hrw, hmem⟩
  · rintro ⟨r, hr, ws, hrw, hmem⟩
    exact ⟨ws, (mapM_ok_mem_iff hm).mpr ⟨r, hr, hrw⟩, hmem⟩

theorem nodeWrites_each {store : Store} {ids : Std.ExtTreeMap NodeKey String} {node : Node} {writes : List EdgeWrite}
    (h : store.nodeWrites ids node = .ok writes) {kind : EntityKind} (hk : store.schema.kinds[node.kind]? = some kind) :
    ∀ r ∈ kind.relationships, ∃ ws, store.relationshipWrites ids node r = .ok ws := by
  simp only [nodeWrites, bind_eq_ok_iff, liftSchema_eq_ok_iff, Schema.kind_eq_ok_iff] at h
  obtain ⟨found, hfound, lists, hm, _⟩ := h
  obtain rfl := Option.some.inj (hk.symm.trans hfound)
  exact mapM_ok_each hm

/-- The check of ends passes when every edge to be created leads from and to nodes that are stored or in the batch. -/
theorem checkEnds_eq_ok_iff {store : Store} {plan : SavePlan} :
    store.checkEnds plan = .ok () ↔ ∀ e, .create e ∈ plan.writes → ∀ id : String, id = e.source ∨ id = e.target →
      (∃ key : NodeKey, plan.ids[key]? = some id) ∨ ∃ stored, store.graph.nodes[id]? = some stored := by
  have hend : ∀ id : String, ((plan.ids.toList.map Prod.snd).contains id || store.graph.nodes.contains id) = true ↔
      (∃ key : NodeKey, plan.ids[key]? = some id) ∨ ∃ stored, store.graph.nodes[id]? = some stored := by
    intro id
    simp only [List.contains_iff_mem, Bool.or_eq_true, List.mem_map, Prod.exists, exists_eq_right,
      Std.ExtTreeMap.mem_toList_iff_getElem?_eq_some, Std.ExtTreeMap.contains_iff_mem,
      Std.ExtTreeMap.mem_iff_isSome_getElem?, Option.isSome_iff_exists]
  rw [checkEnds, forM_eq_ok_iff]
  constructor
  · intro h e he id hid
    have hwrite := forM_eq_ok_iff.mp (h (.create e) (Std.ExtTreeSet.mem_toList.mpr he)) id (by simpa [EdgeWrite.edge] using hid)
    split at hwrite
    · next hfound => exact (hend id).mp hfound
    · exact absurd hwrite throw_ne_ok
  · intro h write hwrite
    cases write with
    | delete _ => rfl
    | create e =>
      refine forM_eq_ok_iff.mpr fun id hid => ?_
      rw [if_pos ((hend id).mpr (h e (Std.ExtTreeSet.mem_toList.mp hwrite) id (by simpa [EdgeWrite.edge] using hid)))]
      rfl

theorem checkToOne_eq_ok {store : Store} {plan : SavePlan} {nodes : List Node} (h : store.checkToOne plan nodes = .ok ()) :
    ∀ e, .create e ∈ plan.writes →
      checkOneAt store.schema (store.graph.applyAll (writeOrder plan.writes)) (store.futureKind? plan nodes)
          e.source e.label .outgoing = .ok () ∧
        checkOneAt store.schema (store.graph.applyAll (writeOrder plan.writes)) (store.futureKind? plan nodes)
          e.target e.label .incoming = .ok () := by
  intro e he
  have hwrite := forM_eq_ok_iff.mp h (.create e) (Std.ExtTreeSet.mem_toList.mpr he)
  obtain ⟨_, hs, ht⟩ := bind_eq_ok_iff.mp hwrite
  exact ⟨hs, ht⟩

/-- The writes of a batch are those of the relationships of its nodes. -/
theorem mem_batchWrites_iff {store : Store} {ids : Std.ExtTreeMap NodeKey String} {nodes : List Node}
    {lists : List (List EdgeWrite)} (h : nodes.mapM (store.nodeWrites ids) = .ok lists) {write : EdgeWrite} :
    write ∈ Std.ExtTreeSet.ofList lists.flatten compare ↔ ∃ node ∈ nodes, ∃ kind,
      store.schema.kinds[node.kind]? = some kind ∧ ∃ r ∈ kind.relationships,
        ∃ writes, store.relationshipWrites ids node r = .ok writes ∧ write ∈ writes := by
  simp only [Std.ExtTreeSet.mem_ofList, List.contains_iff_mem, List.mem_flatten]
  constructor
  · rintro ⟨ws, hws, hmem⟩
    obtain ⟨node, hn, hnw⟩ := (mapM_ok_mem_iff h).mp hws
    exact ⟨node, hn, (mem_nodeWrites_iff hnw).mp hmem⟩
  · rintro ⟨node, hn, hrest⟩
    obtain ⟨ws, hws⟩ := mapM_ok_each h node hn
    exact ⟨ws, (mapM_ok_mem_iff h).mpr ⟨node, hn, hws⟩, (mem_nodeWrites_iff hws).mpr hrest⟩

/-- Every plan that is made is as stated. -/
theorem plan_eq_ok {store : Store} {makeId : NodeKey → String} {nodes : List Node} {plan : SavePlan}
    (h : store.plan makeId nodes = .ok plan) : store.Planned makeId nodes plan := by
  simp only [Store.plan, bind_eq_ok_iff] at h
  obtain ⟨ids, hids, lists, hlists, _, hends, _, hone, hplan⟩ := h
  obtain rfl := Except.ok.inj hplan
  obtain ⟨hassigned, hget⟩ := assignIds_eq_ok hids
  refine ⟨hassigned, hget, ?_, fun write => mem_batchWrites_iff hlists, checkEnds_eq_ok_iff.mp hends, checkToOne_eq_ok hone⟩
  intro node hn kind hk
  obtain ⟨ws, hws⟩ := mapM_ok_each hlists node hn
  exact nodeWrites_each hws hk

end Store

end EntityGraph
