import EntityGraph.Proofs.Store.Mirror
import EntityGraph.Proofs.Store.Reachable

/-!
# Saves that succeed

A plan for nodes that have the fields of their kinds is always carried out (`exists_carryOut`), so that a save fails only while
it is planned. For a stored node a plan is drafted when all nodes in its fields are remembered and no field for one node has
several (`Plannable.exists_draft`), and it is made when the created edges leave no field for one node with several
(`Draft.exists_save`).
-/

namespace EntityGraph

namespace Store

/-! ## Carrying out -/

section

variable {schema : Schema}

/-- A node has the fields of its kind, which is one of the schema. -/
def Complete (schema : Schema) (node : Node) : Prop := ∃ kind, schema.kinds[node.kind]? = some kind ∧ node.HasFields kind

theorem runsOn_commit (plan : SavePlan) :
    Edit.RunsOn (fun p : Store × Node => p.1.schema = schema ∧ Complete schema p.2) plan.commit := by
  rintro ⟨store, node⟩ ⟨rfl, kind, hk, hfields⟩
  obtain ⟨node', hcommit, hname, hfields'⟩ :=
    Node.runsOn_commit kind node.kind (node.withId (plan.idOf node)) ⟨rfl, hfields⟩
  refine ⟨({ store with known := store.known.insert node.key (plan.idOf node) }, node'), ?_, rfl, kind, ?_, hfields'⟩
  · exact Edit.onSecond_eq_iff.mpr ⟨rfl, Edit.withValue_eq_none_iff.mpr ⟨kind, Schema.kind_eq_ok_iff.mpr hk, hcommit⟩⟩
  · rw [hname]
    exact hk

theorem runsOn_noteWriteAt (store : Store) (keys : Std.ExtTreeMap String NodeKey) (write : EdgeWrite) (kind : EntityKind)
    (id? : Option String) (this other : String) (direction : Direction) (name : String) :
    Edit.RunsOn (fun node => node.kind = name ∧ node.HasFields kind)
      (store.noteWriteAt keys write kind id? this other direction) := by
  unfold noteWriteAt
  split
  · split
    · refine .inOrder fun e he => ?_
      obtain ⟨r, hr, rfl⟩ := List.mem_map.mp he
      exact Node.runsOn_edit (List.mem_filter.mp hr).1 _ name
    · exact Edit.runsOn_done
  · exact Edit.runsOn_done

theorem runsOn_noteWriteOn (store : Store) (keys : Std.ExtTreeMap String NodeKey) (write : EdgeWrite) :
    Edit.RunsOn (Complete store.schema) (store.noteWriteOn keys write) := by
  rintro node ⟨kind, hk, hfields⟩
  obtain ⟨node', hnote, hname, hfields'⟩ :=
    ((runsOn_noteWriteAt store keys write kind node.id write.edge.source write.edge.target .outgoing node.kind).andThen
      (runsOn_noteWriteAt store keys write kind node.id write.edge.target write.edge.source .incoming node.kind))
      node ⟨rfl, hfields⟩
  refine ⟨node', ?_, kind, by rw [hname]; exact hk, hfields'⟩
  exact Edit.withValue_eq_none_iff.mpr ⟨kind, Schema.kind_eq_ok_iff.mpr hk, hnote⟩

/-- A plan for nodes that have the fields of their kinds is carried out. -/
theorem exists_carryOut {store : Store} (rank : NodeKey → Nat) (plan : SavePlan) {nodes : List Node}
    (h : ∀ node ∈ nodes, Complete store.schema node) : ∃ reached, carryOut rank plan (store, nodes) = (reached, none) := by
  have hcommits : Edit.RunsOn (fun p : Store × List Node => p.1.schema = store.schema ∧
      ∀ node ∈ p.2, Complete store.schema node) (Edit.onEach plan.commit) :=
    .onEach (fun s : Store => s.schema = store.schema) (runsOn_commit plan)
  obtain ⟨⟨between, batch⟩, hcommit, hschema, hbatch⟩ :=
    hcommits ({ store with graph := plan.write nodes store.graph }, nodes) ⟨rfl, h⟩
  have hnote : Edit.RunsOn (fun p : Store × List Node => p.1 = between ∧ ∀ node ∈ p.2, Complete between.schema node)
      (Edit.inOrder ((writeOrder plan.writes).map fun write =>
        Edit.onEach (Edit.onSecond (between.noteWriteOn (between.keysById rank batch) write)))) := by
    refine .inOrder fun e he => ?_
    obtain ⟨write, _, rfl⟩ := List.mem_map.mp he
    exact .onEach (fun s => s = between) (.onSecond (fun s => s = between) (runsOn_noteWriteOn between _ write))
  obtain ⟨reached, hreached, _⟩ := hnote (between, batch) ⟨rfl, by rw [hschema]; exact hbatch⟩
  exact ⟨reached, Edit.andThen_eq_none_iff.mpr ⟨(between, batch), hcommit, hreached⟩⟩

/-- A save that was planned succeeds, and writes the plan. -/
theorem exists_save {store : Store} {makeId : NodeKey → String} {nodes : List Node} {plan : SavePlan} (rank : NodeKey → Nat)
    (hplan : store.plan makeId nodes = .ok plan) (h : ∀ node ∈ nodes, Complete store.schema node) :
    ∃ reached, store.save makeId rank nodes = (reached, .ok plan.writes.toList) ∧ store.Written plan nodes reached.1 := by
  obtain ⟨reached, hcarry⟩ := exists_carryOut rank plan h
  have hw := written_carryOut store rank plan nodes
  rw [hcarry] at hw
  exact ⟨reached, by rw [save, hplan]; simp only [hcarry], hw⟩

end

/-! ## Planning -/

section

variable {store : Store} {node : Node} {kind : EntityKind} {r : Relationship} {ids : Std.ExtTreeMap NodeKey String}

theorem exists_displaced (hs : store.schema.WellFormed) (hk : store.schema.kinds[node.kind]? = some kind)
    (hr : r ∈ kind.relationships) (changes : EdgeChanges) : ∃ writes, store.displaced r changes = .ok writes := by
  obtain ⟨related, hrelated, hmirror⟩ := hs.related hk r hr
  unfold displaced
  cases hm : r.mirror with
  | none => exact ⟨[], rfl⟩
  | some field =>
    obtain ⟨m, hmem, _, _, rfl⟩ := (hmirror field).mp hm
    have hfound : (liftM (store.schema.relationship r.relatedKind m.field) : Except StoreError _) = .ok m :=
      StoreError.liftSchema_eq_ok_iff.mpr (relationship_of_mem hs hrelated hmem)
    simp only [bind_eq_ok_iff, hfound, Except.ok.injEq, exists_eq_left']
    split <;> exact ⟨_, rfl⟩

/-- The writes for a relationship can be planned when all nodes in its field have ids, and a field for one node has at most
one. -/
theorem exists_relationshipWrites (hs : store.schema.WellFormed) (hk : store.schema.kinds[node.kind]? = some kind)
    (hr : r ∈ kind.relationships) {owner : String} (ho : store.lookup ids node.key = some owner) {s : RelatedSet}
    (hset : node.related[r.field]? = some s) (hone : s.cardinality = .one → s.current.size ≤ 1)
    (hall : ∀ key, key ∈ s.known ∨ key ∈ s.added ∨ key ∈ s.removed → ∃ id, store.lookup ids key = some id) :
    ∃ writes, store.relationshipWrites ids node r = .ok writes := by
  have hlookup : (fun key : NodeKey => ids[key]? <|> store.known[key]?) = store.lookup ids := by
    funext key
    exact Option.orElse_eq_or
  obtain ⟨changes, hchanges⟩ := RelatedSet.exists_changes ho hone hall
  obtain ⟨displaced, hdisplaced⟩ := exists_displaced hs hk hr changes
  have hadded : ∀ key ∈ s.added.toList, (store.lookup ids key).isNone = false := by
    intro key hkey
    obtain ⟨id, hid⟩ := hall key (Or.inr (Or.inl (Std.ExtTreeSet.mem_toList.mp hkey)))
    rw [hid]
    rfl
  refine ⟨r.writes changes ++ displaced, ?_⟩
  simp only [relationshipWrites, bind_eq_ok_iff, StoreError.liftSchema_eq_ok_iff, StoreError.liftChanges_eq_ok_iff]
  rw [← hlookup] at hadded hchanges
  refine ⟨s, Node.relatedSet_eq_ok_iff.mpr hset, (), forM_eq_ok_iff.mpr fun key hkey => ?_, changes, hchanges, displaced,
    hdisplaced, rfl⟩
  rw [hadded key hkey]
  rfl

end

/-! ## Checks -/

/-- A relationship to one node passes the check where it leads to one node at most. -/
theorem checkOneAt_of_forall_eq {schema : Schema} {graph : Graph} {kindOf? : String → Option String} {id name label : String}
    {direction : Direction} {kind : EntityKind} (hn : kindOf? id = some name) (hk : schema.kinds[name]? = some kind)
    (h : ∀ r ∈ kind.relationships, r.cardinality = .one → r.label = label → r.direction = direction →
      ∀ a b, r.edge ⟨id, a⟩ ∈ graph.edges → kindOf? a = some r.relatedKind →
        r.edge ⟨id, b⟩ ∈ graph.edges → kindOf? b = some r.relatedKind → a = b) :
    checkOneAt schema graph kindOf? id label direction = .ok () := by
  rw [checkOneAt, hn]
  refine bind_eq_ok_iff.mpr ⟨kind, StoreError.liftSchema_eq_ok_iff.mpr (Schema.kind_eq_ok_iff.mpr hk), ?_⟩
  refine forM_eq_ok_iff.mpr fun r hr => ?_
  split
  · next hone =>
    obtain ⟨hcard, rfl, rfl⟩ := hone
    have hcount : ((graph.neighbors id r.label r.direction).filter fun other =>
        kindOf? other == some r.relatedKind).length ≤ 1 := by
      refine length_le_one_of_forall_eq ((Graph.nodup_neighbors graph r id).filter _) fun a ha b hb => ?_
      obtain ⟨ha, hak⟩ := List.mem_filter.mp ha
      obtain ⟨hb, hbk⟩ := List.mem_filter.mp hb
      exact h r hr hcard rfl rfl a b (Graph.mem_neighbors_iff.mp ha) (by simpa using hak) (Graph.mem_neighbors_iff.mp hb)
        (by simpa using hbk)
    dsimp only
    rw [if_neg (Nat.not_lt.mpr hcount)]
    rfl
  · rfl

/-- The checks at the ends of an edge are those of a relationship and of its mirror. -/
theorem checkOneAt_edge {schema : Schema} {graph : Graph} {kindOf? : String → Option String} {r : Relationship}
    {owner other : String} (howner : checkOneAt schema graph kindOf? owner r.label r.direction = .ok ())
    (hother : checkOneAt schema graph kindOf? other r.label r.direction.opposite = .ok ()) :
    checkOneAt schema graph kindOf? (r.edge ⟨owner, other⟩).source (r.edge ⟨owner, other⟩).label .outgoing = .ok () ∧
      checkOneAt schema graph kindOf? (r.edge ⟨owner, other⟩).target (r.edge ⟨owner, other⟩).label .incoming = .ok () := by
  cases hd : r.direction with
  | outgoing =>
    rw [hd] at howner hother
    simpa [Relationship.edge, hd] using ⟨howner, hother⟩
  | incoming =>
    rw [hd] at howner hother
    simpa [Relationship.edge, hd] using ⟨hother, howner⟩

/-- The check of relationships to one node passes where it passes at both ends of every edge to be created. -/
theorem checkToOne_of_forall {store : Store} {plan : SavePlan} {nodes : List Node} (h : ∀ e, .create e ∈ plan.writes →
    checkOneAt store.schema (store.graph.applyAll (writeOrder plan.writes)) (store.futureKind? plan nodes)
        e.source e.label .outgoing = .ok () ∧
      checkOneAt store.schema (store.graph.applyAll (writeOrder plan.writes)) (store.futureKind? plan nodes)
        e.target e.label .incoming = .ok ()) : store.checkToOne plan nodes = .ok () := by
  refine forM_eq_ok_iff.mpr fun write hwrite => ?_
  cases write with
  | delete _ => rfl
  | create e =>
    obtain ⟨hsource, htarget⟩ := h e (Std.ExtTreeSet.mem_toList.mp hwrite)
    exact bind_eq_ok_iff.mpr ⟨(), hsource, htarget⟩

/-! ## Plans as stated -/

/-- The writes of a node can be planned when those of each of its relationships can. -/
theorem exists_nodeWrites {store : Store} {ids : Std.ExtTreeMap NodeKey String} {node : Node} {kind : EntityKind}
    (hk : store.schema.kinds[node.kind]? = some kind)
    (h : ∀ r ∈ kind.relationships, ∃ writes, store.relationshipWrites ids node r = .ok writes) :
    ∃ writes, store.nodeWrites ids node = .ok writes := by
  obtain ⟨lists, hlists⟩ := exists_mapM h
  refine ⟨lists.flatten, bind_eq_ok_iff.mpr ⟨kind, ?_, bind_eq_ok_iff.mpr ⟨lists, hlists, rfl⟩⟩⟩
  exact StoreError.liftSchema_eq_ok_iff.mpr (Schema.kind_eq_ok_iff.mpr hk)

/-- The ids of a batch can be planned when that of each node can. -/
theorem exists_assignIds {store : Store} {makeId : NodeKey → String} {nodes : List Node}
    (h : ∀ node ∈ nodes, ∃ id, store.assignId makeId node = .ok id) : ∃ ids, store.assignIds makeId nodes = .ok ids := by
  refine exists_foldlM (fun ids node hn => ?_) ∅
  obtain ⟨id, hid⟩ := h node hn
  exact ⟨ids.insert node.key id, bind_eq_ok_iff.mpr ⟨id, hid, rfl⟩⟩

/-- A plan is made for a batch just when it is as stated for it. -/
theorem plan_eq_ok_iff {store : Store} {makeId : NodeKey → String} {nodes : List Node} {plan : SavePlan} :
    store.plan makeId nodes = .ok plan ↔ store.Planned makeId nodes plan := by
  refine ⟨plan_eq_ok, fun h => ?_⟩
  obtain ⟨ids, hids⟩ := exists_assignIds h.assigned
  have hsame : ids = plan.ids := by
    refine Std.ExtTreeMap.ext_getElem? fun key => ?_
    rw [h.ids, (assignIds_eq_ok hids).2]
  obtain ⟨lists, hlists⟩ : ∃ lists, nodes.mapM (store.nodeWrites plan.ids) = .ok lists := by
    refine exists_mapM fun node hn => ?_
    obtain ⟨id, hid⟩ := h.assigned node hn
    obtain ⟨kind, hk⟩ := (assignId_eq_ok_iff.mp hid).1
    exact exists_nodeWrites hk (h.each node hn kind hk)
  have hwrites : Std.ExtTreeSet.ofList lists.flatten compare = plan.writes := by
    refine Std.ExtTreeSet.ext_mem fun write => ?_
    rw [mem_batchWrites_iff hlists, h.writes]
  simp only [Store.plan, bind_eq_ok_iff]
  refine ⟨ids, hids, lists, by rw [hsame]; exact hlists, ?_⟩
  rw [hsame, hwrites]
  exact ⟨(), checkEnds_eq_ok_iff.mpr h.ends, (), checkToOne_of_forall h.oneAt, rfl⟩

/-- A batch can be planned but for the checks when each node can be given an id, and the writes of each of its relationships can
be planned with the ids given. -/
theorem exists_unchecked {store : Store} {makeId : NodeKey → String} {nodes : List Node}
    (hassigned : ∀ node ∈ nodes, ∃ id, store.assignId makeId node = .ok id)
    (heach : ∀ ids : Std.ExtTreeMap NodeKey String,
      (∀ key, ids[key]? = (lastWith Node.key nodes key).bind fun node => (store.assignId makeId node).toOption) →
      ∀ node ∈ nodes, ∀ kind, store.schema.kinds[node.kind]? = some kind → ∀ r ∈ kind.relationships,
        ∃ writes, store.relationshipWrites ids node r = .ok writes) : ∃ plan, store.Unchecked makeId nodes plan := by
  obtain ⟨ids, hassign⟩ := exists_assignIds hassigned
  have hids := (assignIds_eq_ok hassign).2
  obtain ⟨lists, hlists⟩ : ∃ lists, nodes.mapM (store.nodeWrites ids) = .ok lists := by
    refine exists_mapM fun node hn => ?_
    obtain ⟨id, hid⟩ := hassigned node hn
    obtain ⟨kind, hk⟩ := (assignId_eq_ok_iff.mp hid).1
    exact exists_nodeWrites hk (heach ids hids node hn kind hk)
  exact ⟨⟨ids, .ofList lists.flatten compare⟩, hassigned, hids, heach ids hids, fun write => mem_batchWrites_iff hlists⟩

/-- Every node of a batch is looked up by the id that it was given. -/
theorem exists_lookup_of_mem {store : Store} {makeId : NodeKey → String} {nodes : List Node}
    {ids : Std.ExtTreeMap NodeKey String} (hassigned : ∀ node ∈ nodes, ∃ id, store.assignId makeId node = .ok id)
    (hids : ∀ key, ids[key]? = (lastWith Node.key nodes key).bind fun node => (store.assignId makeId node).toOption)
    {node : Node} (hn : node ∈ nodes) : ∃ id, store.lookup ids node.key = some id := by
  obtain ⟨last, hlast⟩ := lastWith_isSome Node.key hn
  obtain ⟨id, hid⟩ := hassigned last (lastWith_some hlast).1
  refine ⟨id, ?_⟩
  rw [lookup, hids, hlast, Option.bind_some, hid]
  rfl

/-- The ends of the edges to be created are of the batch or stored, so that a plan passes when no field for one node will hold
several. -/
theorem Unchecked.planned {store : Store} {makeId : NodeKey → String} {nodes : List Node} {plan : SavePlan}
    (h : store.Unchecked makeId nodes plan) (hsound : store.Sound)
    (hone : ∀ e, .create e ∈ plan.writes →
      checkOneAt store.schema (store.graph.applyAll (writeOrder plan.writes)) (store.futureKind? plan nodes)
          e.source e.label .outgoing = .ok () ∧
        checkOneAt store.schema (store.graph.applyAll (writeOrder plan.writes)) (store.futureKind? plan nodes)
          e.target e.label .incoming = .ok ()) : store.Planned makeId nodes plan := by
  refine ⟨h.assigned, h.ids, h.each, h.writes, fun e he id hid => ?_, hone⟩
  obtain ⟨node, hn, _, _, r, _, _, _, key, _, _, other, hother, rfl⟩ := h.create_mem_iff.mp he
  rcases Relationship.mem_ends_iff.mp hid with rfl | rfl
  · exact Or.inl ⟨node.key, h.ids_key hn⟩
  · rcases Option.or_eq_some_iff.mp hother with hbatch | ⟨_, hknown⟩
    · exact Or.inl ⟨key, hbatch⟩
    · exact Or.inr (hsound.known hknown)

/-! ## Saving one stored node -/

section

variable {store : Store} {makeId : NodeKey → String} {id : String} {kind : EntityKind} {node : Node} {plan : SavePlan}

/-- A stored node in memory whose changes can be expressed by ids. -/
structure Plannable (store : Store) (id : String) (kind : EntityKind) (node : Node) : Prop where
  ofKind : store.schema.kinds[node.kind]? = some kind
  hasId : node.id = some id
  stored : store.graph.kindOf? id = some node.kind
  known : store.known[node.key]? = some id
  set : ∀ r ∈ kind.relationships, ∃ s, node.related[r.field]? = some s ∧ (s.cardinality = .one → s.current.size ≤ 1) ∧
    ∀ key, key ∈ s.known ∨ key ∈ s.added ∨ key ∈ s.removed → ∃ other, store.known[key]? = some other

/-- A plan for one stored node, made but for the checks. -/
structure Draft (store : Store) (makeId : NodeKey → String) (id : String) (kind : EntityKind) (node : Node) (plan : SavePlan) :
    Prop where
  idOf : plan.idOf node = id
  checked : store.checkEnds plan = .ok () → store.checkToOne plan [node] = .ok () → store.plan makeId [node] = .ok plan
  create : ∀ e, .create e ∈ plan.writes ↔ ∃ r ∈ kind.relationships, ∃ s, node.related[r.field]? = some s ∧
    ∃ key ∈ s.added, key ∉ s.known ∧ ∃ other, store.known[key]? = some other ∧ e = r.edge ⟨id, other⟩
  delete : ∀ e, .delete e ∈ plan.writes ↔ ∃ r ∈ kind.relationships, ∃ s, node.related[r.field]? = some s ∧
    ((∃ key ∈ s.removed, key ∈ s.known ∧ ∃ other, store.known[key]? = some other ∧ e = r.edge ⟨id, other⟩) ∨
      ∃ key ∈ s.added, key ∉ s.known ∧ ∃ other, store.known[key]? = some other ∧
        ∃ mirror, store.schema.Mirrors r mirror ∧ mirror.cardinality = .one ∧
          ∃ previous, mirror.edge ⟨other, previous⟩ ∈ store.graph.edges ∧ previous ≠ id ∧
            store.graph.kindOf? previous = some mirror.relatedKind ∧ e = mirror.edge ⟨other, previous⟩)

theorem Plannable.exists_draft (h : store.Plannable id kind node) (makeId : NodeKey → String) (hs : store.schema.WellFormed) :
    ∃ plan, store.Draft makeId id kind node plan := by
  let ids : Std.ExtTreeMap NodeKey String := (∅ : Std.ExtTreeMap NodeKey String).insert node.key id
  have hget : ids[node.key]? = some id := by simp [ids]
  -- The id of the batch is the one that is remembered, so that keys are looked up as they are remembered.
  have hlookup : ∀ key, store.lookup ids key = store.known[key]? := by
    intro key
    by_cases hkey : key = node.key
    · rw [hkey, lookup, hget, h.known, Option.some_or]
    · simp [lookup, ids, Ne.symm hkey]
  have hnode : store.lookup ids node.key = some id := (hlookup node.key).trans h.known
  have hassign : store.assignId makeId node = .ok id :=
    assignId_eq_ok_iff.mpr ⟨⟨kind, h.ofKind⟩, Or.inr ⟨h.hasId, fun found hf => Option.some.inj (hf.symm.trans h.stored)⟩⟩
  have hids : store.assignIds makeId [node] = .ok ids := by
    rw [assignIds, List.foldlM_cons, hassign]
    rfl
  have heach : ∀ r ∈ kind.relationships, ∃ ws, store.relationshipWrites ids node r = .ok ws := by
    intro r hr
    obtain ⟨s, hset, hone, hall⟩ := h.set r hr
    exact exists_relationshipWrites hs h.ofKind hr hnode hset hone fun key hkey => by rw [hlookup]; exact hall key hkey
  obtain ⟨writes, hwrites⟩ := exists_nodeWrites h.ofKind heach
  have hmem : ∀ write, write ∈ Std.ExtTreeSet.ofList [writes].flatten compare ↔
      ∃ r ∈ kind.relationships, ∃ ws, store.relationshipWrites ids node r = .ok ws ∧ write ∈ ws := by
    intro write
    simp only [List.flatten_singleton, Std.ExtTreeSet.mem_ofList, List.contains_iff_mem, mem_nodeWrites_iff hwrites, h.ofKind,
      Option.some.injEq, exists_eq_left']
  refine ⟨⟨ids, .ofList [writes].flatten compare⟩, ?_, ?_, fun e => ?_, fun e => ?_⟩
  · rw [SavePlan.idOf, Std.ExtTreeMap.getD_eq_getD_getElem?, hget]
    rfl
  · intro hends hone
    exact bind_eq_ok_iff.mpr ⟨ids, hids, bind_eq_ok_iff.mpr ⟨[writes],
      mapM_cons_eq_ok_iff.mpr ⟨_, [], hwrites, rfl, rfl⟩, bind_eq_ok_iff.mpr ⟨(), hends, bind_eq_ok_iff.mpr ⟨(), hone, rfl⟩⟩⟩⟩
  · rw [hmem]
    refine exists_congr fun r => and_congr_right fun hr => ?_
    obtain ⟨ws, hws⟩ := heach r hr
    simp only [hws, Except.ok.injEq, exists_eq_left', create_mem_relationshipWrites_iff hws hnode, hlookup]
  · rw [hmem]
    refine exists_congr fun r => and_congr_right fun hr => ?_
    obtain ⟨ws, hws⟩ := heach r hr
    simp only [hws, Except.ok.injEq, exists_eq_left', delete_mem_relationshipWrites_iff hs hws hnode, hlookup]

/-- The kinds after the save are those of before. -/
theorem Draft.kindOf?_write (h : store.Draft makeId id kind node plan) (hstored : store.graph.kindOf? id = some node.kind) :
    (plan.write [node] store.graph).kindOf? = store.graph.kindOf? := by
  funext other
  rw [SavePlan.kindOf?_write, lastWith_cons, h.idOf]
  by_cases ho : id = other
  · simp [lastWith, ← ho, hstored]
  · simp [lastWith, ho]

/-- A drafted plan is carried out when the edges afterwards pass the checks at both ends of every edge that is created. -/
theorem Draft.exists_save (h : store.Draft makeId id kind node plan) (hn : store.Plannable id kind node) (hsound : store.Sound)
    (hone : ∀ e, .create e ∈ plan.writes →
      checkOneAt store.schema (store.graph.applyAll (writeOrder plan.writes)) store.graph.kindOf? e.source e.label .outgoing =
          .ok () ∧
        checkOneAt store.schema (store.graph.applyAll (writeOrder plan.writes)) store.graph.kindOf? e.target e.label .incoming =
          .ok ()) (rank : NodeKey → Nat) :
    ∃ after nodes writes, store.save makeId rank [node] = ((after, nodes), .ok writes) ∧
      after.graph = plan.write [node] store.graph := by
  have hends : store.checkEnds plan = .ok () := by
    refine checkEnds_eq_ok_iff.mpr fun e he end' hend => Or.inr ?_
    obtain ⟨r, _, s, _, key, _, _, other, hother, rfl⟩ := (h.create e).mp he
    rcases Relationship.mem_ends_iff.mp hend with rfl | rfl
    · exact hsound.known hn.known
    · exact hsound.known hother
  have hplan := h.checked hends (checkToOne_of_forall fun e he => by
    rw [futureKind?_eq, h.kindOf?_write hn.stored]
    exact hone e he)
  obtain ⟨reached, hsave, hw⟩ := Store.exists_save rank hplan fun other ho => by
    rw [List.mem_singleton.mp ho]
    exact ⟨kind, hn.ofKind, fun r hr => (hn.set r hr).imp fun _ hset => hset.1⟩
  exact ⟨reached.1, reached.2, _, hsave, hw.graph⟩

end

end Store

end EntityGraph
