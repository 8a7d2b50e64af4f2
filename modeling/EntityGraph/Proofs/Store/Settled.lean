import EntityGraph.Proofs.Store.Clients

/-!
# Nodes that were saved

When a batch of nodes that clients hold was saved, the fields of each node hold no changes, and all that is loaded in them can be
told by ids (`RelatedSet.Settled`). So every request keeps what holds of the nodes of clients, in every run (`Store.Run.keeps`).
-/

namespace EntityGraph

/-- A field after a save: it has no changes, and all that it has loaded can be told by ids. -/
structure RelatedSet.Settled (store : Store) (r : Relationship) (s : RelatedSet) : Prop where
  reachable : RelatedSet.Reachable r.field r.cardinality s
  resolvable : s.Resolvable store
  unchanged : s.hasChanges = false

namespace Store

variable {store after : Store} {makeId : NodeKey → String} {rank : NodeKey → Nat} {nodes nodes' : List Node} {plan : SavePlan}
  {held batch : List Held}
  {writes : List EdgeWrite}

/-! ## Fields after a save -/

/-- A relationship to one node that was saved holds one at most. -/
theorem Planned.size_current (hp : store.Planned makeId nodes plan) {node : Node} (hn : node ∈ nodes) {kind : EntityKind}
    (hk : store.schema.kinds[node.kind]? = some kind) {r : Relationship} (hr : r ∈ kind.relationships) {s : RelatedSet}
    (hset : node.related[r.field]? = some s) (hone : s.cardinality = .one) : s.current.size ≤ 1 := by
  obtain ⟨ws, hws⟩ := hp.each node hn kind hk r hr
  obtain ⟨own, changes, _, hown, hchanges, _⟩ := relationshipWrites_eq_ok hws
  obtain rfl := Option.some.inj (hset.symm.trans hown)
  exact RelatedSet.size_of_changes_eq_ok hchanges hone

/-- A plan that was carried out leaves the fields of its batch settled: what was added has an id, and so has every node that is
seen when the writes are noted. -/
theorem Planned.settled (hp : store.Planned makeId nodes plan)
    (hlookup : ∀ key : NodeKey, after.known[key]? = store.lookup plan.ids key) {keys : Std.ExtTreeMap String NodeKey}
    (hkeys : ∀ (key : NodeKey) (other : String), after.known[key]? = some other →
      ∃ found, keys[other]? = some found ∧ after.known[found]? = some other) {node : Node} (hn : node ∈ nodes)
    {kind : EntityKind} (hk : store.schema.kinds[node.kind]? = some kind) {r : Relationship} (hr : r ∈ kind.relationships)
    {s : RelatedSet} (hset : node.related[r.field]? = some s) (hreach : RelatedSet.Reachable r.field r.cardinality s) :
    ((writeOrder plan.writes).foldl (after.noteField keys r (plan.idOf node)) s.commit).Settled after r := by
  refine noteField_induction (motive := RelatedSet.Settled after r) (fun t key ht => ?_) (fun t key other hother ht => ?_)
    (fun other hcreate => ?_) ⟨hreach.commit, ⟨fun key hkey => ?_, fun hone a ha b hb => ?_⟩, RelatedSet.hasChanges_commit s⟩
  · exact ⟨ht.reachable.unload key, ht.resolvable.unload key, RelatedSet.hasChanges_unload ht.unchanged key⟩
  · exact ⟨ht.reachable.loadOne key, ht.resolvable.loadOne hother, RelatedSet.hasChanges_loadOne ht.unchanged key⟩
  · obtain ⟨key, hkey⟩ := hp.lookup_of_create (mem_writeOrder_iff.mp hcreate) r.related_end
    exact hkeys key other ((hlookup key).trans hkey)
  · rw [RelatedSet.known_commit, RelatedSet.mem_current_iff] at hkey
    have hown : key ∈ s.known ∨ key ∈ s.added ∨ key ∈ s.removed := hkey.imp And.left Or.inl
    obtain ⟨id, hid⟩ := hp.lookup_isSome hn hk hr hset hown
    exact ⟨id, (hlookup key).trans hid⟩
  · have hsize := hp.size_current hn hk hr hset hone
    rw [← Std.ExtTreeSet.length_toList] at hsize
    rw [RelatedSet.known_commit, ← Std.ExtTreeSet.mem_toList] at ha hb
    exact eq_of_length_le_one hsize ha hb

/-- What a save makes of a node of its batch: it has its id, and its fields are settled. -/
structure Saves (after : Store) (plan : SavePlan) (ofKind : EntityKind) (node node' : Node) : Prop where
  key : node'.key = node.key
  kind : node'.kind = node.kind
  id : node'.id = some (plan.idOf node)
  attributes : node'.attributes = node.attributes
  made : node'.MadeOf ofKind
  resolvable : ∀ (field : String) (s : RelatedSet), node'.related[field]? = some s → s.Resolvable after
  unchanged : node'.hasChanges = false

/-- A save writes a plan and remembers the batch, and it leaves settled every node that is made of the fields of its kind. -/
theorem exists_saves_of_made (hs : store.schema.WellFormed) (hsave : store.save makeId rank nodes = ((after, nodes'), .ok writes)) :
    ∃ plan, store.Planned makeId nodes plan ∧ after = { store with
        graph := plan.write nodes store.graph
        known := nodes.foldl (fun known node => known.insert node.key (plan.idOf node)) store.known } ∧
      List.Forall₂ (fun node node' => store.Made node →
        ∃ kind, store.schema.kinds[node.kind]? = some kind ∧ after.Saves plan kind node node') nodes nodes' := by
  obtain ⟨plan, hplan, hcarry⟩ := save_eq_ok hsave
  have hp := plan_eq_ok hplan
  obtain ⟨hafter, keys, hkeys, hall⟩ := carryOut_eq_none hs hcarry
  refine ⟨plan, hp, hafter, ?_⟩
  have hlookup := hp.known_eq_lookup (congrArg Store.known hafter)
  have hmembers : ∀ node ∈ nodes, node ∈ nodes := fun _ hn => hn
  refine ((List.forall₂_and_left nodes nodes').mpr ⟨hmembers, hall⟩).imp fun node node' ⟨hn, kind, hk, hedit⟩ hmade =>
    ⟨kind, hk, ?_⟩
  have hnode := hmade.madeOf hk
  have hgiven : (node.withId (plan.idOf node)).MadeOf kind := ⟨hnode.set, hnode.only⟩
  have hsettled : ∀ r ∈ kind.relationships, ∀ s, node.related[r.field]? = some s →
      ((writeOrder plan.writes).foldl (after.noteField keys r (plan.idOf node)) s.commit).Settled after r := by
    intro r hr s hset
    exact hp.settled hlookup hkeys hn hk hr hset (hnode.reachable hr hset)
  have hmade' := hedit.madeOf hgiven fun r hr s hset => (hsettled r hr s hset).reachable
  have hresolvable := hedit.forall_related hgiven fun r hr s hset => (hsettled r hr s hset).resolvable
  have hunchanged := hedit.forall_related (P := fun t => t.hasChanges = false) hgiven
    fun r hr s hset => (hsettled r hr s hset).unchanged
  obtain ⟨related, rfl, _⟩ := hedit
  exact ⟨rfl, rfl, rfl, rfl, hmade', hresolvable, Node.hasChanges_eq_false_iff.mpr hunchanged⟩

/-- A save of nodes that are made of the fields of their kinds writes a plan, remembers the batch and leaves its nodes settled. -/
theorem exists_saves (hs : store.schema.WellFormed) (hmade : ∀ node ∈ nodes, store.Made node)
    (hsave : store.save makeId rank nodes = ((after, nodes'), .ok writes)) :
    ∃ plan, store.Planned makeId nodes plan ∧ after = { store with
        graph := plan.write nodes store.graph
        known := nodes.foldl (fun known node => known.insert node.key (plan.idOf node)) store.known } ∧
      List.Forall₂ (fun node node' => ∃ kind, store.schema.kinds[node.kind]? = some kind ∧ after.Saves plan kind node node')
        nodes nodes' := by
  obtain ⟨plan, hp, hafter, hall⟩ := exists_saves_of_made hs hsave
  exact ⟨plan, hp, hafter, ((List.forall₂_and_left nodes nodes').mpr ⟨hmade, hall⟩).imp fun _ _ ⟨hnode, hsaves⟩ => hsaves hnode⟩

/-! ## The nodes of clients after a save -/

theorem Planned.grows (hp : store.Planned makeId nodes plan) (hf : store.MakesFresh makeId)
    (hschema : after.schema = store.schema) (hnext : after.nextKey = store.nextKey)
    (hgraph : after.graph = plan.write nodes store.graph)
    (hlookup : ∀ key : NodeKey, after.known[key]? = store.lookup plan.ids key) : store.Grows after where
  schema := hschema
  nextKey := Nat.le_of_eq hnext.symm
  kinds hk := by
    rw [hgraph]
    exact hp.kindOf?_write_of_kindOf? hf hk
  known {key id} hid := by
    rw [hlookup]
    exact exists_lookup plan.ids hid

/-- Nodes that were saved are held besides those held before, and all of them can still be told by ids. -/
theorem Keeps.save (hs : store.schema.WellFormed) (h : store.Keeps held) (hsub : batch ⊆ held)
    (hids : ((batch.map Held.node).filterMap Node.id).Nodup) (hf : store.Fresh makeId (batch.map Held.node))
    (hsave : store.save makeId rank (batch.map Held.node) = ((after, nodes), .ok writes)) :
    after.Keeps (nodes.map (⟨·, true⟩) ++ held) := by
  have hbatch : ∀ node ∈ batch.map Held.node, ∃ entry ∈ held, entry.node = node := by
    intro node hn
    obtain ⟨entry, hentry, hnode⟩ := List.mem_map.mp hn
    exact ⟨entry, hsub hentry, hnode⟩
  have hmade : ∀ node ∈ batch.map Held.node, store.Made node := by
    intro node hn
    obtain ⟨old, hold, rfl⟩ := hbatch node hn
    exact h.made old hold
  obtain ⟨plan, hp, hafter, hall⟩ := exists_saves hs hmade hsave
  have hgraph : after.graph = plan.write (batch.map Held.node) store.graph := by rw [hafter]
  have hg : store.Grows after := hp.grows hf.stored (by rw [hafter]) (by rw [hafter]) hgraph
    (hp.known_eq_lookup (congrArg Store.known hafter))
  refine h.change hg fun entry hentry => ?_
  obtain ⟨node', hn', rfl⟩ := List.mem_map.mp hentry
  obtain ⟨node, hn, kind, hk, hsaves⟩ := exists_of_forall₂ hall node' hn'
  obtain ⟨old, hold, rfl⟩ := hbatch node hn
  -- Nodes that are stored under the id of the node are copies of it.
  have hkind : after.graph.kindOf? (plan.idOf old.node) = some old.node.kind := by
    rw [hgraph]
    refine Planned.kindOf?_write_of_mem hn fun other ho hother => ?_
    obtain ⟨copy, hcopy, rfl⟩ := hbatch other ho
    exact h.kinds copy hcopy old hold (hp.key_of_idOf hids hf hn ho hother)
  refine ⟨⟨⟨kind, ?_, hsaves.made⟩, ?_⟩, fun _ => ⟨⟨_, hsaves.id, ?_⟩, hsaves.resolvable⟩, old, hold, hsaves.key.symm,
    hsaves.kind.symm⟩
  · rw [hg.schema, hsaves.kind, hk]
  · rw [hsaves.key]
    exact Nat.lt_of_lt_of_le (h.made old hold).issued hg.nextKey
  · rw [hkind, hsaves.kind]

/-- A save that fails leaves the store and the nodes as they were. -/
theorem eq_of_save_error {e : StoreError} (hsave : store.save makeId rank nodes = ((after, nodes'), .error e)) :
    after = store ∧ nodes' = nodes := by
  rcases store.save_all_or_nothing makeId rank nodes with ⟨e', _, hfailed⟩ | ⟨_, _, _, _, _, _, hsaved⟩
  · rw [hsave] at hfailed
    simp only [Prod.mk.injEq] at hfailed
    exact hfailed.1
  · rw [hsave] at hsaved
    simp at hsaved

/-! ## Runs -/

theorem Run.reachable {schema : Schema} (h : Run schema store held) : Reachable schema store := by
  induction h with
  | start => exact .empty
  | create _ _ ih => exact .step ih .issueKey
  | giveId _ _ _ _ ih => exact ih
  | setAttribute _ _ _ _ ih => exact ih
  | edit _ _ _ _ ih => exact ih
  | query _ hquery ih => exact .step ih (.query hquery)
  | get _ hget ih => exact .step ih (.get hget)
  | @load store after held entry field node result _ _ hload ih =>
    rw [show after = (store.load entry.node field).1.1 by rw [hload]]
    exact .step ih (.load entry.node field)
  | @save store after held batch makeId rank nodes writes _ _ _ hf hsave ih =>
    rw [show after = (store.save makeId rank (batch.map Held.node)).1.1 by rw [hsave]]
    exact .step ih (.save makeId rank _ hf.stored)
  | refused _ _ _ _ hsave ih =>
    rw [(eq_of_save_error hsave).1]
    exact ih

/-- In every run, what holds of the nodes of clients is kept: a node that the store handed out or saved can be told by ids in all
its fields. -/
theorem Run.keeps {schema : Schema} (hs : schema.WellFormed) (h : Run schema store held) : store.Keeps held := by
  induction h with
  | start => exact ⟨List.forall_mem_nil _, List.forall_mem_nil _, List.forall_mem_nil _⟩
  | create hrun hk ih =>
    have hschema := hrun.reachable.schema_eq
    exact ih.create (hschema ▸ hs) (hschema ▸ hk)
  | giveId id _ hentry hnone ih =>
    refine ih.relabel hentry rfl rfl (fun given hgiven => ?_) rfl
    rw [hnone] at hgiven
    cases hgiven
  | setAttribute name value _ hentry ih => exact ih.relabel hentry rfl rfl (fun _ hid => hid) rfl
  | edit field change _ hentry ih => exact ih.edit hentry field change
  | query hrun hquery ih => exact ih.query (hrun.reachable.schema_eq ▸ hs) hquery
  | get hrun hget ih => exact ih.get (hrun.reachable.schema_eq ▸ hs) hget
  | load hrun hentry hload ih => exact ih.load (hrun.reachable.schema_eq ▸ hs) hrun.reachable.toOne hentry hload
  | save hrun hsub hids hf hsave ih => exact ih.save (hrun.reachable.schema_eq ▸ hs) hsub hids hf hsave
  | @refused store after held batch makeId rank nodes e _ hsub _ _ hsave ih =>
    obtain ⟨rfl, rfl⟩ := eq_of_save_error hsave
    refine ih.subset fun entry hentry => ?_
    rcases List.mem_append.mp hentry with hentry | hold
    · rw [List.zipWith_map_right, List.zipWith_self, List.mem_map] at hentry
      obtain ⟨old, hold, rfl⟩ := hentry
      exact hsub hold
    · exact hold

end Store

end EntityGraph
