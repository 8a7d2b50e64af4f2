import EntityGraph.Proofs.Node.Edit
import EntityGraph.Proofs.Schema.Built
import EntityGraph.Proofs.Store.Plan

/-!
# What reading returns

Nodes are handed out for stored nodes: each is a new node of the stored kind, under a key of its own, with the stored id and the
stored attributes (`Store.HandedOut`). Reading changes of the store only the keys issued and the ids remembered, and it remembers
ids of stored nodes only.
-/

namespace EntityGraph

namespace Store

/-- What clients see of a node: its id, its kind and its attributes. -/
def shown (node : Node) : Option String × String × Std.ExtTreeMap String Value := (node.id, node.kind, node.attributes)

/-- A node that was handed out for a stored node: new, with the stored id and attributes, under a key issued by the store. -/
def HandedOut (store : Store) (row : String × StoredNode) (node : Node) : Prop :=
  ∃ kind key, store.schema.kinds[row.2.kind]? = some kind ∧ store.nextKey ≤ key.val ∧
    node = { Node.new key kind with id := some row.1, attributes := row.2.attributes }

/-! ## Handing out -/

theorem materialize_cons_eq_ok_iff {store after : Store} {id : String} {stored : StoredNode}
    {rows : List (String × StoredNode)} {nodes : List Node} :
    store.materialize ((id, stored) :: rows) = .ok (nodes, after) ↔
      ∃ kind rest, store.schema.kinds[stored.kind]? = some kind ∧
        { store with nextKey := store.nextKey + 1 }.materialize rows = .ok (rest, after) ∧
        nodes = { Node.new ⟨store.nextKey⟩ kind with id := some id, attributes := stored.attributes } :: rest := by
  simp only [materialize, bind_eq_ok_iff, Schema.kind_eq_ok_iff]
  constructor
  · rintro ⟨kind, hk, ⟨rest, after'⟩, hr, h⟩
    obtain ⟨rfl, rfl⟩ := Prod.mk.inj (Except.ok.inj h)
    exact ⟨kind, rest, hk, hr, rfl⟩
  · rintro ⟨kind, rest, hk, hr, rfl⟩
    exact ⟨kind, hk, (rest, after), hr, rfl⟩

/-- Handing out changes only which keys were issued, and gives one node for each row, in order. -/
theorem materialize_eq_ok {store after : Store} {rows : List (String × StoredNode)} {nodes : List Node}
    (h : store.materialize rows = .ok (nodes, after)) :
    after = { store with nextKey := store.nextKey + rows.length } ∧
      nodes.map Node.id = rows.map (fun row => some row.1) ∧ ∀ node ∈ nodes, ∃ row ∈ rows, store.HandedOut row node := by
  induction rows generalizing store nodes with
  | nil =>
    obtain ⟨rfl, rfl⟩ := Prod.mk.inj (Except.ok.inj h)
    simp
  | cons row rows ih =>
    obtain ⟨id, stored⟩ := row
    obtain ⟨kind, rest, hk, hr, rfl⟩ := materialize_cons_eq_ok_iff.mp h
    obtain ⟨rfl, hids, hall⟩ := ih hr
    refine ⟨?_, by simp [hids], ?_⟩
    · simp only [List.length_cons, Store.mk.injEq, true_and]
      omega
    · intro node hn
      rcases List.mem_cons.mp hn with rfl | hn
      · exact ⟨(id, stored), List.mem_cons_self, kind, ⟨store.nextKey⟩, hk, Nat.le_refl _, rfl⟩
      · obtain ⟨row, hrow, kind', key, hk', hle, rfl⟩ := hall node hn
        exact ⟨row, List.mem_cons_of_mem _ hrow, kind', key, hk', Nat.le_of_succ_le hle, rfl⟩

/-- The keys of the nodes handed out are issued one after the other. -/
theorem materialize_keys {store after : Store} {rows : List (String × StoredNode)} {nodes : List Node}
    (h : store.materialize rows = .ok (nodes, after)) :
    nodes.map Node.key = (List.range' store.nextKey rows.length).map NodeKey.mk := by
  induction rows generalizing store nodes with
  | nil =>
    obtain ⟨rfl, rfl⟩ := Prod.mk.inj (Except.ok.inj h)
    rfl
  | cons row rows ih =>
    obtain ⟨kind, rest, _, hr, rfl⟩ := materialize_cons_eq_ok_iff.mp h
    rw [List.map_cons, ih hr, List.length_cons, List.range'_succ, List.map_cons]
    rfl

/-- The nodes handed out are under different keys, none of which was issued before. -/
theorem materialize_new {store after : Store} {rows : List (String × StoredNode)} {nodes : List Node}
    (h : store.materialize rows = .ok (nodes, after)) : (nodes.map Node.key).Nodup ∧
      ∀ node ∈ nodes, store.nextKey ≤ node.key.val ∧ node.key.val < store.nextKey + rows.length := by
  have hkeys := materialize_keys h
  refine ⟨?_, fun node hn => ?_⟩
  · rw [hkeys]
    exact List.Nodup.map (fun a b hab => NodeKey.mk.inj hab) List.nodup_range'
  · obtain ⟨n, hmem, hkey⟩ := List.mem_map.mp (hkeys ▸ List.mem_map_of_mem (f := Node.key) hn)
    rw [← hkey]
    exact List.mem_range'_1.mp hmem

/-- Stored nodes of kinds of the schema can be handed out, and are shown as stored. -/
theorem exists_materialize (store : Store) (hschema : store.schema.WellFormed) {rows : List (String × StoredNode)}
    (h : ∀ row ∈ rows, ∃ kind, store.schema.kinds[row.2.kind]? = some kind) :
    ∃ nodes, store.materialize rows = .ok (nodes, { store with nextKey := store.nextKey + rows.length }) ∧
      nodes.map shown = rows.map fun row => (some row.1, row.2.kind, row.2.attributes) := by
  induction rows generalizing store with
  | nil => exact ⟨[], rfl, rfl⟩
  | cons row rows ih =>
    obtain ⟨id, stored⟩ := row
    obtain ⟨kind, hk⟩ := h _ List.mem_cons_self
    obtain ⟨rest, hr, hshown⟩ := ih { store with nextKey := store.nextKey + 1 } hschema
      (fun row hrow => h row (List.mem_cons_of_mem _ hrow))
    refine ⟨_, materialize_cons_eq_ok_iff.mpr ⟨kind, rest, hk, ?_, rfl⟩, ?_⟩
    · rw [hr]
      simp only [List.length_cons, Except.ok.injEq, Prod.mk.injEq, Store.mk.injEq, true_and]
      omega
    · simp only [List.map_cons, hshown, shown, Node.new, hschema.name hk]

/-! ## Remembering -/

theorem remember_eq (store : Store) (nodes : List Node) :
    ∃ known, store.remember nodes = { store with known := known } ∧
      ∀ (key : NodeKey) (id : String), known[key]? = some id →
        store.known[key]? = some id ∨ ∃ node ∈ nodes, node.id = some id := by
  refine ⟨_, rfl, ?_⟩
  generalize store.known = known
  induction nodes generalizing known with
  | nil => exact fun key id h => Or.inl h
  | cons node nodes ih =>
    intro key id h
    rcases ih _ key id h with h | ⟨other, ho, hid⟩
    · cases hn : node.id with
      | none =>
        simp only [hn] at h
        exact Or.inl h
      | some given =>
        simp only [hn, Std.ExtTreeMap.getElem?_insert] at h
        split at h
        · exact Or.inr ⟨node, List.mem_cons_self, hn.trans h⟩
        · exact Or.inl h
    · exact Or.inr ⟨other, List.mem_cons_of_mem _ ho, hid⟩

/-- What a request that reads may change: keys are issued, and ids of stored nodes are remembered. -/
structure ReadsOnly (store after : Store) : Prop where
  schema : after.schema = store.schema
  graph : after.graph = store.graph
  known : ∀ (key : NodeKey) (id : String), after.known[key]? = some id →
    store.known[key]? = some id ∨ ∃ stored, store.graph.nodes[id]? = some stored

theorem ReadsOnly.refl (store : Store) : store.ReadsOnly store := ⟨rfl, rfl, fun _ _ h => Or.inl h⟩

/-- Issuing keys and remembering nodes that have ids of stored nodes only reads. -/
theorem readsOnly_remember {store : Store} {nodes : List Node} (n : Nat)
    (h : ∀ node ∈ nodes, ∀ id, node.id = some id → ∃ stored, store.graph.nodes[id]? = some stored) :
    store.ReadsOnly ({ store with nextKey := n }.remember nodes) := by
  obtain ⟨known, hr, hknown⟩ := remember_eq { store with nextKey := n } nodes
  rw [hr]
  refine ⟨rfl, rfl, fun key id hid => ?_⟩
  rcases hknown key id hid with hid | ⟨node, hn, hid⟩
  · exact Or.inl hid
  · exact Or.inr (h node hn id hid)

theorem HandedOut.id_eq {store : Store} {row : String × StoredNode} {node : Node} (h : store.HandedOut row node) :
    node.id = some row.1 := by
  obtain ⟨_, _, _, _, rfl⟩ := h
  rfl

theorem mem_keys_iff {nodes : List Node} {key : NodeKey} :
    key ∈ Std.ExtTreeSet.ofList (nodes.map Node.key) compare ↔ ∃ node ∈ nodes, node.key = key := by
  rw [Std.ExtTreeSet.mem_ofList, List.contains_iff_mem, List.mem_map]

/-! ## Requests -/

theorem query_eq_ok_iff {store after : Store} {kind : String} {subject : Variable} {condition : Condition}
    {nodes : List Node} : store.query kind subject condition = .ok (nodes, after) ↔
      (∃ k, store.schema.kinds[kind]? = some k) ∧ ∃ read, store.materialize (store.graph.nodes.toList.filter fun row =>
        row.2.kind == kind && store.graph.satisfies subject row.1 condition) = .ok (nodes, read) ∧
        after = read.remember nodes := by
  simp only [query, bind_eq_ok_iff, StoreError.liftSchema_eq_ok_iff, Schema.kind_eq_ok_iff, ← exists_and_right]
  refine exists_congr fun k => and_congr_right fun _ => ?_
  constructor
  · rintro ⟨⟨found, read⟩, hm, h⟩
    obtain ⟨rfl, rfl⟩ := Prod.mk.inj (Except.ok.inj h)
    exact ⟨read, hm, rfl⟩
  · rintro ⟨read, hm, rfl⟩
    exact ⟨(nodes, read), hm, rfl⟩

theorem query_readsOnly {store after : Store} {kind : String} {subject : Variable} {condition : Condition}
    {nodes : List Node} (h : store.query kind subject condition = .ok (nodes, after)) : store.ReadsOnly after := by
  obtain ⟨_, read, hm, rfl⟩ := query_eq_ok_iff.mp h
  obtain ⟨rfl, _, hall⟩ := materialize_eq_ok hm
  refine readsOnly_remember _ fun node hn id hid => ?_
  obtain ⟨row, hrow, hout⟩ := hall node hn
  obtain rfl := Option.some.inj (hout.id_eq.symm.trans hid)
  exact ⟨row.2, Std.ExtTreeMap.mem_toList_iff_getElem?_eq_some.mp (List.mem_filter.mp hrow).1⟩

theorem get_readsOnly {store after : Store} {kind id : String} {node? : Option Node}
    (h : store.get kind id = .ok (node?, after)) : store.ReadsOnly after := by
  unfold Store.get at h
  split at h
  · obtain ⟨_, rfl⟩ := Prod.mk.inj (Except.ok.inj h)
    exact ReadsOnly.refl store
  · next stored hs =>
    split at h
    · exact absurd h throw_ne_ok
    · simp only [bind_eq_ok_iff, StoreError.liftSchema_eq_ok_iff] at h
      obtain ⟨⟨nodes, read⟩, hm, h⟩ := h
      obtain ⟨_, rfl⟩ := Prod.mk.inj (Except.ok.inj h)
      obtain ⟨rfl, _, hall⟩ := materialize_eq_ok hm
      refine readsOnly_remember _ fun node hn other hid => ?_
      obtain ⟨row, hrow, hout⟩ := hall node hn
      obtain rfl := Option.some.inj (hout.id_eq.symm.trans hid)
      rw [List.mem_singleton.mp hrow]
      exact ⟨stored, hs⟩

/-- The related rows are the neighbours that are stored as nodes of the related kind. -/
theorem mem_relatedRows_iff {store : Store} {r : Relationship} {id : String} {row : String × StoredNode} :
    row ∈ store.relatedRows r id ↔ row.1 ∈ store.graph.neighbors id r.label r.direction ∧
      store.graph.nodes[row.1]? = some row.2 ∧ row.2.kind = r.relatedKind := by
  simp only [relatedRows, List.mem_filterMap]
  constructor
  · rintro ⟨other, ho, h⟩
    split at h
    · next stored hs =>
      split at h
      · next hk =>
        obtain rfl := Option.some.inj h
        exact ⟨ho, hs, hk⟩
      · cases h
    · cases h
  · rintro ⟨ho, hs, hk⟩
    exact ⟨row.1, ho, by simp [hs, hk]⟩

/-- A relationship is fetched with nodes handed out for its related rows; there are none for a node that was never saved. -/
theorem fetch_eq_ok {store after : Store} {node : Node} {field : String} {r : Relationship} {related : List Node}
    (h : store.fetch node field = .ok (r, related, after)) :
    store.schema.relationship node.kind field = .ok r ∧ ∃ rows, store.materialize rows = .ok (related, after) ∧
      (node.id = none ∧ rows = [] ∨
        ∃ id stored, node.id = some id ∧ store.graph.nodes[id]? = some stored ∧ rows = store.relatedRows r id) := by
  simp only [fetch, bind_eq_ok_iff, StoreError.liftSchema_eq_ok_iff] at h
  obtain ⟨found, hr, h⟩ := h
  cases hid : node.id with
  | none =>
    simp only [hid, pure, Except.pure, Except.ok.injEq, bind_eq_ok_iff, StoreError.liftSchema_eq_ok_iff, exists_eq_left'] at h
    obtain ⟨⟨nodes, read⟩, hm, h⟩ := h
    simp only [Prod.mk.injEq] at h
    obtain ⟨rfl, rfl, rfl⟩ := h
    exact ⟨hr, [], hm, Or.inl ⟨rfl, rfl⟩⟩
  | some id =>
    simp only [hid] at h
    split at h
    · obtain ⟨_, h, _⟩ := bind_eq_ok_iff.mp h
      exact absurd h throw_ne_ok
    · next hc =>
      simp only [pure, Except.pure, Except.ok.injEq, bind_eq_ok_iff, StoreError.liftSchema_eq_ok_iff, exists_eq_left'] at h
      obtain ⟨⟨nodes, read⟩, hm, h⟩ := h
      simp only [Prod.mk.injEq] at h
      obtain ⟨rfl, rfl, rfl⟩ := h
      rw [Bool.not_eq_true', Bool.not_eq_false, Std.ExtTreeMap.contains_iff_mem, Std.ExtTreeMap.mem_iff_isSome_getElem?] at hc
      obtain ⟨stored, hs⟩ := Option.isSome_iff_exists.mp hc
      exact ⟨hr, _, hm, Or.inr ⟨id, stored, rfl, hs, rfl⟩⟩

/-- What is noted at the loaded node and at the related ones does not show. -/
theorem register_shown {r : Relationship} {node node' : Node} {related related' : List Node}
    (h : r.register (node, related) = ((node', related'), none)) :
    shown node' = shown node ∧ related'.map shown = related.map shown := by
  obtain ⟨hnode, hrelated⟩ := Relationship.register_eq_none_iff.mp h
  obtain ⟨_, _, rfl⟩ := Node.edit_eq_none_iff.mp hnode
  refine ⟨rfl, ?_⟩
  split at hrelated
  · rw [hrelated]
  · next field _ =>
    have hshown : ∀ a b : Node, Node.edit field (·.loadOne node.key) a = (b, none) → shown b = shown a := by
      intro a b he
      obtain ⟨_, _, rfl⟩ := Node.edit_eq_none_iff.mp he
      rfl
    exact map_eq_of_forall₂ hrelated hshown

/-- Loading changes of the store what reading may change, also when it fails. -/
theorem load_readsOnly (store : Store) (node : Node) (field : String) : store.ReadsOnly (store.load node field).1.1 := by
  rw [load]
  cases hf : store.fetch node field with
  | error e => exact ReadsOnly.refl store
  | ok result =>
    obtain ⟨r, related, after⟩ := result
    obtain ⟨_, rows, hm, hrows⟩ := fetch_eq_ok hf
    obtain ⟨rfl, hids, _⟩ := materialize_eq_ok hm
    dsimp only
    split
    · exact ⟨rfl, rfl, fun _ _ h => Or.inl h⟩
    · next node' related' hreg =>
      obtain ⟨hnode, hrelated⟩ := register_shown hreg
      have hnode : node'.id = node.id := congrArg Prod.fst hnode
      refine readsOnly_remember _ fun other ho id hid => ?_
      rcases List.mem_cons.mp ho with rfl | ho
      · rcases hrows with ⟨hnone, _⟩ | ⟨given, stored, hgiven, hs, _⟩
        · rw [hnode, hnone] at hid
          cases hid
        · rw [hnode, hgiven] at hid
          obtain rfl := Option.some.inj hid
          exact ⟨stored, hs⟩
      · have hmem : some id ∈ rows.map fun row => some row.1 := by
          obtain ⟨read, hread, hsame⟩ := List.mem_map.mp (hrelated ▸ List.mem_map_of_mem (f := shown) ho)
          rw [← hids, ← hid, ← show read.id = other.id from congrArg Prod.fst hsame]
          exact List.mem_map_of_mem hread
        obtain ⟨row, hrow, hrid⟩ := List.mem_map.mp hmem
        rcases hrows with ⟨_, rfl⟩ | ⟨_, _, _, _, rfl⟩
        · cases hrow
        · obtain ⟨_, hs, _⟩ := mem_relatedRows_iff.mp hrow
          rw [Option.some.inj hrid] at hs
          exact ⟨row.2, hs⟩

/-! ## Loading succeeds -/

/-- A relationship of a kind is found by its field. -/
theorem relationship_of_mem {schema : Schema} (hs : schema.WellFormed) {name : String} {kind : EntityKind}
    (hk : schema.kinds[name]? = some kind) {r : Relationship} (hr : r ∈ kind.relationships) :
    schema.relationship name r.field = .ok r := by
  refine relationship_eq_ok_iff.mpr ⟨kind, hk, ?_⟩
  cases hf : kind.relationship? r.field with
  | none => simpa using List.find?_eq_none.mp hf r hr
  | some found =>
    have hfield : found.field = r.field := by simpa using List.find?_some hf
    rw [List.inj_on_of_nodup_map (hs.relationshipFields hk) (List.mem_of_find?_eq_some hf) hr hfield]

/-- A new node knows nothing of the relationships of its kind. -/
theorem related_new (key : NodeKey) {kind : EntityKind} (hn : (kind.relationships.map Relationship.field).Nodup)
    {r : Relationship} (hr : r ∈ kind.relationships) :
    (Node.new key kind).related[r.field]? = some (.empty r.field r.cardinality) := by
  obtain ⟨last, hl⟩ := lastWith_isSome Relationship.field hr
  rw [Node.new, Std.ExtTreeMap.ofList_eq_foldl, List.foldl_map, getElem?_foldl_insert, hl]
  obtain ⟨hlast, hfield⟩ := lastWith_some hl
  rw [List.inj_on_of_nodup_map hn hlast hr hfield]
  rfl

theorem exists_edit {field : String} (f : RelatedSet → RelatedSet) {node : Node} {s : RelatedSet}
    (h : node.related[field]? = some s) : ∃ node', Node.edit field f node = (node', none) :=
  ⟨_, Node.edit_eq_none_iff.mpr ⟨s, h, rfl⟩⟩

section

variable {store : Store} {node : Node} {id : String} {kind : EntityKind} {r : Relationship}

/-- Fetching a relationship for a node that is stored makes nodes in memory for the related rows. -/
theorem exists_fetch (hs : store.schema.WellFormed) (hid : node.id = some id) {stored : StoredNode}
    (hstored : store.graph.nodes[id]? = some stored) (hk : store.schema.kinds[node.kind]? = some kind)
    (hr : r ∈ kind.relationships) :
    ∃ related after, store.materialize (store.relatedRows r id) = .ok (related, after) ∧
      store.fetch node r.field = .ok (r, related, after) ∧
      related.map shown = (store.relatedRows r id).map fun row => (some row.1, row.2.kind, row.2.attributes) := by
  obtain ⟨other, hother, _⟩ := hs.related hk r hr
  have hkinds : ∀ row ∈ store.relatedRows r id, ∃ kind, store.schema.kinds[row.2.kind]? = some kind := by
    intro row hrow
    rw [(mem_relatedRows_iff.mp hrow).2.2]
    exact ⟨other, hother⟩
  obtain ⟨related, hm, hshown⟩ := exists_materialize store hs hkinds
  refine ⟨related, _, hm, ?_, hshown⟩
  have hcontains : store.graph.nodes.contains id = true := by
    rw [Std.ExtTreeMap.contains_iff_mem, Std.ExtTreeMap.mem_iff_isSome_getElem?, hstored]
    rfl
  rw [fetch, relationship_of_mem hs hk hr, hid]
  simp only [hcontains]
  change (liftM (store.materialize (store.relatedRows r id)) >>= fun x => pure (r, x.1, x.2) : Except StoreError _) = _
  rw [hm]
  rfl

/-- Nodes that were made in memory for stored nodes of the related kind can be noted at a node with the field. -/
theorem exists_register (hs : store.schema.WellFormed) (hk : store.schema.kinds[node.kind]? = some kind)
    (hr : r ∈ kind.relationships) {s : RelatedSet} (hset : node.related[r.field]? = some s) {rows : List (String × StoredNode)}
    (hrows : ∀ row ∈ rows, row.2.kind = r.relatedKind) {related : List Node} {after : Store}
    (hm : store.materialize rows = .ok (related, after)) :
    ∃ node' related', r.register (node, related) = ((node', related'), none) := by
  obtain ⟨other, hother, hmirror⟩ := hs.related hk r hr
  obtain ⟨node', hnode'⟩ := exists_edit (·.load (.ofList (related.map Node.key) compare)) hset
  refine ⟨node', ?_⟩
  simp only [Relationship.register_eq_none_iff, hnode', true_and]
  cases hm' : r.mirror with
  | none => exact ⟨related, rfl⟩
  | some field =>
    -- The related nodes are new nodes of the related kind, which has the mirror field.
    obtain ⟨m, hmem, _, _, rfl⟩ := (hmirror field).mp hm'
    refine exists_forall₂ fun a ha => ?_
    obtain ⟨row, hrow, k, key, hk', _, rfl⟩ := (materialize_eq_ok hm).2.2 a ha
    rw [hrows row hrow, hother] at hk'
    obtain rfl := Option.some.inj hk'
    exact exists_edit (·.loadOne node.key) (related_new key (hs.relationshipFields hother) hmem)

/-- The relationship of a stored node can be loaded by every node in memory that has its id and the field, and the nodes loaded
are shown as the related rows. -/
theorem exists_load (hs : store.schema.WellFormed) (hid : node.id = some id) {stored : StoredNode}
    (hstored : store.graph.nodes[id]? = some stored) (hk : store.schema.kinds[node.kind]? = some kind)
    (hr : r ∈ kind.relationships) {s : RelatedSet} (hset : node.related[r.field]? = some s) :
    ∃ related, (store.load node r.field).2 = .ok related ∧
      related.map shown = (store.relatedRows r id).map fun row => (some row.1, row.2.kind, row.2.attributes) := by
  obtain ⟨related, after, hm, hfetch, hshown⟩ := exists_fetch hs hid hstored hk hr
  obtain ⟨node', related', hregister⟩ := exists_register hs hk hr hset (fun row hrow => (mem_relatedRows_iff.mp hrow).2.2) hm
  refine ⟨related', ?_, (register_shown hregister).2.trans hshown⟩
  rw [load, hfetch]
  simp only [hregister]

end

end Store

end EntityGraph
